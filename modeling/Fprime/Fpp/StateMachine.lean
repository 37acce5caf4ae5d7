import Fprime.Lib.Worklist

/-!
# Checking a state machine definition

The analysis of an internal state machine: states and choices are numbered in the order of their
definitions, names are resolved from the innermost state outwards, and the definition is checked.
Types, which are checked last, are left out. Loops go round as often as `fuel` allows.
-/

namespace Fprime.Fpp

structure QualIdent where
  first : String
  rest : List String

structure TransitionExpr where
  actions : List String
  target : QualIdent

inductive TransitionOrDo where
  | transition (t : TransitionExpr)
  | actions (actions : List String)

structure DefChoice where
  name : String
  guard : String
  ifTransition : TransitionExpr
  elseTransition : TransitionExpr

inductive StateMember where
  | defState (name : String) (members : List StateMember)
  | defChoice (choice : DefChoice)
  | specInitialTransition (t : TransitionExpr)
  | specStateEntry (actions : List String)
  | specStateExit (actions : List String)
  | specStateTransition (signal : String) (guard : Option String) (transition : TransitionOrDo)

inductive StateMachineMember where
  | defAction (name : String)
  | defGuard (name : String)
  | defSignal (name : String)
  | defState (name : String) (members : List StateMember)
  | defChoice (choice : DefChoice)
  | specInitialTransition (t : TransitionExpr)

inductive SmTarget where
  | state (i : Nat)
  | choice (c : Nat)
  deriving DecidableEq

structure SmTransition where
  actions : List String
  target : SmTarget

/-- What a state does on a signal; without a target it stays as it is. -/
structure SmStateTransition where
  signal : String
  guard : Option String
  actions : List String
  target : Option SmTarget

structure SmState where
  path : List String
  parent : Option Nat
  substates : List Nat
  initial : Option SmTransition
  entry : List String
  exit : List String
  transitions : List SmStateTransition

def SmState.isLeaf (s : SmState) : Bool :=
  s.substates.isEmpty

structure SmChoice where
  path : List String
  parent : Option Nat
  guard : String
  ifTransition : SmTransition
  elseTransition : SmTransition

structure StateMachineModel where
  actions : List String
  guards : List String
  signals : List String
  initial : SmTransition
  states : List SmState
  choices : List SmChoice

inductive Diagnostic where
  | redefinition (kind name : String)
  | redefinitionOfStateOrChoice (name : String)
  | undefinedStateOrChoice (name : String)
  | choiceIsNotAScope (name : String)
  | undefinedInState (name : String) (path : List String)
  | undefined (kind name : String)
  | duplicateUseOfSignal (signal state : String)
  | noInitialTransition
  | manyInitialTransitions (count : Nat)
  | stateWithoutInitialTransition
  | stateWithManyInitialTransitions (count : Nat)
  | initialTransitionLeavesState
  | initialTransitionGoesToSubstate
  | stateUnreachable (path : List String)
  | choiceUnreachable (path : List String)
  | choiceCycle (paths : List (List String))
  /-- The rounds of a loop have not been enough. -/
  | unfinished

structure Builder where
  actions : List String
  guards : List String
  signals : List String
  states : List SmState
  choices : List SmChoice
  stateNodes : List (String × List StateMember)
  choiceNodes : List DefChoice
  scope : List ((Option Nat × String) × SmTarget)

namespace Builder

def new : Builder :=
  ⟨[], [], [], [], [], [], [], []⟩

def enterTyped (list : List String) (kind name : String) : Except Diagnostic (List String) :=
  if name ∈ list then .error (.redefinition kind name) else .ok (list ++ [name])

variable (b : Builder)

def lookup (scope : Option Nat) (name : String) : Option SmTarget :=
  (b.scope.find? fun e => e.1 = (scope, name)).map Prod.snd

def enterName (scope : Option Nat) (name : String) (t : SmTarget) :
    Except Diagnostic Builder :=
  match b.lookup scope name with
  | some _ => .error (.redefinitionOfStateOrChoice name)
  | none => .ok { b with scope := ((scope, name), t) :: b.scope }

/-- A new state, and its number among those of its parent. -/
def pushState (name : String) (members : List StateMember) (parent : Option Nat)
    (outer : List String) : Builder :=
  { b with
    states := (match parent with
      | none => b.states
      | some p => b.states.modify p fun s =>
          { s with substates := s.substates ++ [b.states.length] }) ++
      [⟨outer ++ [name], parent, [], none, [], [], []⟩]
    stateNodes := b.stateNodes ++ [(name, members)] }

/-- The guard and the transitions are put in later. -/
def pushChoice (choice : DefChoice) (parent : Option Nat) (outer : List String) :
    Builder :=
  { b with
    choices := b.choices ++ [⟨outer ++ [choice.name], parent, "",
      ⟨[], .choice b.choices.length⟩, ⟨[], .choice b.choices.length⟩⟩]
    choiceNodes := b.choiceNodes ++ [choice] }

def enterChoice (choice : DefChoice) (parent : Option Nat) (outer : List String) :
    Except Diagnostic Builder :=
  (b.enterName parent choice.name (.choice b.choices.length)).map
    fun b => b.pushChoice choice parent outer

def openState (name : String) (members : List StateMember) (parent : Option Nat)
    (outer : List String) : Except Diagnostic Builder :=
  (b.enterName parent name (.state b.states.length)).map
    fun b => b.pushState name members parent outer

mutual

def enterMembers (b : Builder) (idx : Nat) (path : List String) :
    List StateMember → Except Diagnostic Builder
  | [] => .ok b
  | member :: rest =>
    match enterMember b idx path member with
    | .error e => .error e
    | .ok b => enterMembers b idx path rest

def enterMember (b : Builder) (idx : Nat) (path : List String) :
    StateMember → Except Diagnostic Builder
  | .defState name members =>
    match b.openState name members (some idx) path with
    | .error e => .error e
    | .ok b' => enterMembers b' b.states.length (path ++ [name]) members
  | .defChoice choice => b.enterChoice choice (some idx) path
  | .specInitialTransition _ => .ok b
  | .specStateEntry _ => .ok b
  | .specStateExit _ => .ok b
  | .specStateTransition _ _ _ => .ok b

end

def enterState (name : String) (members : List StateMember) :
    Except Diagnostic Builder :=
  match b.openState name members none [] with
  | .error e => .error e
  | .ok b' => b'.enterMembers b.states.length [name] members

def enterTop : StateMachineMember → Except Diagnostic Builder
  | .defAction name => (enterTyped b.actions "action" name).map fun l => { b with actions := l }
  | .defGuard name => (enterTyped b.guards "guard" name).map fun l => { b with guards := l }
  | .defSignal name => (enterTyped b.signals "signal" name).map fun l => { b with signals := l }
  | .defState name members => b.enterState name members
  | .defChoice choice => b.enterChoice choice none []
  | .specInitialTransition _ => .ok b

/-- The name as seen from a state, from the inside out. -/
def resolveFirst (b : Builder) (name : String) : Nat → Option Nat → Except Diagnostic SmTarget
  | 0, _ => .error .unfinished
  | fuel + 1, scope =>
    match b.lookup scope name with
    | some t => .ok t
    | none =>
      match scope with
      | some s => resolveFirst b name fuel (b.states[s]?.bind SmState.parent)
      | none => .error (.undefinedStateOrChoice name)

def selectPart (t : SmTarget) (part : String) : Except Diagnostic SmTarget :=
  match t with
  | .choice _ => .error (.choiceIsNotAScope part)
  | .state s =>
    match b.lookup (some s) part with
    | some t => .ok t
    | none => .error (.undefinedInState part ((b.states[s]?.map SmState.path).getD []))

def resolveTarget (fuel : Nat) (qi : QualIdent) (scope : Option Nat) :
    Except Diagnostic SmTarget :=
  match b.resolveFirst qi.first fuel scope with
  | .error e => .error e
  | .ok t => qi.rest.foldlM b.selectPart t

def checkUse (list : List String) (kind name : String) : Except Diagnostic String :=
  if name ∈ list then .ok name else .error (.undefined kind name)

def checkActions (list : List String) : Except Diagnostic (List String) :=
  list.mapM (checkUse b.actions "action")

def transition (fuel : Nat) (t : TransitionExpr) (scope : Option Nat) :
    Except Diagnostic SmTransition := do
  let actions ← b.checkActions t.actions
  let target ← b.resolveTarget fuel t.target scope
  return ⟨actions, target⟩

def parentOf : SmTarget → Option Nat
  | .state s => b.states[s]?.bind SmState.parent
  | .choice c => b.choices[c]?.bind SmChoice.parent

def choiceTargets (fuel : Nat) (c : Nat) : Except Diagnostic (List SmTarget) :=
  match b.choiceNodes[c]? with
  | none => .ok []
  | some n => do
    let ifTarget ← b.resolveTarget fuel n.ifTransition.target (b.parentOf (.choice c))
    let elseTarget ← b.resolveTarget fuel n.elseTransition.target (b.parentOf (.choice c))
    return [ifTarget, elseTarget]

/-- A state or choice on the way of an initial transition has to be defined in its state. -/
def lookInitial (fuel : Nat) (parent : Option Nat) (t : SmTarget) :
    Except Diagnostic (List SmTarget) :=
  if b.parentOf t ≠ parent then
    .error (match parent with
      | some _ => .initialTransitionLeavesState
      | none => .initialTransitionGoesToSubstate)
  else
    match t with
    | .choice c => b.choiceTargets fuel c
    | .state _ => .ok []

def finished {α : Type} : Option α → Except Diagnostic α
  | some a => .ok a
  | none => .error .unfinished

def checkInitialDest (fuel : Nat) (dest : SmTarget) (parent : Option Nat) :
    Except Diagnostic Unit := do
  let found ← Lib.Worklist.explore (b.lookInitial fuel parent) fuel [] [dest]
  let _ ← finished found

structure StateParts where
  initials : List SmTransition
  entry : List String
  exit : List String
  transitions : List SmStateTransition

/-- A state has one transition for a signal. -/
def checkSignal (name : String) (parts : StateParts) (signal : String) :
    Except Diagnostic String :=
  match checkUse b.signals "signal" signal with
  | .error e => .error e
  | .ok signal =>
    if parts.transitions.any fun t => t.signal = signal then
      .error (.duplicateUseOfSignal signal name)
    else .ok signal

def checkGuard : Option String → Except Diagnostic (Option String)
  | some g => (checkUse b.guards "guard" g).map some
  | none => .ok none

def resolveBody (fuel idx : Nat) :
    TransitionOrDo → Except Diagnostic (List String × Option SmTarget)
  | .transition t => (b.transition fuel t (some idx)).map fun t => (t.actions, some t.target)
  | .actions actions => (b.checkActions actions).map fun actions => (actions, none)

def resolveMember (fuel : Nat) (idx : Nat) (name : String) (parts : StateParts) :
    StateMember → Except Diagnostic StateParts
  | .specInitialTransition t => do
    let t ← b.transition fuel t (some idx)
    return { parts with initials := parts.initials ++ [t] }
  | .specStateEntry actions => do
    let actions ← b.checkActions actions
    return { parts with entry := parts.entry ++ actions }
  | .specStateExit actions => do
    let actions ← b.checkActions actions
    return { parts with exit := parts.exit ++ actions }
  | .specStateTransition signal guard body => do
    let signal ← b.checkSignal name parts signal
    let guard ← b.checkGuard guard
    let (actions, target) ← b.resolveBody fuel idx body
    return { parts with transitions := parts.transitions ++ [⟨signal, guard, actions, target⟩] }
  | .defState _ _ => .ok parts
  | .defChoice _ => .ok parts

/-- A state has at most one initial transition, and one with substates has one. -/
def stateInitial (fuel : Nat) (idx : Nat) (leaf : Bool) :
    List SmTransition → Except Diagnostic (Option SmTransition)
  | [] => if leaf then .ok none else .error .stateWithoutInitialTransition
  | [t] => do
    b.checkInitialDest fuel t.target (some idx)
    return some t
  | more => .error (.stateWithManyInitialTransitions more.length)

def resolveState (fuel : Nat) (b : Builder) (idx : Nat) : Except Diagnostic Builder :=
  match b.stateNodes[idx]?, b.states[idx]? with
  | some (name, members), some state => do
    let parts ← members.foldlM (b.resolveMember fuel idx name) ⟨[], [], [], []⟩
    let initial ← b.stateInitial fuel idx state.isLeaf parts.initials
    return { b with states := b.states.modify idx fun s =>
      { s with
        initial := initial
        entry := parts.entry
        exit := parts.exit
        transitions := parts.transitions } }
  | _, _ => .ok b

def resolveChoice (fuel : Nat) (b : Builder) (idx : Nat) : Except Diagnostic Builder :=
  match b.choiceNodes[idx]? with
  | none => .ok b
  | some n => do
    let guard ← checkUse b.guards "guard" n.guard
    let ifTransition ← b.transition fuel n.ifTransition (b.parentOf (.choice idx))
    let elseTransition ← b.transition fuel n.elseTransition (b.parentOf (.choice idx))
    return { b with choices := b.choices.modify idx fun c =>
      { c with
        guard := guard
        ifTransition := ifTransition
        elseTransition := elseTransition } }

def arcs : SmTarget → List SmTarget
  | .state s =>
    match b.states[s]? with
    | some st => (st.initial.map SmTransition.target).toList ++
        st.transitions.filterMap SmStateTransition.target
    | none => []
  | .choice c =>
    match b.choices[c]? with
    | some ch => [ch.ifTransition.target, ch.elseTransition.target]
    | none => []

def checkReachability (fuel : Nat) (initial : SmTarget) :
    Except Diagnostic Unit := do
  let found ← Lib.Worklist.explore (fun t => .ok (b.arcs t)) fuel [] [initial]
  let visited ← finished found
  match (List.range b.states.length).find? fun i => SmTarget.state i ∉ visited with
  | some i => throw (.stateUnreachable ((b.states[i]?.map SmState.path).getD []))
  | none => pure ()
  match (List.range b.choices.length).find? fun c => SmTarget.choice c ∉ visited with
  | some c => throw (.choiceUnreachable ((b.choices[c]?.map SmChoice.path).getD []))
  | none => pure ()

def nextChoices (c : Nat) : List Nat :=
  (b.arcs (.choice c)).filterMap fun
    | .choice next => some next
    | .state _ => none

def visitChoice (b : Builder) : Nat → List Nat → Nat → Except Diagnostic Unit
  | 0, _, _ => .error .unfinished
  | fuel + 1, path, c =>
    if c ∈ path then
      .error (.choiceCycle ((path ++ [c]).map fun i => (b.choices[i]?.map SmChoice.path).getD []))
    else (b.nextChoices c).forM (visitChoice b fuel (path ++ [c]))

def checkChoiceCycles (fuel : Nat) : Except Diagnostic Unit :=
  (List.range b.choices.length).forM (b.visitChoice fuel [])

end Builder

def initialTransitions (members : List StateMachineMember) : List TransitionExpr :=
  members.filterMap fun
    | .specInitialTransition t => some t
    | _ => none

def machineInitial (b : Builder) (fuel : Nat) :
    List TransitionExpr → Except Diagnostic SmTransition
  | [] => .error .noInitialTransition
  | [t] => b.transition fuel t none
  | more => .error (.manyInitialTransitions more.length)

def resolveStateMachine (fuel : Nat) (members : List StateMachineMember) :
    Except Diagnostic StateMachineModel := do
  let b ← members.foldlM Builder.enterTop Builder.new
  let initial ← machineInitial b fuel (initialTransitions members)
  b.checkInitialDest fuel initial.target none
  let b ← (List.range b.states.length).foldlM (Builder.resolveState fuel) b
  let b ← (List.range b.choices.length).foldlM (Builder.resolveChoice fuel) b
  b.checkReachability fuel initial.target
  b.checkChoiceCycles fuel
  return ⟨b.actions, b.guards, b.signals, initial, b.states, b.choices⟩

end Fprime.Fpp
