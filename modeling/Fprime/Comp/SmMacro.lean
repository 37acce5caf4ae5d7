import Fprime.Comp.Sm
import Fprime.Fpp.StateMachine

/-!
# The generated state machine

What the code generated for a checked state machine does when it is initialised and when a signal is
sent. The outcome of a guard is given by how many were asked before it.
-/

namespace Fprime.Comp

open Fpp

structure SmInstance where
  /-- The current leaf state; there is none before the initial transition. -/
  state : Option Nat
  performed : List String
  asked : Nat

namespace SmInstance

def new : SmInstance :=
  ⟨none, [], 0⟩

def perform (r : SmInstance) (actions : List String) : SmInstance :=
  { r with performed := r.performed ++ actions }

end SmInstance

namespace SmMacro

variable (m : StateMachineModel)

def parent : SmTarget → Option SmTarget
  | .state i => (m.states[i]?.bind SmState.parent).map .state
  | .choice c => (m.choices[c]?.bind SmChoice.parent).map .state

def entryActions : SmTarget → List String
  | .state i => (m.states[i]?.map SmState.entry).getD []
  | .choice _ => []

def exitActions : SmTarget → List String
  | .state i => (m.states[i]?.map SmState.exit).getD []
  | .choice _ => []

def height : Nat :=
  m.states.length + 1

/-- Exits, actions, entries, target. -/
def go (enter : SmTarget → SmInstance → Except Stop SmInstance) (cur source : SmTarget)
    (t : SmTransition) (r : SmInstance) : Except Stop SmInstance := do
  let lca ← Sm.lca (parent m) (height m) source t.target
  let exits ← Sm.forEachExit (parent m) (height m) cur lca
  let entries ← Sm.forEachEntry (parent m) (height m) lca t.target
  enter t.target (((r.perform (exits.flatMap (exitActions m))).perform t.actions).perform
    (entries.flatMap (entryActions m)))

/-- An initial transition: no exits, its actions, the states between, then its target. -/
def goInitial (enter : SmTarget → SmInstance → Except Stop SmInstance) (start : Option SmTarget)
    (t : SmTransition) (r : SmInstance) : Except Stop SmInstance := do
  let entries ← Sm.forEachEntry (parent m) (height m) start t.target
  enter t.target ((r.perform t.actions).perform (entries.flatMap (entryActions m)))

variable (guards : Nat → Bool)

/-- Enter a state or a choice, as long as not more than a number of others are entered on the
way. -/
def enter : Nat → SmTarget → SmInstance → Except Stop SmInstance
  | 0, _, _ => .error .unfinished
  | fuel + 1, .state i, r =>
    match m.states[i]? with
    | none => .error .malformed
    | some s =>
      match s.isLeaf, s.initial with
      | true, none => .ok { r.perform s.entry with state := some i }
      | false, some t => goInitial m (enter fuel) (some (.state i)) t (r.perform s.entry)
      | _, _ => .error .malformed
  | fuel + 1, .choice c, r =>
    match m.choices[c]? with
    | none => .error .malformed
    | some ch => go m (enter fuel) (.choice c) (.choice c)
        (if guards r.asked then ch.ifTransition else ch.elseTransition)
        { r with asked := r.asked + 1 }

def init (fuel : Nat) (r : SmInstance) : Except Stop SmInstance :=
  goInitial m (enter m guards fuel) none m.initial r

/-- Take a transition on a signal if its guard holds; without a target only its actions are
performed. -/
def take (fuel : Nat) (leaf source : Nat) (t : SmStateTransition) (r : SmInstance) :
    Except Stop SmInstance :=
  let holds := t.guard.isNone || guards r.asked
  let r := { r with asked := r.asked + if t.guard.isNone then 0 else 1 }
  if ¬holds then .ok r
  else
    match t.target with
    | none => .ok (r.perform t.actions)
    | some target => go m (enter m guards fuel) (.state leaf) (.state source) ⟨t.actions, target⟩ r

def handle (fuel : Nat) (signal : String) (leaf : Nat) (r : SmInstance) :
    Nat → Nat → Except Stop SmInstance
  | 0, _ => .error .unfinished
  | bound + 1, cur =>
    match m.states[cur]? with
    | none => .error .malformed
    | some s =>
      match s.transitions.find? fun t => t.signal = signal with
      | some t => take m guards fuel leaf cur t r
      | none =>
        match s.parent with
        | some p => handle fuel signal leaf r bound p
        | none => .ok r

def sendSignal (fuel : Nat) (r : SmInstance) (signal : String) : Except Stop SmInstance :=
  match r.state with
  | none => .error .assertion
  | some leaf => handle m guards fuel signal leaf r (height m) leaf

def run (fuel : Nat) (signals : List String) : Except Stop SmInstance := do
  let r ← init m guards fuel .new
  signals.foldlM (sendSignal m guards fuel) r

end SmMacro

end Fprime.Comp
