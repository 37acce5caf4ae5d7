import Fprime.Fpp.StateMachine.Entered

/-!
# What the analysis of a state machine has checked

Resolving a state or a choice leaves the hierarchy and the scopes as they are. In the end every
target is there, initial transitions stay inside and choices do not lead round.
-/

namespace Fprime.Fpp

open Lib List Runs

def SmState.frame (s : SmState) : List String × Option Nat × List Nat :=
  (s.path, s.parent, s.substates)

def SmChoice.frame (c : SmChoice) : List String × Option Nat :=
  (c.path, c.parent)

namespace Builder

structure SameFrame (b b' : Builder) : Prop where
  scope : b'.scope = b.scope
  states : b'.states.map SmState.frame = b.states.map SmState.frame
  choices : b'.choices.map SmChoice.frame = b.choices.map SmChoice.frame
  stateNodes : b'.stateNodes = b.stateNodes
  choiceNodes : b'.choiceNodes = b.choiceNodes

namespace SameFrame

variable {b b' b'' : Builder}

theorem refl (b : Builder) : SameFrame b b :=
  ⟨rfl, rfl, rfl, rfl, rfl⟩

section

variable (h : SameFrame b b')

include h

theorem trans (h' : SameFrame b' b'') : SameFrame b b'' :=
  ⟨h'.scope.trans h.scope, h'.states.trans h.states, h'.choices.trans h.choices,
    h'.stateNodes.trans h.stateNodes, h'.choiceNodes.trans h.choiceNodes⟩

theorem length_states : b'.states.length = b.states.length := by
  simpa using congrArg length h.states

theorem length_choices : b'.choices.length = b.choices.length := by
  simpa using congrArg length h.choices

theorem getElem?_states (i : Nat) :
    b'.states[i]?.map SmState.frame = b.states[i]?.map SmState.frame := by
  rw [← getElem?_map, ← getElem?_map, h.states]

theorem getElem?_choices (c : Nat) :
    b'.choices[c]?.map SmChoice.frame = b.choices[c]?.map SmChoice.frame := by
  rw [← getElem?_map, ← getElem?_map, h.choices]

theorem state {i : Nat} {s' : SmState} (hs : b'.states[i]? = some s') :
    ∃ s, b.states[i]? = some s ∧ s'.parent = s.parent ∧ s'.substates = s.substates := by
  have hframe := h.getElem?_states i
  rw [hs] at hframe
  obtain ⟨s, hs, heq⟩ := Option.map_eq_some_iff.mp hframe.symm
  refine ⟨s, hs, ?_, ?_⟩
  · exact (congrArg (fun f => f.2.1) heq).symm
  · exact (congrArg (fun f => f.2.2) heq).symm

theorem symm : SameFrame b' b :=
  ⟨h.scope.symm, h.states.symm, h.choices.symm, h.stateNodes.symm, h.choiceNodes.symm⟩

theorem stateParent (i : Nat) :
    b'.states[i]?.bind SmState.parent = b.states[i]?.bind SmState.parent := by
  have hproj : ∀ o : Option SmState,
      o.bind SmState.parent = (o.map SmState.frame).bind fun f => f.2.1 := by
    intro o
    cases o <;> rfl
  rw [hproj, hproj, h.getElem?_states i]

theorem statePath (i : Nat) :
    b'.states[i]?.map SmState.path = b.states[i]?.map SmState.path := by
  have hproj : ∀ o : Option SmState,
      o.map SmState.path = (o.map SmState.frame).map fun f => f.1 := by
    intro o
    cases o <;> rfl
  rw [hproj, hproj, h.getElem?_states i]

theorem choiceParent (c : Nat) :
    b'.choices[c]?.bind SmChoice.parent = b.choices[c]?.bind SmChoice.parent := by
  have hproj : ∀ o : Option SmChoice,
      o.bind SmChoice.parent = (o.map SmChoice.frame).bind fun f => f.2 := by
    intro o
    cases o <;> rfl
  rw [hproj, hproj, h.getElem?_choices c]

theorem parentOf (t : SmTarget) : b'.parentOf t = b.parentOf t := by
  cases t with
  | state i => exact h.stateParent i
  | choice c => exact h.choiceParent c

theorem valid (t : SmTarget) : b'.Valid t ↔ b.Valid t := by
  cases t with
  | state i => rw [Valid, Valid, h.length_states]
  | choice c => rw [Valid, Valid, h.length_choices]

theorem lookup (scope : Option Nat) (name : String) :
    b'.lookup scope name = b.lookup scope name := by
  rw [Builder.lookup, Builder.lookup, h.scope]

theorem resolveFirst (name : String) (fuel : Nat) (scope : Option Nat) :
    b'.resolveFirst name fuel scope = b.resolveFirst name fuel scope := by
  induction fuel generalizing scope with
  | zero => rfl
  | succ fuel ih =>
    cases scope with
    | none => simp only [Builder.resolveFirst, h.lookup]
    | some s => simp only [Builder.resolveFirst, h.lookup, h.stateParent, ih]

theorem resolveTarget (fuel : Nat) (qi : QualIdent) (scope : Option Nat) :
    b'.resolveTarget fuel qi scope = b.resolveTarget fuel qi scope := by
  have hselect : b'.selectPart = b.selectPart := by
    funext t part
    cases t with
    | choice c => rfl
    | state s => simp only [selectPart, h.lookup, h.statePath]
  rw [Builder.resolveTarget, Builder.resolveTarget, h.resolveFirst, hselect]

theorem choiceTargets (fuel c : Nat) :
    b'.choiceTargets fuel c = b.choiceTargets fuel c := by
  simp only [Builder.choiceTargets, h.choiceNodes, h.resolveTarget, h.parentOf]

theorem lookInitial (fuel : Nat) (parent : Option Nat) (t : SmTarget) :
    b'.lookInitial fuel parent t = b.lookInitial fuel parent t := by
  cases t with
  | state i => simp only [Builder.lookInitial, h.parentOf]
  | choice c => simp only [Builder.lookInitial, h.parentOf, h.choiceTargets]

theorem entered (hb : b.Entered) : b'.Entered := by
  refine ⟨?_, ?_, ?_, ?_, ?_⟩
  · intro i s' p hs' hp
    obtain ⟨s, hs, hparent, -⟩ := h.state hs'
    obtain ⟨hlt, sp, hsp, hmem⟩ := hb.parents i s p hs (hparent ▸ hp)
    obtain ⟨sp', hsp', -, hsub⟩ := h.symm.state hsp
    exact ⟨hlt, sp', hsp', hsub ▸ hmem⟩
  · intro c ch p hc hp
    have hparent := h.choiceParent c
    rw [hc] at hparent
    obtain ⟨ch', hc', hp'⟩ := Option.bind_eq_some_iff.mp (hparent.symm.trans hp)
    rw [h.length_states]
    exact hb.choiceParents c ch' p hc' hp'
  · intro e he
    rw [h.scope] at he
    exact (h.valid e.2).mpr (hb.scope e he)
  · rw [h.stateNodes, h.length_states]
    exact hb.stateNodes
  · rw [h.choiceNodes, h.length_choices]
    exact hb.choiceNodes

end

end SameFrame

section Valid

variable {b : Builder} (hb : b.Entered)

include hb

variable {scope : Option Nat} {t : SmTarget} {fuel : Nat}

theorem lookup_valid {name : String} (h : b.lookup scope name = some t) : b.Valid t := by
  obtain ⟨e, he, rfl⟩ := Option.map_eq_some_iff.mp h
  exact hb.scope e (mem_of_find?_eq_some he)

theorem resolveFirst_valid {name : String} (h : b.resolveFirst name fuel scope = .ok t) :
    b.Valid t := by
  induction fuel generalizing scope with
  | zero => cases h
  | succ fuel ih =>
    cases scope with
    | none =>
      rw [resolveFirst] at h
      split at h
      · next t' hlookup =>
        cases h
        exact lookup_valid hb hlookup
      · cases h
    | some s =>
      rw [resolveFirst] at h
      split at h
      · next t' hlookup =>
        cases h
        exact lookup_valid hb hlookup
      · exact ih h

theorem selectPart_valid {t' : SmTarget} {part : String} (h : b.selectPart t part = .ok t') :
    b.Valid t' := by
  cases t with
  | choice c => cases h
  | state s =>
    rw [selectPart] at h
    split at h
    · next t'' hlookup =>
      cases h
      exact lookup_valid hb hlookup
    · cases h

theorem resolveTarget_valid {qi : QualIdent} (h : b.resolveTarget fuel qi scope = .ok t) :
    b.Valid t := by
  rw [resolveTarget] at h
  split at h
  · cases h
  · next t0 hfirst =>
    exact invariantM (fun _ _ _ _ _ h => selectPart_valid hb h)
      (resolveFirst_valid hb hfirst) h

theorem transition_valid {e : TransitionExpr} {t : SmTransition}
    (h : b.transition fuel e scope = .ok t) :
    b.resolveTarget fuel e.target scope = .ok t.target ∧ b.Valid t.target := by
  rw [transition] at h
  obtain ⟨actions, -, h⟩ := bind_eq_ok.mp h
  obtain ⟨target, htarget, h⟩ := bind_eq_ok.mp h
  cases h
  exact ⟨htarget, resolveTarget_valid hb htarget⟩

end Valid

def Inside (b : Builder) (fuel : Nat) (parent : Option Nat) (t : SmTarget) : Prop :=
  ∃ found : List SmTarget, t ∈ found ∧
    ∀ u ∈ found, ∃ next, b.lookInitial fuel parent u = .ok next ∧ next ⊆ found

variable {b b' : Builder} {fuel idx : Nat}

theorem Inside.congr (h : SameFrame b b') {parent : Option Nat} {t : SmTarget}
    (hinside : b.Inside fuel parent t) : b'.Inside fuel parent t := by
  obtain ⟨found, hmem, hclosed⟩ := hinside
  refine ⟨found, hmem, fun u hu => ?_⟩
  rw [h.lookInitial]
  exact hclosed u hu

theorem inside_of_checkInitialDest {dest : SmTarget} {parent : Option Nat}
    (h : b.checkInitialDest fuel dest parent = .ok ()) :
    b.Inside fuel parent dest := by
  rw [checkInitialDest] at h
  obtain ⟨found, hexplore, h⟩ := bind_eq_ok.mp h
  cases found with
  | none => cases h
  | some found =>
    obtain ⟨hmem, hclosed⟩ := Worklist.explore_reaches hexplore
    exact ⟨found, hmem, hclosed⟩

structure StateChecked (b : Builder) (fuel i : Nat) (s : SmState) : Prop where
  leaf : s.initial = none → s.isLeaf = true
  inside : ∀ t, s.initial = some t → b.Valid t.target ∧ b.Inside fuel (some i) t.target
  transitions : ∀ tr ∈ s.transitions, ∀ t, tr.target = some t → b.Valid t

theorem StateChecked.congr (h : SameFrame b b') {i : Nat} {s : SmState}
    (hs : b.StateChecked fuel i s) : b'.StateChecked fuel i s := by
  refine ⟨hs.leaf, fun t ht => ?_, fun tr htr t ht => (h.valid t).mpr (hs.transitions tr htr t ht)⟩
  obtain ⟨hvalid, hinside⟩ := hs.inside t ht
  exact ⟨(h.valid _).mpr hvalid, hinside.congr h⟩

structure PartsValid (b : Builder) (parts : StateParts) : Prop where
  initials : ∀ t ∈ parts.initials, b.Valid t.target
  transitions : ∀ tr ∈ parts.transitions, ∀ t, tr.target = some t → b.Valid t

theorem PartsValid.addTransition {parts : StateParts} (h : b.PartsValid parts)
    {tr : SmStateTransition} (htr : ∀ t, tr.target = some t → b.Valid t) :
    b.PartsValid { parts with transitions := parts.transitions ++ [tr] } := by
  refine ⟨h.initials, fun tr' htr' => ?_⟩
  rcases mem_append.mp htr' with htr' | htr'
  · exact h.transitions tr' htr'
  · rw [mem_singleton.mp htr']
    exact htr

theorem resolveBody_valid (hb : b.Entered) {body : TransitionOrDo}
    {r : List String × Option SmTarget} (h : b.resolveBody fuel idx body = .ok r) :
    ∀ t, r.2 = some t → b.Valid t := by
  intro t ht
  cases body with
  | transition e =>
    obtain ⟨tr, htr, rfl⟩ := map_eq_ok.mp h
    cases ht
    exact (transition_valid hb htr).2
  | actions actions =>
    obtain ⟨l, -, rfl⟩ := map_eq_ok.mp h
    cases ht

theorem resolveMember_valid (hb : b.Entered) {name : String} {parts parts' : StateParts}
    {member : StateMember} (hparts : b.PartsValid parts)
    (h : b.resolveMember fuel idx name parts member = .ok parts') : b.PartsValid parts' := by
  cases member with
  | defState name members | defChoice choice =>
    cases h
    exact hparts
  | specInitialTransition e =>
    obtain ⟨t, ht, h⟩ := bind_eq_ok.mp h
    cases h
    refine ⟨fun t' ht' => ?_, hparts.transitions⟩
    rcases mem_append.mp ht' with ht' | ht'
    · exact hparts.initials t' ht'
    · rw [mem_singleton.mp ht']
      exact (transition_valid hb ht).2
  | specStateEntry actions | specStateExit actions =>
    obtain ⟨l, -, h⟩ := bind_eq_ok.mp h
    cases h
    exact ⟨hparts.initials, hparts.transitions⟩
  | specStateTransition signal guard body =>
    obtain ⟨signal', -, h⟩ := bind_eq_ok.mp h
    obtain ⟨guard', -, h⟩ := bind_eq_ok.mp h
    obtain ⟨⟨actions, target⟩, hbody, h⟩ := bind_eq_ok.mp h
    cases h
    exact hparts.addTransition fun t ht => resolveBody_valid hb hbody t ht

theorem stateInitial_eq_ok {leaf : Bool} {initials : List SmTransition}
    {initial : Option SmTransition} (h : b.stateInitial fuel idx leaf initials = .ok initial) :
    (initial = none → leaf = true) ∧
      ∀ t, initial = some t → t ∈ initials ∧ b.Inside fuel (some idx) t.target := by
  match initials with
  | [] =>
    rw [stateInitial] at h
    split at h
    · next hleaf =>
      cases h
      exact ⟨fun _ => hleaf, fun t ht => nomatch ht⟩
    · cases h
  | [t] =>
    obtain ⟨_, hdest, h⟩ := bind_eq_ok.mp h
    cases h
    refine ⟨(fun hnone => nomatch hnone), fun t' ht' => ?_⟩
    cases ht'
    exact ⟨mem_cons_self, inside_of_checkInitialDest hdest⟩
  | _ :: _ :: _ => cases h

structure StateResolved (b b' : Builder) (fuel i : Nat) : Prop where
  frame : SameFrame b b'
  choices : b'.choices = b.choices
  others : ∀ j, j ≠ i → b'.states[j]? = b.states[j]?
  checked : ∀ s, b'.states[i]? = some s → b.StateChecked fuel i s

theorem resolveState_resolved (hb : b.Entered) {i : Nat} (hi : i < b.states.length)
    (h : resolveState fuel b i = .ok b') :
    StateResolved b b' fuel i := by
  obtain ⟨state, hstate⟩ : ∃ s, b.states[i]? = some s := ⟨_, getElem?_eq_getElem hi⟩
  obtain ⟨⟨name, members⟩, hnode⟩ : ∃ n, b.stateNodes[i]? = some n :=
    ⟨_, getElem?_eq_getElem (hb.stateNodes ▸ hi)⟩
  rw [resolveState, hnode, hstate] at h
  obtain ⟨parts, hparts, h⟩ := bind_eq_ok.mp h
  obtain ⟨initial, hinitial, h⟩ := bind_eq_ok.mp h
  cases h
  have hvalid : b.PartsValid parts :=
    invariantM (fun _ _ _ _ hp h => resolveMember_valid hb hp h)
      ⟨fun _ h => absurd h not_mem_nil, fun _ h => absurd h not_mem_nil⟩ hparts
  obtain ⟨hleaf, hinside⟩ := stateInitial_eq_ok hinitial
  refine ⟨⟨rfl, ?_, rfl, rfl, rfl⟩, rfl, fun j hj => ?_, fun s hs => ?_⟩
  · refine ext_getElem? fun j => ?_
    dsimp only
    rw [getElem?_map, getElem?_map, getElem?_modify]
    cases b.states[j]? with
    | none => rfl
    | some s =>
      by_cases hij : i = j
      · simp [hij, SmState.frame]
      · simp [hij]
  · dsimp only
    rw [getElem?_modify_ne _ _ (Ne.symm hj)]
  · dsimp only at hs
    rw [getElem?_modify_eq, hstate] at hs
    cases hs
    refine ⟨fun hnone => hleaf hnone, fun t ht => ?_, hvalid.transitions⟩
    obtain ⟨hmem, hdest⟩ := hinside t ht
    exact ⟨hvalid.initials t hmem, hdest⟩

structure ChoiceChecked (b : Builder) (fuel c : Nat) (ch : SmChoice) : Prop where
  targets : b.choiceTargets fuel c = .ok [ch.ifTransition.target, ch.elseTransition.target]
  ifValid : b.Valid ch.ifTransition.target
  elseValid : b.Valid ch.elseTransition.target

theorem ChoiceChecked.congr (h : SameFrame b b') {c : Nat} {ch : SmChoice}
    (hc : b.ChoiceChecked fuel c ch) : b'.ChoiceChecked fuel c ch := by
  refine ⟨?_, (h.valid _).mpr hc.ifValid, (h.valid _).mpr hc.elseValid⟩
  rw [h.choiceTargets]
  exact hc.targets

structure ChoiceResolved (b b' : Builder) (fuel c : Nat) : Prop where
  frame : SameFrame b b'
  states : b'.states = b.states
  others : ∀ d, d ≠ c → b'.choices[d]? = b.choices[d]?
  checked : ∀ ch, b'.choices[c]? = some ch → b.ChoiceChecked fuel c ch

theorem resolveChoice_resolved (hb : b.Entered) {c : Nat} (hc : c < b.choices.length)
    (h : resolveChoice fuel b c = .ok b') :
    ChoiceResolved b b' fuel c := by
  obtain ⟨choice, hchoice⟩ : ∃ ch, b.choices[c]? = some ch := ⟨_, getElem?_eq_getElem hc⟩
  obtain ⟨node, hnode⟩ : ∃ n, b.choiceNodes[c]? = some n :=
    ⟨_, getElem?_eq_getElem (hb.choiceNodes ▸ hc)⟩
  rw [resolveChoice, hnode] at h
  obtain ⟨guard, -, h⟩ := bind_eq_ok.mp h
  obtain ⟨ifTransition, hif, h⟩ := bind_eq_ok.mp h
  obtain ⟨elseTransition, helse, h⟩ := bind_eq_ok.mp h
  cases h
  obtain ⟨hifTarget, hifValid⟩ := transition_valid hb hif
  obtain ⟨helseTarget, helseValid⟩ := transition_valid hb helse
  refine ⟨⟨rfl, rfl, ?_, rfl, rfl⟩, rfl, fun d hd => ?_, fun ch hch => ?_⟩
  · refine ext_getElem? fun d => ?_
    dsimp only
    rw [getElem?_map, getElem?_map, getElem?_modify]
    cases b.choices[d]? with
    | none => rfl
    | some s =>
      by_cases hcd : c = d
      · simp [hcd, SmChoice.frame]
      · simp [hcd]
  · dsimp only
    rw [getElem?_modify_ne _ _ (Ne.symm hd)]
  · dsimp only at hch
    rw [getElem?_modify_eq, hchoice] at hch
    cases hch
    refine ⟨?_, hifValid, helseValid⟩
    rw [choiceTargets, hnode]
    dsimp only
    rw [hifTarget, helseTarget]
    rfl

end Builder

end Fprime.Fpp
