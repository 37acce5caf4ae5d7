import Fprime.Fpp.StateMachine.Resolved

/-!
# Models of accepted state machines

What is known of the model of any definition that the analysis accepts.
-/

namespace Fprime.Fpp

open Lib List Runs

namespace StateMachineModel

variable (m : StateMachineModel)

def Valid : SmTarget → Prop
  | .state i => i < m.states.length
  | .choice c => c < m.choices.length

def parentOf : SmTarget → Option Nat
  | .state i => m.states[i]?.bind SmState.parent
  | .choice c => m.choices[c]?.bind SmChoice.parent

def choiceTargets (c : Nat) : List SmTarget :=
  (m.choices[c]?.map fun ch => [ch.ifTransition.target, ch.elseTransition.target]).getD []

def Closed (i : Nat) (found : List SmTarget) : Prop :=
  ∀ u ∈ found, m.parentOf u = some i ∧ ∀ c, u = .choice c → m.choiceTargets c ⊆ found

/-- From a choice on, fewer than a number of choices follow each other. -/
def Descends (m : StateMachineModel) : Nat → Nat → Prop
  | 0, _ => False
  | n + 1, c => ∀ c', .choice c' ∈ m.choiceTargets c → m.Descends n c'

structure Sound (m : StateMachineModel) : Prop where
  parents : ∀ (i : Nat) (s : SmState) (p : Nat), m.states[i]? = some s → s.parent = some p →
    p < i ∧ ∃ sp : SmState, m.states[p]? = some sp ∧ i ∈ sp.substates
  choiceParents : ∀ (c : Nat) (ch : SmChoice) (p : Nat), m.choices[c]? = some ch →
    ch.parent = some p → p < m.states.length
  initial : m.Valid m.initial.target
  leaf : ∀ (i : Nat) (s : SmState), m.states[i]? = some s → s.initial = none → s.isLeaf = true
  inside : ∀ (i : Nat) (s : SmState) (t : SmTransition), m.states[i]? = some s →
    s.initial = some t → m.Valid t.target ∧ ∃ found, t.target ∈ found ∧ m.Closed i found
  transitions : ∀ (i : Nat) (s : SmState), m.states[i]? = some s →
    ∀ tr ∈ s.transitions, ∀ t, tr.target = some t → m.Valid t
  choices : ∀ (c : Nat) (ch : SmChoice), m.choices[c]? = some ch →
    m.Valid ch.ifTransition.target ∧ m.Valid ch.elseTransition.target
  descends : ∃ n, ∀ c < m.choices.length, m.Descends n c

end StateMachineModel

namespace Builder

variable {b : Builder} {fuel : Nat}

/-- Each item is checked when its turn has come, and stays so while the frame does. -/
theorem resolveItems {α β ε : Type} {items : Builder → List α} {others : Builder → β}
    {Checked : Builder → Nat → α → Prop} {resolve : Builder → Nat → Except ε Builder} {b' : Builder}
    (hlength : ∀ b1, SameFrame b b1 → (items b1).length = (items b).length)
    (hcongr : ∀ {b1 b2 i x}, SameFrame b1 b2 → Checked b1 i x → Checked b2 i x)
    (hresolve : ∀ b1 i b2, SameFrame b b1 → i < (items b1).length → resolve b1 i = .ok b2 →
      SameFrame b1 b2 ∧ others b2 = others b1 ∧ (∀ j, j ≠ i → (items b2)[j]? = (items b1)[j]?) ∧
        ∀ x, (items b2)[i]? = some x → Checked b1 i x)
    (h : (range (items b).length).foldlM resolve b = .ok b') :
    SameFrame b b' ∧ others b' = others b ∧ ∀ i x, (items b')[i]? = some x → Checked b' i x := by
  -- the items resolved so far are checked
  let I (past : List Nat) (b1 : Builder) : Prop := SameFrame b b1 ∧ others b1 = others b ∧
    ∀ i ∈ past, ∀ x, (items b1)[i]? = some x → Checked b1 i x
  have hstep : ∀ past b1 i b2, I past b1 → i < (items b).length → resolve b1 i = .ok b2 →
      I (past ++ [i]) b2 := by
    rintro past b1 i b2 ⟨hframe, hothers, hchecked⟩ hi hok
    obtain ⟨hframe', hothers', hkept, hnew⟩ := hresolve b1 i b2 hframe (hlength b1 hframe ▸ hi) hok
    refine ⟨hframe.trans hframe', hothers'.trans hothers, fun j hj x hx => ?_⟩
    by_cases hji : j = i
    · subst hji
      exact hcongr hframe' (hnew x hx)
    · have hpast : j ∈ past := by
        rcases mem_append.mp hj with hj | hj
        · exact hj
        · exact absurd (mem_singleton.mp hj) hji
      rw [hkept j hji] at hx
      exact hcongr hframe' (hchecked j hpast x hx)
  have hrange : Runs.AlongM resolve (fun _ i => i < (items b).length) b
      (range (items b).length) :=
    alongM_of_forall (fun i hi _ => mem_range.mp hi) b
  obtain ⟨hframe, hothers, hchecked⟩ : I ([] ++ range (items b).length) b' :=
    invariant_runM (fun past b1 i b2 => hstep past b1 i b2)
      ⟨.refl b, rfl, fun _ h => absurd h not_mem_nil⟩ hrange h
  refine ⟨hframe, hothers, fun i x hx => hchecked i ?_ x hx⟩
  rw [nil_append, mem_range, ← hlength b' hframe]
  exact (List.getElem?_eq_some_iff.mp hx).1

theorem resolveStates {b' : Builder} (hb : b.Entered)
    (h : (range b.states.length).foldlM (resolveState fuel) b = .ok b') :
    SameFrame b b' ∧ b'.choices = b.choices ∧
      ∀ i s, b'.states[i]? = some s → b'.StateChecked fuel i s :=
  resolveItems (fun _ hframe => hframe.length_states) (fun hframe hs => hs.congr hframe)
    (fun _ _ _ hframe hi hok =>
      have r := resolveState_resolved (hframe.entered hb) hi hok
      ⟨r.frame, r.choices, r.others, r.checked⟩) h

theorem resolveChoices {b' : Builder} (hb : b.Entered)
    (h : (range b.choices.length).foldlM (resolveChoice fuel) b = .ok b') :
    SameFrame b b' ∧ b'.states = b.states ∧
      ∀ c ch, b'.choices[c]? = some ch → b'.ChoiceChecked fuel c ch :=
  resolveItems (fun _ hframe => hframe.length_choices) (fun hframe hc => hc.congr hframe)
    (fun _ _ _ hframe hc hok =>
      have r := resolveChoice_resolved (hframe.entered hb) hc hok
      ⟨r.frame, r.states, r.others, r.checked⟩) h

theorem forM_eq_ok {α ε : Type} {f : α → Except ε Unit} {l : List α} (h : l.forM f = .ok ()) :
    ∀ a ∈ l, f a = .ok () := by
  induction l with
  | nil => exact fun a ha => absurd ha not_mem_nil
  | cons a l ih =>
    obtain ⟨_, ha, hl⟩ := bind_eq_ok.mp h
    intro b hb
    rcases mem_cons.mp hb with rfl | hb
    · exact ha
    · exact ih hl b hb

def model (b : Builder) (initial : SmTransition) : StateMachineModel :=
  ⟨b.actions, b.guards, b.signals, initial, b.states, b.choices⟩

theorem arcs_choice (b : Builder) (initial : SmTransition) (c : Nat) :
    b.arcs (.choice c) = (b.model initial).choiceTargets c := by
  rw [arcs, StateMachineModel.choiceTargets]
  show _ = (b.choices[c]?.map _).getD []
  cases b.choices[c]? <;> rfl

theorem descends_of_visitChoice (initial : SmTransition) {path : List Nat} {c : Nat}
    (h : b.visitChoice fuel path c = .ok ()) :
    (b.model initial).Descends fuel c := by
  induction fuel generalizing path c with
  | zero => cases h
  | succ fuel ih =>
    rw [visitChoice] at h
    split at h
    · cases h
    · intro c' hc'
      rw [← arcs_choice] at hc'
      exact ih (forM_eq_ok h c' (mem_filterMap.mpr ⟨.choice c', hc', rfl⟩))

theorem lookInitial_eq_ok {parent : Option Nat} {t : SmTarget} {next : List SmTarget}
    (h : b.lookInitial fuel parent t = .ok next) :
    b.parentOf t = parent ∧ ∀ c, t = .choice c → b.choiceTargets fuel c = .ok next := by
  cases t with
  | state i =>
    unfold lookInitial at h
    split at h
    · cases h
    · next hparent => exact ⟨not_not.mp hparent, fun c hc => nomatch hc⟩
  | choice c =>
    unfold lookInitial at h
    split at h
    · cases h
    · next hparent =>
      refine ⟨not_not.mp hparent, fun c' hc' => ?_⟩
      cases hc'
      exact h

theorem closed_of_look (initial : SmTransition) {i : Nat} {found : List SmTarget}
    (hchoice : ∀ c ch, b.choices[c]? = some ch → b.ChoiceChecked fuel c ch)
    (h : ∀ u ∈ found, ∃ next, b.lookInitial fuel (some i) u = .ok next ∧ next ⊆ found) :
    (b.model initial).Closed i found := by
  intro u hu
  obtain ⟨next, hlook, hnext⟩ := h u hu
  obtain ⟨hparent, htargets⟩ := lookInitial_eq_ok hlook
  refine ⟨?_, fun c hc => ?_⟩
  · cases u <;> exact hparent
  · show (b.choices[c]?.map _).getD [] ⊆ _
    cases hch : b.choices[c]? with
    | none => exact nil_subset _
    | some ch =>
      have hsame := Except.ok.inj ((hchoice c ch hch).targets.symm.trans (htargets c hc))
      show [ch.ifTransition.target, ch.elseTransition.target] ⊆ found
      rwa [hsame]

end Builder

theorem machineInitial_valid {b : Builder} (hb : b.Entered) {fuel : Nat}
    {initials : List TransitionExpr} {t : SmTransition}
    (h : machineInitial b fuel initials = .ok t) : b.Valid t.target := by
  match initials with
  | [] => cases h
  | [e] => exact (Builder.transition_valid hb h).2
  | _ :: _ :: _ => cases h

theorem resolveStateMachine_sound {fuel : Nat} {members : List StateMachineMember}
    {m : StateMachineModel} (h : resolveStateMachine fuel members = .ok m) : m.Sound := by
  obtain ⟨b, hmembers, h⟩ := bind_eq_ok.mp h
  obtain ⟨initial, hinitial, h⟩ := bind_eq_ok.mp h
  obtain ⟨_, -, h⟩ := bind_eq_ok.mp h
  obtain ⟨b1, hstates, h⟩ := bind_eq_ok.mp h
  obtain ⟨b2, hchoices, h⟩ := bind_eq_ok.mp h
  obtain ⟨_, -, h⟩ := bind_eq_ok.mp h
  obtain ⟨_, hcycles, h⟩ := bind_eq_ok.mp h
  cases h
  have hb := Builder.entered_of_members hmembers
  obtain ⟨hframe1, hsame1, hstate⟩ := Builder.resolveStates hb hstates
  obtain ⟨hframe2, hsame2, hchoice⟩ :=
    Builder.resolveChoices (hframe1.entered hb) (b := b1) hchoices
  have hentered := hframe2.entered (hframe1.entered hb)
  have hvalid : ∀ t, (b2.model initial).Valid t ↔ b2.Valid t := by
    intro t
    cases t <;> exact Iff.rfl
  have hstate2 : ∀ i s, b2.states[i]? = some s → b2.StateChecked fuel i s :=
    fun i s hs => (hstate i s (hsame2 ▸ hs)).congr hframe2
  refine ⟨hentered.parents, hentered.choiceParents, ?_, fun i s hs => (hstate2 i s hs).leaf, ?_, ?_,
    ?_, fuel, fun c hc => ?_⟩
  · exact (hvalid _).mpr (((hframe1.trans hframe2).valid _).mpr (machineInitial_valid hb hinitial))
  · intro i s t hs ht
    obtain ⟨htarget, found, hmem, hclosed⟩ := (hstate2 i s hs).inside t ht
    exact ⟨(hvalid _).mpr htarget, found, hmem, Builder.closed_of_look initial hchoice hclosed⟩
  · exact fun i s hs tr htr t ht => (hvalid _).mpr ((hstate2 i s hs).transitions tr htr t ht)
  · exact fun c ch hch =>
      ⟨(hvalid _).mpr (hchoice c ch hch).ifValid, (hvalid _).mpr (hchoice c ch hch).elseValid⟩
  · exact Builder.descends_of_visitChoice initial
      (Builder.forM_eq_ok hcycles c (mem_range.mpr hc))

end Fprime.Fpp
