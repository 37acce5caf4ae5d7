import Fprime.Fpp.StateMachine
import Fprime.Lib.Runs

/-!
# The hierarchy that entering names builds

A state is numbered after the state that contains it and is among its substates, and the scopes hold
only states and choices that there are.
-/

namespace Fprime.Fpp.Builder

open Lib List Nat

def Valid (b : Builder) : SmTarget → Prop
  | .state i => i < b.states.length
  | .choice c => c < b.choices.length

structure Entered (b : Builder) : Prop where
  parents : ∀ (i : Nat) (s : SmState) (p : Nat), b.states[i]? = some s → s.parent = some p →
    p < i ∧ ∃ sp : SmState, b.states[p]? = some sp ∧ i ∈ sp.substates
  choiceParents : ∀ (c : Nat) (ch : SmChoice) (p : Nat), b.choices[c]? = some ch →
    ch.parent = some p → p < b.states.length
  scope : ∀ e ∈ b.scope, b.Valid e.2
  stateNodes : b.stateNodes.length = b.states.length
  choiceNodes : b.choiceNodes.length = b.choices.length

theorem Entered.new : Entered new :=
  ⟨fun i s p h => by simp [Builder.new] at h, fun c ch p h => by simp [Builder.new] at h,
    fun e h => absurd h not_mem_nil, rfl, rfl⟩

variable {b b' : Builder}

theorem enterName_eq_ok {scope : Option Nat} {name : String} {t : SmTarget}
    (h : b.enterName scope name t = .ok b') :
    b' = { b with scope := ((scope, name), t) :: b.scope } := by
  rw [enterName] at h
  split at h
  · cases h
  · cases h
    rfl

theorem Valid.mono {t : SmTarget} (h : b.Valid t) (hstates : b.states.length ≤ b'.states.length)
    (hchoices : b.choices.length ≤ b'.choices.length) : b'.Valid t := by
  cases t with
  | state i => exact Nat.lt_of_lt_of_le h hstates
  | choice c => exact Nat.lt_of_lt_of_le h hchoices

theorem length_pushState (b : Builder) (name : String) (members : List StateMember)
    (parent : Option Nat) (outer : List String) :
    (b.pushState name members parent outer).states.length = b.states.length + 1 := by
  cases parent with
  | none | some p => simp [pushState]

theorem getElem?_pushState_lt (b : Builder) (name : String) (members : List StateMember)
    (parent : Option Nat) (outer : List String) {i : Nat} {s : SmState}
    (h : b.states[i]? = some s) :
    ∃ s', (b.pushState name members parent outer).states[i]? = some s' ∧ s'.parent = s.parent ∧
      (∀ k ∈ s.substates, k ∈ s'.substates) ∧
      (parent = some i → b.states.length ∈ s'.substates) := by
  have hlt : i < b.states.length := (List.getElem?_eq_some_iff.mp h).1
  cases parent with
  | none =>
    unfold pushState
    dsimp only
    rw [getElem?_append_left hlt]
    exact ⟨s, h, rfl, fun _ hk => hk, fun hp => nomatch hp⟩
  | some p =>
    unfold pushState
    dsimp only
    rw [getElem?_append_left (by rwa [length_modify]), getElem?_modify, h]
    by_cases hp : p = i
    · subst hp
      refine ⟨{ s with substates := s.substates ++ [b.states.length] }, by simp, rfl,
        fun k hk => mem_append_left _ hk, fun _ => ?_⟩
      exact mem_append_right _ mem_cons_self
    · exact ⟨s, by simp [hp], rfl, fun _ hk => hk, fun h => absurd (Option.some.inj h) hp⟩

theorem getElem?_pushState_new (b : Builder) (name : String) (members : List StateMember)
    (parent : Option Nat) (outer : List String) :
    (b.pushState name members parent outer).states[b.states.length]? =
      some ⟨outer ++ [name], parent, [], none, [], [], []⟩ := by
  cases parent with
  | none => exact getElem?_concat_length
  | some p =>
    unfold pushState
    dsimp only
    rw [getElem?_append_right (Nat.le_of_eq (length_modify _ _ _)), length_modify, Nat.sub_self]
    rfl

theorem openState_entered {name : String} {members : List StateMember} {parent : Option Nat}
    {outer : List String} (hb : b.Entered) (hparent : ∀ p, parent = some p → p < b.states.length)
    (h : b.openState name members parent outer = .ok b') :
    b'.Entered ∧ b'.states.length = b.states.length + 1 := by
  obtain ⟨b1, hname, rfl⟩ := Runs.map_eq_ok.mp h
  obtain rfl := enterName_eq_ok hname
  have hlength := length_pushState
    { b with scope := ((parent, name), .state b.states.length) :: b.scope } name members parent outer
  refine ⟨⟨?_, ?_, ?_, ?_, hb.choiceNodes⟩, hlength⟩
  · intro i s p hs hp
    have hlt : i < b.states.length + 1 := hlength ▸ (List.getElem?_eq_some_iff.mp hs).1
    rcases Nat.lt_succ_iff_lt_or_eq.mp hlt with hi | rfl
    · -- a state that was there
      obtain ⟨s0, hs0⟩ : ∃ s0, b.states[i]? = some s0 := ⟨_, getElem?_eq_getElem hi⟩
      obtain ⟨s', hs', hparent', -, -⟩ := getElem?_pushState_lt
        { b with scope := ((parent, name), .state b.states.length) :: b.scope } name members parent
        outer hs0
      rw [hs'] at hs
      cases hs
      obtain ⟨hlt, sp, hsp, hmem⟩ := hb.parents i s0 p hs0 (hparent' ▸ hp)
      obtain ⟨sp', hsp', -, hsub, -⟩ := getElem?_pushState_lt
        { b with scope := ((parent, name), .state b.states.length) :: b.scope } name members parent
        outer hsp
      exact ⟨hlt, sp', hsp', hsub i hmem⟩
    · -- the new state
      rw [getElem?_pushState_new
        { b with scope := ((parent, name), .state b.states.length) :: b.scope } name members parent
        outer] at hs
      cases hs
      have hplt := hparent p hp
      obtain ⟨sp, hsp⟩ : ∃ sp, b.states[p]? = some sp := ⟨_, getElem?_eq_getElem hplt⟩
      obtain ⟨sp', hsp', -, -, hnew⟩ := getElem?_pushState_lt
        { b with scope := ((parent, name), .state b.states.length) :: b.scope } name members parent
        outer hsp
      exact ⟨hplt, sp', hsp', hnew hp⟩
  · intro c ch p hc hp
    rw [hlength]
    exact lt_succ_of_lt (hb.choiceParents c ch p hc hp)
  · intro e he
    rcases mem_cons.mp he with rfl | he
    · show b.states.length < length _
      rw [hlength]
      exact lt_succ_self _
    · refine (hb.scope e he).mono ?_ (Nat.le_refl _)
      rw [hlength]
      exact le_succ _
  · rw [hlength]
    exact (length_append).trans (congrArg (· + 1) hb.stateNodes)

theorem enterChoice_entered {choice : DefChoice} {parent : Option Nat} {outer : List String}
    (hb : b.Entered) (hparent : ∀ p, parent = some p → p < b.states.length)
    (h : b.enterChoice choice parent outer = .ok b') :
    b'.Entered ∧ b'.states.length = b.states.length := by
  obtain ⟨b1, hname, rfl⟩ := Runs.map_eq_ok.mp h
  obtain rfl := enterName_eq_ok hname
  have hlength : ∀ b : Builder, (b.pushChoice choice parent outer).choices.length =
      b.choices.length + 1 := fun b => by simp [pushChoice]
  refine ⟨⟨hb.parents, ?_, ?_, hb.stateNodes, ?_⟩, rfl⟩
  · intro c ch p hc hp
    rcases Nat.lt_or_ge c b.choices.length with hlt | hge
    · exact hb.choiceParents c ch p ((getElem?_append_left hlt).symm.trans hc) hp
    · have hnew := mem_of_getElem? ((getElem?_append_right hge).symm.trans hc)
      rw [mem_singleton.mp hnew] at hp
      exact hparent p hp
  · intro e he
    rcases mem_cons.mp he with rfl | he
    · show b.choices.length < length _
      rw [hlength]
      exact lt_succ_self _
    · refine (hb.scope e he).mono (Nat.le_refl _) ?_
      rw [hlength]
      exact le_succ _
  · rw [hlength]
    exact length_append.trans (congrArg (· + 1) hb.choiceNodes)

mutual

theorem enterMembers_entered {b b' : Builder} {idx : Nat} {path : List String}
    (members : List StateMember) (hb : b.Entered) (hidx : idx < b.states.length)
    (h : b.enterMembers idx path members = .ok b') :
    b'.Entered ∧ b.states.length ≤ b'.states.length := by
  cases members with
  | nil =>
    cases h
    exact ⟨hb, Nat.le_refl _⟩
  | cons member rest =>
    rw [enterMembers] at h
    split at h
    · cases h
    · next b1 hmember =>
      obtain ⟨hb1, hle⟩ := enterMember_entered member hb hidx hmember
      obtain ⟨hb', hle'⟩ := enterMembers_entered rest hb1 (Nat.lt_of_lt_of_le hidx hle) h
      exact ⟨hb', Nat.le_trans hle hle'⟩

theorem enterMember_entered {b b' : Builder} {idx : Nat} {path : List String}
    (member : StateMember) (hb : b.Entered) (hidx : idx < b.states.length)
    (h : b.enterMember idx path member = .ok b') :
    b'.Entered ∧ b.states.length ≤ b'.states.length := by
  have hparent : ∀ p, some idx = some p → p < b.states.length :=
    fun p hp => Option.some.inj hp ▸ hidx
  cases member with
  | defState name members =>
    rw [enterMember] at h
    split at h
    · cases h
    · next b1 hopen =>
      obtain ⟨hb1, hlength⟩ := openState_entered hb hparent hopen
      obtain ⟨hb', hle⟩ := enterMembers_entered members hb1 (by omega) h
      exact ⟨hb', by omega⟩
  | defChoice choice =>
    obtain ⟨hb', hlength⟩ := enterChoice_entered hb hparent h
    exact ⟨hb', Nat.le_of_eq hlength.symm⟩
  | specInitialTransition t | specStateEntry actions | specStateExit actions
  | specStateTransition signal guard transition =>
    cases h
    exact ⟨hb, Nat.le_refl _⟩

end

theorem enterTop_entered {member : StateMachineMember} (hb : b.Entered)
    (h : b.enterTop member = .ok b') : b'.Entered := by
  have htop : ∀ p, (none : Option Nat) = some p → p < b.states.length :=
    fun p hp => absurd hp (Option.some_ne_none p).symm
  have hsame : ∀ actions guards signals : List String, Entered { b with
      actions := actions
      guards := guards
      signals := signals } :=
    fun _ _ _ => ⟨hb.parents, hb.choiceParents, hb.scope, hb.stateNodes, hb.choiceNodes⟩
  cases member with
  | defAction name | defGuard name | defSignal name =>
    obtain ⟨l, -, rfl⟩ := Runs.map_eq_ok.mp h
    exact hsame _ _ _
  | defState name members =>
    rw [enterTop, enterState] at h
    split at h
    · cases h
    · next b1 hopen =>
      obtain ⟨hb1, hlength⟩ := openState_entered hb htop hopen
      exact (enterMembers_entered members hb1 (by omega) h).1
  | defChoice choice => exact (enterChoice_entered hb htop h).1
  | specInitialTransition t =>
    cases h
    exact hb

theorem entered_of_members {members : List StateMachineMember}
    (h : members.foldlM enterTop new = .ok b) : b.Entered :=
  Runs.invariantM (fun _ _ _ _ hb h => enterTop_entered hb h) .new h

end Fprime.Fpp.Builder
