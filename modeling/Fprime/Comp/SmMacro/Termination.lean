import Fprime.Comp.SmMacro
import Fprime.Fpp.StateMachine.Sound

/-!
# Accepted state machines come to a leaf

Entering a state with substates leads to a state inside it; since states are numbered after those
that contain them, this comes to an end in a leaf.
-/

namespace Fprime.Comp.SmMacro

open Fpp Lib List Nat Option

variable {m : StateMachineModel}

def rank (m : StateMachineModel) : SmTarget → Nat
  | .state i => i
  | .choice _ => m.states.length

theorem ranked (h : m.Sound) : Sm.Ranked (parent m) (rank m) := by
  intro n q hq
  cases n with
  | state i =>
    obtain ⟨p, hp, rfl⟩ := map_eq_some_iff.mp hq
    obtain ⟨s, hs, hsp⟩ := bind_eq_some_iff.mp hp
    exact (h.parents i s p hs hsp).1
  | choice c =>
    obtain ⟨p, hp, rfl⟩ := map_eq_some_iff.mp hq
    obtain ⟨ch, hch, hcp⟩ := bind_eq_some_iff.mp hp
    exact h.choiceParents c ch p hch hcp

variable {t : SmTarget} {c k n : Nat} {r : SmInstance}

theorem rank_lt_height (h : m.Valid t) : rank m t < height m := by
  cases t with
  | state i => exact lt_succ_of_lt h
  | choice c => exact lt_succ_self _

theorem goInitial_eq (h : m.Sound) {start : Option SmTarget} {t : SmTransition}
    (hstart : ∀ n, start = some n → m.Valid n) (htarget : m.Valid t.target) (r : SmInstance) :
    ∃ r', ∀ enter, goInitial m enter start t r = enter t.target r' := by
  obtain ⟨entries, hentries⟩ := Sm.forEachEntry_ok (ranked h)
    (fun n hn => rank_lt_height (hstart n hn)) (rank_lt_height htarget)
  exact ⟨_, fun enter => by rw [goInitial, hentries]; rfl⟩

theorem go_eq (h : m.Sound) {cur source : SmTarget} {t : SmTransition} (hcur : m.Valid cur)
    (hsource : m.Valid source) (habove : Sm.Above (parent m) source cur)
    (htarget : m.Valid t.target) (r : SmInstance) :
    ∃ r', r'.state = r.state ∧ ∀ enter, go m enter cur source t r = enter t.target r' := by
  obtain ⟨found, hfound, hlca⟩ := Sm.lca_ok (ranked h) (rank_lt_height hsource)
    (rank_lt_height htarget)
  have hstop : ∀ a, found = some a → Sm.Above (parent m) a cur :=
    fun a ha => habove.trans (hlca a ha)
  obtain ⟨exits, hexits⟩ := Sm.forEachExit_ok (ranked h) (rank_lt_height hcur) hstop
  have hrank : ∀ a, found = some a → rank m a < height m := by
    intro a ha
    have hle : rank m a ≤ rank m source := by
      refine Relation.ReflTransGen.head_induction_on (hlca a ha) (Nat.le_refl _) ?_
      exact fun hp _ ih => Nat.le_trans ih (Nat.le_of_lt (ranked h _ _ hp))
    exact Nat.lt_of_le_of_lt hle (rank_lt_height hsource)
  obtain ⟨entries, hentries⟩ := Sm.forEachEntry_ok (ranked h) hrank (rank_lt_height htarget)
  refine ⟨((r.perform (exits.flatMap (exitActions m))).perform t.actions).perform
    (entries.flatMap (entryActions m)), rfl, fun enter => ?_⟩
  rw [go, hfound]
  dsimp only [bind, Except.bind]
  rw [hexits]
  dsimp only
  rw [hentries]

variable (guards : Nat → Bool)

def AtLeaf (m : StateMachineModel) (r : SmInstance) : Prop :=
  ∃ i s, r.state = some i ∧ m.states[i]? = some s ∧ s.isLeaf = true

/-- Entering comes to a leaf, if this many may be entered. -/
def Settles (m : StateMachineModel) (n : Nat) (t : SmTarget) : Prop :=
  ∀ fuel, n ≤ fuel → ∀ r, ∃ r', enter m guards fuel t r = .ok r' ∧ AtLeaf m r'

variable {guards}

theorem Settles.mono {n' : Nat} (h : Settles guards m n t) (hle : n ≤ n') :
    Settles guards m n' t :=
  fun fuel hfuel => h fuel (Nat.le_trans hle hfuel)

theorem branch_mem {ch : SmChoice} (hch : m.choices[c]? = some ch) (b : Bool) :
    (if b then ch.ifTransition else ch.elseTransition).target ∈ m.choiceTargets c := by
  rw [StateMachineModel.choiceTargets, hch]
  cases b with
  | true => exact mem_cons_self
  | false => exact mem_cons_of_mem _ mem_cons_self

section

variable (h : m.Sound)

include h

theorem branch_valid {ch : SmChoice} (hch : m.choices[c]? = some ch) (b : Bool) :
    m.Valid (if b then ch.ifTransition else ch.elseTransition).target := by
  cases b with
  | true => exact (h.choices c ch hch).1
  | false => exact (h.choices c ch hch).2

theorem settles_choice (hc : m.Valid (.choice c))
    (hbranches : ∀ t ∈ m.choiceTargets c, m.Valid t → Settles guards m n t) :
    Settles guards m (n + 1) (.choice c) := by
  intro fuel hfuel r
  obtain ⟨ch, hch⟩ : ∃ ch, m.choices[c]? = some ch := ⟨_, getElem?_eq_getElem hc⟩
  cases fuel with
  | zero => exact absurd hfuel (not_succ_le_zero n)
  | succ fuel =>
    have hvalid := branch_valid h hch (guards r.asked)
    obtain ⟨r', -, hgo⟩ := go_eq h hc hc .refl hvalid { r with asked := r.asked + 1 }
    obtain ⟨r'', henter, hleaf⟩ := hbranches _ (branch_mem hch (guards r.asked)) hvalid fuel
      (le_of_succ_le_succ hfuel) r'
    refine ⟨r'', ?_, hleaf⟩
    rw [enter, hch]
    exact (hgo _).trans henter

theorem settles_of_states {P : SmTarget → Prop}
    (hclosed : ∀ c, P (.choice c) → ∀ t ∈ m.choiceTargets c, P t)
    (hstates : ∀ i, P (.state i) → m.Valid (.state i) → Settles guards m n (.state i)) (hP : P t)
    (ht : m.Valid t) (hk : ∀ c, t = .choice c → m.Descends k c) :
    Settles guards m (n + k) t := by
  induction k generalizing t with
  | zero =>
    cases t with
    | state i => exact hstates i hP ht
    | choice c => exact absurd (hk c rfl) id
  | succ k ih =>
    cases t with
    | state i => exact (hstates i hP ht).mono (le_add_right _ _)
    | choice c =>
      refine settles_choice h ht fun t htarget hvalid => ?_
      refine ih (hclosed c hP t htarget) hvalid fun c' hc' => hk c rfl c' ?_
      rwa [← hc']

theorem exists_state {P : SmTarget → Prop}
    (hclosed : ∀ c, P (.choice c) → ∀ t ∈ m.choiceTargets c, P t) (hP : P t) (ht : m.Valid t)
    (hk : ∀ c, t = .choice c → m.Descends k c) :
    ∃ i, P (.state i) ∧ m.Valid (.state i) := by
  induction k generalizing t with
  | zero =>
    cases t with
    | state i => exact ⟨i, hP, ht⟩
    | choice c => exact absurd (hk c rfl) id
  | succ k ih =>
    cases t with
    | state i => exact ⟨i, hP, ht⟩
    | choice c =>
      obtain ⟨ch, hch⟩ : ∃ ch, m.choices[c]? = some ch := ⟨_, getElem?_eq_getElem ht⟩
      have hmem := branch_mem hch true
      refine ih (hclosed c hP _ hmem) (branch_valid h hch true) fun c' hc' => hk c rfl c' ?_
      rwa [← hc']

theorem substate_gt {i j : Nat} {s : SmState} (hs : m.states[i]? = some s)
    (hj : m.parentOf (.state j) = some i) : i < j ∧ s.isLeaf = false := by
  obtain ⟨sj, hsj, hparent⟩ := bind_eq_some_iff.mp hj
  obtain ⟨hlt, sp, hsp, hmem⟩ := h.parents j sj i hsj hparent
  rw [hs] at hsp
  cases hsp
  refine ⟨hlt, ?_⟩
  rw [SmState.isLeaf, isEmpty_eq_false_iff]
  exact ne_nil_of_mem hmem

theorem settles_state (hk : ∀ c < m.choices.length, m.Descends k c) {d i : Nat}
    (hi : i < m.states.length) (hd : m.states.length - i ≤ d) :
    Settles guards m (d * (k + 1)) (.state i) := by
  induction d generalizing i with
  | zero => omega
  | succ d ih =>
    obtain ⟨s, hs⟩ : ∃ s, m.states[i]? = some s := ⟨_, getElem?_eq_getElem hi⟩
    intro fuel hfuel r
    cases fuel with
    | zero =>
      have hpos : 0 < (d + 1) * (k + 1) := Nat.mul_pos (Nat.succ_pos d) (Nat.succ_pos k)
      omega
    | succ fuel =>
      rw [enter, hs]
      dsimp only
      cases hinitial : s.initial with
      | none =>
        have hleaf := h.leaf i s hs hinitial
        rw [hleaf]
        exact ⟨_, rfl, i, s, rfl, hs, hleaf⟩
      | some t =>
        obtain ⟨htarget, found, hmem, hclosed⟩ := h.inside i s t hs hinitial
        have hchoices : ∀ c, SmTarget.choice c ∈ found → ∀ u ∈ m.choiceTargets c, u ∈ found :=
          fun c hc u hu => (hclosed _ hc).2 c rfl hu
        have hdescends : ∀ c, t.target = .choice c → m.Descends k c := by
          intro c hc
          rw [hc] at htarget
          exact hk c htarget
        obtain ⟨j, hj, -⟩ := exists_state h hchoices hmem htarget hdescends
        have hcomposite := (substate_gt h hs (hclosed _ hj).1).2
        have hsettles : Settles guards m (d * (k + 1) + k) t.target := by
          refine settles_of_states h hchoices (fun j hj hvalid => ih hvalid ?_) hmem htarget
            hdescends
          have hgt := (substate_gt h hs (hclosed _ hj).1).1
          omega
        obtain ⟨r', hgo⟩ := goInitial_eq h
          (fun n hn => some.inj hn ▸ (show m.Valid (.state i) from hi)) htarget
          (r.perform s.entry)
        have henough : d * (k + 1) + k ≤ fuel := by
          rw [succ_mul] at hfuel
          omega
        obtain ⟨r'', henter, hleaf⟩ := hsettles fuel henough r'
        rw [hcomposite]
        exact ⟨r'', (hgo _).trans henter, hleaf⟩

theorem settles (hk : ∀ c < m.choices.length, m.Descends k c) (ht : m.Valid t) :
    Settles guards m (m.states.length * (k + 1) + k) t := by
  refine settles_of_states h (P := fun _ => True) (fun _ _ _ _ => trivial)
    (fun i _ hi => settles_state h hk hi (sub_le _ _)) trivial ht fun c hc => ?_
  rw [hc] at ht
  exact hk c ht

theorem take_ok (hsettles : ∀ t, m.Valid t → Settles guards m n t)
    {leaf source : Nat} {s : SmState} (hs : m.states[source]? = some s) {t : SmStateTransition}
    (ht : t ∈ s.transitions) (hleaf : m.Valid (.state leaf))
    (habove : Sm.Above (parent m) (.state source) (.state leaf)) (hr : AtLeaf m r) :
    ∃ r', take m guards n leaf source t r = .ok r' ∧ AtLeaf m r' := by
  rw [take]
  split
  · exact ⟨_, rfl, hr⟩
  · split
    · exact ⟨_, rfl, hr⟩
    · next target htarget =>
      have hvalid := h.transitions source s hs t ht target htarget
      have hsource : m.Valid (.state source) := (List.getElem?_eq_some_iff.mp hs).1
      obtain ⟨r', -, hgo⟩ := go_eq h hleaf hsource habove (t := ⟨t.actions, target⟩) hvalid
        { r with asked := r.asked + if t.guard.isNone then 0 else 1 }
      obtain ⟨r'', henter, hleaf⟩ := hsettles target hvalid n (Nat.le_refl _) r'
      exact ⟨r'', (hgo _).trans henter, hleaf⟩

theorem handle_ok (hsettles : ∀ t, m.Valid t → Settles guards m n t)
    (signal : String) {leaf : Nat} (hleaf : m.Valid (.state leaf)) (hr : AtLeaf m r)
    {bound cur : Nat} (hcur : m.Valid (.state cur)) (hbound : cur < bound)
    (habove : Sm.Above (parent m) (.state cur) (.state leaf)) :
    ∃ r', handle m guards n signal leaf r bound cur = .ok r' ∧ AtLeaf m r' := by
  induction bound generalizing cur with
  | zero => exact absurd hbound (not_lt_zero _)
  | succ bound ih =>
    obtain ⟨s, hs⟩ : ∃ s, m.states[cur]? = some s := ⟨_, getElem?_eq_getElem hcur⟩
    rw [handle, hs]
    dsimp only
    split
    · next t ht => exact take_ok h hsettles hs (mem_of_find?_eq_some ht) hleaf habove hr
    · split
      · next p hp =>
        have hlt := (h.parents cur s p hs hp).1
        have hparent : parent m (.state cur) = some (.state p) := by
          rw [parent, hs]
          exact congrArg (Option.map SmTarget.state) hp
        exact ih (Nat.lt_trans hlt hcur) (by omega) (habove.tail hparent)
      · exact ⟨r, rfl, hr⟩

theorem sendSignal_ok (hsettles : ∀ t, m.Valid t → Settles guards m n t)
    (signal : String) (hr : AtLeaf m r) :
    ∃ r', sendSignal m guards n r signal = .ok r' ∧ AtLeaf m r' := by
  obtain ⟨i, s, hstate, hs, -⟩ := id hr
  have hi : m.Valid (.state i) := (List.getElem?_eq_some_iff.mp hs).1
  rw [sendSignal, hstate]
  exact handle_ok h hsettles signal hi hr hi (lt_succ_of_lt hi) .refl

theorem init_ok (hsettles : ∀ t, m.Valid t → Settles guards m n t) (r : SmInstance) :
    ∃ r', init m guards n r = .ok r' ∧ AtLeaf m r' := by
  have hstart : ∀ n, (none : Option SmTarget) = some n → m.Valid n := fun _ hn => nomatch hn
  obtain ⟨r', hgo⟩ := goInitial_eq h hstart h.initial r
  obtain ⟨r'', henter, hleaf⟩ := hsettles m.initial.target h.initial n (Nat.le_refl _) r'
  exact ⟨r'', (hgo _).trans henter, hleaf⟩

end

/-- An accepted machine comes to a leaf by its initial transition and by every signal, whatever the
guards answer. -/
theorem accepted_reaches_leaf {rounds : Nat} {members : List StateMachineMember}
    {m : StateMachineModel} (haccepted : resolveStateMachine rounds members = .ok m) :
    ∃ bound, ∀ (guards : Nat → Bool) (signals : List String),
      ∃ r, run m guards bound signals = .ok r ∧
        ∃ i s, r.state = some i ∧ m.states[i]? = some s ∧ s.isLeaf = true := by
  have h := resolveStateMachine_sound haccepted
  obtain ⟨k, hk⟩ := h.descends
  refine ⟨m.states.length * (k + 1) + k, fun guards signals => ?_⟩
  have hsettles : ∀ t, m.Valid t → Settles guards m (m.states.length * (k + 1) + k) t :=
    fun t ht => settles h hk ht
  obtain ⟨r, hinit, hr⟩ := init_ok h hsettles .new
  obtain ⟨r', hrun, hr'⟩ := Runs.total_run
    (fun r signal hr _ => sendSignal_ok h hsettles signal hr) hr
    (Runs.alongM_of_forall (C := fun _ _ => True) (fun _ (_ : _ ∈ signals) _ => trivial) r)
  refine ⟨r', ?_, hr'⟩
  rw [run, hinit]
  exact hrun

def stateToChoice : List StateMachineMember :=
  [.defAction "a", .defGuard "g", .defSignal "toC", .defSignal "toS4", .defSignal "toS3",
    .specInitialTransition ⟨[], "S1", []⟩,
    .defState "S1"
      [.specInitialTransition ⟨[], "S2", []⟩,
        .specStateTransition "toC" none (.transition ⟨["a"], "S4", ["C"]⟩),
        .specStateTransition "toS4" (some "g") (.transition ⟨["a"], "S4", []⟩),
        .defState "S2" [.specStateTransition "toS3" none (.transition ⟨[], "S3", []⟩)],
        .defState "S3" []],
    .defState "S4"
      [.specInitialTransition ⟨[], "C", []⟩,
        .defChoice ⟨"C", "g", ⟨[], "S5", []⟩, ⟨["a"], "S6", []⟩⟩,
        .defState "S5" [],
        .defState "S6" []]]

theorem accepted_reaches_leaf_stateToChoice :
    ∃ m, resolveStateMachine 12 stateToChoice = .ok m ∧ m.states.length = 6 ∧
      ∃ bound, ∀ (guards : Nat → Bool) (signals : List String),
        ∃ r, run m guards bound signals = .ok r ∧
          ∃ i s, r.state = some i ∧ m.states[i]? = some s ∧ s.isLeaf = true := by
  obtain ⟨m, haccepted, hstates⟩ : ∃ m, resolveStateMachine 12 stateToChoice = .ok m ∧
      m.states.length = 6 := Runs.exists_ok (by decide +kernel)
  exact ⟨m, haccepted, hstates, accepted_reaches_leaf haccepted⟩

end Fprime.Comp.SmMacro
