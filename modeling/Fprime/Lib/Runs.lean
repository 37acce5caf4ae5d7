import Mathlib.Logic.Relation

/-!
# Invariants of runs

A run folds a step function over a list of inputs. A property that every step keeps, as long as it
meets a condition, holds at the end of every run whose steps meet it.
-/

namespace Lib.Runs

open List

variable {σ ι : Type}

/-- Every step of the run meets a condition on the state it starts from and on its input. -/
def Along (step : σ → ι → σ) (C : σ → ι → Prop) : σ → List ι → Prop
  | _, [] => True
  | s, i :: is => C s i ∧ Along step C (step s i) is

instance decidableAlong (step : σ → ι → σ) (C : σ → ι → Prop) [∀ s i, Decidable (C s i)] :
    ∀ s is, Decidable (Along step C s is)
  | _, [] => inferInstanceAs (Decidable True)
  | s, i :: is =>
    have := decidableAlong step C (step s i) is
    inferInstanceAs (Decidable (C s i ∧ Along step C (step s i) is))

variable {is : List ι} {s s' : σ} {C : σ → ι → Prop} {step : σ → ι → σ} {I : σ → Prop}

theorem Along.mono {D : σ → ι → Prop} (h : ∀ s i, C s i → D s i) (hs : Along step C s is) :
    Along step D s is := by
  induction is generalizing s with
  | nil => exact hs
  | cons i is ih => exact ⟨h s i hs.1, ih hs.2⟩

theorem along_of_forall (h : ∀ i ∈ is, ∀ s, C s i) (s : σ) : Along step C s is := by
  induction is generalizing s with
  | nil => exact trivial
  | cons i is ih =>
    exact ⟨h i mem_cons_self s, ih (fun j hj => h j (mem_cons_of_mem i hj)) _⟩

theorem along_append {js : List ι} (h : Along step C s is)
    (h' : Along step C (is.foldl step s) js) :
    Along step C s (is ++ js) := by
  induction is generalizing s with
  | nil => exact h'
  | cons i is ih => exact ⟨h.1, ih h.2 h'⟩

theorem invariant (hstep : ∀ s i, I s → C s i → I (step s i)) (hs : I s) (h : Along step C s is) :
    I (is.foldl step s) := by
  induction is generalizing s with
  | nil => exact hs
  | cons i is ih => exact ih (hstep s i hs h.1) h.2

variable {ε ε' α β : Type} {r : Except ε α}

variable {f : α → Except ε β} {e : ε}

theorem bind_eq_ok {b : β} :
    (r >>= f) = .ok b ↔ ∃ a, r = .ok a ∧ f a = .ok b := by
  cases r with
  | error e =>
    constructor
    · intro h
      cases h
    · rintro ⟨a, h, -⟩
      cases h
  | ok a =>
    constructor
    · exact fun h => ⟨a, rfl, h⟩
    · rintro ⟨_, h, hf⟩
      cases h
      exact hf

theorem map_eq_ok {f : α → β} {b : β} :
    r.map f = .ok b ↔ ∃ a, r = .ok a ∧ f a = b := by
  cases r with
  | error e => simp [Except.map]
  | ok a => simp [Except.map]

theorem mapError_eq_ok {f : ε → ε'} {a : α} :
    r.mapError f = .ok a ↔ r = .ok a := by
  cases r with
  | error e => exact ⟨nofun, nofun⟩
  | ok b =>
    constructor
    · intro h
      cases h
      rfl
    · intro h
      cases h
      rfl

@[simp] theorem mapError_ok (f : ε → ε') (a : α) :
    (Except.ok a).mapError f = .ok a :=
  rfl

theorem mapError_eq_error {f : ε → ε'} {e' : ε'} :
    r.mapError f = .error e' ↔ ∃ e, r = .error e ∧ f e = e' := by
  cases r with
  | error e =>
    constructor
    · intro h
      cases h
      exact ⟨e, rfl, rfl⟩
    · rintro ⟨_, h, rfl⟩
      cases h
      rfl
  | ok a => exact ⟨nofun, nofun⟩

theorem mapM_eq_ok {g : α → β} {as : List α}
    (h : ∀ a ∈ as, f a = .ok (g a)) : as.mapM f = .ok (as.map g) := by
  induction as with
  | nil => rfl
  | cons a as ih =>
    rw [mapM_cons, h a mem_cons_self, ih fun b hb => h b (mem_cons_of_mem a hb)]
    rfl

/-- How a computation fails, where results need not be comparable. -/
def failure {ε α : Type} : Except ε α → Option ε
  | .error e => some e
  | .ok _ => none

theorem failure_eq_some : failure r = some e ↔ r = .error e := by
  cases r with
  | error e' => simp [failure]
  | ok a => simp [failure]

theorem exists_ok {P : α → Prop} [DecidablePred P]
    (h : (r.toOption.any fun a => decide (P a)) = true) : ∃ a, r = .ok a ∧ P a := by
  cases r with
  | error e => cases h
  | ok a => exact ⟨a, rfl, of_decide_eq_true h⟩

theorem bind_eq_error :
    (r >>= f) = .error e ↔ r = .error e ∨ ∃ a, r = .ok a ∧ f a = .error e := by
  cases r with
  | error e' => simp [bind, Except.bind]
  | ok a => simp [bind, Except.bind]

variable {step : σ → ι → Except ε σ}

theorem invariantM (hstep : ∀ i ∈ is, ∀ s s', I s → step s i = .ok s' → I s') (hs : I s)
    (h : is.foldlM step s = .ok s') : I s' := by
  induction is generalizing s with
  | nil =>
    cases h
    exact hs
  | cons i is ih =>
    rw [foldlM_cons] at h
    cases hi : step s i with
    | error e =>
      rw [hi] at h
      cases h
    | ok s1 =>
      rw [hi] at h
      exact ih (fun j hj => hstep j (mem_cons_of_mem i hj))
        (hstep i mem_cons_self s s1 hs hi) h

/-- Every step of a run of steps that may fail meets a condition. -/
def AlongM {ε : Type} (step : σ → ι → Except ε σ) (C : σ → ι → Prop) : σ → List ι → Prop
  | _, [] => True
  | s, i :: is => C s i ∧ ∀ s', step s i = .ok s' → AlongM step C s' is

instance decidableAlongM {ε : Type} (step : σ → ι → Except ε σ) (C : σ → ι → Prop)
    [∀ s i, Decidable (C s i)] : ∀ s is, Decidable (AlongM step C s is)
  | _, [] => inferInstanceAs (Decidable True)
  | s, i :: is =>
    match h : step s i with
    | .error _ => decidable_of_iff (C s i) (by simp [AlongM, h])
    | .ok s' =>
      have := decidableAlongM step C s' is
      decidable_of_iff (C s i ∧ AlongM step C s' is) (by simp [AlongM, h])

theorem alongM_of_forall (h : ∀ i ∈ is, ∀ s, C s i) (s : σ) : AlongM step C s is := by
  induction is generalizing s with
  | nil => exact trivial
  | cons i is ih =>
    exact ⟨h i mem_cons_self s, fun s' _ => ih (fun j hj => h j (mem_cons_of_mem i hj)) s'⟩

theorem AlongM.and {D : σ → ι → Prop} (hC : AlongM step C s is)
    (hD : AlongM step D s is) : AlongM step (fun s i => C s i ∧ D s i) s is := by
  induction is generalizing s with
  | nil => exact trivial
  | cons i is ih => exact ⟨⟨hC.1, hD.1⟩, fun s' hs' => ih (hC.2 s' hs') (hD.2 s' hs')⟩

/-- Run as long as the steps meet the condition and do not fail. -/
def guarded {ε : Type} (step : σ → ι → Except ε σ) (C : σ → ι → Prop) [∀ s i, Decidable (C s i)] :
    σ → List ι → Option σ
  | s, [] => some s
  | s, i :: is => if C s i then (step s i).toOption.bind fun s' => guarded step C s' is else none

/-- One evaluation shows that a run goes through, with steps that meet the condition, and where it
ends. -/
theorem of_guarded [∀ s i, Decidable (C s i)] {P : σ → Prop} [DecidablePred P]
    (h : ((guarded step C s is).any fun s' => decide (P s')) = true) :
    AlongM step C s is ∧ ∃ s', is.foldlM step s = .ok s' ∧ P s' := by
  induction is generalizing s with
  | nil => exact ⟨trivial, s, rfl, of_decide_eq_true h⟩
  | cons i is ih =>
    rw [guarded] at h
    by_cases hC : C s i
    · rw [if_pos hC] at h
      cases hi : step s i with
      | error e =>
        rw [hi] at h
        cases h
      | ok s1 =>
        rw [hi] at h
        obtain ⟨halong, s', hrun, hP⟩ := ih h
        refine ⟨⟨hC, fun s2 hs2 => ?_⟩, s', ?_, hP⟩
        · rw [hi] at hs2
          cases hs2
          exact halong
        · rw [foldlM_cons, hi]
          exact hrun
    · rw [if_neg hC] at h
      cases h

/-- A run that goes through, with steps that meet a condition, keeps a property that may speak of
the inputs so far. -/
theorem invariant_runM {I : List ι → σ → Prop}
    (hstep : ∀ past s i s', I past s → C s i → step s i = .ok s' → I (past ++ [i]) s')
    {past : List ι} (hs : I past s) (h : AlongM step C s is) (hrun : is.foldlM step s = .ok s') :
    I (past ++ is) s' := by
  induction is generalizing past s with
  | nil =>
    cases hrun
    simpa using hs
  | cons i is ih =>
    rw [foldlM_cons] at hrun
    obtain ⟨s1, hi, hrun⟩ := bind_eq_ok.mp hrun
    simpa using ih (hstep past s i s1 hs h.1 hi) (h.2 s1 hi) hrun

/-- Where no step that meets the condition fails, neither does the run; the property may speak of
the inputs so far. -/
theorem total_runM {I : List ι → σ → Prop}
    (hstep : ∀ past s i, I past s → C s i → ∃ s', step s i = .ok s' ∧ I (past ++ [i]) s')
    {past : List ι} (hs : I past s) (h : AlongM step C s is) :
    ∃ s', is.foldlM step s = .ok s' ∧ I (past ++ is) s' := by
  induction is generalizing past s with
  | nil => exact ⟨s, rfl, by simpa using hs⟩
  | cons i is ih =>
    obtain ⟨s1, hi, hs1⟩ := hstep past s i hs h.1
    obtain ⟨s', hrun, hs'⟩ := ih hs1 (h.2 s1 hi)
    refine ⟨s', ?_, by simpa using hs'⟩
    rw [foldlM_cons, hi]
    exact hrun

theorem total_run (hstep : ∀ s i, I s → C s i → ∃ s', step s i = .ok s' ∧ I s') (hs : I s)
    (h : AlongM step C s is) : ∃ s', is.foldlM step s = .ok s' ∧ I s' :=
  @total_runM _ _ _ _ _ _ _ (fun _ => I) (fun _ => hstep) [] hs h

theorem invariant_run (hstep : ∀ s i s', I s → C s i → step s i = .ok s' → I s') (hs : I s)
    (h : AlongM step C s is) (hrun : is.foldlM step s = .ok s') : I s' :=
  @invariant_runM _ _ _ _ _ _ _ _ (fun _ => I) (fun _ => hstep) [] hs h hrun

section Rounds

variable {I : Nat → σ → Prop} {Awaits : σ → ι → Prop}
  (hstep : ∀ n s i, I n s → ∃ s' m, step s i = .ok s' ∧ I m s' ∧ m ≤ n ∧
    (m < n ∨ n = 0 ∨ ¬Awaits s i ∧ ∀ j, Awaits s j → Awaits s' j))

include hstep

theorem nearer_by_run (is : List ι) {n : Nat} (hs : I n s) :
    ∃ s' m, is.foldlM step s = .ok s' ∧ I m s' ∧ m ≤ n := by
  induction is generalizing s n with
  | nil => exact ⟨s, n, rfl, hs, Nat.le_refl n⟩
  | cons i is ih =>
    obtain ⟨s1, n1, hi, hs1, hle1, -⟩ := hstep n s i hs
    obtain ⟨s', m, hrun, hs', hle⟩ := ih hs1
    refine ⟨s', m, ?_, hs', Nat.le_trans hle hle1⟩
    rw [foldlM_cons, hi]
    exact hrun

theorem nearer_by_round {n : Nat} (hs : I n s) (h : 0 < n → ∃ i ∈ is, Awaits s i) :
    ∃ s' m, is.foldlM step s = .ok s' ∧ I m s' ∧ m ≤ n - 1 := by
  induction is generalizing s n with
  | nil =>
    have hzero : n = 0 := Nat.eq_zero_of_not_pos fun hpos => by simpa using h hpos
    exact ⟨s, n, rfl, hs, by omega⟩
  | cons i is ih =>
    obtain ⟨s1, n1, hi, hs1, hle1, hlater⟩ := hstep n s i hs
    have hrest : ∃ s' m, is.foldlM step s1 = .ok s' ∧ I m s' ∧ m ≤ n - 1 := by
      by_cases hless : n1 ≤ n - 1
      · obtain ⟨s', m, hrun, hs', hle⟩ := nearer_by_run hstep is hs1
        exact ⟨s', m, hrun, hs', Nat.le_trans hle hless⟩
      · obtain rfl : n1 = n := by omega
        obtain ⟨hnot, hkeep⟩ := (hlater.resolve_left (Nat.lt_irrefl _)).resolve_left (by omega)
        refine ih hs1 fun hpos => ?_
        obtain ⟨j, hj, hawaits⟩ := h hpos
        rcases mem_cons.mp hj with rfl | hj
        · exact absurd hawaits hnot
        · exact ⟨j, hj, hkeep j hawaits⟩
    obtain ⟨s', m, hrun, hs', hle⟩ := hrest
    refine ⟨s', m, ?_, hs', hle⟩
    rw [foldlM_cons, hi]
    exact hrun

/-- With something that is awaited in every round, as many rounds are enough as there are steps
left to be made. -/
theorem settled_by_rounds {rounds : List (List ι)} {n : Nat} (hs : I n s)
    (h : ∀ r ∈ rounds, ∀ n s, I n s → 0 < n → ∃ i ∈ r, Awaits s i) (hlen : n ≤ rounds.length) :
    ∃ s', rounds.flatten.foldlM step s = .ok s' ∧ I 0 s' := by
  induction rounds generalizing s n with
  | nil =>
    obtain rfl := Nat.le_zero.mp hlen
    exact ⟨s, rfl, hs⟩
  | cons r rounds ih =>
    obtain ⟨s1, n1, hr, hs1, hle⟩ := nearer_by_round hstep hs (h r mem_cons_self n s hs)
    rw [length_cons] at hlen
    obtain ⟨s', hrun, hs'⟩ := ih hs1 (fun r' hr' => h r' (mem_cons_of_mem r hr')) (by omega)
    refine ⟨s', ?_, hs'⟩
    rw [flatten_cons, foldlM_append, hr]
    exact hrun

end Rounds

theorem kept_by_steps {ν : Type} {R : ν → ν → Prop} {I : ν → Prop}
    (h : ∀ v v', R v v' → I v → I v') {v w : ν} (hvw : Relation.ReflTransGen R v w) (hv : I v) :
    I w := by
  induction hvw with
  | refl => exact hv
  | tail _ hstep ih => exact h _ _ hstep ih

end Lib.Runs
