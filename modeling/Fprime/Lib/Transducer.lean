import Mathlib.Data.Option.Defs
import Mathlib.Logic.Basic

/-!
# Runs of a state machine with outputs

A machine answers each input with an output and either a next state or a stop. Two machines
whose states stay related answer every input sequence alike.
-/

namespace Lib.Transducer

variable {σ τ ι ο : Type}

def run (step : σ → ι → ο × Option σ) : σ → List ι → List ο
  | _, [] => []
  | s, i :: is =>
    match step s i with
    | (o, none) => [o]
    | (o, some s') => o :: run step s' is

def final (step : σ → ι → ο × Option σ) : σ → List ι → Option σ
  | s, [] => some s
  | s, i :: is =>
    match step s i with
    | (_, none) => none
    | (_, some s') => final step s' is

def Always (step : σ → ι → ο × Option σ) (P : σ → Prop) : σ → List ι → Prop
  | s, [] => P s
  | s, i :: is =>
    P s ∧
      match step s i with
      | (_, none) => True
      | (_, some s') => Always step P s' is

instance decidableAlways (step : σ → ι → ο × Option σ) (P : σ → Prop) [DecidablePred P] :
    ∀ s is, Decidable (Always step P s is)
  | s, [] => inferInstanceAs (Decidable (P s))
  | s, i :: is =>
    match hs : step s i with
    | (_, none) => decidable_of_iff (P s) (by simp [Always, hs])
    | (_, some s') =>
      have := decidableAlways step P s' is
      decidable_of_iff (P s ∧ Always step P s' is) (by simp [Always, hs])

variable {is : List ι} {s s' : σ} {P : σ → Prop} {step : σ → ι → ο × Option σ}

theorem Always.head (h : Always step P s is) : P s := by
  cases is with
  | nil => exact h
  | cons i is => exact h.1

theorem Always.tail {i : ι} {o : ο} (h : Always step P s (i :: is)) (hs : step s i = (o, some s')) :
    Always step P s' is := by
  have h' := h.2
  rw [hs] at h'
  exact h'

theorem Always.mono {Q : σ → Prop} (hPQ : ∀ s, P s → Q s) (h : Always step P s is) :
    Always step Q s is := by
  induction is generalizing s with
  | nil => exact hPQ s h
  | cons i is ih =>
    refine ⟨hPQ s h.1, ?_⟩
    rcases hs : step s i with ⟨o, _ | s'⟩
    · trivial
    · exact ih (h.tail hs)

theorem run_append {js : List ι} (h : final step s is = some s') :
    run step s (is ++ js) = run step s is ++ run step s' js := by
  induction is generalizing s with
  | nil =>
    cases h
    rfl
  | cons i is ih =>
    rcases hs : step s i with ⟨o, _ | s''⟩
    · simp [final, hs] at h
    · simp only [final, hs] at h
      simp only [List.cons_append, run, hs, ih h]

theorem always_append {js : List ι} (hfin : final step s is = some s') (his : Always step P s is)
    (hjs : Always step P s' js) :
    Always step P s (is ++ js) := by
  induction is generalizing s with
  | nil =>
    cases hfin
    exact hjs
  | cons i is ih =>
    refine ⟨his.1, ?_⟩
    rcases hs : step s i with ⟨o, _ | s''⟩
    · trivial
    · simp only [final, hs] at hfin
      exact ih hfin (his.tail hs)

section Simulation

variable {step₁ : σ → ι → ο × Option σ} {step₂ : τ → ι → ο × Option τ} {R : σ → τ → Prop}
  {P : τ → Prop}

/-- One step keeps the relation and answers alike, where the second machine's state allows. -/
def Simulates (step₁ : σ → ι → ο × Option σ) (step₂ : τ → ι → ο × Option τ)
    (R : σ → τ → Prop) (P : τ → Prop) : Prop :=
  ∀ s t i, R s t → P t →
    (step₁ s i).1 = (step₂ t i).1 ∧ Option.Rel R (step₁ s i).2 (step₂ t i).2

theorem Simulates.run_eq (h : Simulates step₁ step₂ R P) {s : σ} {t : τ} (hR : R s t)
    {is : List ι} (hP : Always step₂ P t is) : run step₁ s is = run step₂ t is := by
  induction is generalizing s t with
  | nil => rfl
  | cons i is ih =>
    obtain ⟨hout, hnext⟩ := h s t i hR hP.head
    rcases h1 : step₁ s i with ⟨o1, n1⟩
    rcases h2 : step₂ t i with ⟨o2, n2⟩
    rw [h1, h2] at hout hnext
    obtain rfl : o1 = o2 := hout
    cases hnext with
    | none => simp only [run, h1, h2]
    | some hR' => simp only [run, h1, h2, ih hR' (hP.tail h2)]

theorem Simulates.final_rel (h : Simulates step₁ step₂ R P) {s : σ} {t : τ} (hR : R s t)
    {is : List ι} (hP : Always step₂ P t is) :
    Option.Rel R (final step₁ s is) (final step₂ t is) := by
  induction is generalizing s t with
  | nil => exact .some hR
  | cons i is ih =>
    obtain ⟨-, hnext⟩ := h s t i hR hP.head
    rcases h1 : step₁ s i with ⟨o1, n1⟩
    rcases h2 : step₂ t i with ⟨o2, n2⟩
    rw [h1, h2] at hnext
    cases hnext with
    | none =>
      simp only [final, h1, h2]
      exact .none
    | some hR' =>
      simp only [final, h1, h2]
      exact ih hR' (hP.tail h2)

end Simulation

end Lib.Transducer
