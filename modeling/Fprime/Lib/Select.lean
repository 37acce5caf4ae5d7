import Mathlib.Order.Lattice
import Mathlib.Data.List.Basic

/-!
# Scanning for a best element

One pass over a list that keeps the candidate seen so far unless a later one is better. Where
"better" agrees with a linear order of keys, the pass ends at a greatest element.
-/

namespace Lib.Select

open List

variable {α β : Type} [LinearOrder β]

def pick (better : α → α → Bool) (best : Option α) (c : α) : Option α :=
  match best with
  | none => some c
  | some b => if better c b then some c else some b

def select (better : α → α → Bool) (xs : List α) : Option α :=
  xs.foldl (pick better) none

theorem foldl_pick_some {better : α → α → Bool} {key : α → β} (xs : List α) (b : α)
    (hb : ∀ c ∈ b :: xs, ∀ d ∈ b :: xs, better c d = true ↔ key d < key c) :
    ∃ m ∈ b :: xs, xs.foldl (pick better) (some b) = some m ∧ ∀ c ∈ b :: xs, key c ≤ key m := by
  induction xs generalizing b with
  | nil => exact ⟨b, mem_cons_self, rfl, by simp⟩
  | cons x xs ih =>
    have hbx := hb x (by simp) b (by simp)
    by_cases hlt : key b < key x
    · obtain ⟨m, hm, hfold, hmax⟩ := ih x fun c hc d hd =>
        hb c (mem_cons_of_mem _ hc) d (mem_cons_of_mem _ hd)
      refine ⟨m, mem_cons_of_mem _ hm, ?_, ?_⟩
      · rw [foldl_cons, pick, if_pos (hbx.mpr hlt), hfold]
      · intro c hc
        rcases mem_cons.mp hc with rfl | hc
        · exact hlt.le.trans (hmax x mem_cons_self)
        · exact hmax c hc
    · have hsub : ∀ c ∈ b :: xs, c ∈ b :: x :: xs := by
        intro c hc
        rcases mem_cons.mp hc with rfl | hc
        · exact mem_cons_self
        · exact mem_cons_of_mem _ (mem_cons_of_mem _ hc)
      obtain ⟨m, hm, hfold, hmax⟩ := ih b fun c hc d hd => hb c (hsub c hc) d (hsub d hd)
      refine ⟨m, hsub m hm, ?_, ?_⟩
      · rw [foldl_cons, pick, if_neg (fun h => hlt (hbx.mp h)), hfold]
      · intro c hc
        rcases mem_cons.mp hc with rfl | hc
        · exact hmax c mem_cons_self
        · rcases mem_cons.mp hc with rfl | hc
          · exact (not_lt.mp hlt).trans (hmax b mem_cons_self)
          · exact hmax c (mem_cons_of_mem _ hc)

/-- The scan of a nonempty list ends at one of its greatest elements. -/
theorem select_eq_some {better : α → α → Bool} {key : α → β} {xs : List α} (hne : xs ≠ [])
    (hb : ∀ c ∈ xs, ∀ d ∈ xs, better c d = true ↔ key d < key c) :
    ∃ m ∈ xs, select better xs = some m ∧ ∀ c ∈ xs, key c ≤ key m := by
  cases xs with
  | nil => exact absurd rfl hne
  | cons x xs => exact foldl_pick_some xs x hb

end Lib.Select
