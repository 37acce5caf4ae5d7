import Mathlib.Data.List.Range

/-!
# Slab storage

Flat storage cut into equal slots: a write to one slot is read back from it and leaves the
other slots alone.
-/

namespace Lib.Slab

variable {α : Type}

variable (d : Nat → α)

def writeAt (off : Nat) (xs : List α) : Nat → α :=
  fun i => if off ≤ i then (xs[i - off]?).getD (d i) else d i

def readAt (off n : Nat) : List α :=
  (List.range n).map fun k => d (off + k)

@[simp] theorem readAt_length (off n : Nat) : (readAt d off n).length = n := by
  simp [readAt]

theorem readAt_writeAt_same (off : Nat) (xs : List α) {n : Nat}
    (h : xs.length ≤ n) :
    readAt (writeAt d off xs) off n = xs ++ readAt d (off + xs.length) (n - xs.length) := by
  apply List.ext_getElem?
  intro k
  by_cases hk : k < n
  · by_cases hx : k < xs.length
    · simp [readAt, writeAt, hk, hx, List.getElem?_append_left hx]
    · have hk' : k - xs.length < n - xs.length := by omega
      have hsum : off + xs.length + (k - xs.length) = off + k := by omega
      simp [readAt, writeAt, hk, hk', List.getElem?_append_right (Nat.le_of_not_lt hx),
        List.getElem?_eq_none (Nat.le_of_not_lt hx), hsum]
  · have hlen : (xs ++ readAt d (off + xs.length) (n - xs.length)).length ≤ k := by
      simp
      omega
    rw [List.getElem?_eq_none hlen, List.getElem?_eq_none (by simp; omega)]

theorem readAt_writeAt_disjoint (off off' n : Nat) (xs : List α)
    (h : off' + n ≤ off ∨ off + xs.length ≤ off') :
    readAt (writeAt d off xs) off' n = readAt d off' n := by
  unfold readAt
  apply List.map_congr_left
  intro k hk
  have hk' := List.mem_range.mp hk
  unfold writeAt
  by_cases hle : off ≤ off' + k
  · rw [if_pos hle, List.getElem?_eq_none (by omega), Option.getD_none]
  · rw [if_neg hle]

theorem slots_disjoint {i j w n m : Nat} (h : i ≠ j) (hn : n ≤ w) (hm : m ≤ w) :
    j * w + n ≤ i * w ∨ i * w + m ≤ j * w := by
  rcases Nat.lt_or_gt_of_ne h with hlt | hgt
  · right
    calc i * w + m ≤ i * w + w := by omega
      _ = (i + 1) * w := by rw [Nat.add_one_mul]
      _ ≤ j * w := Nat.mul_le_mul_right w hlt
  · left
    calc j * w + n ≤ j * w + w := by omega
      _ = (j + 1) * w := by rw [Nat.add_one_mul]
      _ ≤ i * w := Nat.mul_le_mul_right w hgt

end Lib.Slab
