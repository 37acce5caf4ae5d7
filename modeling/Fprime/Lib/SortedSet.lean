import Mathlib.Data.List.Nodup
import Mathlib.Order.Lattice

/-!
# Sorted sets of bounded size

A set kept as a list in the order of its keys, no two of which are equal. A new element needs
room; one whose key is there replaces the old one.
-/

namespace Lib

open List

variable {α κ : Type} [LinearOrder κ]

structure SortedSet (key : α → κ) (bound : Nat) where
  entries : List α
  sorted : entries.Pairwise fun a b => key a < key b
  fits : entries.length ≤ bound

namespace SortedSet

variable {key : α → κ} {bound : Nat} {a b : α}

def empty : SortedSet key bound :=
  ⟨[], .nil, Nat.zero_le _⟩

def find (s : SortedSet key bound) (a : α) : Bool :=
  s.entries.any fun b => key b = key a

variable {s : SortedSet key bound} {l : List α}

theorem find_eq_true :
    s.find a = true ↔ ∃ b ∈ s.entries, key b = key a := by
  rw [find, any_eq_true]
  simp

theorem find_eq_false :
    s.find a = false ↔ ∀ b ∈ s.entries, key b ≠ key a := by
  rw [find, any_eq_false]
  simp

def place (key : α → κ) (a : α) : List α → List α
  | [] => [a]
  | b :: rest => if key a < key b then a :: b :: rest else b :: place key a rest

theorem place_perm (l : List α) : (place key a l).Perm (a :: l) := by
  induction l with
  | nil => exact List.Perm.refl _
  | cons b l ih =>
    rw [place]
    split
    · exact List.Perm.refl _
    · exact (ih.cons b).trans (List.Perm.swap a b l)

theorem place_sorted (h : l.Pairwise fun a b => key a < key b) (hne : ∀ b ∈ l, key b ≠ key a) :
    (place key a l).Pairwise fun a b => key a < key b := by
  induction l with
  | nil => exact pairwise_singleton _ _
  | cons b l ih =>
    obtain ⟨hb, hl⟩ := pairwise_cons.mp h
    rw [place]
    split
    · next hlt =>
      refine pairwise_cons.mpr ⟨fun c hc => ?_, h⟩
      rcases mem_cons.mp hc with rfl | hc
      · exact hlt
      · exact lt_trans hlt (hb c hc)
    · next hlt =>
      refine pairwise_cons.mpr
        ⟨fun c hc => ?_, ih hl fun c hc => hne c (mem_cons_of_mem b hc)⟩
      rcases mem_cons.mp ((place_perm l).mem_iff.mp hc) with rfl | hc
      · exact lt_of_le_of_ne (not_lt.mp hlt) (hne b mem_cons_self)
      · exact hb c hc

theorem length_place_le (h : l.length < bound) : (place key a l).length ≤ bound := by
  rw [(place_perm l).length_eq, length_cons]
  exact h

theorem sorted_replace (a : α) (h : l.Pairwise fun a b => key a < key b) :
    (l.map fun b => if key b = key a then a else b).Pairwise fun a b => key a < key b := by
  have hkey : ∀ b, key (if key b = key a then a else b) = key b := by
    intro b
    split
    · next heq => exact heq.symm
    · rfl
  rw [pairwise_map]
  simpa only [hkey] using h

/-- Without a result the set is full. -/
def insert (s : SortedSet key bound) (a : α) : Option (SortedSet key bound) :=
  if h : s.find a = true then
    some ⟨s.entries.map fun b => if key b = key a then a else b, sorted_replace a s.sorted,
      (length_map _).trans_le s.fits⟩
  else if hroom : s.entries.length < bound then
    some ⟨place key a s.entries,
      place_sorted s.sorted (find_eq_false.mp (Bool.not_eq_true _ ▸ h)), length_place_le hroom⟩
  else none

/-- Without a result there is no element with the key. -/
def remove (s : SortedSet key bound) (a : α) : Option (SortedSet key bound) :=
  if s.find a = true then
    some ⟨s.entries.filter fun b => key b ≠ key a, s.sorted.filter _,
      Nat.le_trans (length_filter_le _ _) s.fits⟩
  else none

def first (s : SortedSet key bound) : Option α :=
  s.entries.head?

theorem insert_perm {s' : SortedSet key bound} (hnew : s.find a = false) (h : s.insert a = some s') :
    s'.entries.Perm (a :: s.entries) := by
  rw [insert, dif_neg (by simp [hnew])] at h
  split at h
  · cases h
    exact place_perm s.entries
  · cases h

theorem remove_perm (ha : a ∈ s.entries) :
    ∃ s', s.remove a = some s' ∧ s.entries.Perm (a :: s'.entries) := by
  refine ⟨_, if_pos (find_eq_true.mpr ⟨a, ha, rfl⟩), ?_⟩
  obtain ⟨front, back, hsplit⟩ := append_of_mem ha
  have hothers : ∀ b ∈ front ++ back, key b ≠ key a := by
    have hsorted := s.sorted
    rw [hsplit, pairwise_append, pairwise_cons] at hsorted
    obtain ⟨-, ⟨hback, -⟩, hfront⟩ := hsorted
    intro b hb
    rcases mem_append.mp hb with hb | hb
    · exact ne_of_lt (hfront b hb a mem_cons_self)
    · exact ne_of_gt (hback b hb)
  have hkeep : s.entries.filter (fun b => key b ≠ key a) = front ++ back := by
    have hself : decide (key a ≠ key a) = false := by simp
    rw [hsplit, filter_append, filter_cons, hself, if_neg Bool.false_ne_true,
      ← filter_append, filter_eq_self]
    exact fun b hb => decide_eq_true (hothers b hb)
  show s.entries.Perm (a :: s.entries.filter _)
  rw [hkeep, hsplit]
  exact perm_middle

theorem remove_congr (s : SortedSet key bound) (h : key a = key b) : s.remove a = s.remove b := by
  simp only [remove, find, h]
  rfl

theorem first_eq_some (h : s.first = some a) :
    a ∈ s.entries ∧ ∀ b ∈ s.entries, key a ≤ key b := by
  obtain ⟨rest, hrest⟩ := head?_eq_some_iff.mp h
  have hsorted := s.sorted
  rw [hrest, pairwise_cons] at hsorted
  rw [hrest]
  refine ⟨mem_cons_self, fun b hb => ?_⟩
  rcases mem_cons.mp hb with rfl | hb
  · exact le_rfl
  · exact le_of_lt (hsorted.1 b hb)

end SortedSet

end Lib
