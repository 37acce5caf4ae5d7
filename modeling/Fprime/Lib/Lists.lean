import Mathlib.Data.List.Nodup
import Mathlib.Data.List.Perm.Subperm

/-!
# Lists that correspond element by element, lists with one element replaced, and storage in which
a block is moved
-/

namespace Lib.Lists

open List Function

variable {α β : Type} {R : α → β → Prop}

variable {l₁ xs : List α} {l₂ : List β} {a x x' : α} {i : Nat} {f : α → Option β}

theorem forall₂_split_left (h : List.Forall₂ R l₁ l₂) (ha : a ∈ l₁) :
    ∃ a1 a2 b1 b b2, l₁ = a1 ++ a :: a2 ∧ l₂ = b1 ++ b :: b2 ∧ R a b ∧
      List.Forall₂ R a1 b1 ∧ List.Forall₂ R a2 b2 := by
  induction h with
  | nil => simp at ha
  | @cons x y xs ys hxy hrest ih =>
    by_cases hax : a = x
    · subst hax
      exact ⟨[], xs, [], y, ys, rfl, rfl, hxy, .nil, hrest⟩
    · have hmem : a ∈ xs := by
        rcases mem_cons.mp ha with h | h
        · exact absurd h hax
        · exact h
      obtain ⟨a1, a2, b1, b, b2, rfl, rfl, hab, h1, h2⟩ := ih hmem
      exact ⟨x :: a1, a2, y :: b1, b, b2, rfl, rfl, hab, .cons hxy h1, h2⟩

theorem forall₂_mem_right (h : List.Forall₂ R l₁ l₂) {b : β} (hb : b ∈ l₂) : ∃ a ∈ l₁, R a b := by
  induction h with
  | nil => simp at hb
  | cons hxy hrest ih =>
    rcases mem_cons.mp hb with rfl | hb
    · exact ⟨_, mem_cons_self, hxy⟩
    · obtain ⟨a, ha, hR⟩ := ih hb
      exact ⟨a, mem_cons_of_mem _ ha, hR⟩

theorem forall₂_mem_left (h : List.Forall₂ R l₁ l₂) (ha : a ∈ l₁) : ∃ b ∈ l₂, R a b := by
  obtain ⟨a1, a2, b1, b, b2, -, rfl, hab, -, -⟩ := forall₂_split_left h ha
  exact ⟨b, by simp, hab⟩

theorem forall₂_imp_of_mem {S : α → β → Prop} (h : List.Forall₂ R l₁ l₂)
    (himp : ∀ a ∈ l₁, ∀ b, R a b → S a b) : List.Forall₂ S l₁ l₂ := by
  induction h with
  | nil => exact .nil
  | cons hxy hrest ih =>
    exact .cons (himp _ mem_cons_self _ hxy)
      (ih fun a ha => himp a (mem_cons_of_mem _ ha))

theorem erase_append_cons [DecidableEq α] {l₂ : List α} (h : a ∉ l₁) :
    (l₁ ++ a :: l₂).erase a = l₁ ++ l₂ := by
  rw [erase_append_right _ h, erase_cons_head]

theorem exists_lt_not_mem {n : Nat} {l : List Nat} (h : l.length < n) : ∃ i < n, i ∉ l := by
  by_contra hall
  push Not at hall
  have hsub : range n ⊆ l := fun i hi => hall i (mem_range.mp hi)
  have hle := (nodup_range.subperm hsub).length_le
  rw [length_range] at hle
  omega

theorem mem_of_length_ge {n : Nat} {l : List Nat} (hnd : l.Nodup) (hlt : ∀ i ∈ l, i < n)
    (hlen : n ≤ l.length) (hi : i < n) : i ∈ l := by
  have hsub : l ⊆ range n := fun j hj => mem_range.mpr (hlt j hj)
  have hperm := (hnd.subperm hsub).perm_of_length_le (by rw [length_range]; exact hlen)
  exact hperm.mem_iff.mpr (mem_range.mpr hi)

theorem insertIdx_length_append (l m : List α) (x : α) :
    (l ++ m).insertIdx l.length x = l ++ x :: m := by
  induction l with
  | nil => simp
  | cons y l ih => simpa using ih

theorem filterMap_set_perm {y : β} (hx : xs[i]? = some x) (hy : f x = some y) (hx' : f x' = none) :
    (xs.filterMap f).Perm (y :: (xs.set i x').filterMap f) := by
  induction xs generalizing i with
  | nil => simp at hx
  | cons a xs ih =>
    cases i with
    | zero =>
      obtain rfl : a = x := by simpa using hx
      simp [hy, hx']
    | succ i =>
      have htail := ih (by simpa using hx)
      cases ha : f a with
      | none => simpa [ha] using htail
      | some b => simpa [ha] using (htail.cons b).trans (List.Perm.swap y b _)

theorem filterMap_set_eq (hx : xs[i]? = some x) (h : f x' = f x) :
    (xs.set i x').filterMap f = xs.filterMap f := by
  induction xs generalizing i with
  | nil => rfl
  | cons a xs ih =>
    cases i with
    | zero =>
      obtain rfl : a = x := by simpa using hx
      simp only [set_cons_zero, filterMap_cons, h]
    | succ i => simp [filterMap_cons, ih (by simpa using hx : xs[i]? = some x)]

theorem filterMap_set_perm_of_none {y : β} (hx : xs[i]? = some x) (hnone : f x = none)
    (hy : f x' = some y) :
    ((xs.set i x').filterMap f).Perm (y :: xs.filterMap f) := by
  have hlt : i < xs.length := (List.getElem?_eq_some_iff.mp hx).1
  have hperm := filterMap_set_perm (getElem?_set_self hlt) hy hnone
  rwa [set_set, filterMap_set_eq hx rfl] at hperm

theorem getElem?_concat_eq_some {y : α} :
    (xs ++ [y])[i]? = some x ↔ xs[i]? = some x ∨ (i = xs.length ∧ x = y) := by
  rw [getElem?_append]
  split
  · rename_i hlt
    constructor
    · exact .inl
    · rintro (h | ⟨rfl, -⟩)
      · exact h
      · exact absurd hlt (Nat.lt_irrefl _)
  · rename_i hge
    rw [getElem?_singleton, getElem?_eq_none (Nat.le_of_not_lt hge)]
    constructor
    · intro h
      split at h
      · exact .inr ⟨by omega, (Option.some.inj h).symm⟩
      · cases h
    · rintro (h | ⟨rfl, rfl⟩)
      · cases h
      · simp

theorem getElem?_set_eq_some {y : α} {k : Nat} (h : (xs.set i y)[k]? = some x) :
    (k = i ∧ x = y) ∨ (k ≠ i ∧ xs[k]? = some x) := by
  by_cases hk : i = k
  · subst hk
    rw [getElem?_set] at h
    simp only [if_true, Option.ite_none_right_eq_some, Option.some.injEq] at h
    exact .inl ⟨rfl, h.2.symm⟩
  · rw [getElem?_set_ne hk] at h
    exact .inr ⟨Ne.symm hk, h⟩

theorem flatMap_update_perm {ι : Type} [DecidableEq ι] {is : List ι} (hnodup : is.Nodup) {i : ι}
    (hi : i ∈ is) (f : ι → List α) (l : List α) :
    (is.flatMap (update f i l)).Perm (l ++ is.flatMap (update f i [])) := by
  induction is with
  | nil => cases hi
  | cons j js ih =>
    obtain ⟨hj, hjs⟩ := nodup_cons.mp hnodup
    rw [flatMap_cons, flatMap_cons]
    by_cases hij : j = i
    · subst hij
      have hsame : ∀ l', js.flatMap (update f j l') = js.flatMap f := by
        intro l'
        refine flatMap_congr fun k hk => ?_
        have hne : k ≠ j := fun he => hj (he ▸ hk)
        exact update_of_ne hne _ _
      rw [update_self, update_self, hsame, hsame]
      rfl
    · rw [update_of_ne hij, update_of_ne hij]
      have hmem := (mem_cons.mp hi).resolve_left (Ne.symm hij)
      refine ((ih hjs hmem).append_left (f j)).trans ?_
      rw [← append_assoc, ← append_assoc]
      exact perm_append_comm.append_right _

theorem map_eq_filterMap_take {α β γ : Type} {f : α → Option γ} {g : β → γ} {xs : List α}
    {ys : List β} (h : ∀ (j : Nat) y, ys[j]? = some y → ∃ x, xs[j]? = some x ∧ f x = some (g y)) :
    ys.map g = (xs.take ys.length).filterMap f := by
  induction ys generalizing xs with
  | nil => simp
  | cons y ys ih =>
    obtain ⟨x, hx, hxy⟩ := h 0 y rfl
    cases xs with
    | nil => cases hx
    | cons x' xs =>
      cases hx
      have htail := @ih xs fun j z hz => h (j + 1) z hz
      simp [hxy, htail]

/-- The block from `start` up to `stop` is copied to `dest`; the two may overlap. -/
def copyWithin (l : List α) (start stop dest : Nat) : List α :=
  l.take dest ++ (l.drop start).take (stop - start) ++ l.drop (dest + (stop - start))

theorem copyWithin_down (front gap block spare : List α) :
    ∃ spare', copyWithin (front ++ gap ++ block ++ spare) (front.length + gap.length)
        (front.length + gap.length + block.length) front.length = front ++ block ++ spare' ∧
      spare'.length = gap.length + spare.length := by
  refine ⟨(gap ++ block ++ spare).drop block.length, ?_, ?_⟩
  · have hfront : (front ++ gap ++ block ++ spare).take front.length = front := by
      rw [append_assoc, append_assoc, take_left]
    have hblock : ((front ++ gap ++ block ++ spare).drop (front.length + gap.length)).take
        block.length = block := by
      rw [← length_append, append_assoc _ block, drop_left, take_left]
    have htail : (front ++ gap ++ block ++ spare).drop (front.length + block.length) =
        (gap ++ block ++ spare).drop block.length := by
      rw [append_assoc, append_assoc, ← drop_drop, drop_left, append_assoc]
    rw [copyWithin, Nat.add_sub_cancel_left, hfront, hblock, htail]
  · simp only [length_drop, length_append]
    omega

theorem copyWithin_up (front block : List α) (x : α) (spare : List α) :
    ∃ y, copyWithin (front ++ block ++ x :: spare) front.length (front.length + block.length)
      (front.length + 1) = front ++ y :: (block ++ spare) := by
  obtain ⟨y, rest, hy⟩ : ∃ y rest, block ++ x :: spare = y :: rest := by
    cases block with
    | nil => exact ⟨x, spare, rfl⟩
    | cons y block => exact ⟨y, block ++ x :: spare, rfl⟩
  refine ⟨y, ?_⟩
  have hfront : (front ++ block ++ x :: spare).take (front.length + 1) = front ++ [y] := by
    rw [append_assoc, hy, take_length_add_append]
    rfl
  have hblock : ((front ++ block ++ x :: spare).drop front.length).take block.length = block := by
    rw [append_assoc, drop_left, take_left]
  have htail : (front ++ block ++ x :: spare).drop (front.length + 1 + block.length) = spare := by
    rw [Nat.add_right_comm, ← length_append, ← drop_drop, drop_left]
    rfl
  rw [copyWithin, Nat.add_sub_cancel_left, hfront, hblock, htail, append_assoc,
    append_assoc]
  rfl

end Lib.Lists
