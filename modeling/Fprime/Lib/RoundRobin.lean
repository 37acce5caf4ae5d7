import Mathlib.Data.List.Pairwise
import Mathlib.Data.List.Nodup
import Mathlib.Order.Lattice
import Mathlib.Data.List.Perm.Basic

/-!
# Round-robin service by priority

A list ordered by priority is served from the front: the first ready element is taken and put behind
all others of its priority. An element that stays ready is overtaken by each of the others at most
once.
-/

namespace Lib.RoundRobin

open List

variable {α β : Type} [LinearOrder β] (prio : α → β)

/-- Put an element behind those of its priority at the head of a list. -/
def sink (e : α) : List α → List α
  | [] => [e]
  | x :: xs => if prio x = prio e then x :: sink e xs else e :: x :: xs

/-- The first ready element, and the list with it put behind those of its priority. -/
def serve (ready : α → Bool) : List α → Option (α × List α)
  | [] => none
  | e :: rest =>
    if ready e then some (e, sink prio e rest)
    else (serve ready rest).map fun r => (r.1, e :: r.2)

def pass : Nat → List α → List α
  | k + 1, x :: y :: rest =>
    if prio y < prio x then y :: pass k (x :: rest) else x :: pass k (y :: rest)
  | _, l => l

def bubbleSort (l : List α) : List α :=
  (range (l.length - 1)).foldl (fun l i => pass prio (l.length - i - 1) l) l

abbrev Sorted (l : List α) : Prop :=
  l.Pairwise fun a b => prio a ≤ prio b

abbrev Before (l : List α) (x y : α) : Prop :=
  [x, y].Sublist l

variable {prio}

theorem sink_perm (e : α) (l : List α) : (sink prio e l).Perm (e :: l) := by
  induction l with
  | nil => rfl
  | cons x xs ih =>
    unfold sink
    split
    · exact (ih.cons x).trans (List.Perm.swap e x xs)
    · rfl

theorem sink_sorted {e : α} {l : List α} (h : Sorted prio (e :: l)) :
    Sorted prio (sink prio e l) := by
  induction l with
  | nil => exact h
  | cons x xs ih =>
    unfold sink
    split
    · rename_i hx
      obtain ⟨hle, hx', hxs⟩ := by simpa [Sorted, pairwise_cons] using h
      refine pairwise_cons.mpr ⟨fun y hy => ?_, ih ?_⟩
      · rcases mem_cons.mp ((sink_perm e xs).mem_iff.mp hy) with rfl | hy
        · exact hx.le
        · exact hx' y hy
      · exact pairwise_cons.mpr ⟨hle.2, hxs⟩
    · exact h

theorem sublist_sink (e : α) (l : List α) : l.Sublist (sink prio e l) := by
  induction l with
  | nil => exact nil_sublist _
  | cons x xs ih =>
    unfold sink
    split
    · exact ih.cons_cons x
    · exact sublist_cons_self e _

theorem before_sink {e x : α} {l : List α} (h : Sorted prio (e :: l)) (hx : x ∈ l)
    (heq : prio x = prio e) : Before (sink prio e l) x e := by
  induction l with
  | nil => cases hx
  | cons y ys ih =>
    have hsort := pairwise_cons.mp h
    have hye : prio y = prio e := by
      refine le_antisymm ?_ (hsort.1 y mem_cons_self)
      rcases mem_cons.mp hx with rfl | hx
      · exact heq.le
      · exact heq ▸ (pairwise_cons.mp hsort.2).1 x hx
    rw [sink, if_pos hye]
    rcases mem_cons.mp hx with rfl | hx
    · refine List.Sublist.cons_cons x (singleton_sublist.mpr ?_)
      exact (sink_perm e ys).mem_iff.mpr mem_cons_self
    · refine List.Sublist.cons y (ih ?_ hx)
      exact pairwise_cons.mpr ⟨fun z hz => hsort.1 z (mem_cons_of_mem y hz),
        (pairwise_cons.mp hsort.2).2⟩

variable {ready : α → Bool} {e x y : α} {l l' : List α}

theorem serve_eq_some (h : serve prio ready l = some (e, l')) :
    ∃ pre rest, l = pre ++ e :: rest ∧ l' = pre ++ sink prio e rest ∧ ready e ∧
      ∀ x ∈ pre, ready x = false := by
  induction l generalizing l' with
  | nil => cases h
  | cons x xs ih =>
    unfold serve at h
    split at h
    · rename_i hx
      cases h
      exact ⟨[], xs, rfl, rfl, hx, by simp⟩
    · rename_i hx
      obtain ⟨r, hr, heq⟩ := Option.map_eq_some_iff.mp h
      cases heq
      obtain ⟨pre, rest, rfl, hl', he, hpre⟩ := ih hr
      refine ⟨x :: pre, rest, rfl, by rw [hl']; rfl, he, fun z hz => ?_⟩
      rcases mem_cons.mp hz with rfl | hz
      · simpa using hx
      · exact hpre z hz

theorem serve_eq_none_iff : serve prio ready l = none ↔ ∀ x ∈ l, ready x = false := by
  induction l with
  | nil => simp [serve]
  | cons x xs ih =>
    unfold serve
    split
    · rename_i hx
      simp [hx]
    · rename_i hx
      simp [ih, hx]

section

variable (h : serve prio ready l = some (e, l'))

include h

theorem serve_perm : l'.Perm l := by
  obtain ⟨pre, rest, rfl, rfl, -, -⟩ := serve_eq_some h
  exact (sink_perm e rest).append_left pre

theorem mem_of_serve : e ∈ l := by
  obtain ⟨pre, rest, rfl, -, -, -⟩ := serve_eq_some h
  simp

theorem serve_sorted (hl : Sorted prio l) :
    Sorted prio l' := by
  obtain ⟨pre, rest, rfl, rfl, -, -⟩ := serve_eq_some h
  obtain ⟨hpre, hrest, hcross⟩ := pairwise_append.mp hl
  refine pairwise_append.mpr ⟨hpre, sink_sorted hrest, fun a ha b hb => ?_⟩
  exact hcross a ha b ((sink_perm e rest).mem_iff.mp hb)

theorem serve_before (hx : x ∈ l) (hready : ready x)
    (hne : x ≠ e) : Before l e x := by
  obtain ⟨pre, rest, rfl, -, -, hpre⟩ := serve_eq_some h
  have hmem : x ∈ rest := by
    rcases mem_append.mp hx with hx | hx
    · simp [hpre x hx] at hready
    · exact (mem_cons.mp hx).resolve_left hne
  exact ((singleton_sublist.mpr hmem).cons_cons e).trans (sublist_append_right pre _)

theorem serve_le (hl : Sorted prio l) (hx : x ∈ l)
    (hready : ready x) : prio e ≤ prio x := by
  by_cases hne : x = e
  · rw [hne]
  · have hsub := hl.sublist (serve_before h hx hready hne)
    simpa using hsub

theorem serve_behind (hl : Sorted prio l) (hx : x ∈ l)
    (heq : prio x = prio e) (hne : x ≠ e) : Before l' x e := by
  obtain ⟨pre, rest, rfl, rfl, -, -⟩ := serve_eq_some h
  have hrest := (pairwise_append.mp hl).2.1
  rcases mem_append.mp hx with hx | hx
  · have he : e ∈ sink prio e rest := (sink_perm e rest).mem_iff.mpr mem_cons_self
    exact (singleton_sublist.mpr hx).append (singleton_sublist.mpr he)
  · have hmem := (mem_cons.mp hx).resolve_left hne
    exact (before_sink hrest hmem heq).trans (sublist_append_right pre _)

theorem serve_keeps (hx : x ≠ e) (hy : y ≠ e)
    (hxy : Before l x y) : Before l' x y := by
  classical
  obtain ⟨pre, rest, rfl, rfl, -, -⟩ := serve_eq_some h
  have hfilter := hxy.filter fun z => decide (z ≠ e)
  have hleft : [x, y].filter (fun z => decide (z ≠ e)) = [x, y] := by simp [hx, hy]
  rw [hleft, filter_append, filter_cons_of_neg (by simp)] at hfilter
  refine hfilter.trans (filter_sublist.append ?_)
  exact filter_sublist.trans (sublist_sink e rest)

end

theorem not_before_of_before (hl : l.Nodup) (hxy : Before l x y) : ¬ Before l y x := by
  induction l with
  | nil => simp at hxy
  | cons a t ih =>
    obtain ⟨ha, ht⟩ := nodup_cons.mp hl
    intro hyx
    cases hxy with
    | cons _ hxy =>
      cases hyx with
      | cons _ hyx => exact ih ht hxy hyx
      | cons_cons _ hyx => exact ha (hxy.subset (by simp))
    | cons_cons _ hxy =>
      cases hyx with
      | cons _ hyx => exact ha (hyx.subset (by simp))
      | cons_cons _ hyx => exact ha (hyx.subset (by simp))

theorem pass_perm (k : Nat) (l : List α) : (pass prio k l).Perm l := by
  fun_induction pass prio k l with
  | case1 k x y rest _ ih => exact (ih.cons y).trans (List.Perm.swap x y rest)
  | case2 k x y rest _ ih => exact ih.cons x
  | case3 => rfl

theorem pass_eq_self (k : Nat) {l : List α} (h : Sorted prio l) : pass prio k l = l := by
  fun_induction pass prio k l with
  | case1 k x y rest hlt _ =>
    exact absurd ((pairwise_cons.mp h).1 y mem_cons_self) (not_le.mpr hlt)
  | case2 k x y rest _ ih => rw [ih (pairwise_cons.mp h).2]
  | case3 => rfl

/-- A pass brings a greatest element to the end of what it has gone through. -/
theorem pass_append (k : Nat) {front : List α} (back : List α) (h : front.length = k + 1) :
    ∃ front' m, pass prio k (front ++ back) = front' ++ m :: back ∧ front'.length = k ∧
      (front' ++ [m]).Perm front ∧ ∀ a ∈ front, prio a ≤ prio m := by
  induction k generalizing front with
  | zero =>
    obtain ⟨m, rfl⟩ := length_eq_one_iff.mp h
    exact ⟨[], m, by simp [pass], rfl, .refl _, by simp⟩
  | succ k ih =>
    obtain ⟨x, y, rest, rfl⟩ : ∃ x y rest, front = x :: y :: rest := by
      match front, h with
      | x :: y :: rest, _ => exact ⟨x, y, rest, rfl⟩
    have hlen : rest.length + 1 = k + 1 := by simpa using h
    simp only [cons_append, pass]
    split
    · rename_i hlt
      obtain ⟨front', m, heq, hlen', hperm, hmax⟩ := @ih (x :: rest) (by simpa using hlen)
      rw [← cons_append, heq]
      refine ⟨y :: front', m, rfl, by simp [hlen'], ?_, ?_⟩
      · exact (hperm.cons y).trans (List.Perm.swap x y rest)
      · intro a ha
        rcases mem_cons.mp ha with rfl | ha
        · exact hmax a mem_cons_self
        · rcases mem_cons.mp ha with rfl | ha
          · exact hlt.le.trans (hmax x mem_cons_self)
          · exact hmax a (mem_cons_of_mem x ha)
    · rename_i hle
      obtain ⟨front', m, heq, hlen', hperm, hmax⟩ := @ih (y :: rest) (by simpa using hlen)
      rw [← cons_append, heq]
      refine ⟨x :: front', m, rfl, by simp [hlen'], hperm.cons x, ?_⟩
      intro a ha
      rcases mem_cons.mp ha with rfl | ha
      · exact (not_lt.mp hle).trans (hmax y mem_cons_self)
      · exact hmax a ha

theorem bubbleSort_perm (l : List α) : (bubbleSort prio l).Perm l := by
  unfold bubbleSort
  suffices ∀ is l', l'.Perm l →
      (foldl (fun l i => pass prio (l.length - i - 1) l) l' is).Perm l from
    this _ l (.refl l)
  intro is
  induction is with
  | nil => exact fun l' h => h
  | cons i is ih => exact fun l' h => ih _ ((pass_perm _ l').trans h)

theorem bubbleSort_eq_self {l : List α} (h : Sorted prio l) : bubbleSort prio l = l := by
  unfold bubbleSort
  generalize range (l.length - 1) = is
  induction is with
  | nil => rfl
  | cons i is ih => rw [foldl_cons, pass_eq_self _ h, ih]

theorem foldl_pass (i : Nat) {l : List α} (h : i < l.length) :
    ∃ front back, (range i).foldl (fun l i => pass prio (l.length - i - 1) l) l =
        front ++ back ∧ (front ++ back).length = l.length ∧ back.length = i ∧
      Sorted prio back ∧ ∀ a ∈ front, ∀ b ∈ back, prio a ≤ prio b := by
  induction i with
  | zero => exact ⟨l, [], by simp, by simp, rfl, List.Pairwise.nil, by simp⟩
  | succ i ih =>
    obtain ⟨front, back, heq, hlen, hback, hsorted, hle⟩ := ih (by omega)
    rw [range_succ, foldl_append, heq, foldl_cons, foldl_nil, hlen]
    have hfront : front.length = (l.length - i - 1) + 1 := by
      rw [length_append] at hlen
      omega
    obtain ⟨front', m, hpass, hlen', hperm, hmax⟩ := @pass_append _ _ _ prio _ front back hfront
    refine ⟨front', m :: back, hpass, ?_, by simp [hback], ?_, ?_⟩
    · simp only [length_append, length_cons] at hlen ⊢
      omega
    · refine pairwise_cons.mpr ⟨fun b hb => hle m ?_ b hb, hsorted⟩
      exact hperm.mem_iff.mp (by simp)
    · intro a ha b hb
      have hmem : a ∈ front := hperm.mem_iff.mp (mem_append_left _ ha)
      rcases mem_cons.mp hb with rfl | hb
      · exact hmax a hmem
      · exact hle a hmem b hb

theorem bubbleSort_sorted (l : List α) : Sorted prio (bubbleSort prio l) := by
  cases l with
  | nil => exact List.Pairwise.nil
  | cons x xs =>
    obtain ⟨front, back, heq, hlen, hback, hsorted, hle⟩ :=
      @foldl_pass _ _ _ prio xs.length (x :: xs) (by simp)
    unfold bubbleSort
    rw [length_cons, Nat.add_sub_cancel, heq]
    refine pairwise_append.mpr ⟨?_, hsorted, hle⟩
    have hone : front.length = 1 := by
      rw [length_append, length_cons] at hlen
      omega
    obtain ⟨a, rfl⟩ := length_eq_one_iff.mp hone
    exact pairwise_singleton _ a

end Lib.RoundRobin
