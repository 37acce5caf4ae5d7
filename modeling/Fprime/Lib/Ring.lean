import Mathlib.Data.List.Chain
import Mathlib.Data.List.Rotate

/-!
# Rings of linked nodes

Intrusive doubly linked rings over numbered nodes: when links make a ring of a list, and how linking
a node in or out changes the list.
-/

namespace Lib

open List

structure Links where
  next : Nat → Nat
  prev : Nat → Nat

namespace Links

def setNext (l : Links) (n m : Nat) : Links :=
  { l with next := Function.update l.next n m }

def setPrev (l : Links) (n m : Nat) : Links :=
  { l with prev := Function.update l.prev n m }

/-- The same rings, seen the other way round. -/
def swap (l : Links) : Links :=
  ⟨l.prev, l.next⟩

def Follows (l : Links) (a b : Nat) : Prop :=
  l.next a = b ∧ l.prev b = a

def splice (l : Links) (a b n : Nat) : Links :=
  (((l.setNext n b).setNext a n).setPrev n a).setPrev b n

def unlink (l : Links) (n : Nat) : Links :=
  (((l.setPrev (l.next n) (l.prev n)).setNext (l.prev n) (l.next n)).setNext n n).setPrev n n

def Agree (l l' : Links) (x : Nat) : Prop :=
  l'.next x = l.next x ∧ l'.prev x = l.prev x

/-- The nodes of `xs`, in this order, form a ring. -/
structure IsRing (l : Links) (xs : List Nat) : Prop where
  nodup : xs.Nodup
  chain : (xs ++ xs.head?.toList).IsChain l.Follows

variable {l l' : Links} {xs ys : List Nat} {a n : Nat}

theorem isRing_nil : l.IsRing [] :=
  ⟨nodup_nil, .nil⟩

theorem isRing_singleton : l.IsRing [n] ↔ l.next n = n ∧ l.prev n = n := by
  constructor
  · rintro ⟨-, hchain⟩
    have hpair : l.Follows n n := isChain_pair.mp hchain
    exact hpair
  · exact fun h => ⟨nodup_singleton n, isChain_pair.mpr h⟩

theorem isRing_cons :
    l.IsRing (a :: xs) ↔ (a :: xs).Nodup ∧ (a :: xs ++ [a]).IsChain l.Follows :=
  ⟨fun h => ⟨h.nodup, h.chain⟩, fun h => ⟨h.1, h.2⟩⟩

theorem IsRing.rotate (h : l.IsRing (xs ++ ys)) : l.IsRing (ys ++ xs) := by
  cases xs with
  | nil => simpa using h
  | cons x xs =>
    cases ys with
    | nil => simpa using h
    | cons y ys =>
      obtain ⟨hnodup, hchain⟩ := isRing_cons.mp h
      have hperm : (y :: ys ++ x :: xs).Nodup := nodup_append_comm.mp hnodup
      refine isRing_cons.mpr ⟨hperm, ?_⟩
      have hsplit : (x :: xs ++ y :: (ys ++ [x])).IsChain l.Follows := by simpa using hchain
      obtain ⟨hxs, hys⟩ := isChain_split.mp hsplit
      have hjoin : (y :: ys ++ x :: (xs ++ [y])).IsChain l.Follows :=
        isChain_split.mpr ⟨by simpa using hys, by simpa using hxs⟩
      simpa using hjoin

theorem isChain_follows_congr {z : Nat} {cs : List Nat}
    (h : (cs ++ [z]).IsChain l.Follows) (hnext : ∀ x ∈ cs, l'.next x = l.next x)
    (hprev : ∀ y ∈ (cs ++ [z]).tail, l'.prev y = l.prev y) :
    (cs ++ [z]).IsChain l'.Follows := by
  induction cs with
  | nil => exact .singleton z
  | cons c cs ih =>
    obtain ⟨hhead, hrest⟩ := isChain_cons.mp h
    refine isChain_cons.mpr ⟨fun y hy => ?_, ih hrest ?_ ?_⟩
    · obtain ⟨hn, hp⟩ := hhead y hy
      exact ⟨(hnext c (by simp)).trans hn, (hprev y (mem_of_mem_head? hy)).trans hp⟩
    · exact fun x hx => hnext x (mem_cons_of_mem c hx)
    · exact fun y hy => hprev y (mem_of_mem_tail hy)

theorem IsRing.congr (h : l.IsRing xs) (hagree : ∀ x ∈ xs, l.Agree l' x) : l'.IsRing xs := by
  cases xs with
  | nil => exact isRing_nil
  | cons x xs =>
    obtain ⟨hnodup, hchain⟩ := isRing_cons.mp h
    refine isRing_cons.mpr ⟨hnodup, isChain_follows_congr hchain ?_ ?_⟩
    · exact fun y hy => (hagree y hy).1
    · intro y hy
      have hmem : y ∈ x :: xs := by simpa [or_comm] using hy
      exact (hagree y hmem).2

theorem IsRing.next_eq {b : Nat} (h : l.IsRing (xs ++ a :: b :: ys)) : l.next a = b := by
  have hrot := isRing_cons.mp (h.rotate : l.IsRing (a :: (b :: ys ++ xs)))
  exact ((isChain_cons.mp hrot.2).1 b rfl).1

theorem IsRing.next_last (h : l.IsRing (xs ++ [a])) : some (l.next a) = (xs ++ [a]).head? := by
  cases xs with
  | nil => rw [(isRing_singleton.mp h).1]; rfl
  | cons x xs =>
    have hrot : l.IsRing ([] ++ a :: x :: xs) := h.rotate
    rw [hrot.next_eq]
    rfl

theorem IsRing.prev_head (h : l.IsRing (a :: xs)) : (a :: xs).getLast? = some (l.prev a) := by
  obtain ⟨ys, y, hys⟩ := eq_nil_or_concat (a :: xs) |>.resolve_left (cons_ne_nil a xs)
  have hchain : (ys ++ y :: [a]).IsChain l.Follows := by
    have := (isRing_cons.mp h).2
    rw [hys] at this
    simpa using this
  obtain ⟨-, hya⟩ := isChain_split.mp hchain
  rw [hys, (isChain_pair.mp hya).2]
  simp

theorem IsRing.next_mem (h : l.IsRing xs) (ha : a ∈ xs) : l.next a ∈ xs := by
  obtain ⟨bs, cs, rfl⟩ := append_of_mem ha
  cases cs with
  | nil => exact mem_of_mem_head? h.next_last.symm
  | cons c cs => rw [h.next_eq]; simp

theorem IsRing.reverse (h : l.IsRing xs) : l.swap.IsRing xs.reverse := by
  cases xs with
  | nil => exact isRing_nil
  | cons x xs =>
    obtain ⟨hnodup, hchain⟩ := isRing_cons.mp h
    have hback : (x :: xs.reverse ++ [x]).IsChain l.swap.Follows := by
      have hswap : (x :: xs ++ [x]).reverse.IsChain l.swap.Follows :=
        isChain_reverse.mpr (hchain.imp fun _ _ hab => ⟨hab.2, hab.1⟩)
      simpa using hswap
    have hring : l.swap.IsRing (x :: xs.reverse) := by
      refine isRing_cons.mpr ⟨?_, hback⟩
      simpa using hnodup
    have hrot := @IsRing.rotate _ [x] xs.reverse hring
    simpa using hrot

theorem IsRing.prev_mem (h : l.IsRing xs) (ha : a ∈ xs) : l.prev a ∈ xs :=
  mem_reverse.mp (h.reverse.next_mem (mem_reverse.mpr ha))

theorem IsRing.splice (h : l.IsRing (a :: xs)) (hn : n ∉ a :: xs) :
    (l.splice a (l.next a) n).IsRing (a :: n :: xs) := by
  obtain ⟨hnodup, hchain⟩ := isRing_cons.mp h
  rw [cons_append] at hchain
  obtain ⟨hhead, hrest⟩ := isChain_cons.mp hchain
  have hperm : (xs ++ [a]).Nodup := nodup_append_comm.mp hnodup
  have hna : n ≠ a := fun he => hn (by simp [he])
  -- What stands behind `a` is the first node of `xs ++ [a]`.
  obtain ⟨b, bs, hb⟩ : ∃ b bs, xs ++ [a] = b :: bs := exists_cons_of_ne_nil (by simp)
  have hnext : l.next a = b := (hhead b (by rw [hb]; rfl)).1
  have hbn : b ≠ n := by
    rintro rfl
    have hmem : b ∈ xs ++ [a] := by simp [hb]
    exact hn (by simpa [or_comm] using hmem)
  rw [hnext]
  refine isRing_cons.mpr ⟨?_, ?_⟩
  · simp only [nodup_cons, mem_cons, not_or] at hnodup hn ⊢
    exact ⟨⟨hna.symm, hnodup.1⟩, hn.2, hnodup.2⟩
  have htail : (xs ++ [a]).IsChain (l.splice a b n).Follows := by
    refine isChain_follows_congr hrest (fun x hx => ?_) (fun y hy => ?_)
    · have hxa : x ≠ a := fun he => (nodup_cons.mp hnodup).1 (he ▸ hx)
      have hxn : x ≠ n := fun he => hn (he ▸ mem_cons_of_mem a hx)
      simp [Links.splice, setNext, setPrev, hxa, hxn]
    · have hyn : y ≠ n := by
        rintro rfl
        exact hn (by simpa [or_comm] using mem_of_mem_tail hy)
      have hyb : y ≠ b := by
        rintro rfl
        rw [hb] at hperm hy
        exact (nodup_cons.mp hperm).1 hy
      simp [Links.splice, setNext, setPrev, hyn, hyb]
  refine List.IsChain.cons_cons ?_ (isChain_cons.mpr ⟨?_, htail⟩)
  · simp [Follows, Links.splice, setNext, setPrev, hbn.symm]
  · intro y hy
    have hyb : b = y := by simpa [hb] using hy
    subst hyb
    simp [Follows, Links.splice, setNext, setPrev, hna]

theorem splice_agree {b x : Nat} (ha : x ≠ a) (hb : x ≠ b) (hn : x ≠ n) :
    l.Agree (l.splice a b n) x := by
  simp [Agree, splice, setNext, setPrev, ha, hb, hn]

theorem IsRing.unlink (h : l.IsRing (n :: xs)) : (l.unlink n).IsRing xs := by
  obtain ⟨hnodup, hchain⟩ := isRing_cons.mp h
  obtain ⟨hn, hxs⟩ := nodup_cons.mp hnodup
  cases xs with
  | nil => exact isRing_nil
  | cons c ds =>
    -- The last node of the rest gets the first one as its successor.
    obtain ⟨es, e, hes⟩ := eq_nil_or_concat (c :: ds) |>.resolve_left (cons_ne_nil c ds)
    rw [concat_eq_append] at hes
    have hnc : l.Follows n c := (isChain_cons.mp hchain).1 c rfl
    have hsplit : (n :: es ++ e :: [n]).IsChain l.Follows := by
      have := hchain
      rw [hes] at this
      simpa using this
    obtain ⟨hleft, hright⟩ := isChain_split.mp hsplit
    have hen : l.Follows e n := isChain_pair.mp hright
    have hmem : ∀ x ∈ es ++ [e], x ≠ n := fun x hx he => hn (by rw [hes]; exact he ▸ hx)
    have hnodup' : (es ++ [e]).Nodup := hes ▸ hxs
    have hc : c ≠ n := hmem c (by rw [← hes]; simp)
    have he : e ≠ n := hmem e (by simp)
    refine isRing_cons.mpr ⟨hxs, ?_⟩
    rw [hes]
    have hrest : (es ++ [e]).IsChain (l.unlink n).Follows := by
      refine isChain_follows_congr (isChain_cons.mp hleft).2 (fun x hx => ?_) (fun y hy => ?_)
      · have hxe : x ≠ e := by
          rintro rfl
          exact (disjoint_of_nodup_append hnodup') hx (by simp)
        simp [Links.unlink, setNext, setPrev, hen.2, hxe, hmem x (by simp [hx])]
      · have hyc : y ≠ c := by
          rintro rfl
          rw [← hes] at hy hnodup'
          exact (nodup_cons.mp hnodup').1 hy
        simp [Links.unlink, setNext, setPrev, hnc.1, hyc, hmem y (mem_of_mem_tail hy)]
    have hlast : (l.unlink n).Follows e c := by
      simp [Follows, Links.unlink, setNext, setPrev, hnc.1, hen.2, hc, he]
    have hjoin : (es ++ e :: [c]).IsChain (l.unlink n).Follows :=
      isChain_split.mpr ⟨hrest, isChain_pair.mpr hlast⟩
    simpa using hjoin

theorem isRing_unlink (l : Links) (n : Nat) : (l.unlink n).IsRing [n] :=
  isRing_singleton.mpr (by simp [unlink, setNext, setPrev])

theorem IsRing.unlink_agree {x : Nat} (h : l.IsRing (n :: xs)) (hx : x ∉ n :: xs) :
    l.Agree (l.unlink n) x := by
  have hnext : l.next n ∈ n :: xs := h.next_mem (by simp)
  have hprev : l.prev n ∈ n :: xs := mem_of_getLast? h.prev_head
  have hxn : x ≠ n := fun he => hx (by simp [he])
  have hxnext : x ≠ l.next n := fun he => hx (he ▸ hnext)
  have hxprev : x ≠ l.prev n := fun he => hx (he ▸ hprev)
  simp [Agree, Links.unlink, setNext, setPrev, hxn, hxnext, hxprev]

end Links

end Lib
