import Fprime.Cfdp.Rings

/-!
# Walks whose callback moves nodes

A callback may leave the links alone, remove its node, or move it to another ring of the table. A
walk still comes to every node its ring had at the start, once and in order.
-/

namespace Fprime.Cfdp

open Lib.Links List

/-- What a callback may make of the links `l` when it is called for the node `n` of the list
`xs`. -/
inductive Visit (l : CListLinks) (xs : List Nat) (n : Nat) : CListLinks → Prop
  | leave : Visit l xs n l
  | remove : Visit l xs n (l.remove xs.head? n).1
  | moveFront {ys : List Nat} (hys : l.IsRing ys) (hother : ys.Disjoint xs) :
      Visit l xs n ((l.remove xs.head? n).1.insertFront ys.head? n).1
  | moveBack {ys : List Nat} (hys : l.IsRing ys) (hother : ys.Disjoint xs) :
      Visit l xs n ((l.remove xs.head? n).1.insertBack ys.head? n).1
  | moveAfter {ys : List Nat} {start : Nat} (hys : l.IsRing ys) (hother : ys.Disjoint xs)
      (hstart : start ∈ ys) : Visit l xs n ((l.remove xs.head? n).1.insertAfter start n)

structure Gone (l : CListLinks) (rest : List Nat) (n : Nat) : Prop where
  isRing : l.IsRing rest
  next : l.next n ∉ rest
  prev : l.prev n ∉ rest

namespace CListLinks

variable {l : CListLinks} {xs ys as bs : List Nat} {n a : Nat}

theorem insertFront_eq_splice (h : l.IsRing (a :: as)) :
    (l.insertFront (some a) n).1 = l.splice (l.prev a) (l.next (l.prev a)) n := by
  rw [(next_prev h).1]
  rfl

theorem gone_splice (hrest : l.IsRing xs) (hys : l.IsRing ys) (hdis : ys.Disjoint xs) (ha : a ∈ ys)
    (hnx : n ∉ xs) (hny : n ∉ ys) : Gone (l.splice a (l.next a) n) xs n := by
  obtain ⟨as, bs, rfl⟩ := append_of_mem ha
  have hrot : l.IsRing (a :: (bs ++ as)) := hys.rotate
  have hmem : ∀ x, x ∈ a :: (bs ++ as) → x ∈ as ++ a :: bs := by
    intro x hx
    simp only [mem_cons, mem_append] at hx ⊢
    tauto
  have hin := hrot.splice fun hm => hny (hmem n hm)
  have hout : ∀ x, x ∈ a :: n :: (bs ++ as) → x ∉ xs := by
    intro x hx
    rcases mem_cons.mp hx with rfl | hx
    · exact hdis ha
    · rcases mem_cons.mp hx with rfl | hx
      · exact hnx
      · exact hdis (hmem x (mem_cons_of_mem a hx))
  refine ⟨hrest.congr fun x hx => splice_agree ?_ ?_ ?_, hout _ (hin.next_mem (by simp)),
    hout _ (hin.prev_mem (by simp))⟩
  · exact fun he => hdis ha (he ▸ hx)
  · exact fun he => hdis (hmem _ (hrot.next_mem (by simp))) (he ▸ hx)
  · exact fun he => hnx (he ▸ hx)

theorem gone_unlink (h : l.IsRing (as ++ n :: bs)) : Gone (l.unlink n) (as ++ bs) n := by
  have hrot : l.IsRing (n :: (bs ++ as)) := h.rotate
  have halone := isRing_singleton.mp (isRing_unlink l n)
  have hnot : n ∉ as ++ bs := fun hm =>
    (nodup_cons.mp hrot.nodup).1 (by simpa [or_comm] using hm)
  exact ⟨hrot.unlink.rotate, by rwa [halone.1], by rwa [halone.2]⟩

theorem unlink_isRing_other (h : l.IsRing (as ++ n :: bs)) (hys : l.IsRing ys)
    (hother : ys.Disjoint (as ++ n :: bs)) : (l.unlink n).IsRing ys := by
  have hrot : l.IsRing (n :: (bs ++ as)) := h.rotate
  refine hys.congr fun x hx => hrot.unlink_agree fun hm => hother hx ?_
  simp only [mem_cons, mem_append] at hm ⊢
  tauto

theorem gone_move {l' : CListLinks} (h : l.IsRing (as ++ n :: bs)) (hys : l.IsRing ys)
    (hother : ys.Disjoint (as ++ n :: bs))
    (hl' : ys = [] ∧ l' = l.unlink n ∨
      ∃ a ∈ ys, l' = (l.unlink n).splice a ((l.unlink n).next a) n) :
    Gone l' (as ++ bs) n := by
  have hgone := gone_unlink h
  rcases hl' with ⟨-, rfl⟩ | ⟨a, ha, rfl⟩
  · exact hgone
  refine gone_splice hgone.isRing (unlink_isRing_other h hys hother) (fun x hx hm => hother hx ?_) ha ?_ ?_
  · simp only [mem_cons, mem_append] at hm ⊢
    tauto
  · have := hgone.next
    rwa [(isRing_singleton.mp (isRing_unlink l n)).1] at this
  · exact fun hn => hother hn (by simp)

theorem visit_cases {l' : CListLinks} (h : l.IsRing (as ++ n :: bs))
    (hv : Visit l (as ++ n :: bs) n l') : l' = l ∨ Gone l' (as ++ bs) n := by
  have hremove : (l.remove (as ++ n :: bs).head? n).1 = l.unlink n := by rw [remove_eq h]
  cases hv with
  | leave => exact .inl rfl
  | remove =>
    rw [hremove]
    exact .inr (gone_unlink h)
  | @moveFront ys hys hother =>
    rw [hremove]
    refine .inr (gone_move h hys hother ?_)
    cases ys with
    | nil => exact .inl ⟨rfl, rfl⟩
    | cons a ys =>
      have hring := unlink_isRing_other h hys hother
      exact .inr ⟨_, (next_prev hring).2, insertFront_eq_splice hring⟩
  | @moveBack ys hys hother =>
    rw [hremove]
    refine .inr (gone_move h hys hother ?_)
    cases ys with
    | nil => exact .inl ⟨rfl, rfl⟩
    | cons a ys =>
      have hring := unlink_isRing_other h hys hother
      have hn : n ≠ a := fun he => hother (a := a) (by simp) (by simp [he])
      exact .inr ⟨_, (next_prev hring).2, insertBack_eq_splice hring hn⟩
  | @moveAfter ys start hys hother hstart =>
    rw [hremove]
    exact .inr (gone_move h hys hother (.inr ⟨start, hstart, rfl⟩))

end CListLinks

section Walks

variable {σ : Type} (links : σ → CListLinks) (f : σ → Nat → σ × Bool)

def visitAll (nodes : List Nat) (s : σ) : σ :=
  nodes.foldl (fun s n => (f s n).1) s

def logged (c : σ × List Nat) (n : Nat) : (σ × List Nat) × Bool :=
  (((f c.1 n).1, c.2 ++ [n]), (f c.1 n).2)

/-- On each visit the callback goes on and does to the links only what a visit may; `arrange` gives
the list back from the order of the walk. -/
def Behaves (arrange : List Nat → List Nat) (order : List Nat) (s : σ) : Prop :=
  ∀ pre n post kept, order = pre ++ n :: post → kept.Sublist pre →
    (links (visitAll f pre s)).IsRing (arrange (kept ++ n :: post)) →
    (f (visitAll f pre s) n).2 = true ∧
      Visit (links (visitAll f pre s)) (arrange (kept ++ n :: post)) n
        (links (f (visitAll f pre s) n).1)

variable {links f}

theorem visitAll_snoc (pre : List Nat) (n : Nat) (s : σ) :
    visitAll f (pre ++ [n]) s = (f (visitAll f pre s) n).1 := by
  simp [visitAll]

theorem traverse_logged {xs : List Nat} {s : σ} {maxIterations : Nat}
    (hring : (links s).IsRing xs) (hlen : xs.length ≤ maxIterations)
    (hstep : ∀ pre n post kept, xs = pre ++ n :: post → kept.Sublist pre →
      (links (visitAll f pre s)).IsRing (kept ++ n :: post) →
      (f (visitAll f pre s) n).2 = true ∧
        ((links (f (visitAll f pre s) n).1).IsRing (kept ++ n :: post) ∨
          (links (f (visitAll f pre s) n).1).IsRing (kept ++ post) ∧
            (links (f (visitAll f pre s) n).1).next n ∉ post)) :
    traverse (fun c => links c.1) xs.head? maxIterations (logged f) (s, []) =
      ((visitAll f xs s, xs), true) := by
  have hwalk := @traverse_rule (σ × List Nat) (fun c => links c.1) (logged f)
    (fun kept rest c => ∃ pre, xs = pre ++ rest ∧ c = (visitAll f pre s, pre) ∧
      kept.Sublist pre ∧ (links c.1).IsRing (kept ++ rest))
    (fun c => c = (visitAll f xs s, xs)) ?_ ?_ ?_ xs (s, []) maxIterations
    ⟨[], rfl, rfl, .slnil, hring⟩ hlen
  · exact Prod.ext hwalk.1 hwalk.2
  · rintro kept rest c ⟨_, -, -, -, hr⟩
    exact hr
  · rintro kept n rest c ⟨pre, hxs, rfl, hsub, hr⟩
    obtain ⟨hgo, hnext⟩ := hstep pre n rest kept hxs hsub hr
    have hxs' : xs = (pre ++ [n]) ++ rest := by simpa using hxs
    have hc : (logged f (visitAll f pre s, pre) n).1 = (visitAll f (pre ++ [n]) s, pre ++ [n]) := by
      rw [visitAll_snoc]
      rfl
    refine ⟨fun hstop => ?_, fun _ => ?_⟩
    · rw [show (logged f (visitAll f pre s, pre) n).2 = true from hgo] at hstop
      cases hstop
    · rcases hnext with hstay | ⟨hgone, hout⟩
      · refine .inl ⟨pre ++ [n], hxs', hc, hsub.append (.refl [n]), ?_⟩
        simpa [logged] using hstay
      · exact .inr ⟨⟨pre ++ [n], hxs', hc, hsub.trans (sublist_append_left _ _), hgone⟩, hout⟩
  · rintro kept c ⟨pre, hxs, rfl, -, -⟩
    have hpre : xs = pre := by simpa using hxs
    rw [hpre]

/-- A walk over at most `max_iterations` nodes visits each once, in the order of the list or
backwards, and the final assertion holds. -/
theorem traverse_visits_each_once (links : σ → CListLinks) (f : σ → Nat → σ × Bool) (s : σ)
    (xs : List Nat) (maxIterations : Nat) (hring : (links s).IsRing xs)
    (hlen : xs.length ≤ maxIterations) :
    (Behaves links f id xs s →
      traverse (fun c => links c.1) xs.head? maxIterations (logged f) (s, []) =
        ((visitAll f xs s, xs), true)) ∧
    (Behaves links f reverse xs.reverse s →
      traverseR (fun c => links c.1) xs.head? maxIterations (logged f) (s, []) =
        ((visitAll f xs.reverse s, xs.reverse), true)) := by
  constructor
  · intro hb
    refine traverse_logged hring hlen fun pre n post kept hxs hsub hr => ?_
    obtain ⟨hgo, hv⟩ := hb pre n post kept hxs hsub hr
    refine ⟨hgo, ?_⟩
    rcases CListLinks.visit_cases hr hv with heq | hgone
    · exact .inl (heq ▸ hr)
    · exact .inr ⟨hgone.isRing, fun hm => hgone.next (mem_append_right kept hm)⟩
  · intro hb
    rw [@traverseR_eq (σ × List Nat) (fun c => links c.1) (logged f) xs (s, []) maxIterations hring]
    refine @traverse_logged σ (fun s => (links s).swap) f xs.reverse s maxIterations hring.reverse
      (by simpa using hlen) fun pre n post kept hxs hsub hr => ?_
    have hback : (links (visitAll f pre s)).IsRing (kept ++ n :: post).reverse := hr.reverse
    have hr' : (links (visitAll f pre s)).IsRing (post.reverse ++ n :: kept.reverse) := by
      simpa using hback
    obtain ⟨hgo, hv⟩ := hb pre n post kept hxs hsub hback
    refine ⟨hgo, ?_⟩
    have hv' : Visit (links (visitAll f pre s)) (post.reverse ++ n :: kept.reverse) n
        (links (f (visitAll f pre s) n).1) := by simpa using hv
    rcases CListLinks.visit_cases hr' hv' with heq | hgone
    · exact .inl (heq ▸ hr)
    · refine .inr ⟨?_, fun hm =>
        hgone.prev (mem_append_left _ (mem_reverse.mpr hm))⟩
      simpa using hgone.isRing.reverse

end Walks

def threeRing : CListLinks where
  next n := if n < 3 then (n + 1) % 3 else n
  prev n := if n < 3 then (n + 2) % 3 else n

def takeOut (p : CListLinks × ListHead) (n : Nat) : (CListLinks × ListHead) × Bool :=
  (p.1.remove p.2 n, true)

theorem takeOut_behaves : Behaves Prod.fst takeOut id [0, 1, 2] (threeRing, some 0) := by
  intro pre n post kept hxs _ hr
  have hhead : (visitAll takeOut pre (threeRing, some 0)).2 = some n := by
    rcases pre with _ | ⟨a, _ | ⟨b, _ | ⟨c, pre⟩⟩⟩
    all_goals simp at hxs
    · obtain ⟨rfl, -⟩ := hxs
      rfl
    · obtain ⟨rfl, rfl, -⟩ := hxs
      rfl
    · obtain ⟨rfl, rfl, rfl, -⟩ := hxs
      rfl
  generalize visitAll takeOut pre (threeRing, some 0) = p at hr hhead
  have hout : (takeOut p n).1.1 = (p.1.remove (kept ++ n :: post).head? n).1 := by
    have hrot : p.1.IsRing ([] ++ n :: (post ++ kept)) := hr.rotate
    have hfirst : p.1.remove (some n) n = (p.1.unlink n, (post ++ kept).head?) :=
      CListLinks.remove_eq hrot
    rw [CListLinks.remove_eq hr, takeOut, hhead, hfirst]
  exact ⟨rfl, hout ▸ .remove⟩

theorem traverse_visits_each_once_removed :
    threeRing.IsRing [0, 1, 2] ∧ Behaves Prod.fst takeOut id [0, 1, 2] (threeRing, some 0) ∧
      traverse (fun c => c.1.1) (some 0) 3 (logged takeOut) ((threeRing, some 0), []) =
        ((visitAll takeOut [0, 1, 2] (threeRing, some 0), [0, 1, 2]), true) :=
  have hring : threeRing.IsRing [0, 1, 2] := ⟨by decide,
    .cons_cons ⟨rfl, rfl⟩ (.cons_cons ⟨rfl, rfl⟩ (.cons_cons ⟨rfl, rfl⟩ (.singleton _)))⟩
  ⟨hring, takeOut_behaves, (traverse_visits_each_once Prod.fst takeOut (threeRing, some 0)
    [0, 1, 2] 3 hring (by decide)).1 takeOut_behaves⟩

end Fprime.Cfdp
