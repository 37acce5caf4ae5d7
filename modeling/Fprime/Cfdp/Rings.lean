import Fprime.Cfdp.Clist

/-!
# The list operations and their rings

What inserting and removing a node do to the rings that the links hold, and a rule for walks
whose callback may take the visited node off the ring.
-/

namespace Fprime.Cfdp

namespace CListLinks

open Lib.Links

variable {l : CListLinks} {node : Nat}

theorem next_ne_self {a b : Nat} {as : List Nat} (h : l.IsRing (a :: b :: as)) : l.next a ≠ a := by
  rw [@IsRing.next_eq l [] as a b h]
  exact fun he => (List.nodup_cons.mp h.nodup).1 (by simp [he])

theorem remove_eq {as bs : List Nat} (h : l.IsRing (as ++ node :: bs)) :
    l.remove (as ++ node :: bs).head? node = (l.unlink node, (as ++ bs).head?) := by
  cases as with
  | cons a as =>
    have hrot : l.IsRing (node :: (bs ++ a :: as)) := h.rotate
    have hself : l.next node ≠ node := by
      cases bs with
      | nil | cons b bs => exact next_ne_self hrot
    have ha : a ≠ node := fun he =>
      (List.nodup_cons.mp hrot.nodup).1 (by simp [he])
    simp [remove, hself, ha, unlink, initNode]
  | nil =>
    cases bs with
    | nil =>
      obtain ⟨hnext, hprev⟩ := isRing_singleton.mp h
      simp [remove, unlink, initNode, setNext, setPrev, hnext, hprev]
    | cons b bs =>
      have hnext : l.next node = b := @IsRing.next_eq l [] bs node b h
      have hself : b ≠ node := hnext ▸ next_ne_self h
      simp [remove, hnext, hself, unlink, initNode, setNext, setPrev]

theorem next_prev {a : Nat} {as : List Nat} (h : l.IsRing (a :: as)) :
    l.next (l.prev a) = a ∧ l.prev a ∈ a :: as := by
  have hmem : l.prev a ∈ a :: as := List.mem_of_getLast? h.prev_head
  obtain ⟨bs, hbs⟩ := List.getLast?_eq_some_iff.mp h.prev_head
  have hlast := (hbs ▸ h : l.IsRing (bs ++ [l.prev a])).next_last
  rw [← hbs] at hlast
  exact ⟨Option.some.inj hlast, hmem⟩

theorem insertBack_eq_splice {a : Nat} {as : List Nat} (h : l.IsRing (a :: as)) (hn : node ≠ a) :
    (l.insertBack (some a) node).1 = l.splice (l.prev a) (l.next (l.prev a)) node := by
  rw [(next_prev h).1]
  simp only [insertBack, splice, setNext, setPrev]
  rw [Function.update_comm hn.symm]

end CListLinks

section Traverse

open Lib.Links

variable {σ : Type} {links : σ → CListLinks} {f : σ → Nat → σ × Bool}
  {Inv : List Nat → List Nat → σ → Prop} {Post : σ → Prop}

/-- A walk visits the nodes its ring had at the start, in order and each once, if the callback takes
only the visited node off. `Inv kept rest` is about those that stay and those to come. -/
theorem traverseLoop_rule
    (hring : ∀ kept rest s, Inv kept rest s → (links s).IsRing (kept ++ rest))
    (hstep : ∀ kept n rest s, Inv kept (n :: rest) s →
      ((f s n).2 = false → Post (f s n).1) ∧
      ((f s n).2 = true → Inv (kept ++ [n]) rest (f s n).1 ∨
        Inv kept rest (f s n).1 ∧ (links (f s n).1).next n ∉ rest))
    (hend : ∀ kept s, Inv kept [] s → Post s) :
    ∀ fuel kept n rest s start, Inv kept (n :: rest) s → (n :: rest).length ≤ fuel →
      (kept ++ n :: rest).head? = some start →
      Post (traverseLoop (fun s => (links s).next) f fuel start n s).1 ∧
        (traverseLoop (fun s => (links s).next) f fuel start n s).2 = true := by
  intro fuel
  induction fuel with
  | zero => exact fun _ _ _ _ _ _ hlen _ => absurd hlen (by simp)
  | succ fuel ih =>
    intro kept n rest s start hinv hlen hstart
    obtain ⟨hexit, hgo⟩ := hstep kept n rest s hinv
    have hr := hring _ _ _ hinv
    simp only [traverseLoop]
    cases hcont : (f s n).2 with
    | false => simpa [hcont] using hexit hcont
    | true =>
      cases rest with
      | nil =>
        have hlast : (links s).next n = start := by
          have := hr.next_last
          rw [hstart] at this
          exact Option.some.inj this
        have hpost : Post (f s n).1 := by
          rcases hgo hcont with hk | ⟨hk, -⟩
          · exact hend _ _ hk
          · exact hend _ _ hk
        simpa [hlast] using hpost
      | cons m rest =>
        have hnext : (links s).next n = m := hr.next_eq
        have hmem : start ∈ kept ++ [n] := by
          cases kept with
          | nil => simpa using hstart.symm
          | cons a kept =>
            have : a = start := by simpa using hstart
            simp [this]
        have hm : m ≠ start := by
          rintro rfl
          have hsplit : (kept ++ [n] ++ m :: rest).Nodup := by simpa using hr.nodup
          exact (List.disjoint_of_nodup_append hsplit) hmem (by simp)
        rw [hnext, if_neg (by simp [hm])]
        have hfuel : (m :: rest).length ≤ fuel := by
          simp only [List.length_cons] at hlen ⊢
          omega
        rcases hgo hcont with hkept | ⟨hgone, hout⟩
        · have hnext' : (links (f s n).1).next n = m :=
            (by simpa using hring _ _ _ hkept : (links (f s n).1).IsRing (kept ++ n :: m :: rest)
              ).next_eq
          rw [if_neg (by simp [hnext'])]
          exact ih _ _ _ _ _ hkept hfuel (by simpa using hstart)
        · have hnext' : (links (f s n).1).next n ≠ m := fun he => hout (by simp [he])
          cases kept with
          | nil =>
            have hsn : start = n := by simpa using hstart.symm
            rw [if_pos ⟨hsn, hnext'⟩]
            exact ih _ _ _ _ _ hgone hfuel rfl
          | cons a kept =>
            have has : a = start := by simpa using hstart
            have hsn : start ≠ n := by
              rintro rfl
              exact (List.nodup_cons.mp hr.nodup).1 (by simp [has])
            rw [if_neg fun hc => hsn hc.1]
            exact ih _ _ _ _ _ hgone hfuel (by simpa using hstart)

theorem traverse_rule
    (hring : ∀ kept rest s, Inv kept rest s → (links s).IsRing (kept ++ rest))
    (hstep : ∀ kept n rest s, Inv kept (n :: rest) s →
      ((f s n).2 = false → Post (f s n).1) ∧
      ((f s n).2 = true → Inv (kept ++ [n]) rest (f s n).1 ∨
        Inv kept rest (f s n).1 ∧ (links (f s n).1).next n ∉ rest))
    (hend : ∀ kept s, Inv kept [] s → Post s)
    {xs : List Nat} {s : σ} {maxIterations : Nat} (h : Inv [] xs s) (hlen : xs.length ≤ maxIterations) :
    Post (traverse links xs.head? maxIterations f s).1 ∧
      (traverse links xs.head? maxIterations f s).2 = true := by
  cases xs with
  | nil => exact ⟨hend _ _ h, rfl⟩
  | cons n rest => exact traverseLoop_rule hring hstep hend _ _ _ _ _ _ h hlen rfl

theorem traverseR_eq {xs : List Nat} {s : σ} (maxIterations : Nat) (h : (links s).IsRing xs) :
    traverseR links xs.head? maxIterations f s =
      traverse (fun s => (links s).swap) xs.reverse.head? maxIterations f s := by
  cases xs with
  | nil => rfl
  | cons a as =>
    rw [List.head?_reverse, h.prev_head]
    rfl

end Traverse

end Fprime.Cfdp
