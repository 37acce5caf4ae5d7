import Mathlib.Data.List.Nodup
import Mathlib.Data.List.Perm.Subperm

/-!
# Chains of nodes

Nodes are numbered and each one names the next. A hash table with chaining keeps one chain for
each slot; nodes are taken from a pool in the order of their numbers and never given back.
-/

namespace Lib.Chains

open List Function

variable {κ : Type}

/-- From a start the links lead through the nodes of the list and end there. -/
def Linked (next : Nat → Option Nat) : Option Nat → List Nat → Prop
  | start, [] => start = none
  | start, i :: rest => start = some i ∧ Linked next (next i) rest

variable {l : List Nat} {next : Nat → Option Nat} {start : Option Nat}

theorem Linked.congr {next' : Nat → Option Nat} (h : Linked next start l)
    (heq : ∀ i ∈ l, next' i = next i) : Linked next' start l := by
  induction l generalizing start with
  | nil => exact h
  | cons i l ih =>
    refine ⟨h.1, ?_⟩
    rw [heq i mem_cons_self]
    exact ih h.2 fun j hj => heq j (mem_cons_of_mem i hj)

theorem Linked.concat {last new : Nat} (h : Linked next start (l ++ [last]))
    (hnodup : (l ++ [last]).Nodup) (hnew : new ∉ l ++ [last]) :
    Linked (update (update next last (some new)) new none) start
      (l ++ [last] ++ [new]) := by
  induction l generalizing start with
  | nil =>
    have hne : last ≠ new := fun he => hnew (by simp [he])
    refine ⟨h.1, ?_, ?_⟩
    · rw [update_of_ne hne, update_self]
    · rw [update_self]
      rfl
  | cons i l ih =>
    obtain ⟨hi, hrest⟩ := nodup_cons.mp hnodup
    have hlast : i ≠ last := fun he => hi (by simp [he])
    have hne : i ≠ new := fun he => hnew (by simp [he])
    refine ⟨h.1, ?_⟩
    rw [update_of_ne hne, update_of_ne hlast]
    exact ih h.2 hrest fun hmem => hnew (mem_cons_of_mem i hmem)

def find (next : Nat → Option Nat) (p : Nat → Bool) : Nat → Option Nat → Option Nat
  | 0, _ => none
  | _ + 1, none => none
  | fuel + 1, some i => if p i then some i else find next p fuel (next i)

theorem find_eq {p : Nat → Bool} (h : Linked next start l) {fuel : Nat} (hfuel : l.length ≤ fuel) :
    find next p fuel start = l.find? p := by
  induction l generalizing start fuel with
  | nil =>
    cases h
    cases fuel <;> rfl
  | cons i l ih =>
    obtain ⟨rfl, hrest⟩ := h
    cases fuel with
    | zero => cases hfuel
    | succ fuel =>
      rw [find, find?_cons]
      cases p i with
      | true => rfl
      | false => exact ih hrest (Nat.le_of_succ_le_succ hfuel)

/-- How a walk that may want to append ends: at a node, behind the last node, or by its bound. -/
inductive Walk where
  | found (i : Nat)
  | ended (prev : Nat)
  | lost

def walk (next : Nat → Option Nat) (p : Nat → Bool) : Nat → Nat → Option Nat → Walk
  | 0, _, _ => .lost
  | _ + 1, prev, none => .ended prev
  | fuel + 1, _, some i => if p i then .found i else walk next p fuel i (next i)

theorem walk_eq {p : Nat → Bool} (h : Linked next start l) {fuel prev : Nat}
    (hfuel : l.length < fuel) :
    walk next p fuel prev start =
      match l.find? p with
      | some i => .found i
      | none => .ended (l.getLastD prev) := by
  induction l generalizing start fuel prev with
  | nil =>
    cases h
    cases fuel with
    | zero => cases hfuel
    | succ fuel => rfl
  | cons i l ih =>
    obtain ⟨rfl, hrest⟩ := h
    cases fuel with
    | zero => cases hfuel
    | succ fuel =>
      rw [walk, find?_cons]
      cases p i with
      | true => rfl
      | false =>
        have htail := @ih (next i) hrest fuel i (Nat.lt_of_succ_lt_succ hfuel)
        rw [if_neg Bool.false_ne_true, htail, getLastD_cons]

/-- The nodes below `free` are in use: each one is in the chain of its key's slot, and no two have
the same key. -/
structure Table (hash : κ → Nat) (slots next : Nat → Option Nat) (key : Nat → κ) (free : Nat)
    (chains : Nat → List Nat) : Prop where
  linked : ∀ k, Linked next (slots k) (chains k)
  nodup : ∀ k, (chains k).Nodup
  mem_iff : ∀ k i, i ∈ chains k ↔ i < free ∧ hash (key i) = k
  distinct : ∀ i < free, ∀ j < free, key i = key j → i = j

section Table

variable {hash : κ → Nat} {slots next : Nat → Option Nat} {key : Nat → κ} {free : Nat}
  {chains : Nat → List Nat}

theorem table_empty (hash : κ → Nat) (next : Nat → Option Nat) (key : Nat → κ) :
    Table hash (fun _ => none) next key 0 fun _ => [] where
  linked _ := rfl
  nodup _ := nodup_nil
  mem_iff _ i := by simp
  distinct _ h := absurd h (Nat.not_lt_zero _)

theorem Table.length_le (h : Table hash slots next key free chains) (k : Nat) :
    (chains k).length ≤ free := by
  have hsub : chains k ⊆ range free :=
    fun i hi => mem_range.mpr ((h.mem_iff k i).mp hi).1
  have hle := ((h.nodup k).subperm hsub).length_le
  rwa [length_range] at hle

theorem Table.find?_eq_some [DecidableEq κ] (h : Table hash slots next key free chains) {k : κ}
    {i : Nat} : (chains (hash k)).find? (fun j => key j = k) = some i ↔ i < free ∧ key i = k := by
  constructor
  · intro hfind
    have hmem := mem_of_find?_eq_some hfind
    exact ⟨((h.mem_iff _ i).mp hmem).1, by simpa using find?_some hfind⟩
  · rintro ⟨hi, rfl⟩
    have hmem : i ∈ chains (hash (key i)) := (h.mem_iff _ i).mpr ⟨hi, rfl⟩
    cases hfind : (chains (hash (key i))).find? (fun j => key j = key i) with
    | none => exact absurd (find?_eq_none.mp hfind i hmem) (by simp)
    | some j =>
      have hj := ((h.mem_iff _ j).mp (mem_of_find?_eq_some hfind)).1
      have hkey : key j = key i := by simpa using find?_some hfind
      rw [h.distinct j hj i hi hkey]

/-- A key that no node has gets the next node of the pool, at the end of its chain. -/
theorem Table.insert (h : Table hash slots next key free chains) {k : κ}
    (hk : ∀ i < free, key i ≠ k) {slots' next' : Nat → Option Nat} {key' : Nat → κ}
    (hself : key' free = k) (hkeys : ∀ i < free, key' i = key i)
    (hothers : ∀ s ≠ hash k, slots' s = slots s)
    (hnext : ∀ s ≠ hash k, ∀ i ∈ chains s, next' i = next i)
    (hlinked : Linked next' (slots' (hash k)) (chains (hash k) ++ [free])) :
    Table hash slots' next' key' (free + 1)
      (update chains (hash k) (chains (hash k) ++ [free])) where
  linked s := by
    by_cases hs : s = hash k
    · subst hs
      rw [update_self]
      exact hlinked
    · rw [update_of_ne hs, hothers s hs]
      exact (h.linked s).congr (hnext s hs)
  nodup s := by
    by_cases hs : s = hash k
    · subst hs
      rw [update_self, nodup_append]
      refine ⟨h.nodup _, nodup_singleton _, fun i hi j hj => ?_⟩
      rw [mem_singleton.mp hj]
      exact Nat.ne_of_lt ((h.mem_iff _ i).mp hi).1
    · rw [update_of_ne hs]
      exact h.nodup s
  mem_iff s i := by
    have hlast : i < free + 1 ↔ i < free ∨ i = free := by omega
    by_cases hs : s = hash k
    · subst hs
      rw [update_self, mem_append, mem_singleton, h.mem_iff, hlast]
      constructor
      · rintro (⟨hi, hhash⟩ | rfl)
        · exact ⟨.inl hi, by rw [hkeys i hi, hhash]⟩
        · exact ⟨.inr rfl, by rw [hself]⟩
      · rintro ⟨hi | rfl, hhash⟩
        · exact .inl ⟨hi, by rw [← hkeys i hi, hhash]⟩
        · exact .inr rfl
    · rw [update_of_ne hs, h.mem_iff, hlast]
      constructor
      · rintro ⟨hi, hhash⟩
        exact ⟨.inl hi, by rw [hkeys i hi, hhash]⟩
      · rintro ⟨hi | rfl, hhash⟩
        · exact ⟨hi, by rw [← hkeys i hi, hhash]⟩
        · exact absurd (by rw [← hhash, hself]) hs
  distinct i hi j hj heq := by
    have hnew : ∀ i < free, key' i ≠ k := fun i hi => by
      rw [hkeys i hi]
      exact hk i hi
    rcases Nat.lt_succ_iff_lt_or_eq.mp hi with hi | rfl
    · rcases Nat.lt_succ_iff_lt_or_eq.mp hj with hj | rfl
      · rw [hkeys i hi, hkeys j hj] at heq
        exact h.distinct i hi j hj heq
      · exact absurd (heq.trans hself) (hnew i hi)
    · rcases Nat.lt_succ_iff_lt_or_eq.mp hj with hj | rfl
      · exact absurd (heq.symm.trans hself) (hnew j hj)
      · rfl

theorem Table.congr (h : Table hash slots next key free chains) {next' : Nat → Option Nat}
    {key' : Nat → κ} (hnext : ∀ i < free, next' i = next i) (hkey : ∀ i < free, key' i = key i) :
    Table hash slots next' key' free chains where
  linked k := (h.linked k).congr fun i hi => hnext i ((h.mem_iff k i).mp hi).1
  nodup := h.nodup
  mem_iff k i := by
    rw [h.mem_iff]
    constructor
    · rintro ⟨hi, hhash⟩
      exact ⟨hi, by rw [hkey i hi, hhash]⟩
    · rintro ⟨hi, hhash⟩
      exact ⟨hi, by rw [← hkey i hi, hhash]⟩
  distinct i hi j hj heq := by
    rw [hkey i hi, hkey j hj] at heq
    exact h.distinct i hi j hj heq

end Table

end Lib.Chains
