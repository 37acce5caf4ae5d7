import Fprime.Lib.Lists

/-!
# Buffers in escrow

Buffers that ride a message queue are kept in numbered slots, and the message carries a token: the
slot and the slot's generation, which moves on when its buffer is claimed.
-/

namespace Fprime.Comp

open List

structure Token where
  generation : UInt32
  index : Nat
  deriving DecidableEq

structure Slot (α : Type) where
  generation : UInt32
  buffer : Option α

/-- The slots, and the numbers of the empty ones, the last one emptied first. -/
structure BufferEscrow (α : Type) where
  slots : List (Slot α)
  free : List Nat
  vacant : ∀ i ∈ free, ∃ s, slots[i]? = some s ∧ s.buffer = none
  nodup : free.Nodup

namespace BufferEscrow

variable {α : Type}

def new : BufferEscrow α :=
  ⟨[], [], by simp, nodup_nil⟩

theorem vacant_set {slots : List (Slot α)} {free : List Nat} {index : Nat} {s : Slot α}
    (h : ∀ i ∈ free, ∃ s, slots[i]? = some s ∧ s.buffer = none) (hindex : index ∉ free) :
    ∀ i ∈ free, ∃ s', (slots.set index s)[i]? = some s' ∧ s'.buffer = none := by
  intro i hi
  obtain ⟨s', hs', hnone⟩ := h i hi
  have hne : index ≠ i := fun he => hindex (he ▸ hi)
  exact ⟨s', by rw [getElem?_set_ne hne, hs'], hnone⟩

/-- The slot taken from the free list is empty, so filling it loses no buffer. -/
def deposit (e : BufferEscrow α) (buffer : α) : Token × BufferEscrow α :=
  match hfree : e.free with
  | [] =>
    (⟨0, e.slots.length⟩, ⟨e.slots ++ [⟨0, some buffer⟩], [], by simp, nodup_nil⟩)
  | index :: free =>
    let generation := ((e.slots[index]?).map Slot.generation).getD 0
    have hvacant : ∀ i ∈ free, ∃ s, e.slots[i]? = some s ∧ s.buffer = none := fun i hi =>
      e.vacant i (hfree ▸ mem_cons_of_mem index hi)
    have hnodup : (index :: free).Nodup := hfree ▸ e.nodup
    (⟨generation, index⟩, ⟨e.slots.set index ⟨generation, some buffer⟩, free,
      vacant_set hvacant (nodup_cons.mp hnodup).1, (nodup_cons.mp hnodup).2⟩)

/-- What a token stands for, if it is valid and not claimed yet. -/
def lookup (e : BufferEscrow α) (token : Token) : Option α :=
  (e.slots[token.index]?).bind fun s => if s.generation = token.generation then s.buffer else none

variable {e : BufferEscrow α} {token : Token} {b : α}

theorem slot_of_lookup (h : e.lookup token = some b) :
    ∃ s, e.slots[token.index]? = some s ∧ s.buffer = some b := by
  obtain ⟨s, hs, hb⟩ := Option.bind_eq_some_iff.mp h
  split at hb
  · exact ⟨s, hs, hb⟩
  · cases hb

theorem lt_of_lookup (h : e.lookup token = some b) : token.index < e.slots.length := by
  obtain ⟨s, hs, -⟩ := slot_of_lookup h
  exact (List.getElem?_eq_some_iff.mp hs).1

theorem not_mem_free (h : e.lookup token = some b) : token.index ∉ e.free := by
  intro hmem
  obtain ⟨s, hs, hnone⟩ := e.vacant token.index hmem
  simp [lookup, hs, hnone] at h

/-- Claiming fails an assertion on a token that stands for nothing. -/
def claim (e : BufferEscrow α) (token : Token) : Option (α × BufferEscrow α) :=
  match h : e.lookup token with
  | none => none
  | some buffer =>
    some (buffer, ⟨e.slots.set token.index ⟨token.generation + 1, none⟩, token.index :: e.free,
      by
        intro i hi
        rcases mem_cons.mp hi with rfl | hi
        · exact ⟨_, getElem?_set_self (lt_of_lookup h), rfl⟩
        · exact vacant_set e.vacant (not_mem_free h) i hi,
      nodup_cons.mpr ⟨not_mem_free h, e.nodup⟩⟩)

def held (e : BufferEscrow α) : List α :=
  e.slots.filterMap Slot.buffer

structure Holds (e : BufferEscrow α) (xs : List (Token × α)) : Prop where
  lookup : ∀ x ∈ xs, e.lookup x.1 = some x.2
  nodup : (xs.map fun x => x.1.index).Nodup
  held : e.held.Perm (xs.map Prod.snd)

variable {e : BufferEscrow α} {xs ys : List (Token × α)}

theorem holds_new : Holds (new : BufferEscrow α) [] :=
  ⟨by simp, nodup_nil, .refl _⟩

theorem Holds.perm (h : Holds e xs) (hxy : xs.Perm ys) : Holds e ys :=
  ⟨fun y hy => h.lookup y (hxy.mem_iff.mpr hy), (hxy.map _).nodup_iff.mp h.nodup,
    h.held.trans (hxy.map _)⟩

theorem lookup_set_of_ne {slots : List (Slot α)} {index : Nat} {s : Slot α}
    (h : token.index ≠ index) :
    ((slots.set index s)[token.index]?) = slots[token.index]? :=
  getElem?_set_ne (Ne.symm h)

theorem deposit_spec (e : BufferEscrow α) (b : α) :
    (e.deposit b).2.lookup (e.deposit b).1 = some b ∧
    (∀ token c, e.lookup token = some c →
      token.index ≠ (e.deposit b).1.index ∧ (e.deposit b).2.lookup token = some c) ∧
    (e.deposit b).2.held.Perm (b :: e.held) := by
  unfold deposit
  split
  · refine ⟨by simp [lookup], fun token c hc => ?_, ?_⟩
    · have hlt := lt_of_lookup hc
      refine ⟨Nat.ne_of_lt hlt, ?_⟩
      simpa [lookup, getElem?_append_left hlt] using hc
    · simp [held]
  · rename_i index free hfree
    obtain ⟨s, hs, hnone⟩ := e.vacant index (by rw [hfree]; exact mem_cons_self)
    have hlt : index < e.slots.length := (List.getElem?_eq_some_iff.mp hs).1
    refine ⟨by simp [lookup, getElem?_set_self hlt], fun token c hc => ?_, ?_⟩
    · have hne : token.index ≠ index := by
        intro he
        exact not_mem_free hc (by rw [he, hfree]; exact mem_cons_self)
      exact ⟨hne, by simpa only [lookup, lookup_set_of_ne hne] using hc⟩
    · exact Lib.Lists.filterMap_set_perm_of_none hs hnone rfl

theorem Holds.deposit (h : Holds e xs) (b : α) :
    Holds (e.deposit b).2 (((e.deposit b).1, b) :: xs) := by
  obtain ⟨hself, hother, hheld⟩ := e.deposit_spec b
  refine ⟨?_, ?_, hheld.trans (h.held.cons b)⟩
  · intro x hx
    rcases mem_cons.mp hx with rfl | hx
    · exact hself
    · exact (hother x.1 x.2 (h.lookup x hx)).2
  · refine nodup_cons.mpr ⟨?_, h.nodup⟩
    intro hmem
    obtain ⟨x, hx, heq⟩ := mem_map.mp hmem
    exact (hother x.1 x.2 (h.lookup x hx)).1 heq

theorem Holds.claim (h : Holds e ((token, b) :: xs)) :
    ∃ e', e.claim token = some (b, e') ∧ Holds e' xs := by
  have hlookup : e.lookup token = some b := h.lookup _ mem_cons_self
  obtain ⟨hnotin, hnodup⟩ := nodup_cons.mp h.nodup
  unfold BufferEscrow.claim
  split
  · rename_i hnone
    rw [hlookup] at hnone
    cases hnone
  · rename_i buffer hsome
    obtain rfl : b = buffer := Option.some.inj (hlookup.symm.trans hsome)
    obtain ⟨s, hs, hbuf⟩ := slot_of_lookup hlookup
    refine ⟨_, rfl, ?_, hnodup, ?_⟩
    · intro x hx
      have hne : x.1.index ≠ token.index := fun he =>
        hnotin (mem_map.mpr ⟨x, hx, he⟩)
      have hx' := h.lookup x (mem_cons_of_mem _ hx)
      simpa only [BufferEscrow.lookup, lookup_set_of_ne hne] using hx'
    · have hperm := Lib.Lists.filterMap_set_perm (f := Slot.buffer) hs hbuf
        (show Slot.buffer ⟨token.generation + 1, none⟩ = none from rfl)
      exact (perm_cons b).mp (hperm.symm.trans h.held)

theorem claim_eq_some {e' : BufferEscrow α} (h : e.claim token = some (b, e')) :
    e.lookup token = some b ∧ e'.slots = e.slots.set token.index ⟨token.generation + 1, none⟩ ∧
      e'.free = token.index :: e.free := by
  unfold claim at h
  split at h
  · cases h
  · rename_i c hlookup
    cases h
    exact ⟨hlookup, rfl, rfl⟩

end BufferEscrow

end Fprime.Comp
