import Mathlib.Data.Prod.Lex
import Fprime.Lib.Lists
import Fprime.Os.QueueSpec

/-!
# The lockless delegate refines the abstract queue
-/

namespace Fprime.Os

open Lib.Bytes Lib.Select Lib.Slab Lib.Lists List Function Nat SpecQueue

namespace LocklessPriorityQueue

theorem take_encodeLE_decodeLE {n : Nat} {bs : Bytes} (h : bs.length ≤ n) :
    (encodeLE n (decodeLE bs)).take bs.length = bs := by
  induction bs generalizing n with
  | nil => simp
  | cons b bs ih =>
    rw [length_cons] at h
    obtain ⟨n, rfl⟩ : ∃ m, n = m + 1 := ⟨n - 1, by omega⟩
    have hb := b.toNat_lt
    have hdiv : (b.toNat + 256 * decodeLE bs) / 256 = decodeLE bs := by omega
    have hhead : UInt8.ofNat (b.toNat + 256 * decodeLE bs) = b := by
      apply UInt8.toNat_inj.mp
      simp only [UInt8.toNat_ofNat']
      omega
    simp only [decodeLE, encodeLE, hdiv, hhead, length_cons, take_succ_cons,
      ih (le_of_succ_le_succ h)]

theorem packWords_length (words : Nat) (buffer : Bytes) :
    (packWords words buffer).length ≤ words := by
  induction words generalizing buffer with
  | zero => simp [packWords]
  | succ words ih =>
    unfold packWords
    split
    · simp
    · simpa using ih _

theorem unpackWords_packWords (words : Nat) (buffer : Bytes) (stale : List Nat)
    (h : buffer.length ≤ words * wordBytes) :
    unpackWords (packWords words buffer ++ stale) buffer.length = buffer := by
  induction words generalizing buffer with
  | zero =>
    have hnil : buffer = [] := eq_nil_of_length_eq_zero (by omega)
    subst hnil
    cases stale <;> rfl
  | succ words ih =>
    by_cases hempty : buffer = []
    · subst hempty
      cases stale <;> rfl
    · have hne : buffer.isEmpty = false := by simpa using hempty
      have hpos : buffer.length ≠ 0 := fun hz => hempty (eq_nil_of_length_eq_zero hz)
      have hdrop : (buffer.drop wordBytes).length ≤ words * wordBytes := by
        rw [length_drop]
        rw [add_one_mul] at h
        omega
      have htake : (encodeLE wordBytes (decodeLE (buffer.take wordBytes))).take buffer.length =
          buffer.take wordBytes := by
        have hle : (buffer.take wordBytes).length ≤ wordBytes := by
          rw [length_take]
          omega
        have h8 := take_encodeLE_decodeLE hle
        rcases le_total buffer.length wordBytes with hshort | hlong
        · rw [take_of_length_le hshort] at h8 ⊢
          exact h8
        · rw [length_take, min_eq_left hlong] at h8
          rw [take_of_length_le (by rw [encodeLE_length]; exact hlong)]
          rwa [take_of_length_le (by rw [encodeLE_length])] at h8
      have hrest := ih _ hdrop
      rw [length_drop] at hrest
      simp only [packWords, hne, Bool.false_eq_true, if_false, cons_append, unpackWords, hpos,
        htake, hrest, take_append_drop]

/-- A ready slot stands for an entry: its sequence is the send number modulo the counter's width. -/
structure Holds (q : LocklessPriorityQueue) (index : Nat) (e : Entry) : Prop where
  bound : index < q.depth
  ready : q.hasState .ready index
  priority : (q.slots index).priority = e.priority
  sequence : (q.slots index).sequence = e.number % 2 ^ 32
  size : (q.slots index).size = e.bytes.length
  bytes : q.readPayload index e.bytes.length = e.bytes

/-- The slots in `order` hold the queued messages, oldest first; every other slot is free. -/
structure RefinesAt (q : LocklessPriorityQueue) (s : SpecQueue) (order : List Nat) : Prop where
  depth : q.depth = s.depth
  small : q.depth < 2 ^ 31
  messageSize : q.messageSize = s.messageSize
  words : q.messageSize ≤ q.wordsPerSlot * wordBytes
  highMark : q.highMark = s.highMark
  sequence : q.sequence = s.sent % 2 ^ 32
  count : q.count = s.entries.length
  available : q.available = s.entries.length
  holds : List.Forall₂ q.Holds order s.entries
  nodup : order.Nodup
  free : ∀ i < q.depth, i ∉ order → q.hasState .free i

def Refines (q : LocklessPriorityQueue) (s : SpecQueue) : Prop :=
  ∃ order, q.RefinesAt s order

variable {q : LocklessPriorityQueue} {order : List Nat} {s : SpecQueue} {e : Entry} {index : Nat}

theorem create_refines {depth messageSize : Nat} (h : create depth messageSize = some q) :
    q.Refines (.create depth messageSize) := by
  simp only [create] at h
  split at h
  · rename_i hpos
    cases h
    refine ⟨[], rfl, ?_, rfl, ?_, rfl, rfl, rfl, rfl, .nil, nodup_nil, fun _ _ _ => rfl⟩
    · have := hpos.2.2.1
      simp only
      omega
    · simp only [wordBytes]
      omega
  · simp at h

theorem RefinesAt.length_le (h : q.RefinesAt s order) : order.length ≤ q.depth := by
  have hsub : order ⊆ range q.depth := fun i hi => by
    obtain ⟨e, -, he⟩ := forall₂_mem_left h.holds hi
    exact mem_range.mpr he.bound
  simpa using (h.nodup.subperm hsub).length_le

theorem Holds.of_ne {q' : LocklessPriorityQueue} {i j : Nat} (h : q.Holds i e) (hne : i ≠ j)
    (hdepth : q'.depth = q.depth) {slot : LocklessSlot}
    (hslots : q'.slots = update q.slots j slot)
    (hbytes : ∀ n, q'.readPayload i n = q.readPayload i n) : q'.Holds i e := by
  have hslot : q'.slots i = q.slots i := by rw [hslots, update_of_ne hne]
  refine ⟨?_, ?_, ?_, ?_, ?_, ?_⟩
  · rw [hdepth]
    exact h.bound
  · have hready := h.ready
    unfold hasState at hready ⊢
    rwa [hslot]
  · rw [hslot, h.priority]
  · rw [hslot, h.sequence]
  · rw [hslot, h.size]
  · rw [hbytes, h.bytes]

theorem publish_refines (h : q.RefinesAt s order) (hindex : index < q.depth)
    (hfree : index ∉ order) {buffer : Bytes} (hfits : buffer.length ≤ q.messageSize)
    (priority : Nat) :
    (q.publish index buffer priority).RefinesAt (s.store buffer priority) (order ++ [index]) := by
  have hlen := h.holds.length_eq
  have hpacked := packWords_length q.wordsPerSlot buffer
  have hroom : order.length < q.depth := by
    rcases h.length_le.lt_or_eq with hlt | heq
    · exact hlt
    · refine absurd (mem_of_length_ge h.nodup (fun i hi => ?_) heq.ge hindex) hfree
      obtain ⟨e, -, he⟩ := forall₂_mem_left h.holds hi
      exact he.bound
  have hsmall := h.small
  have hcount : (q.count + 1) % 2 ^ 32 = s.entries.length + 1 := by
    rw [h.count]
    omega
  refine ⟨h.depth, h.small, h.messageSize, h.words, ?_, ?_, ?_, ?_, ?_, ?_, ?_⟩
  · have hpos : 0 < q.depth := zero_lt_of_lt hindex
    simp only [publish, raiseHighMark, hcount, hpos, true_and, h.highMark, store]
    split <;> omega
  · simp only [publish, store, h.sequence]
    omega
  · simp only [publish, store, hcount, length_append, length_singleton]
  · simp only [publish, store, h.available, length_append, length_singleton]
    omega
  · refine rel_append ?_ (.cons ?_ .nil)
    · refine forall₂_imp_of_mem h.holds fun i hi e he => ?_
      have hne : i ≠ index := fun heq => hfree (heq ▸ hi)
      refine he.of_ne hne rfl rfl fun n => ?_
      simp only [readPayload, publish, writePayload]
      rw [readAt_writeAt_disjoint _ _ _ _ _ (slots_disjoint hne.symm le_rfl hpacked)]
    · refine ⟨hindex, ?_, ?_, ?_, ?_, ?_⟩
      · simp [hasState, publish, stateOf_packStateTag]
      · simp [publish]
      · simp [publish, h.sequence]
      · simp [publish]
      · simp only [readPayload, publish, writePayload, readAt_writeAt_same _ _ _ hpacked]
        exact unpackWords_packWords _ _ _ (hfits.trans h.words)
  · refine nodup_append.mpr ⟨h.nodup, nodup_singleton _, ?_⟩
    intro a ha b hb hab
    rw [mem_singleton.mp hb] at hab
    exact hfree (hab ▸ ha)
  · intro i hi hnot
    rw [mem_append, not_or, mem_singleton] at hnot
    have hslot : (q.publish index buffer priority).slots i = q.slots i := by
      simp [publish, update_of_ne hnot.2]
    have hstate := h.free i hi hnot.1
    unfold hasState at hstate ⊢
    rwa [hslot]

theorem trySend_refines (h : q.RefinesAt s order) {buffer : Bytes}
    (hfits : buffer.length ≤ q.messageSize) (priority : Nat) :
    if s.entries.length ≥ s.depth then q.trySend buffer priority = none
    else ∃ q', q.trySend buffer priority = some q' ∧ q'.Refines (s.store buffer priority) := by
  have hlen := h.holds.length_eq
  have hbound : ∀ i ∈ order, i < q.depth ∧ q.hasState .ready i := fun i hi => by
    obtain ⟨e, -, he⟩ := forall₂_mem_left h.holds hi
    exact ⟨he.bound, he.ready⟩
  split
  · rename_i hfull
    rw [trySend, Option.map_eq_none_iff, find?_eq_none]
    intro i hi hfree
    have hmem := mem_of_length_ge h.nodup (fun i hi => (hbound i hi).1)
      (by rw [hlen, h.depth]; exact hfull) (mem_range.mp hi)
    have hready := (hbound i hmem).2
    simp only [hasState, decide_eq_true_eq] at hready hfree
    rw [hready] at hfree
    exact absurd hfree (by decide)
  · rename_i hroom
    obtain ⟨i, hi, hnot⟩ := exists_lt_not_mem (l := order) (n := q.depth) (by
      rw [hlen, h.depth]
      omega)
    have hsome : ((range q.depth).find? (q.hasState .free)).isSome := by
      rw [find?_isSome]
      exact ⟨i, mem_range.mpr hi, h.free i hi hnot⟩
    obtain ⟨index, hindex⟩ := Option.isSome_iff_exists.mp hsome
    refine ⟨_, by rw [trySend, hindex]; rfl, order ++ [index], ?_⟩
    have hstate := find?_some hindex
    have hlt := mem_range.mp (mem_of_find?_eq_some hindex)
    refine publish_refines h hlt (fun hin => ?_) hfits priority
    have hready := (hbound index hin).2
    simp only [hasState, decide_eq_true_eq] at hready hstate
    rw [hready] at hstate
    exact absurd hstate (by decide)

theorem send_refines (h : q.Refines s) (buffer : Bytes) (priority : Nat) :
    (q.send buffer priority).1 = (s.send buffer priority).1 ∧
      (q.send buffer priority).2.Refines (s.send buffer priority).2 := by
  obtain ⟨order, hat⟩ := h
  unfold send SpecQueue.send
  rw [← hat.messageSize]
  split
  · exact ⟨rfl, order, hat⟩
  · rename_i hsize
    have htry := trySend_refines hat (Nat.le_of_not_lt hsize) priority
    split at htry
    · rename_i hfull
      simp only [if_pos hfull, sendPasses, maxRetryPasses, htry]
      exact ⟨trivial, order, hat⟩
    · rename_i hroom
      obtain ⟨q', hq', href⟩ := htry
      simp only [if_neg hroom, sendPasses, maxRetryPasses, hq']
      exact ⟨trivial, href⟩

/-- Any two queued messages were sent fewer than `2 ^ 31` sends apart. -/
def Close (s : SpecQueue) : Prop :=
  ∀ e ∈ s.entries, ∀ e' ∈ s.entries, e.number ≤ e'.number → e'.number - e.number < 2 ^ 31
  deriving Decidable

/-- The preference as a linear order of keys: the priority, then the distance of the sequence
from the oldest queued one. -/
def slotKey (q : LocklessPriorityQueue) (base index : Nat) : ℕ ×ₗ ℕᵒᵈ :=
  toLex ((q.slots index).priority,
    OrderDual.toDual (((q.slots index).sequence + 2 ^ 32 - base % 2 ^ 32) % 2 ^ 32))

theorem slotKey_eq {base : Nat} (h : q.Holds index e) (hle : base ≤ e.number)
    (hclose : e.number - base < 2 ^ 31) :
    q.slotKey base index = toLex (e.priority, OrderDual.toDual (e.number - base)) := by
  have hseq : (e.number % 2 ^ 32 + 2 ^ 32 - base % 2 ^ 32) % 2 ^ 32 = e.number - base := by omega
  rw [slotKey, h.priority, h.sequence, hseq]

theorem preferredSlot_iff {i j base : Nat} {e' : Entry} (hi : q.Holds i e) (hj : q.Holds j e')
    (hle : base ≤ e.number) (hle' : base ≤ e'.number) (hclose : e.number - base < 2 ^ 31)
    (hclose' : e'.number - base < 2 ^ 31) :
    q.preferredSlot i j = true ↔ q.slotKey base j < q.slotKey base i := by
  rw [slotKey_eq hi hle hclose, slotKey_eq hj hle' hclose', preferredSlot, hi.priority,
    hj.priority, hi.sequence, hj.sequence, isCandidatePreferred]
  simp only [Prod.Lex.toLex_lt_toLex, OrderDual.toDual_lt_toDual]
  split_ifs with hgt heq
  · simp [hgt]
  · rw [decide_eq_true_eq]
    omega
  · simp only [false_iff]
    omega

theorem free_refines {a1 a2 : List Nat} {b1 b2 : List Entry}
    (h : q.RefinesAt s (a1 ++ index :: a2)) (hentries : s.entries = b1 ++ e :: b2)
    (h1 : List.Forall₂ q.Holds a1 b1) (h2 : List.Forall₂ q.Holds a2 b2) :
    ((q.claim index).free index).RefinesAt (s.remove e) (a1 ++ a2) := by
  have hnotin : e ∉ b1 := by
    have hsorted := s.sorted
    rw [hentries] at hsorted
    exact fun hin =>
      lt_irrefl _ ((pairwise_append.mp hsorted).2.2 e hin e mem_cons_self)
  have herase : (s.remove e).entries = b1 ++ b2 := by
    simp only [remove, hentries, erase_append_cons hnotin]
  have hlen : s.entries.length = (b1 ++ b2).length + 1 := by
    rw [hentries]
    simp
    omega
  have hle := h.length_le
  rw [h.holds.length_eq, hlen] at hle
  have hsmall := h.small
  have hslots : ((q.claim index).free index).slots = update q.slots index
      ⟨packStateTag 62 .free (tagOf (packStateTag 62 .reading (tagOf (q.slots index).stateTag + 1)) + 1),
        (q.slots index).sequence, (q.slots index).size, (q.slots index).priority⟩ := by
    simp [free, claim]
  have hnodup := h.nodup
  rw [nodup_middle, nodup_cons] at hnodup
  refine ⟨h.depth, h.small, h.messageSize, h.words, h.highMark, h.sequence, ?_, ?_, ?_, hnodup.2,
    ?_⟩
  · simp only [free, claim, h.count, hlen, herase]
    omega
  · simp only [free, claim, h.available, hlen, herase]
    omega
  · rw [herase]
    refine forall₂_imp_of_mem (rel_append h1 h2) fun i hi e' he' => ?_
    have hne : i ≠ index := fun heq => hnodup.1 (heq ▸ hi)
    exact he'.of_ne hne rfl hslots fun _ => rfl
  · intro i hi hnot
    by_cases heq : i = index
    · subst heq
      simp [hasState, hslots, stateOf_packStateTag]
    · have hslot : ((q.claim index).free index).slots i = q.slots i := by
        rw [hslots, update_of_ne heq]
      have hout : i ∉ a1 ++ index :: a2 := by
        simp only [mem_append, mem_cons, not_or] at hnot ⊢
        exact ⟨hnot.1, heq, hnot.2⟩
      have hstate := h.free i hi hout
      unfold hasState at hstate ⊢
      rwa [hslot]

theorem select_ready (h : q.RefinesAt s order) (hclose : Close s) (hne : s.entries ≠ []) :
    ∃ index a1 a2 b1 e b2, order = a1 ++ index :: a2 ∧ s.entries = b1 ++ e :: b2 ∧
      q.Holds index e ∧ List.Forall₂ q.Holds a1 b1 ∧ List.Forall₂ q.Holds a2 b2 ∧
      select q.preferredSlot ((range q.depth).filter (q.hasState .ready)) = some index ∧
      s.next = some e := by
  have hmem : ∀ i, i ∈ (range q.depth).filter (q.hasState .ready) ↔ i ∈ order := by
    intro i
    rw [mem_filter, mem_range]
    constructor
    · rintro ⟨hi, hready⟩
      by_contra hnot
      have hfree := h.free i hi hnot
      simp only [hasState, decide_eq_true_eq] at hready hfree
      rw [hready] at hfree
      exact absurd hfree (by decide)
    · intro hi
      obtain ⟨e, -, he⟩ := forall₂_mem_left h.holds hi
      exact ⟨he.bound, he.ready⟩
  obtain ⟨e0, rest, hcons⟩ := exists_cons_of_ne_nil hne
  have hbase : ∀ e ∈ s.entries, e0.number ≤ e.number ∧ e.number - e0.number < 2 ^ 31 := by
    intro e he
    have hle : e0.number ≤ e.number := by
      have hsorted := s.sorted
      rw [hcons] at he hsorted
      rcases mem_cons.mp he with rfl | he
      · exact le_rfl
      · exact (rel_of_pairwise_cons hsorted he).le
    exact ⟨hle, hclose e0 (by rw [hcons]; simp) e he hle⟩
  have hscan : (range q.depth).filter (q.hasState .ready) ≠ [] := by
    obtain ⟨i, hi, -⟩ := forall₂_mem_right h.holds (b := e0) (by rw [hcons]; simp)
    exact ne_nil_of_mem ((hmem i).mpr hi)
  have hprefer : ∀ c ∈ (range q.depth).filter (q.hasState .ready),
      ∀ b ∈ (range q.depth).filter (q.hasState .ready),
      q.preferredSlot c b = true ↔ q.slotKey e0.number b < q.slotKey e0.number c := by
    intro c hc b hb
    obtain ⟨e, he, hhold⟩ := forall₂_mem_left h.holds ((hmem c).mp hc)
    obtain ⟨e', he', hhold'⟩ := forall₂_mem_left h.holds ((hmem b).mp hb)
    exact preferredSlot_iff hhold hhold' (hbase e he).1 (hbase e' he').1 (hbase e he).2
      (hbase e' he').2
  obtain ⟨index, hindex, hselect, hmax⟩ := select_eq_some hscan hprefer
  obtain ⟨a1, a2, b1, e, b2, horder, hentries, hhold, h1, h2⟩ :=
    forall₂_split_left h.holds ((hmem index).mp hindex)
  have he : e ∈ s.entries := by rw [hentries]; simp
  refine ⟨index, a1, a2, b1, e, b2, horder, hentries, hhold, h1, h2, hselect, ?_⟩
  refine next_eq_some he fun e' he' => ?_
  obtain ⟨i, hi, hhold'⟩ := forall₂_mem_right h.holds he'
  have hle := hmax i ((hmem i).mpr hi)
  rw [slotKey_eq hhold (hbase e he).1 (hbase e he).2,
    slotKey_eq hhold' (hbase e' he').1 (hbase e' he').2] at hle
  simp only [Prod.Lex.toLex_le_toLex, OrderDual.toDual_le_toDual] at hle
  have := (hbase e he).1
  have := (hbase e' he').1
  omega

theorem receive_refines (h : q.Refines s) (hclose : Close s) (capacity : Nat) :
    (q.receive capacity).1 = (s.receive capacity).1 ∧
      ((q.receive capacity).1 ≠ .assertFailed →
        (q.receive capacity).2.Refines (s.receive capacity).2) := by
  obtain ⟨order, hat⟩ := h
  by_cases hempty : s.entries = []
  · have hnext : s.next = none := by simp [SpecQueue.next, hempty]
    have havail : q.available = 0 := by rw [hat.available, hempty]; rfl
    simp only [receive, maxRetryPasses, receivePasses, havail, if_true, SpecQueue.receive, hnext,
      true_and]
    exact fun _ => ⟨order, hat⟩
  · obtain ⟨index, a1, a2, b1, e, b2, rfl, hentries, hhold, h1, h2, hselect, hnext⟩ :=
      select_ready hat hclose hempty
    have havail : q.available ≠ 0 := by
      rw [hat.available]
      exact fun hz => hempty (eq_nil_of_length_eq_zero hz)
    simp only [receive, maxRetryPasses, receivePasses, havail, if_false, tryReceive, hselect,
      Option.map_some, SpecQueue.receive, hnext, hhold.size]
    by_cases hcap : e.bytes.length ≤ capacity
    · simp only [hcap, if_true, hhold.bytes, hhold.priority, true_and]
      exact fun _ => ⟨a1 ++ a2, free_refines hat hentries h1 h2⟩
    · simp only [hcap, if_false, true_and]
      exact fun hfalse => absurd rfl hfalse

end LocklessPriorityQueue

end Fprime.Os
