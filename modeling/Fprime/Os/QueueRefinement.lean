import Mathlib.Data.Nat.ModEq
import Mathlib.Data.Prod.Lex
import Fprime.Lib.Lists
import Fprime.Os.QueueSpec

/-!
# Both delegates refine the abstract queue
-/

namespace Fprime.Os

open Lib.Bytes Lib.Select Lib.Slab Lib.Lists Lib.Transducer List Function Nat SpecQueue

namespace PriorityQueue

def freeList (q : PriorityQueue) : List Nat :=
  (range (q.depth - q.heap.length)).map fun k => q.indices ((q.startIndex + k) % q.depth)

/-- A heap node stands for an entry: its stamp is the send number modulo the stamp's width and
its slot holds the bytes. -/
structure Holds (q : PriorityQueue) (node : HeapNode) (e : Entry) : Prop where
  priority : node.priority = e.priority
  order : node.order = e.number % 2 ^ 64
  size : q.sizes node.index = e.bytes.length
  bytes : readAt q.data (node.index * q.messageSize) e.bytes.length = e.bytes
  fits : e.bytes.length ≤ q.messageSize

structure Refines (q : PriorityQueue) (s : SpecQueue) : Prop where
  depth : q.depth = s.depth
  messageSize : q.messageSize = s.messageSize
  highMark : q.highMark = s.highMark
  order : q.order = s.sent % 2 ^ 64
  holds : List.Forall₂ q.Holds q.heap s.entries
  nodup : (q.freeList ++ q.heap.map (·.index)).Nodup
  start : q.startIndex < q.depth
  stop : q.stopIndex = (q.startIndex + (q.depth - q.heap.length)) % q.depth
  room : q.heap.length ≤ q.depth

variable {q : PriorityQueue} {s : SpecQueue}

theorem create_refines {depth messageSize : Nat} (h : create depth messageSize = some q) :
    q.Refines (.create depth messageSize) := by
  unfold create at h
  split at h
  · rename_i hpos
    cases h
    refine ⟨rfl, rfl, rfl, rfl, .nil, ?_, hpos.1, ?_, zero_le _⟩
    · have hid : (range depth).map (fun k => k % depth) = range depth := by
        conv_rhs => rw [← map_id (range depth)]
        exact map_congr_left fun k hk => mod_eq_of_lt (mem_range.mp hk)
      simpa [freeList, hid] using nodup_range
    · simp
  · simp at h

theorem freeList_eq_cons (hstart : q.startIndex < q.depth) (hroom : q.heap.length < q.depth) :
    q.freeList = q.indices q.startIndex ::
      (range (q.depth - (q.heap.length + 1))).map fun k =>
        q.indices (((q.startIndex + 1) % q.depth + k) % q.depth) := by
  obtain ⟨n, hn⟩ : ∃ n, q.depth - q.heap.length = n + 1 := ⟨q.depth - q.heap.length - 1, by omega⟩
  have hn' : q.depth - (q.heap.length + 1) = n := by omega
  rw [freeList, hn, hn', range_succ_eq_map, map_cons, add_zero,
    mod_eq_of_lt hstart, map_map]
  congr 1
  apply map_congr_left
  intro k _
  simp only [comp_apply, mod_add_mod]
  congr 2
  omega

theorem Holds.write {node : HeapNode} {e : Entry} (h : q.Holds node e) {index : Nat}
    (hne : node.index ≠ index) {buffer : Bytes} (hfits : buffer.length ≤ q.messageSize)
    (q' : PriorityQueue) (hdata : q'.data = writeAt q.data (index * q.messageSize) buffer)
    (hsizes : q'.sizes = update q.sizes index buffer.length)
    (hmessage : q'.messageSize = q.messageSize) : q'.Holds node e where
  priority := h.priority
  order := h.order
  size := by rw [hsizes, update_of_ne hne, h.size]
  bytes := by
    rw [hdata, hmessage, readAt_writeAt_disjoint _ _ _ _ _
      (slots_disjoint hne.symm h.fits hfits), h.bytes]
  fits := by rw [hmessage]; exact h.fits

theorem store_refines (h : q.Refines s) {buffer : Bytes}
    (hfits : buffer.length ≤ q.messageSize) (hfull : q.heap.length < q.depth) (priority : Nat) :
    (q.store buffer priority).Refines (s.store buffer priority) := by
  have hlen := h.holds.length_eq
  have hnodup := h.nodup
  rw [freeList_eq_cons h.start hfull, cons_append, nodup_cons, mem_append,
    not_or] at hnodup
  obtain ⟨⟨hnotfree, hfresh⟩, hrest⟩ := hnodup
  have hlen' : (q.store buffer priority).heap.length = q.heap.length + 1 := by
    simp [store]
  refine ⟨h.depth, h.messageSize, ?_, ?_, ?_, ?_, mod_lt _ (zero_lt_of_lt h.start), ?_, ?_⟩
  · simp only [store, SpecQueue.store, length_append, length_singleton, h.highMark, hlen]
  · simp only [store, SpecQueue.store, h.order]
    omega
  · -- The queued messages keep their slots; the new one is in a slot none of them has.
    refine rel_append ?_ (.cons ?_ .nil)
    · refine forall₂_imp_of_mem h.holds fun node hnode e he => ?_
      have hne : node.index ≠ q.indices q.startIndex := fun heq =>
        hfresh (heq ▸ mem_map_of_mem hnode)
      exact he.write hne hfits _ rfl rfl rfl
    · refine ⟨rfl, h.order, ?_, ?_, hfits⟩
      · simp [store]
      · simp only [store, readAt_writeAt_same _ _ _ le_rfl, Nat.sub_self]
        simp [readAt]
  · rw [freeList, hlen']
    simp only [store, map_append, map_cons, map_nil]
    rw [← append_assoc]
    refine nodup_append.mpr ⟨hrest, nodup_singleton _, ?_⟩
    intro a ha b hb hab
    rw [mem_singleton.mp hb] at hab
    subst hab
    rcases mem_append.mp ha with h' | h'
    · exact hnotfree h'
    · exact hfresh h'
  · rw [hlen']
    have hstop := h.stop
    simp only [store, hstop, mod_add_mod]
    congr 1
    omega
  · rw [hlen']
    exact hfull

theorem send_refines (h : q.Refines s) (buffer : Bytes) (priority : Nat) :
    (q.send buffer priority).1 = (s.send buffer priority).1 ∧
      (q.send buffer priority).2.Refines (s.send buffer priority).2 := by
  unfold send SpecQueue.send
  rw [← h.messageSize, ← h.depth, ← h.holds.length_eq]
  split
  · exact ⟨rfl, h⟩
  · split
    · exact ⟨rfl, h⟩
    · rename_i hsize hfull
      exact ⟨rfl, store_refines h (Nat.le_of_not_lt hsize) (Nat.lt_of_not_le hfull) priority⟩

def nodeKey (node : HeapNode) : ℕ ×ₗ ℕᵒᵈ ×ₗ ℕ :=
  toLex (node.priority, toLex (OrderDual.toDual node.order, node.index))

theorem lt_iff_nodeKey_lt (a b : HeapNode) : a.lt b = true ↔ nodeKey a < nodeKey b := by
  rw [HeapNode.lt, decide_eq_true_eq, @eq_comm _ b.order a.order]
  simp only [nodeKey, Prod.Lex.toLex_lt_toLex, OrderDual.toDual_lt_toDual, OrderDual.toDual_inj]

/-- The send numbers of the queued messages have the same high part, so their stamps compare as
they do. -/
def SameEra (s : SpecQueue) : Prop :=
  ∀ e ∈ s.entries, ∀ e' ∈ s.entries, e.number / 2 ^ 64 = e'.number / 2 ^ 64
  deriving Decidable

theorem ring_ne {depth start k j : Nat} (hk : k < j) (hj : j < depth) :
    (start + k) % depth ≠ (start + j) % depth := by
  intro heq
  have hmod : k ≡ j [MOD depth] := Nat.ModEq.add_left_cancel' start heq
  rw [Nat.ModEq, mod_eq_of_lt (hk.trans hj), mod_eq_of_lt hj] at hmod
  omega

theorem release_refines (h : q.Refines s) {node : HeapNode} {e : Entry} {a1 a2 : List HeapNode}
    {b1 b2 : List Entry} (hheap : q.heap = a1 ++ node :: a2) (hentries : s.entries = b1 ++ e :: b2)
    (h1 : List.Forall₂ q.Holds a1 b1) (h2 : List.Forall₂ q.Holds a2 b2) :
    (q.release node (a1 ++ a2)).Refines (s.remove e) := by
  have hlen : q.heap.length = (a1 ++ a2).length + 1 := by rw [hheap]; simp; omega
  have hroom := h.room
  have hstart := h.start
  have hnotin : e ∉ b1 := by
    have hsorted := s.sorted
    rw [hentries] at hsorted
    exact fun hin =>
      lt_irrefl _ ((pairwise_append.mp hsorted).2.2 e hin e mem_cons_self)
  have herase : s.entries.erase e = b1 ++ b2 := by rw [hentries, erase_append_cons hnotin]
  have hfree : (q.release node (a1 ++ a2)).freeList = q.freeList ++ [node.index] := by
    have hsucc : q.depth - (a1 ++ a2).length = q.depth - q.heap.length + 1 := by omega
    simp only [freeList, release, hsucc, range_succ, map_append, map_singleton,
      h.stop, update_self]
    congr 1
    apply map_congr_left
    intro k hk
    rw [update_of_ne (ring_ne (mem_range.mp hk) (by omega))]
  refine ⟨h.depth, h.messageSize, h.highMark, h.order, ?_, ?_, h.start, ?_, ?_⟩
  · have hholds := rel_append h1 h2
    simp only [remove, herase]
    exact hholds.imp fun n e' hn => ⟨hn.priority, hn.order, hn.size, hn.bytes, hn.fits⟩
  · rw [hfree]
    have hnodup := h.nodup
    rw [hheap] at hnodup
    refine (List.Perm.nodup_iff ?_).mp hnodup
    simp only [release, map_append, map_cons, append_assoc, singleton_append]
    exact List.Perm.append_left _ perm_middle
  · simp only [release, h.stop, hlen, mod_add_mod]
    congr 1
    omega
  · simp only [release]
    omega

theorem receive_refines (h : q.Refines s) (hera : SameEra s) (capacity : Nat) :
    (q.receive capacity).1 = (s.receive capacity).1 ∧
      ((q.receive capacity).1 ≠ .assertFailed →
        (q.receive capacity).2.Refines (s.receive capacity).2) := by
  by_cases hempty : q.heap = []
  · have hnil : s.entries = [] := by
      have hholds := h.holds
      rw [hempty] at hholds
      exact forall₂_nil_left_iff.mp hholds
    have hnext : s.next = none := by simp [SpecQueue.next, hnil]
    simp only [receive, SpecQueue.receive, hempty, hnext, isEmpty_nil, if_true, true_and]
    exact fun _ => h
  · obtain ⟨node, hnode, hselect, hmax⟩ := select_eq_some hempty
      fun c _ b _ => lt_iff_nodeKey_lt b c
    obtain ⟨a1, a2, b1, e, b2, hheap, hentries, hhold, h1, h2⟩ := forall₂_split_left h.holds hnode
    have hmem : e ∈ s.entries := by rw [hentries]; simp
    have hnext : s.next = some e := by
      refine next_eq_some hmem fun e' he' => ?_
      obtain ⟨node', hnode', hhold'⟩ := forall₂_mem_right h.holds he'
      have hle := hmax node' hnode'
      have hera' := hera e hmem e' he'
      simp only [nodeKey, Prod.Lex.toLex_le_toLex, OrderDual.toDual_lt_toDual,
        OrderDual.toDual_inj, hhold.priority, hhold'.priority, hhold.order, hhold'.order] at hle
      omega
    have hpop : pop q.heap = some (node, a1 ++ a2) := by
      have hnotin : node ∉ a1 := by
        have hnodup := (nodup_append.mp h.nodup).2.1.of_map
        rw [hheap] at hnodup
        exact fun hin => (nodup_append.mp hnodup).2.2 node hin node mem_cons_self rfl
      rw [pop, hselect, Option.map_some, hheap, erase_append_cons hnotin]
    have hne : q.heap.isEmpty = false := by simpa using hempty
    simp only [receive, SpecQueue.receive, hnext, hpop, hne, Bool.false_eq_true, if_false,
      hhold.size]
    by_cases hcap : e.bytes.length ≤ capacity
    · simp only [hcap, if_true, hhold.bytes, hhold.priority, true_and]
      exact fun _ => release_refines h hheap hentries h1 h2
    · simp only [hcap, if_false, true_and]
      exact fun hfalse => absurd rfl hfalse

end PriorityQueue

end Fprime.Os
