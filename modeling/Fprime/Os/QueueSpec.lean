import Fprime.Os.Queue

/-!
# What an `Os::Queue` is for

Messages in the order they were accepted, each with the number of the send that queued it. A receive
takes the oldest message that no queued message outranks.
-/

namespace Fprime.Os

open List

structure Entry where
  number : Nat
  priority : Nat
  bytes : Bytes
  deriving DecidableEq

structure SpecQueue where
  depth : Nat
  messageSize : Nat
  entries : List Entry
  sent : Nat
  highMark : Nat
  sorted : entries.Pairwise fun a b => a.number < b.number
  below : ∀ e ∈ entries, e.number < sent

namespace SpecQueue

def create (depth messageSize : Nat) : SpecQueue :=
  ⟨depth, messageSize, [], 0, 0, .nil, by simp⟩

variable (q : SpecQueue)

def store (buffer : Bytes) (priority : Nat) : SpecQueue :=
  { q with
    entries := q.entries ++ [⟨q.sent, priority, buffer⟩]
    sent := q.sent + 1
    highMark := max q.highMark (q.entries.length + 1)
    sorted := pairwise_append.mpr ⟨q.sorted, pairwise_singleton _ _, by
      intro a ha b hb
      rw [mem_singleton.mp hb]
      exact q.below a ha⟩
    below := by
      intro e he
      rcases mem_append.mp he with he | he
      · exact Nat.lt_succ_of_lt (q.below e he)
      · rw [mem_singleton.mp he]
        exact Nat.lt_succ_self _ }

def send (buffer : Bytes) (priority : Nat) : QueueStatus × SpecQueue :=
  if buffer.length > q.messageSize then (.sizeMismatch, q)
  else if q.entries.length ≥ q.depth then (.full, q)
  else (.opOk, q.store buffer priority)

/-- The oldest message that no queued message outranks. -/
def next : Option Entry :=
  q.entries.find? fun e => q.entries.all fun e' => e'.priority ≤ e.priority

def remove (e : Entry) : SpecQueue :=
  { q with
    entries := q.entries.erase e
    sorted := q.sorted.sublist erase_sublist
    below := fun e' he' => q.below e' (mem_of_mem_erase he') }

def receive (capacity : Nat) : Received × SpecQueue :=
  match q.next with
  | none => (.status .empty, q)
  | some e =>
    if e.bytes.length ≤ capacity then
      (.message ⟨e.bytes, e.bytes.length, e.priority⟩, q.remove e)
    else (.assertFailed, q.remove e)

theorem next_eq_some {q : SpecQueue} {e : Entry} (he : e ∈ q.entries)
    (hbest : ∀ e' ∈ q.entries, e'.priority < e.priority ∨
      (e'.priority = e.priority ∧ e.number ≤ e'.number)) :
    q.next = some e := by
  obtain ⟨as, bs, hsplit⟩ := append_of_mem he
  rw [next, find?_eq_some_iff_append]
  refine ⟨?_, as, bs, hsplit, ?_⟩
  · rw [all_eq_true]
    intro e' he'
    rcases hbest e' he' with h | h
    · exact decide_eq_true h.le
    · exact decide_eq_true h.1.le
  · -- An older message has a smaller number, so the preference for `e` was by priority.
    intro a ha
    have hmem : a ∈ q.entries := by rw [hsplit]; simp [ha]
    have hlt : a.number < e.number := by
      have hs := q.sorted
      rw [hsplit] at hs
      exact (pairwise_append.mp hs).2.2 a ha e mem_cons_self
    have hprio : a.priority < e.priority := by
      rcases hbest a hmem with h | h
      · exact h
      · omega
    have hfalse : (q.entries.all fun e' => e'.priority ≤ a.priority) = false := by
      rw [all_eq_false]
      exact ⟨e, he, by simpa using hprio⟩
    simp [hfalse]

theorem next_highest_oldest {q : SpecQueue} {e : Entry} (h : q.next = some e) :
    e ∈ q.entries ∧ ∀ e' ∈ q.entries, e'.priority < e.priority ∨
      (e'.priority = e.priority ∧ e.number ≤ e'.number) := by
  rw [next, find?_eq_some_iff_append] at h
  obtain ⟨hall, as, bs, hsplit, hbefore⟩ := h
  rw [all_eq_true] at hall
  have hle : ∀ e' ∈ q.entries, e'.priority ≤ e.priority := fun e' he' => by
    simpa using hall e' he'
  have hsorted := q.sorted
  rw [hsplit] at hsorted
  obtain ⟨-, htail, -⟩ := pairwise_append.mp hsorted
  refine ⟨by rw [hsplit]; simp, fun e' he' => ?_⟩
  rcases (hle e' he').lt_or_eq with hlt | heq
  · exact .inl hlt
  · refine .inr ⟨heq, ?_⟩
    rw [hsplit] at he'
    rcases mem_append.mp he' with hin | hin
    · have hsame : (q.entries.all fun e'' => e''.priority ≤ e'.priority) = true := by
        rw [all_eq_true]
        intro e'' he''
        rw [heq]
        exact decide_eq_true (hle e'' he'')
      exact absurd hsame (by simpa using hbefore e' hin)
    · rcases mem_cons.mp hin with rfl | hin
      · exact le_rfl
      · exact (rel_of_pairwise_cons htail hin).le

end SpecQueue

inductive QueueOp where
  | send (buffer : Bytes) (priority : Nat)
  | receive (capacity : Nat)

inductive Observation where
  | sent (status : QueueStatus) (available highMark : Nat)
  | received (answer : Received) (available highMark : Nat)
  | assertFailed

def queueStep {Q : Type} (send : Q → Bytes → Nat → QueueStatus × Q)
    (receive : Q → Nat → Received × Q) (available highMark : Q → Nat) (q : Q) :
    QueueOp → Observation × Option Q
  | .send buffer priority =>
    let (status, q') := send q buffer priority
    (.sent status (available q') (highMark q'), some q')
  | .receive capacity =>
    match receive q capacity with
    | (.assertFailed, _) => (.assertFailed, none)
    | (answer, q') => (.received answer (available q') (highMark q'), some q')

def PriorityQueue.step : PriorityQueue → QueueOp → Observation × Option PriorityQueue :=
  queueStep send receive getMessagesAvailable getMessageHighWaterMark

def LocklessPriorityQueue.step :
    LocklessPriorityQueue → QueueOp → Observation × Option LocklessPriorityQueue :=
  queueStep send receive getMessagesAvailable getMessageHighWaterMark

def SpecQueue.step : SpecQueue → QueueOp → Observation × Option SpecQueue :=
  queueStep send receive (fun q => q.entries.length) highMark

end Fprime.Os
