import Fprime.Os.QueueRefinement
import Fprime.Os.LocklessRefinement

/-!
# The two delegates agree

Both delegates answer every sequence of calls as the abstract queue does, while the stamps that
break ties can be compared.
-/

namespace Fprime.Os

open Lib.Transducer SpecQueue

theorem queueStep_simulates {Q : Type} {send : Q → Bytes → Nat → QueueStatus × Q}
    {receive : Q → Nat → Received × Q} {available highMark : Q → Nat} {R : Q → SpecQueue → Prop}
    {P : SpecQueue → Prop}
    (hsend : ∀ q s buffer priority, R q s → (send q buffer priority).1 = (s.send buffer priority).1
      ∧ R (send q buffer priority).2 (s.send buffer priority).2)
    (hreceive : ∀ q s capacity, R q s → P s → (receive q capacity).1 = (s.receive capacity).1 ∧
      ((receive q capacity).1 ≠ .assertFailed → R (receive q capacity).2 (s.receive capacity).2))
    (hcounts : ∀ q s, R q s → available q = s.entries.length ∧ highMark q = s.highMark) :
    Simulates (queueStep send receive available highMark) step R P := by
  intro q s op hR hP
  cases op with
  | send buffer priority =>
    obtain ⟨hstatus, hR'⟩ := hsend q s buffer priority hR
    obtain ⟨havail, hmark⟩ := hcounts _ _ hR'
    simp only [queueStep, step, hstatus, havail, hmark, true_and]
    exact .some hR'
  | receive capacity =>
    obtain ⟨hanswer, hR'⟩ := hreceive q s capacity hR hP
    simp only [queueStep, step]
    rcases hq : receive q capacity with ⟨answer, q'⟩
    rcases hs : s.receive capacity with ⟨answer', s'⟩
    rw [hq, hs] at hanswer hR'
    obtain rfl : answer = answer' := hanswer
    cases answer with
    | assertFailed => exact ⟨rfl, .none⟩
    | status st | message d =>
      obtain ⟨havail, hmark⟩ := hcounts _ _ (hR' (by simp))
      exact ⟨by simp only [havail, hmark], .some (hR' (by simp))⟩

theorem priorityQueue_simulates :
    Simulates PriorityQueue.step step PriorityQueue.Refines PriorityQueue.SameEra :=
  queueStep_simulates (fun _ _ buffer priority h => PriorityQueue.send_refines h buffer priority)
    (fun _ _ capacity h hera => PriorityQueue.receive_refines h hera capacity)
    fun _ _ h => ⟨h.holds.length_eq, h.highMark⟩

theorem locklessPriorityQueue_simulates :
    Simulates LocklessPriorityQueue.step step LocklessPriorityQueue.Refines
      LocklessPriorityQueue.Close :=
  queueStep_simulates
    (fun _ _ buffer priority h => LocklessPriorityQueue.send_refines h buffer priority)
    (fun _ _ capacity h hclose => LocklessPriorityQueue.receive_refines h hclose capacity)
    fun _ _ ⟨_, h⟩ => ⟨h.available, h.highMark⟩

/-- Every sequence of calls is answered by both delegates as by the abstract queue, which delivers
the highest priority first and the oldest within it. -/
theorem delegates_agree {depth messageSize : Nat} {q : PriorityQueue}
    {l : LocklessPriorityQueue} (hq : PriorityQueue.create depth messageSize = some q)
    (hl : LocklessPriorityQueue.create depth messageSize = some l) (ops : List QueueOp)
    (hclose : Always step LocklessPriorityQueue.Close (.create depth messageSize) ops)
    (hera : Always step PriorityQueue.SameEra (.create depth messageSize) ops) :
    run PriorityQueue.step q ops = run step (.create depth messageSize) ops ∧
    run LocklessPriorityQueue.step l ops = run step (.create depth messageSize) ops ∧
    ∀ (s : SpecQueue) (e : Entry), s.next = some e → e ∈ s.entries ∧
      ∀ e' ∈ s.entries, e'.priority < e.priority ∨
        (e'.priority = e.priority ∧ e.number ≤ e'.number) :=
  ⟨priorityQueue_simulates.run_eq (PriorityQueue.create_refines hq) hera,
    locklessPriorityQueue_simulates.run_eq (LocklessPriorityQueue.create_refines hl) hclose,
    fun _ _ h => next_highest_oldest h⟩

/-- Three calls on a queue of two one-byte messages. -/
theorem delegates_agree_send_send_receive :
    ∃ q l, PriorityQueue.create 2 1 = some q ∧ LocklessPriorityQueue.create 2 1 = some l ∧
      run PriorityQueue.step q [.send [1] 0, .send [2] 5, .receive 1] =
        run LocklessPriorityQueue.step l [.send [1] 0, .send [2] 5, .receive 1] := by
  refine ⟨_, _, rfl, rfl, ?_⟩
  obtain ⟨hq, hl, -⟩ := @delegates_agree 2 1 _ _ rfl rfl
    [.send [1] 0, .send [2] 5, .receive 1] (by decide) (by decide)
  rw [hq, hl]

def churn (n : Nat) : List QueueOp :=
  (List.replicate n [.send [7] 0, .receive 1]).flatten

theorem churn_final (n : Nat) (s : SpecQueue) (hempty : s.entries = []) (hdepth : s.depth = 2)
    (hsize : s.messageSize = 1) :
    ∃ s', final step s (churn n) = some s' ∧ s'.entries = [] ∧ s'.depth = 2 ∧
      s'.messageSize = 1 ∧ s'.sent = s.sent + n ∧
      Always step (fun t => t.entries.length ≤ 1) s (churn n) := by
  induction n generalizing s with
  | zero => exact ⟨s, rfl, hempty, hdepth, hsize, rfl, by simp [churn, Always, hempty]⟩
  | succ n ih =>
    have hstored : (s.store [7] 0).entries = [⟨s.sent, 0, [7]⟩] := by simp [store, hempty]
    have hsend : s.send [7] 0 = (.opOk, s.store [7] 0) := by
      simp [send, hempty, hdepth, hsize]
    have hreceive : (s.store [7] 0).receive 1 =
        (.message ⟨[7], 1, 0⟩, (s.store [7] 0).remove ⟨s.sent, 0, [7]⟩) := by
      have hnext : (s.store [7] 0).next = some ⟨s.sent, 0, [7]⟩ := by
        simp [next, hstored]
      simp [receive, hnext]
    obtain ⟨s', hfin, he, hd, hm, hsent, halways⟩ := ih ((s.store [7] 0).remove ⟨s.sent, 0, [7]⟩)
      (by simp [remove, hstored]) hdepth hsize
    refine ⟨s', ?_, he, hd, hm, ?_, ?_⟩
    · simpa [churn, List.replicate_succ, final, step, queueStep, hsend, hreceive]
        using hfin
    · rw [hsent]
      simp only [remove, store]
      omega
    · simpa [churn, List.replicate_succ, Always, step, queueStep, hsend, hreceive,
        hempty, hstored] using halways

theorem receive_across_wrap {q : PriorityQueue} {s : SpecQueue} (h : q.Refines s)
    (hentries : s.entries = [⟨2 ^ 64 - 1, 0, [1]⟩, ⟨2 ^ 64, 0, [2]⟩]) :
    (q.receive 1).1 = .message ⟨[2], 1, 0⟩ := by
  have hholds := h.holds
  rw [hentries] at hholds
  rcases hheap : q.heap with _ | ⟨a, _ | ⟨b, rest⟩⟩
  · rw [hheap] at hholds
    cases hholds
  · rw [hheap] at hholds
    cases hholds with
    | cons _ hrest => cases hrest
  · rw [hheap] at hholds
    cases hholds with
    | cons ha hrest =>
      cases hrest with
      | cons hb hnil =>
        cases hnil
        have hlt : a.lt b = true := by
          have hle := ha.order
          have hlo := hb.order
          simp [HeapNode.lt, ha.priority, hb.priority, hle, hlo]
        have hpop : PriorityQueue.pop [a, b] = some (b, [a, b].erase b) := by
          simp [PriorityQueue.pop, Lib.Select.select, Lib.Select.pick, hlt]
        have hbytes := hb.bytes
        simp only [List.length_singleton] at hbytes
        simp [PriorityQueue.receive, hheap, hpop, hb.size, hbytes, hb.priority]

theorem close_of_length_le_one {s : SpecQueue} (h : s.entries.length ≤ 1) :
    LocklessPriorityQueue.Close s ∧ PriorityQueue.SameEra s := by
  rcases he : s.entries with _ | ⟨e, _ | ⟨e', rest⟩⟩
  · simp [LocklessPriorityQueue.Close, PriorityQueue.SameEra, he]
  · simp [LocklessPriorityQueue.Close, PriorityQueue.SameEra, he]
  · rw [he] at h
    simp at h

/-- Where the 64-bit stamp wraps between two messages of one priority, the heap delivers the younger
first. -/
theorem stamp_wrap_reorders : ∃ q l ops, PriorityQueue.create 2 1 = some q ∧
    LocklessPriorityQueue.create 2 1 = some l ∧
    Always step LocklessPriorityQueue.Close (.create 2 1) ops ∧
    run PriorityQueue.step q ops ≠ run LocklessPriorityQueue.step l ops := by
  obtain ⟨s, hfin, hempty, hdepth, hsize, hsent, halways⟩ :=
    churn_final (2 ^ 64 - 1) (.create 2 1) rfl rfl rfl
  rw [create, Nat.zero_add] at hsent
  have hfirst : (s.store [1] 0).entries = [⟨2 ^ 64 - 1, 0, [1]⟩] := by
    simp [store, hempty, hsent]
  have hsecond : ((s.store [1] 0).store [2] 0).entries =
      [⟨2 ^ 64 - 1, 0, [1]⟩, ⟨2 ^ 64, 0, [2]⟩] := by
    simp [store, hempty, hsent]
  have hsend : s.send [1] 0 = (.opOk, s.store [1] 0) := by
    simp [send, hempty, hdepth, hsize]
  have hsend' : (s.store [1] 0).send [2] 0 = (.opOk, (s.store [1] 0).store [2] 0) := by
    have hd : (s.store [1] 0).depth = 2 := hdepth
    have hm : (s.store [1] 0).messageSize = 1 := hsize
    simp [send, hfirst, hd, hm]
  have hreceive : (((s.store [1] 0).store [2] 0).receive 1) = (.message ⟨[1], 1, 0⟩,
      ((s.store [1] 0).store [2] 0).remove ⟨2 ^ 64 - 1, 0, [1]⟩) := by
    have hnext : ((s.store [1] 0).store [2] 0).next = some ⟨2 ^ 64 - 1, 0, [1]⟩ := by
      simp [next, hsecond]
    simp [receive, hnext]
  have hclose : Always step LocklessPriorityQueue.Close (.create 2 1)
      (churn (2 ^ 64 - 1) ++ [.send [1] 0, .send [2] 0, .receive 1]) := by
    refine always_append hfin (halways.mono fun t ht => (close_of_length_le_one ht).1) ?_
    have htwo : LocklessPriorityQueue.Close ((s.store [1] 0).store [2] 0) := by
      simp [LocklessPriorityQueue.Close, hsecond]
    have hlast : LocklessPriorityQueue.Close
        (((s.store [1] 0).store [2] 0).remove ⟨2 ^ 64 - 1, 0, [1]⟩) :=
      (close_of_length_le_one (by simp [remove, hsecond])).1
    simp only [Always, step, queueStep, hsend, hsend', hreceive]
    exact ⟨(close_of_length_le_one (by simp [hempty])).1,
      (close_of_length_le_one (by simp [hfirst])).1, htwo, hlast⟩
  obtain ⟨q0, hq0⟩ : ∃ q, PriorityQueue.create 2 1 = some q := ⟨_, rfl⟩
  obtain ⟨l0, hl0⟩ : ∃ l, LocklessPriorityQueue.create 2 1 = some l := ⟨_, rfl⟩
  refine ⟨q0, l0, _, hq0, hl0, hclose, ?_⟩
  rw [locklessPriorityQueue_simulates.run_eq (LocklessPriorityQueue.create_refines hl0) hclose,
    run_append hfin]
  have hera := halways.mono fun t ht => (close_of_length_le_one ht).2
  have hcreate := PriorityQueue.create_refines hq0
  have hrel := priorityQueue_simulates.final_rel hcreate hera
  rw [hfin] at hrel
  obtain ⟨q, hq, href⟩ : ∃ q, final PriorityQueue.step q0 (churn (2 ^ 64 - 1)) = some q ∧
      q.Refines s := by
    generalize final PriorityQueue.step q0 (churn (2 ^ 64 - 1)) = fin at hrel
    cases hrel with
    | some hR => exact ⟨_, rfl, hR⟩
  rw [run_append hq, priorityQueue_simulates.run_eq hcreate hera]
  intro heq
  have htail := List.append_cancel_left heq
  obtain ⟨-, href1⟩ := PriorityQueue.send_refines href [1] 0
  rw [hsend] at href1
  obtain ⟨-, href2⟩ := PriorityQueue.send_refines href1 [2] 0
  rw [hsend'] at href2
  have hwrapped := receive_across_wrap href2 hsecond
  rcases hr : ((q.send [1] 0).2.send [2] 0).2.receive 1 with ⟨answer, q'⟩
  rw [hr] at hwrapped
  obtain rfl : answer = .message ⟨[2], 1, 0⟩ := hwrapped
  simp [run, PriorityQueue.step, step, queueStep, hsend, hsend', hreceive, hr] at htail

end Fprime.Os
