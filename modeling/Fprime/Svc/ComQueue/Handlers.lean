import Fprime.Svc.ComQueue.Stock

/-!
# The handlers keep the com queue in order

Every handler keeps the prioritized list an ordered list of all queues and loses no buffer: what
was handed in is in a queue or has left through an output port.
-/

namespace Fprime.Svc.ComQueue

open Fprime.Comp Fw Utils Lib List Function State QueueMetadata RoundRobin

/-- The prioritized list has every queue once, in order of priority, as configured. -/
structure Wf (config : QueueConfigurationTable) (s : State) : Prop where
  order : (s.prioritized.map index).Perm (finRange totalPorts)
  sorted : RoundRobin.Sorted rank s.prioritized
  entry : ∀ e ∈ s.prioritized, e.depth = (config e.index).depth ∧
    e.overflowMode = (config e.index).overflowMode
  queue : ∀ i, (s.queues i).depth = (config i).depth ∧ (s.queues i).mode = (config i).mode ∧
    (s.queues i).overflowMode = (config i).overflowMode

/-- In order, and with the buffers of its tokens in escrow. -/
structure Sound (config : QueueConfigurationTable) (least : Nat) (pending : Tokens)
    (held : Fin bufferPorts → Tokens) (s : State) : Prop
    extends Wf config s, Stocked least pending held s

variable {config : QueueConfigurationTable} {least : Nat} {pending : Tokens}
  {held : Fin bufferPorts → Tokens} {s s' : State}

/-- The state after a handler that was given some buffers: nothing is lost. -/
def Accounts (config : QueueConfigurationTable) (least : Nat) (pending : Tokens)
    (held : Fin bufferPorts → Tokens) (s s' : State)
    (new : List (Fin bufferPorts × Buffer)) : Prop :=
  ∃ held', Sound config least pending held' s' ∧ (ledger held' s').Perm (new ++ ledger held s)

namespace Wf

theorem of_eq (h : Wf config s) (hlist : s'.prioritized = s.prioritized)
    (hqueue : ∀ i, (s'.queues i).depth = (s.queues i).depth ∧
      (s'.queues i).mode = (s.queues i).mode ∧
      (s'.queues i).overflowMode = (s.queues i).overflowMode) : Wf config s' := by
  refine ⟨by rw [hlist]; exact h.order, by rw [hlist]; exact h.sorted,
    by rw [hlist]; exact h.entry, fun i => ?_⟩
  obtain ⟨hdepth, hmode, hover⟩ := hqueue i
  rw [hdepth, hmode, hover]
  exact h.queue i

theorem setQueue (h : Wf config s) {i : Fin totalPorts} {queue : Queue Record}
    (hdepth : queue.depth = (s.queues i).depth) (hmode : queue.mode = (s.queues i).mode)
    (hover : queue.overflowMode = (s.queues i).overflowMode) : Wf config (s.setQueue i queue) := by
  refine h.of_eq rfl fun j => ?_
  by_cases hj : j = i
  · subst hj
    rw [setQueue_self]
    exact ⟨hdepth, hmode, hover⟩
  · rw [s.setQueue_of_ne hj]
    exact ⟨rfl, rfl, rfl⟩

theorem nodup (h : Wf config s) : (s.prioritized.map index).Nodup :=
  h.order.nodup_iff.mpr (nodup_finRange _)

theorem exists_entry (h : Wf config s) (i : Fin totalPorts) :
    ∃ e ∈ s.prioritized, e.index = i := by
  have hmem := h.order.mem_iff.mpr (mem_finRange i)
  obtain ⟨e, he, rfl⟩ := mem_map.mp hmem
  exact ⟨e, he, rfl⟩

theorem reorder (h : Wf config s) {l : List QueueMetadata} (hperm : l.Perm s.prioritized)
    (hsorted : RoundRobin.Sorted rank l) :
    Wf config { s with prioritized := l } :=
  ⟨(hperm.map _).trans h.order, hsorted, fun e he => h.entry e (hperm.mem_iff.mp he), h.queue⟩

end Wf

theorem Sound.processQueue (h : Sound config least pending held s) (hs : s.processQueue = .ok s') :
    Accounts config least pending held s s' [] := by
  obtain ⟨held', hstocked, hledger⟩ := h.toStocked.processQueue hs
  refine ⟨held', ⟨?_, hstocked⟩, hledger⟩
  obtain ⟨-, ⟨-, rfl⟩ | ⟨entry, prioritized, record, queue, s1, hserve, hdequeue, hsend, rfl⟩⟩ :=
    processQueue_eq_ok hs
  · exact h.toWf
  · obtain ⟨-, b, apid, escrow, -, rfl⟩ := sendRecord_eq_ok hsend
    obtain ⟨-, hdepth, hmode, hover⟩ := Queue.dequeue_eq_some hdequeue
    have hwf := (h.toWf.setQueue hdepth hmode hover).reorder (serve_perm hserve)
      (serve_sorted hserve h.sorted)
    exact hwf.of_eq rfl fun _ => ⟨rfl, rfl, rfl⟩

theorem Sound.of_eq (h : Sound config least pending held s) (hlist : s'.prioritized = s.prioritized)
    (hqueues : s'.queues = s.queues) (hescrow : s'.escrow = s.escrow) :
    Sound config least pending held s' :=
  ⟨h.toWf.of_eq hlist fun i => by rw [hqueues]; exact ⟨rfl, rfl, rfl⟩,
    h.toStocked.of_eq hqueues hescrow⟩

variable {new : List (Fin bufferPorts × Buffer)} {status : SerializeStatus} {queue : Queue Record}
  {port : Fin bufferPorts} {b : Buffer}

theorem Accounts.of_released (h : Sound config least pending held s')
    (hout : released s'.out = released s.out ++ new) :
    Accounts config least pending held s s' new := by
  refine ⟨held, h, ?_⟩
  unfold ledger
  rw [hout, ← append_assoc]
  exact perm_append_comm

theorem Accounts.trans {s1 s2 : State} {new' : List (Fin bufferPorts × Buffer)}
    (h : Accounts config least pending held s s1 new)
    (h' : ∀ held', Sound config least pending held' s1 → Accounts config least pending held' s1 s2 new') :
    Accounts config least pending held s s2 (new' ++ new) := by
  obtain ⟨held1, hsound, hledger⟩ := h
  obtain ⟨held2, hsound2, hledger2⟩ := h' held1 hsound
  refine ⟨held2, hsound2, hledger2.trans ?_⟩
  rw [append_assoc]
  exact hledger.append_left new'

section

variable (h : Sound config least pending held s)

include h

theorem Sound.comStatusIn {condition : Success}
    (hs : s.comStatusIn condition = .ok s') : Accounts config least pending held s s' [] := by
  unfold State.comStatusIn at hs
  split at hs
  · split at hs
    · have hready : Sound config least pending held { s with sendState := .ready } :=
        h.of_eq rfl rfl rfl
      exact hready.processQueue hs
    · cases hs
      exact .of_released (h.of_eq rfl rfl rfl) (by simp)
  · cases hs

theorem Sound.handleEnqueueStatus {i : Fin totalPorts}
    {queueType : QueueType} {port : Nat} {preEmptive accepted : Bool}
    (hs : s.handleEnqueueStatus i queueType port preEmptive status = .ok (accepted, s')) :
    (accepted = true ↔ status ≠ .noRoomLeft) ∧ Accounts config least pending held s s' [] := by
  unfold State.handleEnqueueStatus at hs
  simp only at hs
  generalize hs1 : (if (preEmptive || decide (status = .noRoomLeft) ||
      decide (status = .discardedExisting)) && !s.throttle i then
    { s.emit (.log (.queueOverflow queueType port)) with
      throttle := update s.throttle i true } else s) = s1 at hs
  have hsound : Sound config least pending held s1 := by
    rw [← hs1]
    split
    · exact h.of_eq rfl rfl rfl
    · exact h
  have hout : released s1.out = released s.out ++ [] := by
    rw [← hs1]
    split
    · rw [emit, released_append]
      rfl
    · simp
  have hfirst : Accounts config least pending held s s1 [] := .of_released hsound hout
  by_cases hready : s1.sendState = .ready
  · rw [if_pos hready] at hs
    obtain ⟨s2, hprocess, hs⟩ := Runs.bind_eq_ok.mp hs
    cases hs
    exact ⟨by simp, hfirst.trans fun held' hheld => hheld.processQueue hprocess⟩
  · rw [if_neg hready] at hs
    cases hs
    exact ⟨by simp, hfirst⟩

theorem Sound.enqueueCom {port : Fin comPorts}
    {bytes : Bytes} (hbytes : least ≤ bytes.length)
    (henq : (s.queues (comQueueNum port)).enqueue (.com bytes) = (status, queue)) :
    Sound config least pending held (s.setQueue (comQueueNum port) queue) := by
  obtain ⟨hdepth, hmode, hover, hmsgs⟩ := Queue.enqueue_spec henq
  refine ⟨h.toWf.setQueue hdepth hmode hover, h.toStocked.setComQueue fun m hm => ?_⟩
  rcases hmsgs m hm with rfl | hm
  · exact ⟨bytes, rfl, hbytes⟩
  · exact h.com port m hm

theorem Sound.comPacketQueueIn {port : Fin comPorts}
    {data : ComBuffer} (hdata : least ≤ data.val.length)
    (hs : s.comPacketQueueIn port data = .ok s') :
    Accounts config least pending held s s' [] := by
  unfold State.comPacketQueueIn at hs
  simp only at hs
  generalize henq : (s.queues (comQueueNum port)).enqueue (.com data.val) = result at hs
  obtain ⟨status, queue⟩ := result
  have hset := h.enqueueCom hdata henq
  obtain ⟨r, hstatus, hs⟩ := Runs.bind_eq_ok.mp hs
  cases hs
  obtain ⟨held', hsound, hledger⟩ := (hset.handleEnqueueStatus hstatus).2
  exact ⟨held', hsound, hledger⟩

theorem Sound.giveBack {record : Record}
    (hpop : (s.queues (bufferQueueNum port)).messages = record :: queue.messages ∨ (s.queues (bufferQueueNum port)).messages = queue.messages ++ [record])
    (hdepth : queue.depth = (s.queues (bufferQueueNum port)).depth)
    (hmode : queue.mode = (s.queues (bufferQueueNum port)).mode)
    (hover : queue.overflowMode = (s.queues (bufferQueueNum port)).overflowMode) :
    ∃ b escrow, (s.setQueue (bufferQueueNum port) queue).claimRecord record =
        .ok (b, { s.setQueue (bufferQueueNum port) queue with escrow := escrow }) ∧
      Accounts config least pending held s
        ({ s.setQueue (bufferQueueNum port) queue with escrow := escrow }.emit
          (.bufferReturnOut port b)) [] := by
  obtain ⟨token, b, xs, rfl, hperm, hstocked⟩ := h.popMessage hpop
  obtain ⟨escrow, hclaim, hdone⟩ := hstocked.claimRecord
  refine ⟨b, escrow, hclaim, update held port xs, ⟨?_, ?_⟩, ?_⟩
  · exact (h.toWf.setQueue hdepth hmode hover).of_eq rfl fun _ => ⟨rfl, rfl, rfl⟩
  · exact hdone.of_eq rfl rfl
  · have hself := queued_update held port (held port)
    rw [update_eq_self] at hself
    unfold ledger
    simp only [emit, setQueue, released_append, nil_append]
    have hlast : released [Out.bufferReturnOut port b] = [(port, b)] := rfl
    rw [hlast]
    refine ((queued_update held port xs).append_right _).trans
      (.trans ?_ ((hself.trans ((hperm.map _).append_right _)).symm.append_right _))
    rw [map_cons, ← append_assoc]
    exact perm_append_singleton _ _

theorem Sound.dropOldest {flag : Bool}
    (hs : s.dropOldest port = .ok (flag, s')) :
    Accounts config least pending held s s' [] ∧
      ((s'.queues (bufferQueueNum port)).messages.length <
          (s'.queues (bufferQueueNum port)).depth ∨
        (s'.queues (bufferQueueNum port)).overflowMode = .dropNewest) := by
  unfold State.dropOldest at hs
  simp only at hs
  obtain ⟨hdepth, -, hover⟩ := h.queue (bufferQueueNum port)
  have hfits := (s.queues (bufferQueueNum port)).fits
  have hpos := (s.queues (bufferQueueNum port)).pos
  cases hfind : s.prioritized.find? (fun e => e.index = bufferQueueNum port) with
  | none =>
    obtain ⟨e, he, hindex⟩ := h.exists_entry (bufferQueueNum port)
    exact absurd (by simpa using hindex) (find?_eq_none.mp hfind e he)
  | some entry =>
    rw [hfind] at hs
    simp only at hs
    have hindex : entry.index = bufferQueueNum port := by
      simpa using find?_some hfind
    obtain ⟨hedepth, heover⟩ := h.entry entry (mem_of_find?_eq_some hfind)
    rw [hindex] at hedepth heover
    split at hs
    · cases hpop : (s.queues (bufferQueueNum port)).popFront with
      | none =>
        rw [hpop] at hs
        cases hs
      | some popped =>
        obtain ⟨record, queue⟩ := popped
        obtain ⟨hmsgs, hqdepth, hqmode, hqover⟩ := Queue.popFront_eq_some hpop
        obtain ⟨b, escrow, hclaim, haccounts⟩ := h.giveBack (.inl hmsgs) hqdepth hqmode hqover
        simp only [hpop, hclaim] at hs
        cases hs
        refine ⟨haccounts, .inl ?_⟩
        simp only [emit]
        rw [setQueue_self, hqdepth]
        have hlen := congrArg length hmsgs
        rw [length_cons] at hlen
        omega
    · rename_i hroom
      cases hs
      refine ⟨.of_released h (by simp), ?_⟩
      by_cases hold : entry.overflowMode = .dropOldest
      · left
        have hlt : ¬ entry.depth ≤ (s.queues (bufferQueueNum port)).messages.length :=
          fun hge => hroom ⟨hold, hge⟩
        rw [hdepth, ← hedepth]
        omega
      · right
        rw [hover, ← heover]
        cases hmode : entry.overflowMode with
        | dropNewest => rfl
        | dropOldest => exact absurd hmode hold

theorem Sound.enqueueBuffer (hb : least ≤ b.bytes.length)
    (hroom : (s.queues (bufferQueueNum port)).messages.length < (s.queues (bufferQueueNum port)).depth ∨ (s.queues (bufferQueueNum port)).overflowMode = .dropNewest)
    {token : Token} {escrow : BufferEscrow Buffer} (hdep : s.escrow.deposit b = (token, escrow))
    (henq : (s.queues (bufferQueueNum port)).enqueue (.buffer token) = (status, queue)) :
    (status = .ok ∧ Sound config least pending
      (update held port (held port ++ [(token, b)]))
      ({ s with escrow := escrow }.setQueue (bufferQueueNum port) queue)) ∨
    (status = .noRoomLeft ∧ Sound config least ((token, b) :: pending) held
      ({ s with escrow := escrow }.setQueue (bufferQueueNum port) queue)) := by
  have hdeposit := h.toStocked.deposit b hb
  rw [hdep] at hdeposit
  obtain ⟨hqdepth, hqmode, hqover, -⟩ := Queue.enqueue_spec henq
  have hescrow : Wf config { s with escrow := escrow } :=
    h.toWf.of_eq rfl fun _ => ⟨rfl, rfl, rfl⟩
  have hwf : Wf config ({ s with escrow := escrow }.setQueue (bufferQueueNum port) queue) :=
    hescrow.setQueue hqdepth hqmode hqover
  rcases Queue.enqueue_of_kept henq hroom with ⟨hok, hmsgs⟩ | ⟨hfull, rfl⟩
  · refine .inl ⟨hok, hwf, hdeposit.setQueue ?_ ?_⟩
    · rw [hmsgs, h.buffer port]
      simp
    · rw [cons_append]
      exact (perm_append_singleton _ _).symm.trans (.of_eq (by simp))
  · exact .inr ⟨hfull, hwf, hdeposit.of_eq (by simp [setQueue]) rfl⟩

theorem Sound.bufferQueueIn (hb : least ≤ b.bytes.length)
    (hs : s.bufferQueueIn port b = .ok s') :
    Accounts config least pending held s s' [(port, b)] := by
  unfold State.bufferQueueIn at hs
  obtain ⟨⟨flag, s1⟩, hdrop, hs⟩ := Runs.bind_eq_ok.mp hs
  obtain ⟨hfirst, hroom⟩ := h.dropOldest hdrop
  suffices htail : ∀ held1, Sound config least pending held1 s1 →
      Accounts config least pending held1 s1 s' [(port, b)] from hfirst.trans htail
  intro held1 h1
  dsimp only at hs
  generalize hdep : s1.escrow.deposit b = deposited at hs
  obtain ⟨token, escrow⟩ := deposited
  dsimp only at hs
  generalize henq : (s1.queues (bufferQueueNum port)).enqueue (.buffer token) = result at hs
  obtain ⟨status, queue⟩ := result
  obtain ⟨⟨accepted, s2⟩, hstatus, hs⟩ := Runs.bind_eq_ok.mp hs
  dsimp only at hs
  rcases h1.enqueueBuffer hb hroom hdep henq with ⟨hok, hset⟩ | ⟨hfull, hset⟩
  · obtain ⟨haccepted, held2, hsound2, hledger2⟩ := hset.handleEnqueueStatus hstatus
    rw [if_pos (haccepted.mpr (by simp [hok]))] at hs
    cases hs
    refine ⟨held2, hsound2, hledger2.trans ?_⟩
    have hself := queued_update held1 port (held1 port)
    rw [update_eq_self] at hself
    unfold ledger
    refine ((queued_update held1 port _).append_right _).trans
      (.trans ?_ ((hself.symm.append_right _).cons (port, b)))
    simp only [map_append, map_cons, map_nil, append_assoc]
    exact perm_middle
  · -- the buffer is taken back out of escrow
    obtain ⟨haccepted, held2, hsound2, hledger2⟩ := hset.handleEnqueueStatus hstatus
    have hrefused : ¬ accepted = true := fun ha => haccepted.mp ha hfull
    rw [if_neg hrefused] at hs
    obtain ⟨escrow', hclaim, hdone⟩ := hsound2.toStocked.claimRecord
    rw [hclaim] at hs
    cases hs
    refine ⟨held2, ⟨hsound2.toWf.of_eq rfl fun _ => ⟨rfl, rfl, rfl⟩, hdone.of_eq rfl rfl⟩, ?_⟩
    unfold ledger at hledger2 ⊢
    simp only [emit, released_append]
    have hlast : released [Out.bufferReturnOut port b] = [(port, b)] := rfl
    rw [hlast, ← append_assoc]
    exact (perm_append_singleton _ _).trans (hledger2.cons _)

theorem Sound.dataReturnIn {context : FrameContext}
    (hs : s.dataReturnIn b context = .ok s') :
    Accounts config least pending held s s' ((contextPort context).map (·, b)).toList := by
  unfold State.dataReturnIn at hs
  split at hs
  · simp only at hs
    split at hs
    · rename_i hlt
      split at hs
      · rename_i hle
        cases hs
        refine .of_released (h.of_eq rfl rfl rfl) ?_
        have hport : contextPort context =
            some ⟨(context.comQueueIndex - comPorts).toNat, by omega⟩ := dif_pos ⟨hle, hlt⟩
        rw [emit, released_append, hport]
        rfl
      · rename_i hneg
        cases hs
        refine .of_released (h.of_eq rfl rfl rfl) ?_
        have hport : contextPort context = none := dif_neg fun hc => hneg hc.1
        simp [hport]
    · cases hs
  · cases hs

theorem Sound.drainLoop {i : Fin totalPorts} {n : Nat}
    (hs : s.drainLoop i n = .ok s') : Accounts config least pending held s s' [] := by
  induction n generalizing s held with
  | zero =>
    cases hs
    exact .of_released h (by simp)
  | succ n ih =>
    unfold drainLoop at hs
    cases hdequeue : (s.queues i).dequeue with
    | none =>
      rw [hdequeue] at hs
      cases hs
    | some popped =>
      obtain ⟨record, queue⟩ := popped
      obtain ⟨-, hdepth, hmode, hover⟩ := Queue.dequeue_eq_some hdequeue
      have hends := dequeue_ends hdequeue
      simp only [hdequeue] at hs
      clear hdequeue
      induction i using queue_cases with
      | hcom m =>
        simp only [bufferPort_comQueueNum] at hs
        have hset : Sound config least pending held (s.setQueue (comQueueNum m) queue) := by
          refine ⟨h.toWf.setQueue hdepth hmode hover, h.toStocked.setComQueue fun x hx => ?_⟩
          refine h.com m x ?_
          rcases hends with hends | hends <;> simp [hends, hx]
        show Accounts config least pending held (s.setQueue (comQueueNum m) queue) s' []
        exact ih hset hs
      | hbuffer m =>
        obtain ⟨b, escrow, hclaim, haccounts⟩ := h.giveBack hends hdepth hmode hover
        simp only [bufferPort_bufferQueueNum, hclaim] at hs
        exact haccounts.trans fun held1 h1 => ih h1 hs

theorem Sound.drainAll {is : List (Fin totalPorts)}
    (hs : s.drainAll is = .ok s') : Accounts config least pending held s s' [] := by
  induction is generalizing s held with
  | nil =>
    cases hs
    exact .of_released h (by simp)
  | cons i is ih =>
    unfold drainAll at hs
    obtain ⟨s1, hdrain, hs⟩ := Runs.bind_eq_ok.mp hs
    exact (h.drainLoop hdrain).trans fun held1 h1 => ih h1 hs

end

theorem Accounts.emit {out : Out} (h : Accounts config least pending held s s' new)
    (hout : released [out] = []) :
    Accounts config least pending held s (s'.emit out) new := by
  obtain ⟨held', hsound, hledger⟩ := h
  refine ⟨held', hsound.of_eq rfl rfl rfl, ?_⟩
  rw [ledger, State.emit, released_append, hout, append_nil]
  exact hledger

theorem Sound.accounts_self (h : Sound config least pending held s) :
    Accounts config least pending held s s [] :=
  .of_released h (by simp)

theorem setPriority_spec (i : Fin totalPorts) (p : Int16) (l : List QueueMetadata) :
    (setPriority i p l).map index = l.map index ∧
      ∀ e ∈ setPriority i p l, ∃ e' ∈ l, e.index = e'.index ∧ e.depth = e'.depth ∧
        e.overflowMode = e'.overflowMode := by
  induction l with
  | nil => simp [setPriority]
  | cons a l ih =>
    unfold setPriority
    split
    · refine ⟨rfl, fun e he => ?_⟩
      rcases mem_cons.mp he with rfl | he
      · exact ⟨a, mem_cons_self, rfl, rfl, rfl⟩
      · exact ⟨e, mem_cons_of_mem a he, rfl, rfl, rfl⟩
    · refine ⟨by simp [ih.1], fun e he => ?_⟩
      rcases mem_cons.mp he with rfl | he
      · exact ⟨e, mem_cons_self, rfl, rfl, rfl⟩
      · obtain ⟨e', he', heq⟩ := ih.2 e he
        exact ⟨e', mem_cons_of_mem a he', heq⟩

theorem Wf.setPriority (h : Wf config s) (i : Fin totalPorts) (p : Int16) :
    Wf config { s with
      prioritized := bubbleSort rank
        (setPriority i p s.prioritized) } := by
  obtain ⟨hindex, hentry⟩ := setPriority_spec i p s.prioritized
  have hperm := @bubbleSort_perm _ _ _ rank
    (State.setPriority i p s.prioritized)
  refine ⟨?_, bubbleSort_sorted _, fun e he => ?_, h.queue⟩
  · refine (hperm.map _).trans ?_
    rw [hindex]
    exact h.order
  · obtain ⟨e', he', hi, hd, ho⟩ := hentry e (hperm.mem_iff.mp he)
    rw [hi, hd, ho]
    exact h.entry e' he'

theorem Sound.setQueuePriority (h : Sound config least pending held s) (opCode cmdSeq : UInt32)
    (queueType : QueueType) (index newPriority : Int16) :
    Accounts config least pending held s
      (s.setQueuePriority opCode cmdSeq queueType index newPriority) [] := by
  unfold State.setQueuePriority
  split
  · exact h.accounts_self.emit rfl
  · rename_i i _
    split
    · have hset : Sound config least pending held { s with
          prioritized := bubbleSort rank
            (setPriority i newPriority s.prioritized) } :=
        ⟨h.toWf.setPriority i newPriority, h.toStocked.of_eq rfl rfl⟩
      have haccounts : Accounts config least pending held s { s with
          prioritized := bubbleSort rank
            (setPriority i newPriority s.prioritized) } [] := .of_released hset (by simp)
      exact (haccounts.emit rfl).emit rfl
    · exact h.accounts_self.emit rfl

theorem Accounts.answer {r : Result} {out : Out} (hout : released [out] = [])
    (hr : ∀ s1, r = .ok s1 → Accounts config least pending held s s1 [])
    (hs : (do let s1 ← r; return s1.emit out) = Except.ok s') :
    Accounts config least pending held s s' [] := by
  cases r with
  | error e => cases hs
  | ok s1 =>
    cases hs
    exact (hr s1 rfl).emit hout

theorem Sound.handleCommand (h : Sound config least pending held s) {idBase opCode cmdSeq : UInt32}
    {args : Bytes} (hs : s.handleCommand idBase opCode cmdSeq args = .ok s') :
    Accounts config least pending held s s' [] := by
  unfold State.handleCommand at hs
  simp only at hs
  split at hs
  · split at hs
    · cases hs
      exact h.accounts_self.emit rfl
    · rename_i queueType index _
      unfold flushQueue at hs
      split at hs
      · cases hs
        exact h.accounts_self.emit rfl
      · exact Accounts.answer rfl (fun s1 hr => h.drainLoop hr) hs
  · split at hs
    · split at hs
      · cases hs
        exact h.accounts_self.emit rfl
      · exact Accounts.answer rfl (fun s1 hr => h.drainAll hr) hs
    · split at hs
      · split at hs
        · cases hs
          exact h.accounts_self.emit rfl
        · cases hs
          exact h.setQueuePriority opCode cmdSeq _ _ _
      · cases hs
        exact h.accounts_self.emit rfl

theorem Sound.run (h : Sound config least pending held s) : Accounts config least pending held s s.run [] := by
  refine .of_released ⟨h.toWf.of_eq rfl fun _ => ⟨rfl, rfl, rfl⟩, h.com, h.buffer, h.holds,
    h.long⟩ ?_
  simp [State.run]

theorem map_index_prioritize (config : QueueConfigurationTable)
    (h : ∀ i, validEntry (config i)) :
    ((prioritize config).map index).Perm (finRange totalPorts) := by
  have hmap : (prioritize config).map index =
      (range totalPorts).flatMap fun (current : Nat) =>
        (finRange totalPorts).filter fun i => (config i).priority.toInt = current := by
    unfold prioritize
    rw [map_flatMap]
    refine flatMap_congr fun current _ => ?_
    rw [map_map]
    exact map_id _
  rw [hmap]
  refine (perm_ext_iff_of_nodup ?_ (nodup_finRange _)).mpr fun i => ?_
  · refine nodup_flatMap.mpr ⟨fun _ _ => (nodup_finRange _).filter _, ?_⟩
    refine nodup_range.imp ?_
    intro a b hab i hia hib
    simp only [mem_filter, decide_eq_true_eq] at hia hib
    omega
  · obtain ⟨hpos, hlt, -⟩ := h i
    simp only [mem_flatMap, mem_range, mem_filter, mem_finRange, true_and,
      decide_eq_true_eq, iff_true]
    exact ⟨(config i).priority.toInt.toNat, by omega, by omega⟩

theorem sorted_prioritize (config : QueueConfigurationTable) :
    RoundRobin.Sorted rank (prioritize config) := by
  have hrank : ∀ (current : Nat) (e : QueueMetadata),
      e ∈ (((finRange totalPorts).filter fun i =>
        (config i).priority.toInt = current).map fun i =>
          (⟨(config i).depth, (config i).priority, (config i).overflowMode, i⟩ : QueueMetadata)) →
      e.rank = current := by
    intro current e he
    obtain ⟨i, hi, rfl⟩ := mem_map.mp he
    exact of_decide_eq_true (mem_filter.mp hi).2
  refine pairwise_flatMap.mpr ⟨fun current _ => ?_, ?_⟩
  · refine pairwise_of_forall_mem_list fun a ha b hb => ?_
    rw [hrank current a ha, hrank current b hb]
  · refine pairwise_lt_range.imp ?_
    intro p q hpq a ha b hb
    rw [hrank p a ha, hrank q b hb]
    exact Int.ofNat_le.mpr hpq.le

theorem configure_sound (h : configure config = .ok s) :
    Sound config least [] (fun _ => []) s ∧ (∀ i, (s.queues i).messages = []) ∧
      s.sendState = .waiting ∧ s.bufferState = .owned ∧ s.out = [] := by
  unfold configure at h
  split at h
  · rename_i hvalid
    split at h
    · cases h
      refine ⟨⟨⟨map_index_prioritize config hvalid, sorted_prioritize config, ?_,
        fun _ => ⟨rfl, rfl, rfl⟩⟩, ?_⟩, fun _ => rfl, rfl, rfl, rfl⟩
      · intro e he
        obtain ⟨current, -, he⟩ := mem_flatMap.mp he
        obtain ⟨i, -, rfl⟩ := mem_map.mp he
        exact ⟨rfl, rfl⟩
      · refine ⟨fun n m hm => absurd hm (by simp [Queue.new]), fun n => rfl, ?_, by simp⟩
        have hnone : (finRange bufferPorts).flatMap
            (fun _ => ([] : Tokens)) = [] := by simp
        rw [hnone]
        exact BufferEscrow.holds_new
    · cases h
  · cases h

end Fprime.Svc.ComQueue
