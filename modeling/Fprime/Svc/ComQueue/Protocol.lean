import Fprime.Svc.ComQueue.Effects
import Fprime.Svc.ComQueue.Handlers

/-!
# The protocol of the com queue

Calls that keep to the protocol never fail an assertion.
-/

namespace Fprime.Svc.ComQueue

open Fprime.Comp Fw Utils Lib State

/-- A status while one is awaited, and a good one when what was sent is back; data that has a
descriptor; and data coming back that went out. -/
def Input.Fair (s : State) : Input → Prop
  | .comStatusIn condition =>
    s.sendState = .waiting ∧ (condition = .success → s.bufferState = .owned)
  | .comPacketQueueIn _ data => 2 ≤ data.val.length
  | .bufferQueueIn _ buffer => 2 ≤ buffer.bytes.length
  | .run => True
  | .cmdIn .. => True
  | .dataReturnIn _ context => s.bufferState = .unowned ∧ context.comQueueIndex < totalPorts

instance (s : State) (input : Input) : Decidable (input.Fair s) := by
  cases input <;> unfold Input.Fair <;> infer_instance

/-- When no status is awaited there is nothing to send, and nothing is out. -/
def Idle (s : State) : Prop :=
  s.sendState = .ready → s.bufferState = .owned ∧ ∀ i, (s.queues i).messages = []

variable {config : QueueConfigurationTable} {least : Nat} {pending : Tokens}
  {held : Fin bufferPorts → Tokens} {s s' s'' : State} {idBase : UInt32}

theorem deserializeU16_of_long {bytes : Bytes} (h : 2 ≤ bytes.length) :
    ∃ v rest, deserializeU16 bytes = .ok (v, rest) := by
  have hraw : readRaw 2 bytes = .ok (bytes.take 2, bytes.drop 2) := by
    unfold readRaw
    rw [if_neg (by omega), if_neg (by omega)]
  rw [deserializeU16, hraw]
  exact ⟨_, _, rfl⟩

theorem sendPrepared_total {b : Buffer} (hb : 2 ≤ b.bytes.length) (howned : s.bufferState = .owned)
    (i : Fin totalPorts) : ∃ s', s.sendPrepared b i = .ok s' := by
  obtain ⟨v, rest, hv⟩ := deserializeU16_of_long hb
  unfold sendPrepared
  rw [hv]
  exact ⟨_, if_pos howned⟩

theorem Stocked.sendRecord_total (h : Stocked 2 pending held s) (howned : s.bufferState = .owned)
    {i : Fin totalPorts} {record : Record} {queue : Queue Record}
    (hends : (s.queues i).messages = record :: queue.messages ∨
      (s.queues i).messages = queue.messages ++ [record]) :
    ∃ s', (s.setQueue i queue).sendRecord record i = .ok s' := by
  unfold sendRecord
  induction i using queue_cases with
  | hcom n =>
    have hmem : record ∈ (s.queues (comQueueNum n)).messages := by
      rcases hends with hends | hends <;> simp [hends]
    obtain ⟨bytes, rfl, hlong⟩ := h.com n record hmem
    simp only [bufferPort_comQueueNum]
    rw [if_pos (show (s.setQueue (comQueueNum n) queue).bufferState = .owned from howned)]
    exact @sendPrepared_total (s.setQueue (comQueueNum n) queue) ⟨none, bytes⟩ hlong howned _
  | hbuffer n =>
    obtain ⟨token, b, xs, rfl, -, hstocked⟩ := h.popMessage hends
    obtain ⟨escrow, hclaim, -⟩ := hstocked.claimRecord
    simp only [bufferPort_bufferQueueNum, hclaim]
    exact @sendPrepared_total { s.setQueue (bufferQueueNum n) queue with escrow := escrow } b
      (hstocked.long (token, b) List.mem_cons_self) howned _

theorem processQueue_total (h : Sound config 2 pending held s) (hready : s.sendState = .ready)
    (howned : s.bufferState = .owned) : ∃ s', s.processQueue = .ok s' := by
  unfold processQueue
  rw [if_pos hready]
  split
  · exact ⟨s, rfl⟩
  · rename_i entry prioritized hserve
    obtain ⟨-, -, -, -, hentry, -⟩ := RoundRobin.serve_eq_some hserve
    have hne : (s.queues entry.index).messages ≠ [] := by
      simpa [Queue.getQueueSize] using hentry
    obtain ⟨record, queue, hdequeue⟩ := Queue.dequeue_isSome hne
    obtain ⟨s1, hsend⟩ := h.toStocked.sendRecord_total howned (dequeue_ends hdequeue)
    simp only [hdequeue, hsend]
    exact ⟨_, rfl⟩

theorem processQueue_idle (h : Wf config s) (howned : s.bufferState = .owned)
    (hs : s.processQueue = .ok s') : Idle s' := by
  obtain ⟨-, ⟨hnone, rfl⟩ | ⟨entry, l, record, queue, s1, -, -, hsend, rfl⟩⟩ :=
    processQueue_eq_ok hs
  · refine fun _ => ⟨howned, fun i => ?_⟩
    obtain ⟨e, he, rfl⟩ := h.exists_entry i
    simpa [Queue.getQueueSize] using RoundRobin.serve_eq_none_iff.mp hnone e he
  · obtain ⟨-, b, apid, escrow, -, rfl⟩ := sendRecord_eq_ok hsend
    intro hready
    cases hready

theorem handleEnqueueStatus_total (h : Sound config 2 pending held s)
    (howned : s.sendState = .ready → s.bufferState = .owned) (i : Fin totalPorts)
    (queueType : QueueType) (port : Nat) (preEmptive : Bool) (status : SerializeStatus) :
    ∃ accepted s', s.handleEnqueueStatus i queueType port preEmptive status =
      .ok (accepted, s') ∧ Idle s' := by
  unfold handleEnqueueStatus
  simp only
  generalize hs1 : (if (preEmptive || decide (status = .noRoomLeft) ||
      decide (status = .discardedExisting)) && !s.throttle i then
    { s.emit (.log (.queueOverflow queueType port)) with
      throttle := Function.update s.throttle i true } else s) = s1
  obtain ⟨hsound, howned1⟩ : Sound config 2 pending held s1 ∧
      (s1.sendState = .ready → s1.bufferState = .owned) := by
    rw [← hs1]
    split
    · exact ⟨h.of_eq rfl rfl rfl, howned⟩
    · exact ⟨h, howned⟩
  clear hs1
  by_cases hready : s1.sendState = .ready
  · obtain ⟨s2, hprocess⟩ := processQueue_total hsound hready (howned1 hready)
    rw [if_pos hready, hprocess]
    exact ⟨_, s2, rfl, processQueue_idle hsound.toWf (howned1 hready) hprocess⟩
  · rw [if_neg hready]
    exact ⟨_, s1, rfl, fun hr => absurd hr hready⟩

theorem comPacketQueueIn_total (h : Sound config 2 pending held s)
    (howned : s.sendState = .ready → s.bufferState = .owned) (port : Fin comPorts)
    {data : ComBuffer} (hdata : 2 ≤ data.val.length) :
    ∃ s', s.comPacketQueueIn port data = .ok s' ∧ Idle s' := by
  unfold comPacketQueueIn
  simp only
  generalize henq : (s.queues (comQueueNum port)).enqueue (.com data.val) = result
  obtain ⟨status, queue⟩ := result
  obtain ⟨accepted, s1, hhandle, hidle⟩ := handleEnqueueStatus_total
    (h.enqueueCom hdata henq) howned (comQueueNum port) .comQueue port.val false status
  refine ⟨s1, ?_, hidle⟩
  simp only [hhandle]
  rfl

theorem dropOldest_total (h : Sound config least pending held s) (port : Fin bufferPorts) :
    ∃ flag s', s.dropOldest port = .ok (flag, s') := by
  unfold dropOldest
  simp only
  split
  · exact ⟨false, s, rfl⟩
  · rename_i entry hfind
    split
    · rename_i hfull
      have hentry := List.mem_of_find?_eq_some hfind
      have hindex : entry.index = bufferQueueNum port := by simpa using List.find?_some hfind
      obtain ⟨record, queue, hpop⟩ : ∃ record queue,
          (s.queues (bufferQueueNum port)).popFront = some (record, queue) := by
        refine Queue.popFront_isSome fun hnil => ?_
        have hdepth := (h.entry entry hentry).1
        have hpos := (s.queues (bufferQueueNum port)).pos
        rw [hindex] at hdepth
        rw [(h.queue (bufferQueueNum port)).1] at hpos
        have hsize := hfull.2
        simp only [Queue.getQueueSize, hnil, List.length_nil] at hsize
        omega
      obtain ⟨hmsgs, hqdepth, hqmode, hqover⟩ := Queue.popFront_eq_some hpop
      obtain ⟨b, escrow, hclaim, -⟩ := h.giveBack (.inl hmsgs) hqdepth hqmode hqover
      simp only [hpop, hclaim]
      exact ⟨true, _, rfl⟩
    · exact ⟨false, s, rfl⟩

theorem bufferQueueIn_total (h : Sound config 2 pending held s)
    (howned : s.sendState = .ready → s.bufferState = .owned) (port : Fin bufferPorts)
    {b : Buffer} (hb : 2 ≤ b.bytes.length) :
    ∃ s', s.bufferQueueIn port b = .ok s' ∧ Idle s' := by
  obtain ⟨flag, s1, hdrop⟩ := dropOldest_total h port
  have hquiet := dropOldest_quiet hdrop
  obtain ⟨⟨held1, h1, -⟩, hroom⟩ := h.dropOldest hdrop
  have howned1 : s1.sendState = .ready → s1.bufferState = .owned := by
    rw [hquiet.send, hquiet.buffer]
    exact howned
  unfold bufferQueueIn
  simp only [hdrop, Except.bind, bind]
  generalize hdep : s1.escrow.deposit b = deposited
  obtain ⟨token, escrow⟩ := deposited
  simp only
  generalize henq : (s1.queues (bufferQueueNum port)).enqueue (.buffer token) = result
  obtain ⟨status, queue⟩ := result
  simp only
  rcases h1.enqueueBuffer hb hroom hdep henq with ⟨hok, hset⟩ | ⟨hfull, hset⟩
  · obtain ⟨accepted, s2, hhandle, hidle⟩ := handleEnqueueStatus_total hset howned1
      (bufferQueueNum port) .bufferQueue port.val flag status
    have haccepted := (hset.handleEnqueueStatus hhandle).1.mpr (by simp [hok])
    refine ⟨s2, ?_, hidle⟩
    simp only [hhandle]
    rw [if_pos haccepted]
    rfl
  · obtain ⟨accepted, s2, hhandle, hidle⟩ := handleEnqueueStatus_total hset howned1
      (bufferQueueNum port) .bufferQueue port.val flag status
    obtain ⟨haccepted, held2, hsound2, -⟩ := hset.handleEnqueueStatus hhandle
    obtain ⟨escrow', hclaim, -⟩ := hsound2.toStocked.claimRecord
    refine ⟨({ s2 with escrow := escrow' }.emit (.bufferReturnOut port b)), ?_, hidle⟩
    simp only [hhandle]
    rw [if_neg fun ha => haccepted.mp ha hfull, hclaim]
    rfl

section

variable (h : Sound config least pending held s)

include h

theorem drainLoop_total {i : Fin totalPorts} {n : Nat}
    (hn : n ≤ (s.queues i).messages.length) :
    ∃ s', s.drainLoop i n = .ok s' := by
  induction n generalizing s held with
  | zero => exact ⟨s, rfl⟩
  | succ n ih =>
    have hne : (s.queues i).messages ≠ [] := by
      intro hnil
      simp [hnil] at hn
    obtain ⟨record, queue, hdequeue⟩ := Queue.dequeue_isSome hne
    obtain ⟨-, hdepth, hmode, hover⟩ := Queue.dequeue_eq_some hdequeue
    have hlen := (Queue.dequeue_perm hdequeue).length_eq
    rw [List.length_cons] at hlen
    have hends := dequeue_ends hdequeue
    unfold drainLoop
    simp only [hdequeue]
    clear hdequeue hne
    induction i using queue_cases with
    | hcom m =>
      have hset : Sound config least pending held (s.setQueue (comQueueNum m) queue) := by
        refine ⟨h.toWf.setQueue hdepth hmode hover, h.toStocked.setComQueue fun x hx => ?_⟩
        refine h.com m x ?_
        rcases hends with hends | hends <;> simp [hends, hx]
      obtain ⟨s', hloop⟩ := ih hset (by rw [setQueue_self]; omega)
      simp only [bufferPort_comQueueNum]
      exact ⟨s', hloop⟩
    | hbuffer m =>
      obtain ⟨b, escrow, hclaim, held1, h1, -⟩ := h.giveBack hends hdepth hmode hover
      obtain ⟨s', hloop⟩ := ih h1 (by simp only [emit, setQueue_self]; omega)
      simp only [bufferPort_bufferQueueNum, hclaim]
      exact ⟨s', hloop⟩

theorem drainAll_total (is : List (Fin totalPorts)) :
    ∃ s', s.drainAll is = .ok s' := by
  induction is generalizing s held with
  | nil => exact ⟨s, rfl⟩
  | cons i is ih =>
    obtain ⟨s1, hdrain⟩ := @drainLoop_total _ _ _ _ _ h i _ le_rfl
    obtain ⟨held1, h1, -⟩ := h.drainLoop hdrain
    obtain ⟨s', hall⟩ := ih h1
    refine ⟨s', ?_⟩
    simp only [drainAll, drainQueue, Queue.getQueueSize, hdrain]
    exact hall

theorem flushQueue_total (opCode cmdSeq : UInt32)
    (queueType : QueueType) (index : Int16) :
    ∃ s', s.flushQueue opCode cmdSeq queueType index = .ok s' := by
  unfold flushQueue
  split
  · exact ⟨_, rfl⟩
  · rename_i i _
    obtain ⟨s1, hdrain⟩ := @drainLoop_total _ _ _ _ _ h i _ le_rfl
    simp only [drainQueue, Queue.getQueueSize, hdrain]
    exact ⟨_, rfl⟩

theorem handleCommand_total (opCode cmdSeq : UInt32)
    (args : Bytes) : ∃ s', s.handleCommand idBase opCode cmdSeq args = .ok s' := by
  unfold handleCommand
  simp only
  split
  · split
    · exact ⟨_, rfl⟩
    · exact flushQueue_total h opCode cmdSeq _ _
  · split
    · split
      · exact ⟨_, rfl⟩
      · obtain ⟨s1, hdrain⟩ := drainAll_total h (List.finRange totalPorts)
        simp only [flushAllQueues, hdrain]
        exact ⟨_, rfl⟩
    · split
      · split <;> exact ⟨_, rfl⟩
      · exact ⟨_, rfl⟩

end

theorem Drains.idle (h : Drains s s') (hs : Idle s) : Idle s' := by
  intro hready
  obtain ⟨howned, hempty⟩ := hs (h.1.send ▸ hready)
  refine ⟨h.1.buffer.trans howned, fun i => List.length_eq_zero_iff.mp ?_⟩
  have hle := h.2 i
  rw [hempty i] at hle
  simpa using hle

structure Sched (config : QueueConfigurationTable) (s : State) : Prop where
  sound : ∃ held, Sound config 2 [] held s
  idle : Idle s

theorem dataReturnIn_total {context : FrameContext} (hunowned : s.bufferState = .unowned)
    (hcontext : context.comQueueIndex < totalPorts) (b : Buffer) :
    ∃ s', s.dataReturnIn b context = .ok s' := by
  unfold dataReturnIn
  rw [if_pos hunowned]
  simp only
  rw [dif_pos (show context.comQueueIndex - comPorts < bufferPorts by
    simp only [totalPorts] at hcontext
    omega)]
  split <;> exact ⟨_, rfl⟩

theorem Idle.dataReturnIn (h : Idle s) {b : Buffer} {context : FrameContext}
    (hs : s.dataReturnIn b context = .ok s') : Idle s' := by
  obtain ⟨hunowned, hquiet⟩ := dataReturnIn_quiet hs
  intro hready
  rw [(h (hquiet.send ▸ hready)).1] at hunowned
  cases hunowned

theorem Sched.comStatusIn (h : Sched config s) {condition : Success}
    (hfair : (Input.comStatusIn condition).Fair s) :
    ∃ s', s.comStatusIn condition = .ok s' ∧ Idle s' := by
  obtain ⟨hwaiting, howned⟩ := hfair
  obtain ⟨held, hsound⟩ := h.sound
  cases condition with
  | failure =>
    unfold State.comStatusIn
    simp only [hwaiting]
    exact ⟨_, rfl, fun hready => nomatch hready⟩
  | success =>
    rw [comStatusIn_success hwaiting]
    have hready : Sound config 2 [] held { s with sendState := .ready } := hsound.of_eq rfl rfl rfl
    obtain ⟨s', hprocess⟩ := processQueue_total hready rfl (howned rfl)
    exact ⟨s', hprocess, processQueue_idle hready.toWf (howned rfl) hprocess⟩

theorem Sched.input (h : Sched config s) {input : Input} (hfair : input.Fair s) :
    ∃ s', s.input idBase input = .ok s' ∧ Sched config s' := by
  obtain ⟨held, hsound⟩ := h.sound
  have howned : s.sendState = .ready → s.bufferState = .owned := fun hready => (h.idle hready).1
  cases input with
  | comStatusIn condition =>
    obtain ⟨s', hs, hidle⟩ := h.comStatusIn hfair
    obtain ⟨held', hsound', -⟩ := hsound.comStatusIn hs
    exact ⟨s', hs, ⟨held', hsound'⟩, hidle⟩
  | comPacketQueueIn port data =>
    obtain ⟨s', hs, hidle⟩ := comPacketQueueIn_total hsound howned port hfair
    obtain ⟨held', hsound', -⟩ := hsound.comPacketQueueIn hfair hs
    exact ⟨s', hs, ⟨held', hsound'⟩, hidle⟩
  | bufferQueueIn port b =>
    obtain ⟨s', hs, hidle⟩ := bufferQueueIn_total hsound howned port hfair
    obtain ⟨held', hsound', -⟩ := hsound.bufferQueueIn hfair hs
    exact ⟨s', hs, ⟨held', hsound'⟩, hidle⟩
  | run =>
    obtain ⟨held', hsound', -⟩ := hsound.run
    exact ⟨s.run, rfl, ⟨held', hsound'⟩, h.idle⟩
  | cmdIn opCode cmdSeq args =>
    obtain ⟨s', hs⟩ := @handleCommand_total _ _ _ _ _ idBase hsound opCode cmdSeq args
    obtain ⟨held', hsound', -⟩ := hsound.handleCommand hs
    exact ⟨s', hs, ⟨held', hsound'⟩, (handleCommand_drains hs).idle h.idle⟩
  | dataReturnIn b context =>
    obtain ⟨s', hs⟩ := dataReturnIn_total hfair.1 hfair.2 b
    obtain ⟨held', hsound', -⟩ := hsound.dataReturnIn hs
    exact ⟨s', hs, ⟨held', hsound'⟩, h.idle.dataReturnIn hs⟩

end Fprime.Svc.ComQueue
