import Fprime.Svc.ComQueue.Stock

/-!
# What a call on the com queue does

Which of the calls can send, and which keep the order of the queues.
-/

namespace Fprime.Svc.ComQueue

open Fprime.Comp Fw Utils Lib Runs

inductive Input where
  | comStatusIn (condition : Success)
  | comPacketQueueIn (port : Fin comPorts) (data : ComBuffer)
  | bufferQueueIn (port : Fin bufferPorts) (buffer : Buffer)
  | run
  | cmdIn (opCode cmdSeq : UInt32) (args : Bytes)
  | dataReturnIn (data : Buffer) (context : FrameContext)

def State.input (idBase : UInt32) (s : State) : Input → Result
  | .comStatusIn condition => s.comStatusIn condition
  | .comPacketQueueIn port data => s.comPacketQueueIn port data
  | .bufferQueueIn port buffer => s.bufferQueueIn port buffer
  | .run => .ok s.run
  | .cmdIn opCode cmdSeq args => s.handleCommand idBase opCode cmdSeq args
  | .dataReturnIn data context => s.dataReturnIn data context

def prioritySet (idBase opCode : UInt32) (args : Bytes) : Option (Fin totalPorts × Int16) :=
  if opCode - idBase = opcodeSetQueuePriority then
    match State.priorityArgs args with
    | .error _ => none
    | .ok (queueType, index, newPriority) =>
      if 0 ≤ newPriority.toInt ∧ newPriority.toInt < totalPorts then
        (State.queueOfNum (State.getQueueNum queueType index)).map (·, newPriority)
      else none
  else none

def resort (l : List QueueMetadata) : Option (Fin totalPorts × Int16) → List QueueMetadata
  | none => l
  | some (i, p) => RoundRobin.bubbleSort QueueMetadata.rank (State.setPriority i p l)

structure Quiet (s s' : State) : Prop where
  sent : sentOf s'.out = sentOf s.out
  buffer : s'.bufferState = s.bufferState
  send : s'.sendState = s.sendState
  list : s'.prioritized = s.prioritized

structure Sends (s s' : State) : Prop where
  sent : ∃ x, sentOf s'.out = sentOf s.out ++ [x]
  before : s.bufferState = .owned
  after : s'.bufferState = .unowned
  waits : s'.sendState = .waiting
  perm : s'.prioritized.Perm s.prioritized

/-- A message is sent at most, and only when none is awaited. -/
def Served (s s' : State) : Prop :=
  Quiet s s' ∨ s.sendState = .ready ∧ Sends s s'

/-- What each call may do to the sends and to the order. -/
def Effect (idBase : UInt32) (s s' : State) : Input → Prop
  | .comStatusIn .success => Served { s with sendState := .ready } s'
  | .comStatusIn .failure => Quiet s s'
  | .comPacketQueueIn .. => Served s s'
  | .bufferQueueIn .. => Served s s'
  | .run => Quiet s s'
  | .cmdIn opCode _ args =>
    Quiet { s with prioritized := resort s.prioritized (prioritySet idBase opCode args) } s'
  | .dataReturnIn .. => s.bufferState = .unowned ∧ Quiet { s with bufferState := .owned } s'

variable {s s' s'' : State} {idBase : UInt32}

theorem Quiet.refl (s : State) : Quiet s s :=
  ⟨rfl, rfl, rfl, rfl⟩

theorem Quiet.trans (h : Quiet s s') (h' : Quiet s' s'') : Quiet s s'' :=
  ⟨h'.sent.trans h.sent, h'.buffer.trans h.buffer, h'.send.trans h.send, h'.list.trans h.list⟩

theorem Quiet.stock (s : State) (i : Fin totalPorts) (queue : Queue Record)
    (escrow : BufferEscrow Buffer) : Quiet s { s.setQueue i queue with escrow := escrow } :=
  ⟨rfl, rfl, rfl, rfl⟩

theorem Quiet.emit (h : Quiet s s') {out : Out} (hout : sentOf [out] = []) :
    Quiet s (s'.emit out) := by
  refine ⟨?_, h.buffer, h.send, h.list⟩
  rw [State.emit, sentOf, List.filterMap_append, ← sentOf, ← sentOf, hout, List.append_nil]
  exact h.sent

theorem Quiet.served_trans (h : Quiet s s') (h' : Served s' s'') : Served s s'' := by
  rcases h' with h' | ⟨hready, hsends⟩
  · exact .inl (h.trans h')
  · refine .inr ⟨h.send ▸ hready, ⟨?_, h.buffer ▸ hsends.before, hsends.after, hsends.waits,
      h.list ▸ hsends.perm⟩⟩
    rw [← h.sent]
    exact hsends.sent

theorem Served.quiet_trans (h : Served s s') (h' : Quiet s' s'') : Served s s'' := by
  rcases h with h | ⟨hready, hsends⟩
  · exact .inl (h.trans h')
  · refine .inr ⟨hready, ⟨?_, hsends.before, h'.buffer.trans hsends.after,
      h'.send.trans hsends.waits, h'.list ▸ hsends.perm⟩⟩
    rw [h'.sent]
    exact hsends.sent

variable {b : Buffer} {i : Fin totalPorts} {opCode : UInt32}

theorem claimRecord_eq_ok {record : Record} (h : s.claimRecord record = .ok (b, s')) :
    ∃ escrow, s' = { s with escrow := escrow } := by
  cases record with
  | com bytes => cases h
  | buffer token =>
    unfold State.claimRecord at h
    simp only at h
    split at h
    · cases h
    · cases h
      exact ⟨_, rfl⟩

theorem processQueue_served (h : s.processQueue = .ok s') : Served s s' := by
  obtain ⟨hready, ⟨-, rfl⟩ | ⟨entry, l, record, queue, s1, hserve, -, hsend, rfl⟩⟩ :=
    processQueue_eq_ok h
  · exact .inl (.refl _)
  · obtain ⟨howned, b, apid, escrow, -, rfl⟩ := sendRecord_eq_ok hsend
    refine .inr ⟨hready, ⟨(b, queueContext apid entry.index), ?_⟩, howned, rfl, rfl,
      RoundRobin.serve_perm hserve⟩
    simp only [State.emit, State.setQueue, sentOf, List.filterMap_append]
    rfl

theorem comStatusIn_success (h : s.sendState = .waiting) :
    s.comStatusIn .success = State.processQueue { s with sendState := .ready } := by
  unfold State.comStatusIn
  rw [h]
  rfl

theorem comStatusIn_eq_ok {condition : Success} (h : s.comStatusIn condition = .ok s') :
    s.sendState = .waiting ∧ Effect idBase s s' (.comStatusIn condition) := by
  have hwaiting : s.sendState = .waiting := by
    cases hsend : s.sendState with
    | waiting => rfl
    | ready =>
      unfold State.comStatusIn at h
      rw [hsend] at h
      cases h
  refine ⟨hwaiting, ?_⟩
  cases condition with
  | failure =>
    unfold State.comStatusIn at h
    rw [hwaiting] at h
    cases h
    exact ⟨rfl, rfl, hwaiting.symm, rfl⟩
  | success =>
    rw [comStatusIn_success hwaiting] at h
    exact processQueue_served h

variable {cmdSeq : UInt32} {queueType : QueueType}

theorem handleEnqueueStatus_served {port : Nat}
    {preEmptive accepted : Bool} {status : SerializeStatus}
    (h : s.handleEnqueueStatus i queueType port preEmptive status = .ok (accepted, s')) :
    Served s s' := by
  unfold State.handleEnqueueStatus at h
  simp only at h
  generalize hs1 : (if (preEmptive || decide (status = .noRoomLeft) ||
      decide (status = .discardedExisting)) && !s.throttle i then
    { s.emit (.log (.queueOverflow queueType port)) with
      throttle := Function.update s.throttle i true } else s) = s2 at h
  have hquiet : Quiet s s2 := by
    rw [← hs1]
    split
    · have hlog := (Quiet.refl s).emit (show sentOf [Out.log (.queueOverflow queueType port)] = []
        from rfl)
      exact ⟨hlog.sent, rfl, rfl, rfl⟩
    · exact .refl s
  split at h
  · obtain ⟨s1, hprocess, hs'⟩ := bind_eq_ok.mp h
    cases hs'
    exact hquiet.served_trans (processQueue_served hprocess)
  · cases h
    exact .inl hquiet

theorem comPacketQueueIn_served {port : Fin comPorts} {data : ComBuffer}
    (h : s.comPacketQueueIn port data = .ok s') : Served s s' := by
  unfold State.comPacketQueueIn at h
  obtain ⟨⟨accepted, s1⟩, hhandle, hs'⟩ := bind_eq_ok.mp h
  cases hs'
  exact (Quiet.stock s _ _ s.escrow).served_trans (handleEnqueueStatus_served hhandle)

theorem dropOldest_quiet {port : Fin bufferPorts} {flag : Bool}
    (h : s.dropOldest port = .ok (flag, s')) : Quiet s s' := by
  unfold State.dropOldest at h
  simp only at h
  split at h
  · cases h
    exact .refl s
  · split at h
    · split at h
      · cases h
      · obtain ⟨⟨b, s1⟩, hclaim, hs'⟩ := bind_eq_ok.mp h
        cases hs'
        obtain ⟨escrow, rfl⟩ := claimRecord_eq_ok hclaim
        exact (Quiet.stock s _ _ escrow).emit rfl
    · cases h
      exact .refl s

theorem bufferQueueIn_served {port : Fin bufferPorts} (h : s.bufferQueueIn port b = .ok s') :
    Served s s' := by
  unfold State.bufferQueueIn at h
  obtain ⟨⟨flag, s1⟩, hdrop, h⟩ := bind_eq_ok.mp h
  obtain ⟨⟨accepted, s2⟩, hhandle, h⟩ := bind_eq_ok.mp h
  have hserved : Served s s2 := ((dropOldest_quiet hdrop).trans
    (Quiet.stock s1 _ _ _)).served_trans (handleEnqueueStatus_served hhandle)
  simp only at h
  split at h
  · cases h
    exact hserved
  · obtain ⟨⟨b', s3⟩, hclaim, hs'⟩ := bind_eq_ok.mp h
    cases hs'
    obtain ⟨escrow, rfl⟩ := claimRecord_eq_ok hclaim
    have hclaimed : Quiet s2 { s2 with escrow := escrow } := ⟨rfl, rfl, rfl, rfl⟩
    exact hserved.quiet_trans (hclaimed.emit rfl)

theorem dataReturnIn_quiet {context : FrameContext} (h : s.dataReturnIn b context = .ok s') :
    s.bufferState = .unowned ∧ Quiet { s with bufferState := .owned } s' := by
  unfold State.dataReturnIn at h
  split at h
  · rename_i hunowned
    refine ⟨hunowned, ?_⟩
    simp only at h
    split at h
    · split at h
      · cases h
        exact (Quiet.refl _).emit rfl
      · cases h
        exact .refl _
    · cases h
  · cases h

def Drains (s s' : State) : Prop :=
  Quiet s s' ∧ ∀ j, (s'.queues j).messages.length ≤ (s.queues j).messages.length

theorem Drains.trans (h : Drains s s') (h' : Drains s' s'') : Drains s s'' :=
  ⟨h.1.trans h'.1, fun j => (h'.2 j).trans (h.2 j)⟩

theorem Drains.setQueue {queue : Queue Record}
    (hqueue : queue.messages.length ≤ (s.queues i).messages.length) (escrow : BufferEscrow Buffer) :
    Drains s { s.setQueue i queue with escrow := escrow } := by
  refine ⟨.stock s i queue escrow, fun j => ?_⟩
  by_cases hj : j = i
  · subst hj
    simpa using hqueue
  · exact le_of_eq (by simp [s.setQueue_of_ne hj])

theorem Drains.emit (h : Drains s s') {out : Out} (hout : sentOf [out] = []) :
    Drains s (s'.emit out) :=
  ⟨h.1.emit hout, h.2⟩

theorem drainLoop_drains {n : Nat} (h : s.drainLoop i n = .ok s') :
    Drains s s' := by
  induction n generalizing s with
  | zero =>
    cases h
    exact ⟨.refl _, fun _ => le_rfl⟩
  | succ n ih =>
    unfold State.drainLoop at h
    split at h
    · cases h
    · rename_i record queue hdequeue
      have hlen := (Queue.dequeue_perm hdequeue).length_eq
      rw [List.length_cons] at hlen
      have hset := @Drains.setQueue s i queue (by omega)
      split at h
      · exact (hset s.escrow).trans (ih h)
      · obtain ⟨⟨b, s1⟩, hclaim, hloop⟩ := bind_eq_ok.mp h
        obtain ⟨escrow, rfl⟩ := claimRecord_eq_ok hclaim
        exact ((hset escrow).emit rfl).trans (ih hloop)

theorem drainAll_drains {is : List (Fin totalPorts)} (h : s.drainAll is = .ok s') :
    Drains s s' := by
  induction is generalizing s with
  | nil =>
    cases h
    exact ⟨.refl _, fun _ => le_rfl⟩
  | cons i is ih =>
    unfold State.drainAll at h
    obtain ⟨s1, hdrain, hall⟩ := bind_eq_ok.mp h
    exact (drainLoop_drains hdrain).trans (ih hall)

theorem flushQueue_drains {index : Int16}
    (h : s.flushQueue opCode cmdSeq queueType index = .ok s') : Drains s s' := by
  unfold State.flushQueue at h
  split at h
  · cases h
    exact Drains.emit ⟨.refl s, fun _ => le_rfl⟩ rfl
  · obtain ⟨s1, hdrain, hs'⟩ := bind_eq_ok.mp h
    cases hs'
    exact (drainLoop_drains hdrain).emit rfl

theorem setQueuePriority_drains (s : State) (opCode cmdSeq : UInt32) (queueType : QueueType)
    (index newPriority : Int16) :
    Drains { s with
        prioritized := resort s.prioritized
          (if 0 ≤ newPriority.toInt ∧ newPriority.toInt < totalPorts then
            (State.queueOfNum (State.getQueueNum queueType index)).map (·, newPriority)
          else none) }
      (s.setQueuePriority opCode cmdSeq queueType index newPriority) := by
  unfold State.setQueuePriority
  cases State.queueOfNum (State.getQueueNum queueType index) with
  | none =>
    simp only [Option.map_none, ite_self, resort]
    exact ⟨(Quiet.refl s).emit rfl, fun _ => le_rfl⟩
  | some i =>
    by_cases hp : 0 ≤ newPriority.toInt ∧ newPriority.toInt < totalPorts
    · simp only [if_pos hp]
      exact ⟨((Quiet.refl _).emit rfl).emit rfl, fun _ => le_rfl⟩
    · simp only [if_neg hp]
      exact ⟨(Quiet.refl s).emit rfl, fun _ => le_rfl⟩

theorem prioritySet_of_ne (h : opCode - idBase ≠ opcodeSetQueuePriority) (args : Bytes) :
    prioritySet idBase opCode args = none :=
  if_neg h

theorem handleCommand_drains {args : Bytes}
    (h : s.handleCommand idBase opCode cmdSeq args = .ok s') :
    Drains { s with prioritized := resort s.prioritized (prioritySet idBase opCode args) } s' := by
  have hself : Drains s s := ⟨.refl s, fun _ => le_rfl⟩
  unfold State.handleCommand at h
  simp only at h
  by_cases hflush : opCode - idBase = opcodeFlushQueue
  · rw [if_pos hflush] at h
    rw [prioritySet_of_ne (by rw [hflush]; decide)]
    split at h
    · cases h
      exact hself.emit rfl
    · exact flushQueue_drains h
  rw [if_neg hflush] at h
  by_cases hall : opCode - idBase = opcodeFlushAllQueues
  · rw [if_pos hall] at h
    rw [prioritySet_of_ne (by rw [hall]; decide)]
    split at h
    · cases h
      exact hself.emit rfl
    · unfold State.flushAllQueues at h
      obtain ⟨s1, hdrain, hs'⟩ := bind_eq_ok.mp h
      cases hs'
      exact (drainAll_drains hdrain).emit rfl
  rw [if_neg hall] at h
  by_cases hset : opCode - idBase = opcodeSetQueuePriority
  · rw [if_pos hset] at h
    rw [prioritySet, if_pos hset]
    cases hparse : State.priorityArgs args with
    | error response =>
      rw [hparse] at h
      cases h
      exact hself.emit rfl
    | ok parsed =>
      obtain ⟨queueType, index, newPriority⟩ := parsed
      rw [hparse] at h
      cases h
      exact setQueuePriority_drains s opCode cmdSeq queueType index newPriority
  · rw [if_neg hset] at h
    rw [prioritySet_of_ne hset]
    cases h
    exact hself.emit rfl

theorem input_effect {input : Input} (h : s.input idBase input = .ok s') :
    Effect idBase s s' input := by
  cases input with
  | comStatusIn condition => exact (comStatusIn_eq_ok h).2
  | comPacketQueueIn port data => exact comPacketQueueIn_served h
  | bufferQueueIn port b => exact bufferQueueIn_served h
  | run =>
    cases h
    exact ⟨rfl, rfl, rfl, rfl⟩
  | cmdIn opCode cmdSeq args => exact (handleCommand_drains h).1
  | dataReturnIn b context => exact dataReturnIn_quiet h

end Fprime.Svc.ComQueue
