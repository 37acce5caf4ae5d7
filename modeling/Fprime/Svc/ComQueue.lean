import Mathlib.Data.List.FinRange
import Fprime.Comp.Escrow
import Fprime.Fw.Com
import Fprime.Fw.Packets
import Fprime.Lib.RoundRobin
import Fprime.Utils.Queue

/-!
# The com queue

Downlink data waits in one queue for each input port and goes out one message at a time, the queue
of best priority first. After a send the component waits for a status.
-/

namespace Fprime.Svc.ComQueue

open Fprime.Comp Fw Utils Lib Function

abbrev comPorts : Nat := 2
abbrev bufferPorts : Nat := 1
abbrev totalPorts : Nat := comPorts + bufferPorts

def opcodeFlushQueue : UInt32 := 0
def opcodeFlushAllQueues : UInt32 := 1
def opcodeSetQueuePriority : UInt32 := 2

inductive QueueType where
  | comQueue
  | bufferQueue

inductive BufferState where
  | owned
  | unowned
  deriving DecidableEq

inductive SendState where
  | ready
  | waiting
  deriving DecidableEq

inductive Success where
  | failure
  | success
  deriving DecidableEq

structure QueueConfigurationEntry where
  depth : Nat
  priority : Int16
  mode : QueueMode
  overflowMode : QueueOverflowMode

abbrev QueueConfigurationTable := Fin totalPorts → QueueConfigurationEntry

structure QueueMetadata where
  depth : Nat
  priority : Int16
  overflowMode : QueueOverflowMode
  index : Fin totalPorts
  deriving DecidableEq

/-- A buffer that a caller hands over, or the storage that the component recycles for com buffers.
-/
structure Buffer where
  owner : Option Nat
  bytes : Bytes
  deriving DecidableEq

/-- What a queue stores: the bytes of a com buffer, or the token of a buffer. -/
inductive Record where
  | com (bytes : Bytes)
  | buffer (token : Token)
  deriving DecidableEq

def queueContext (apid : Apid) (index : Fin totalPorts) : FrameContext :=
  { comQueueIndex := index.val, apid := apid }

inductive Event where
  | queueOverflow (queueType : QueueType) (index : Nat)
  | queuePriorityChanged (queueType : QueueType) (index newPriority : Int16)

inductive Out where
  | dataOut (data : Buffer) (context : FrameContext)
  | bufferReturnOut (port : Fin bufferPorts) (buffer : Buffer)
  | cmdResponse (opCode cmdSeq : UInt32) (response : CmdResponse)
  | log (event : Event)

inductive Assertion where
  | configuration
  | sendState
  | bufferState
  | descriptor
  | dequeue
  | escrow
  | returnPort
  | messageQueue

structure State where
  queues : Fin totalPorts → Queue Record
  prioritized : List QueueMetadata
  throttle : Fin totalPorts → Bool
  sendState : SendState
  bufferState : BufferState
  escrow : BufferEscrow Buffer
  out : List Out

abbrev Result := Except Assertion State

def QueueMetadata.rank (e : QueueMetadata) : Int :=
  e.priority.toInt

def bufferPort (index : Fin totalPorts) : Option (Fin bufferPorts) :=
  if h : index.val < comPorts then none
  else some ⟨index.val - comPorts, Nat.sub_lt_left_of_lt_add (Nat.le_of_not_lt h) index.isLt⟩

def comQueueNum (port : Fin comPorts) : Fin totalPorts :=
  port.castAdd bufferPorts

def bufferQueueNum (port : Fin bufferPorts) : Fin totalPorts :=
  port.natAdd comPorts

/-- Priorities in range, and a depth, for every entry. -/
def validEntry (entry : QueueConfigurationEntry) : Prop :=
  0 ≤ entry.priority.toInt ∧ entry.priority.toInt < totalPorts ∧ 0 < entry.depth
  deriving Decidable

def prioritize (config : QueueConfigurationTable) : List QueueMetadata :=
  (List.range totalPorts).flatMap fun (current : Nat) =>
    ((List.finRange totalPorts).filter fun i => (config i).priority.toInt = current).map fun i =>
      ⟨(config i).depth, (config i).priority, (config i).overflowMode, i⟩

def configure (config : QueueConfigurationTable) : Result :=
  if h : ∀ i, validEntry (config i) then
    if (prioritize config).length = totalPorts then
      .ok {
        queues := fun i => .new (config i).depth (config i).mode (config i).overflowMode (h i).2.2
        prioritized := prioritize config
        throttle := fun _ => false
        sendState := .waiting
        bufferState := .owned
        escrow := .new
        out := [] }
    else .error .configuration
  else .error .configuration

namespace State

variable (s : State)

def emit (out : Out) : State :=
  { s with out := s.out ++ [out] }

def setQueue (index : Fin totalPorts) (queue : Queue Record) : State :=
  { s with queues := update s.queues index queue }

def sendPrepared (buffer : Buffer) (index : Fin totalPorts) : Result :=
  match deserializeU16 buffer.bytes with
  | .error _ => .error .descriptor
  | .ok (descriptor, _) =>
    if s.bufferState = .owned then
      .ok { s.emit (.dataOut buffer (queueContext
          ((Apid.tryFrom descriptor).getD .invalidUninitialized) index)) with
        bufferState := .unowned
        sendState := .waiting }
    else .error .bufferState

def claimRecord : Record → Except Assertion (Buffer × State)
  | .com _ => .error .escrow
  | .buffer token =>
    match s.escrow.claim token with
    | none => .error .escrow
    | some (buffer, escrow) => .ok (buffer, { s with escrow := escrow })

def sendRecord (record : Record) (index : Fin totalPorts) : Result :=
  match bufferPort index, record with
  | none, .com bytes =>
    if s.bufferState = .owned then s.sendPrepared ⟨none, bytes⟩ index else .error .bufferState
  | none, .buffer _ => .error .dequeue
  | some _, record => do
    let (buffer, s) ← s.claimRecord record
    s.sendPrepared buffer index

/-- Send the first message there is in order of priority, and put its queue behind those of the
same priority. -/
def processQueue : Result :=
  if s.sendState = .ready then
    match RoundRobin.serve QueueMetadata.rank
        (fun e => (s.queues e.index).getQueueSize ≠ 0) s.prioritized with
    | none => .ok s
    | some (entry, prioritized) =>
      match (s.queues entry.index).dequeue with
      | none => .error .dequeue
      | some (record, queue) => do
        let s ← (s.setQueue entry.index queue).sendRecord record entry.index
        return { s with
          throttle := update s.throttle entry.index false
          prioritized := prioritized }
  else .error .sendState

def comStatusIn (condition : Success) : Result :=
  match s.sendState with
  | .waiting =>
    if condition = .success then processQueue { s with sendState := .ready }
    else .ok { s with sendState := .waiting }
  | .ready => .error .sendState

/-- Report an overflow once, and send at once when nothing is awaited. -/
def handleEnqueueStatus (index : Fin totalPorts) (queueType : QueueType)
    (port : Nat) (preEmptiveOverflow : Bool) (status : SerializeStatus) :
    Except Assertion (Bool × State) := do
  let overflowed := preEmptiveOverflow || status = .noRoomLeft || status = .discardedExisting
  let s := if overflowed && !s.throttle index then
      { s.emit (.log (.queueOverflow queueType port)) with
        throttle := update s.throttle index true }
    else s
  let s ← if s.sendState = .ready then s.processQueue else .ok s
  return (status ≠ .noRoomLeft, s)

def comPacketQueueIn (port : Fin comPorts) (data : ComBuffer) : Result := do
  let index := comQueueNum port
  let (status, queue) := (s.queues index).enqueue (.com data.val)
  let (_, s) ← (s.setQueue index queue).handleEnqueueStatus index .comQueue port.val false status
  return s

/-- Give up the oldest buffer of a full queue that drops its oldest; whether one was. -/
def dropOldest (port : Fin bufferPorts) : Except Assertion (Bool × State) :=
  let index := bufferQueueNum port
  match s.prioritized.find? (fun e => e.index = index) with
  | none => .ok (false, s)
  | some entry =>
    if entry.overflowMode = .dropOldest ∧ (s.queues index).getQueueSize ≥ entry.depth then
      match (s.queues index).popFront with
      | none => .error .dequeue
      | some (record, queue) => do
        let (dropped, s) ← (s.setQueue index queue).claimRecord record
        return (true, s.emit (.bufferReturnOut port dropped))
    else .ok (false, s)

def bufferQueueIn (port : Fin bufferPorts) (buffer : Buffer) : Result := do
  let index := bufferQueueNum port
  let (preEmptiveOverflow, s) ← s.dropOldest port
  let (token, escrow) := s.escrow.deposit buffer
  let (status, queue) := (s.queues index).enqueue (.buffer token)
  let (accepted, s) ← ({ s with escrow := escrow }.setQueue index queue).handleEnqueueStatus index
    .bufferQueue port.val preEmptiveOverflow status
  if accepted then return s
  else
    let (buffer, s) ← s.claimRecord (.buffer token)
    return s.emit (.bufferReturnOut port buffer)

/-- A sent buffer comes back; the storage of a com buffer is kept for the next send. -/
def dataReturnIn (data : Buffer) (context : FrameContext) : Result :=
  if s.bufferState = .unowned then
    let s := { s with bufferState := .owned }
    let port := context.comQueueIndex - comPorts
    if h : port < bufferPorts then
      if h' : 0 ≤ port then .ok (s.emit (.bufferReturnOut ⟨port.toNat, by omega⟩ data))
      else .ok s
    else .error .returnPort
  else .error .bufferState

def run : State :=
  { s with queues := fun i => (s.queues i).clearHighWaterMark }

def getQueueNum (queueType : QueueType) (index : Int16) : Int16 :=
  match queueType with
  | .comQueue => index
  | .bufferQueue => index + Int16.ofNat comPorts

def queueOfNum (num : Int16) : Option (Fin totalPorts) :=
  if h : 0 ≤ num.toInt ∧ num.toInt < totalPorts then some ⟨num.toInt.toNat, by omega⟩ else none

def drainLoop (s : State) (index : Fin totalPorts) : Nat → Result
  | 0 => .ok s
  | n + 1 =>
    match (s.queues index).dequeue with
    | none => .error .dequeue
    | some (record, queue) =>
      match bufferPort index with
      | none => (s.setQueue index queue).drainLoop index n
      | some port => do
        let (buffer, s) ← (s.setQueue index queue).claimRecord record
        (s.emit (.bufferReturnOut port buffer)).drainLoop index n

def drainQueue (index : Fin totalPorts) : Result :=
  s.drainLoop index (s.queues index).getQueueSize

def drainAll (s : State) : List (Fin totalPorts) → Result
  | [] => .ok s
  | i :: is => do
    let s ← s.drainQueue i
    s.drainAll is

def flushQueue (opCode cmdSeq : UInt32) (queueType : QueueType) (index : Int16) :
    Result :=
  match queueOfNum (getQueueNum queueType index) with
  | none => .ok (s.emit (.cmdResponse opCode cmdSeq .validationError))
  | some i => do
    let s ← s.drainQueue i
    return s.emit (.cmdResponse opCode cmdSeq .ok)

def flushAllQueues (opCode cmdSeq : UInt32) : Result := do
  let s ← s.drainAll (List.finRange totalPorts)
  return s.emit (.cmdResponse opCode cmdSeq .ok)

def setPriority (i : Fin totalPorts) (newPriority : Int16) :
    List QueueMetadata → List QueueMetadata
  | [] => []
  | e :: es =>
    if e.index = i then { e with priority := newPriority } :: es
    else e :: setPriority i newPriority es

def setQueuePriority (opCode cmdSeq : UInt32) (queueType : QueueType)
    (index newPriority : Int16) : State :=
  match queueOfNum (getQueueNum queueType index) with
  | none => s.emit (.cmdResponse opCode cmdSeq .validationError)
  | some i =>
    if 0 ≤ newPriority.toInt ∧ newPriority.toInt < totalPorts then
      ({ s with
          prioritized := RoundRobin.bubbleSort QueueMetadata.rank
            (setPriority i newPriority s.prioritized) }.emit
        (.log (.queuePriorityChanged queueType index newPriority))).emit
        (.cmdResponse opCode cmdSeq .ok)
    else s.emit (.cmdResponse opCode cmdSeq .validationError)

def queueTypeOf (raw : UInt8) : Except CmdResponse QueueType :=
  if raw = 0 then .ok .comQueue else if raw = 1 then .ok .bufferQueue else .error .validationError

def formatError {α : Type} (r : Except SerializeStatus α) : Except CmdResponse α :=
  r.mapError fun _ => .formatError

def deserializeI16 (buf : Bytes) : Except SerializeStatus (Int16 × Bytes) :=
  (deserializeU16 buf).map fun r => (r.1.toInt16, r.2)

def finished (args : Bytes) : Except CmdResponse Unit :=
  if args.length ≠ 0 then .error .formatError else .ok ()

/-- The type and number of a queue, in front of the arguments of two commands. -/
def queueArgs (args : Bytes) : Except CmdResponse (QueueType × Int16 × Bytes) := do
  let (raw, args) ← formatError (deserializeU8 args)
  let queueType ← queueTypeOf raw
  let (index, args) ← formatError (deserializeI16 args)
  return (queueType, index, args)

def flushArgs (args : Bytes) : Except CmdResponse (QueueType × Int16) := do
  let (queueType, index, args) ← queueArgs args
  finished args
  return (queueType, index)

def priorityArgs (args : Bytes) : Except CmdResponse (QueueType × Int16 × Int16) := do
  let (queueType, index, args) ← queueArgs args
  let (newPriority, args) ← formatError (deserializeI16 args)
  finished args
  return (queueType, index, newPriority)

def handleCommand (idBase opCode cmdSeq : UInt32) (args : Bytes) : Result :=
  let refuse := fun response => Except.ok (s.emit (.cmdResponse opCode cmdSeq response))
  let opcode := opCode - idBase
  if opcode = opcodeFlushQueue then
    match flushArgs args with
    | .error response => refuse response
    | .ok (queueType, index) => s.flushQueue opCode cmdSeq queueType index
  else if opcode = opcodeFlushAllQueues then
    match finished args with
    | .error response => refuse response
    | .ok _ => s.flushAllQueues opCode cmdSeq
  else if opcode = opcodeSetQueuePriority then
    match priorityArgs args with
    | .error response => refuse response
    | .ok (queueType, index, newPriority) =>
      .ok (s.setQueuePriority opCode cmdSeq queueType index newPriority)
  else refuse .invalidOpcode

end State

/-- The messages of the component's own queue, which all have one priority. -/
inductive Msg where
  | comStatusIn (condition : Success)
  | comPacketQueueIn (port : Fin comPorts) (data : ComBuffer)
  | bufferQueueIn (port : Fin bufferPorts) (token : Token)
  | run
  | cmdIn (opCode cmdSeq : UInt32) (args : Bytes)

def State.dispatch (s : State) (idBase : UInt32) : Msg → Result
  | .comStatusIn condition => s.comStatusIn condition
  | .comPacketQueueIn port data => s.comPacketQueueIn port data
  | .bufferQueueIn port token => do
    let (buffer, s) ← s.claimRecord (.buffer token)
    s.bufferQueueIn port buffer
  | .run => .ok s.run
  | .cmdIn opCode cmdSeq args => s.handleCommand idBase opCode cmdSeq args

end Fprime.Svc.ComQueue
