import Fprime.Lib.Bytes
import Fprime.Lib.Select
import Fprime.Lib.Slab
import Fprime.Lib.Transducer

/-!
# The two queue delegates

The heap-backed `PriorityQueue` and the `LocklessPriorityQueue`, as their non-blocking calls behave
from one thread.
-/

namespace Fprime.Os

open Lib.Bytes Lib.Select Lib.Slab Function

inductive QueueStatus where
  | opOk
  | empty
  | sizeMismatch
  | full
  | unknownError

structure Delivery where
  message : Bytes
  size : Nat
  priority : Nat

/-- The result of a receive call: a status with no message, a message, or a failed assertion. -/
inductive Received where
  | status (s : QueueStatus)
  | message (d : Delivery)
  | assertFailed

structure HeapNode where
  priority : Nat
  order : Nat
  index : Nat
  deriving DecidableEq

/-- The derived order: by priority, then by reversed stamp, then by index. -/
def HeapNode.lt (a b : HeapNode) : Bool :=
  a.priority < b.priority ∨ (a.priority = b.priority ∧
    (b.order < a.order ∨ (b.order = a.order ∧ a.index < b.index)))

structure PriorityQueue where
  depth : Nat
  messageSize : Nat
  data : Nat → UInt8
  sizes : Nat → Nat
  indices : Nat → Nat
  startIndex : Nat
  stopIndex : Nat
  heap : List HeapNode
  order : Nat
  highMark : Nat

namespace PriorityQueue

def create (depth messageSize : Nat) : Option PriorityQueue :=
  if 0 < depth ∧ 0 < messageSize ∧ depth * messageSize < 2 ^ 64 then
    some { depth := depth
           messageSize := messageSize
           data := fun _ => 0
           sizes := fun _ => 0
           indices := id
           startIndex := 0
           stopIndex := 0
           heap := []
           order := 0
           highMark := 0 }
  else none

variable (q : PriorityQueue)

/-- Queue a message the size and room checks let through. -/
def store (buffer : Bytes) (priority : Nat) : PriorityQueue :=
  let index := q.indices q.startIndex
  let heap := q.heap ++ [⟨priority, q.order, index⟩]
  { q with
    startIndex := (q.startIndex + 1) % q.depth
    order := (q.order + 1) % 2 ^ 64
    heap := heap
    data := writeAt q.data (index * q.messageSize) buffer
    sizes := update q.sizes index buffer.length
    highMark := max q.highMark heap.length }

def send (buffer : Bytes) (priority : Nat) :
    QueueStatus × PriorityQueue :=
  if buffer.length > q.messageSize then (.sizeMismatch, q)
  else if q.heap.length ≥ q.depth then (.full, q)
  else (.opOk, q.store buffer priority)

def pop (heap : List HeapNode) : Option (HeapNode × List HeapNode) :=
  (select (fun c b => b.lt c) heap).map fun node => (node, heap.erase node)

def release (node : HeapNode) (heap : List HeapNode) : PriorityQueue :=
  { q with
    heap := heap
    indices := update q.indices q.stopIndex node.index
    stopIndex := (q.stopIndex + 1) % q.depth }

def receive (capacity : Nat) : Received × PriorityQueue :=
  if q.heap.isEmpty then (.status .empty, q)
  else
    match pop q.heap with
    | none => (.status .unknownError, q)
    | some (node, heap) =>
      let size := q.sizes node.index
      if size ≤ capacity then
        (.message ⟨readAt q.data (node.index * q.messageSize) size, size, node.priority⟩,
          q.release node heap)
      else (.assertFailed, { q with heap := heap })

def getMessagesAvailable : Nat :=
  q.heap.length

def getMessageHighWaterMark : Nat :=
  q.highMark

end PriorityQueue

inductive LocklessSlotState where
  | free
  | writing
  | ready
  | reading
  deriving DecidableEq

def LocklessSlotState.asRepr : LocklessSlotState → Nat
  | .free => 0
  | .writing => 1
  | .ready => 2
  | .reading => 3

def stateOf (packed : Nat) : Nat :=
  packed % 4

def tagOf (packed : Nat) : Nat :=
  packed / 4

/-- State and tag in one word; the tag wraps. -/
def packStateTag (tagBits : Nat) (state : LocklessSlotState) (tag : Nat) : Nat :=
  (tag * 4 + state.asRepr) % 2 ^ (tagBits + 2)

theorem stateOf_packStateTag (tagBits : Nat) (state : LocklessSlotState) (tag : Nat) :
    stateOf (packStateTag tagBits state tag) = state.asRepr := by
  have hdvd : 4 ∣ 2 ^ (tagBits + 2) := ⟨2 ^ tagBits, by rw [Nat.pow_add, Nat.mul_comm]⟩
  unfold stateOf packStateTag
  rw [Nat.mod_mod_of_dvd _ hdvd]
  cases state <;> simp only [LocklessSlotState.asRepr] <;> omega

/-- Highest priority wins; on a tie, the sequence that is behind modulo `2 ^ 32`. -/
def isCandidatePreferred (candidatePriority candidateSequence bestPriority bestSequence : Nat) :
    Bool :=
  if candidatePriority > bestPriority then true
  else if candidatePriority = bestPriority then
    (candidateSequence + 2 ^ 32 - bestSequence) % 2 ^ 32 ≥ 2 ^ 31
  else false

structure LocklessSlot where
  stateTag : Nat
  sequence : Nat
  size : Nat
  priority : Nat

def wordBytes : Nat := 8

structure LocklessPriorityQueue where
  depth : Nat
  slots : Nat → LocklessSlot
  data : Nat → Nat
  wordsPerSlot : Nat
  messageSize : Nat
  sequence : Nat
  count : Nat
  available : Nat
  highMark : Nat

namespace LocklessPriorityQueue

def maxRetryPasses : Nat := 4

def create (depth messageSize : Nat) : Option LocklessPriorityQueue :=
  let wordsPerSlot := (messageSize + wordBytes - 1) / wordBytes
  if 0 < depth ∧ 0 < messageSize ∧ depth < (2 ^ 32 - 1) / 2 ∧ depth * wordsPerSlot < 2 ^ 64 then
    some { depth := depth
           slots := fun _ => ⟨packStateTag 62 .free 0, 0, 0, 0⟩
           data := fun _ => 0
           wordsPerSlot := wordsPerSlot
           messageSize := messageSize
           sequence := 0
           count := 0
           available := 0
           highMark := 0 }
  else none

/-- The payload words of a message, for at most `words` words. -/
def packWords : Nat → Bytes → List Nat
  | 0, _ => []
  | words + 1, buffer =>
    if buffer.isEmpty then []
    else decodeLE (buffer.take wordBytes) :: packWords words (buffer.drop wordBytes)

def unpackWords : List Nat → Nat → Bytes
  | [], _ => []
  | word :: words, size =>
    if size = 0 then []
    else (encodeLE wordBytes word).take size ++ unpackWords words (size - wordBytes)

variable (q : LocklessPriorityQueue)

def writePayload (index : Nat) (buffer : Bytes) : Nat → Nat :=
  writeAt q.data (index * q.wordsPerSlot) (packWords q.wordsPerSlot buffer)

def readPayload (index size : Nat) : Bytes :=
  unpackWords (readAt q.data (index * q.wordsPerSlot) q.wordsPerSlot) size

def hasState (state : LocklessSlotState) (index : Nat) : Bool :=
  stateOf (q.slots index).stateTag = state.asRepr

/-- Raise the mark: one exchange at most, and none in an empty pool. -/
def raiseHighMark (nextCount : Nat) : Nat :=
  if 0 < q.depth ∧ nextCount > q.highMark then nextCount else q.highMark

def publish (index : Nat) (buffer : Bytes) (priority : Nat) :
    LocklessPriorityQueue :=
  let writing := packStateTag 62 .writing (tagOf (q.slots index).stateTag + 1)
  let nextCount := (q.count + 1) % 2 ^ 32
  { q with
    data := q.writePayload index buffer
    slots := update q.slots index
      ⟨packStateTag 62 .ready (tagOf writing + 1), q.sequence, buffer.length, priority⟩
    sequence := (q.sequence + 1) % 2 ^ 32
    count := nextCount
    available := (q.available + 1) % 2 ^ 32
    highMark := q.raiseHighMark nextCount }

def trySend (buffer : Bytes) (priority : Nat) :
    Option LocklessPriorityQueue :=
  ((List.range q.depth).find? (q.hasState .free)).map fun index => q.publish index buffer priority

def preferredSlot (c b : Nat) : Bool :=
  isCandidatePreferred (q.slots c).priority (q.slots c).sequence (q.slots b).priority
    (q.slots b).sequence

/-- Claim a ready slot: its message can no longer complete another receive. -/
def claim (index : Nat) : LocklessPriorityQueue :=
  { q with
    slots := update q.slots index { q.slots index with
      stateTag := packStateTag 62 .reading (tagOf (q.slots index).stateTag + 1) }
    available := (q.available + (2 ^ 32 - 1)) % 2 ^ 32 }

def free (index : Nat) : LocklessPriorityQueue :=
  { q with
    slots := update q.slots index { q.slots index with
      stateTag := packStateTag 62 .free (tagOf (q.slots index).stateTag + 1) }
    count := (q.count + (2 ^ 32 - 1)) % 2 ^ 32 }

/-- One scan for the preferred ready slot; it is claimed, drained and freed. -/
def tryReceive (capacity : Nat) :
    Option (Received × LocklessPriorityQueue) :=
  (select q.preferredSlot ((List.range q.depth).filter (q.hasState .ready))).map fun index =>
    let size := (q.slots index).size
    if size ≤ capacity then
      (.message ⟨q.readPayload index size, size, (q.slots index).priority⟩,
        (q.claim index).free index)
    else (.assertFailed, q.claim index)

def sendPasses (q : LocklessPriorityQueue) (buffer : Bytes) (priority : Nat) :
    Nat → QueueStatus × LocklessPriorityQueue
  | 0 => (.full, q)
  | passes + 1 =>
    match q.trySend buffer priority with
    | some q' => (.opOk, q')
    | none => q.sendPasses buffer priority passes

def send (buffer : Bytes) (priority : Nat) :
    QueueStatus × LocklessPriorityQueue :=
  if buffer.length > q.messageSize then (.sizeMismatch, q)
  else q.sendPasses buffer priority maxRetryPasses

def receivePasses (q : LocklessPriorityQueue) (capacity : Nat) :
    Nat → Received × LocklessPriorityQueue
  | 0 => (.status .empty, q)
  | passes + 1 =>
    if q.available = 0 then q.receivePasses capacity passes
    else
      match q.tryReceive capacity with
      | some r => r
      | none => q.receivePasses capacity passes

def receive (capacity : Nat) : Received × LocklessPriorityQueue :=
  q.receivePasses capacity maxRetryPasses

def getMessagesAvailable : Nat :=
  q.available

def getMessageHighWaterMark : Nat :=
  q.highMark

end LocklessPriorityQueue

end Fprime.Os
