import Mathlib.Algebra.Group.Nat.Defs
import Mathlib.Data.Fintype.Basic
import Fprime.Os.Queue

/-!
# The lockless priority queue

Whoever moves the word of a slot from one state to the next by compare-and-swap owns the slot. Every
atomic access of a send or a receive is one step, and the steps of any number of threads interleave.
-/

namespace Fprime.Os.LocklessQueue

/-- What a queue is created with, and the widths of the machine. -/
structure Config where
  depth : Nat
  messageSize : Nat
  word : Nat
  tagBits : Nat
  maxRetryPasses : Nat
  depth_pos : 0 < depth
  depth_lt : depth < (2 ^ 32 - 1) / 2
  messageSize_pos : 0 < messageSize
  word_pos : 0 < word
  maxRetryPasses_pos : 0 < maxRetryPasses

abbrev Message := Bytes × UInt8

variable (cfg : Config)

structure Slot where
  stateTag : Nat
  sequence : UInt32
  size : Nat
  priority : UInt8
  payload : Nat → Bytes

/-- The words that some bytes are stored in, of those that a slot has. -/
def Config.chunks (size : Nat) : Nat :=
  min ((cfg.messageSize + cfg.word - 1) / cfg.word) ((size + cfg.word - 1) / cfg.word)

def chunk (bytes : Bytes) (k : Nat) : Bytes :=
  (bytes.drop (k * cfg.word)).take cfg.word

def toWord (bytes : Bytes) : Bytes :=
  bytes ++ List.replicate (cfg.word - bytes.length) 0

structure SendOp where
  id : Nat
  buffer : Bytes
  priority : UInt8
  blocking : Bool

structure ReceiveOp where
  room : Nat
  blocking : Bool

inductive SendAt (depth : Nat) where
  | scan (index : Nat)
  | claim (index : Fin depth) (packed : Nat)
  | storeWord (index : Fin depth) (desired k : Nat)
  | storeSize (index : Fin depth) (desired : Nat)
  | storePriority (index : Fin depth) (desired : Nat)
  | fetchSequence (index : Fin depth) (desired : Nat)
  | storeSequence (index : Fin depth) (desired : Nat) (sequence : UInt32)
  | fetchCount (index : Fin depth) (desired : Nat)
  | publish (index : Fin depth) (desired : Nat) (nextCount : UInt32)
  | fetchAvailable (nextCount : UInt32)
  | loadMark (nextCount : UInt32)
  | raiseMark (nextCount previous : UInt32) (markPass : Nat)

structure Candidate (depth : Nat) where
  index : Fin depth
  priority : UInt8
  sequence : UInt32
  packed : Nat

inductive ReceiveAt (depth : Nat) where
  | loadAvailable
  | scan (index : Nat) (best : Option (Candidate depth))
  | loadPriority (index : Fin depth) (packed : Nat) (best : Option (Candidate depth))
  | loadSequence (index : Fin depth) (packed : Nat) (priority : UInt8)
      (best : Option (Candidate depth))
  | reload (candidate : Candidate depth) (best : Option (Candidate depth))
  | claim (best : Candidate depth)
  | fetchAvailable (index : Fin depth) (desired : Nat)
  | loadSize (index : Fin depth) (desired : Nat)
  | loadWord (index : Fin depth) (desired size k : Nat) (bytes : Bytes)
  | loadStored (index : Fin depth) (desired : Nat) (bytes : Bytes)
  | fetchCount (index : Fin depth) (desired : Nat) (message : Message)
  | release (index : Fin depth) (desired : Nat) (message : Message)

inductive Proc (depth : Nat) where
  | idle
  | send (op : SendOp) (pass : Nat) (pos : SendAt depth)
  | receive (op : ReceiveOp) (pass : Nat) (pos : ReceiveAt depth)

/-- The queue and its threads, the messages of the sends, the sends that have published or
succeeded, and the messages received. -/
structure System (cfg : Config) where
  slots : Fin cfg.depth → Slot
  sequence : UInt32
  count : UInt32
  available : UInt32
  highMark : UInt32
  procs : Nat → Proc cfg.depth
  halted : Bool
  sends : List Message
  published : List Nat
  confirmed : List Nat
  received : List Message

variable {cfg : Config}

namespace System

variable (σ : System cfg) (t : Nat)

def setProc (p : Proc cfg.depth) : System cfg :=
  { σ with procs := Function.update σ.procs t p }

def setSlot (i : Fin cfg.depth) (slot : Slot) : System cfg :=
  { σ with slots := Function.update σ.slots i slot }

def writeFrom (cfg : Config) (op : SendOp) (i : Fin cfg.depth) (desired k : Nat) :
    SendAt cfg.depth :=
  if k < cfg.chunks op.buffer.length then .storeWord i desired k else .storeSize i desired

/-- The next turn of the loop that raises the mark, or the end of the send. -/
def markFrom (op : SendOp) (pass : Nat) (nextCount previous : UInt32)
    (markPass : Nat) : System cfg :=
  if markPass < cfg.depth ∧ previous < nextCount then
    σ.setProc t (.send op pass (.raiseMark nextCount previous markPass))
  else { σ.setProc t .idle with confirmed := σ.confirmed ++ [op.id] }

/-- Another pass over the slots, or the end of a send that found none. -/
def sendScan (op : SendOp) (pass index : Nat) : System cfg :=
  if index < cfg.depth then σ.setProc t (.send op pass (.scan index))
  else if op.blocking ∨ pass < cfg.maxRetryPasses then
    σ.setProc t (.send op (pass + 1) (.scan 0))
  else σ.setProc t .idle

def sendStep (op : SendOp) (pass : Nat) :
    SendAt cfg.depth → System cfg
  | .scan index =>
    if h : index < cfg.depth then
      let packed := (σ.slots ⟨index, h⟩).stateTag
      if stateOf packed = LocklessSlotState.free.asRepr then
        σ.setProc t (.send op pass (.claim ⟨index, h⟩ packed))
      else σ.sendScan t op pass (index + 1)
    else σ
  | .claim i packed =>
    if (σ.slots i).stateTag = packed then
      let desired := packStateTag cfg.tagBits .writing (tagOf packed + 1)
      (σ.setSlot i { σ.slots i with stateTag := desired }).setProc t
        (.send op pass (writeFrom cfg op i desired 0))
    else σ.sendScan t op pass (i + 1)
  | .storeWord i desired k =>
    let slot := σ.slots i
    let payload := Function.update slot.payload k (toWord cfg (chunk cfg op.buffer k))
    (σ.setSlot i { slot with payload := payload }).setProc t
      (.send op pass (writeFrom cfg op i desired (k + 1)))
  | .storeSize i desired =>
    (σ.setSlot i { σ.slots i with size := op.buffer.length }).setProc t
      (.send op pass (.storePriority i desired))
  | .storePriority i desired =>
    (σ.setSlot i { σ.slots i with priority := op.priority }).setProc t
      (.send op pass (.fetchSequence i desired))
  | .fetchSequence i desired =>
    { σ with sequence := σ.sequence + 1 }.setProc t
      (.send op pass (.storeSequence i desired σ.sequence))
  | .storeSequence i desired sequence =>
    (σ.setSlot i { σ.slots i with sequence := sequence }).setProc t
      (.send op pass (.fetchCount i desired))
  | .fetchCount i desired =>
    { σ with count := σ.count + 1 }.setProc t (.send op pass (.publish i desired (σ.count + 1)))
  | .publish i desired nextCount =>
    let word := packStateTag cfg.tagBits .ready (tagOf desired + 1)
    { σ.setSlot i { σ.slots i with stateTag := word } with
      published := σ.published ++ [op.id] }.setProc t (.send op pass (.fetchAvailable nextCount))
  | .fetchAvailable nextCount =>
    { σ with available := σ.available + 1 }.setProc t (.send op pass (.loadMark nextCount))
  | .loadMark nextCount => σ.markFrom t op pass nextCount σ.highMark 0
  | .raiseMark nextCount previous markPass =>
    if σ.highMark = previous then
      { { σ with highMark := nextCount }.setProc t .idle with
        confirmed := σ.confirmed ++ [op.id] }
    else σ.markFrom t op pass nextCount σ.highMark (markPass + 1)

def preferred (candidate : Candidate cfg.depth) : Option (Candidate cfg.depth) → Bool
  | none => true
  | some best =>
    isCandidatePreferred candidate.priority.toNat candidate.sequence.toNat best.priority.toNat
      best.sequence.toNat

def readFrom (cfg : Config) (i : Fin cfg.depth) (desired size k : Nat) (bytes : Bytes) :
    ReceiveAt cfg.depth :=
  if k < cfg.chunks size then .loadWord i desired size k bytes else .loadStored i desired bytes

def receivePass (op : ReceiveOp) (pass : Nat) : System cfg :=
  if op.blocking ∨ pass < cfg.maxRetryPasses then
    σ.setProc t (.receive op (pass + 1) .loadAvailable)
  else σ.setProc t .idle

/-- The next slot of the scan, or the claim of the best candidate. -/
def receiveScan (op : ReceiveOp) (pass index : Nat)
    (best : Option (Candidate cfg.depth)) : System cfg :=
  if index < cfg.depth then σ.setProc t (.receive op pass (.scan index best))
  else
    match best with
    | none => σ.receivePass t op pass
    | some best => σ.setProc t (.receive op pass (.claim best))

def receiveStep (op : ReceiveOp) (pass : Nat) :
    ReceiveAt cfg.depth → System cfg
  | .loadAvailable =>
    if σ.available = 0 then σ.receivePass t op pass
    else σ.receiveScan t op pass 0 none
  | .scan index best =>
    if h : index < cfg.depth then
      let packed := (σ.slots ⟨index, h⟩).stateTag
      if stateOf packed = LocklessSlotState.ready.asRepr then
        σ.setProc t (.receive op pass (.loadPriority ⟨index, h⟩ packed best))
      else σ.receiveScan t op pass (index + 1) best
    else σ
  | .loadPriority i packed best =>
    σ.setProc t (.receive op pass (.loadSequence i packed (σ.slots i).priority best))
  | .loadSequence i packed priority best =>
    σ.setProc t (.receive op pass
      (.reload ⟨i, priority, (σ.slots i).sequence, packed⟩ best))
  | .reload candidate best =>
    if (σ.slots candidate.index).stateTag = candidate.packed ∧ preferred candidate best then
      σ.receiveScan t op pass (candidate.index + 1) (some candidate)
    else σ.receiveScan t op pass (candidate.index + 1) best
  | .claim best =>
    if (σ.slots best.index).stateTag = best.packed then
      let desired := packStateTag cfg.tagBits .reading (tagOf best.packed + 1)
      (σ.setSlot best.index { σ.slots best.index with stateTag := desired }).setProc t
        (.receive op pass (.fetchAvailable best.index desired))
    else σ.receivePass t op pass
  | .fetchAvailable i desired =>
    { σ with available := σ.available - 1 }.setProc t (.receive op pass (.loadSize i desired))
  | .loadSize i desired =>
    let size := (σ.slots i).size
    if size ≤ op.room then σ.setProc t (.receive op pass (readFrom cfg i desired size 0 []))
    else { σ with halted := true }
  | .loadWord i desired size k bytes =>
    let word := (σ.slots i).payload k
    σ.setProc t (.receive op pass (readFrom cfg i desired size (k + 1)
      (bytes ++ word.take (min cfg.word (size - k * cfg.word)))))
  | .loadStored i desired bytes =>
    σ.setProc t (.receive op pass (.fetchCount i desired (bytes, (σ.slots i).priority)))
  | .fetchCount i desired message =>
    { σ with count := σ.count - 1 }.setProc t (.receive op pass (.release i desired message))
  | .release i desired message =>
    let word := packStateTag cfg.tagBits .free (tagOf desired + 1)
    { (σ.setSlot i { σ.slots i with stateTag := word }).setProc t .idle with
      received := σ.received ++ [message] }

end System

inductive Event where
  | send (t : Nat) (buffer : Bytes) (priority : UInt8) (blocking : Bool)
  | receive (t : Nat) (room : Nat) (blocking : Bool)
  | advance (t : Nat)

namespace System

def create (cfg : Config) : System cfg where
  slots := fun _ => ⟨packStateTag cfg.tagBits .free 0, 0, 0, 0, fun _ => List.replicate cfg.word 0⟩
  sequence := 0
  count := 0
  available := 0
  highMark := 0
  procs := fun _ => .idle
  halted := false
  sends := []
  published := []
  confirmed := []
  received := []

def advance (σ : System cfg) (t : Nat) : System cfg :=
  match σ.procs t with
  | .idle => σ
  | .send op pass pos => σ.sendStep t op pass pos
  | .receive op pass pos => σ.receiveStep t op pass pos

/-- After a failed assertion nothing runs any more. A message that is too large is refused at
once. -/
def step (σ : System cfg) (event : Event) : System cfg :=
  if σ.halted then σ
  else
    match event with
    | .send t buffer priority blocking =>
      match σ.procs t with
      | .idle =>
        if cfg.messageSize < buffer.length then σ
        else
          { σ.setProc t (.send ⟨σ.sends.length, buffer, priority, blocking⟩ 1 (.scan 0)) with
            sends := σ.sends ++ [(buffer, priority)] }
      | _ => σ
    | .receive t room blocking =>
      match σ.procs t with
      | .idle => σ.setProc t (.receive ⟨room, blocking⟩ 1 .loadAvailable)
      | _ => σ
    | .advance t => σ.advance t

def run (cfg : Config) (events : List Event) : System cfg :=
  events.foldl step (create cfg)

end System

end Fprime.Os.LocklessQueue
