import Fprime.Cfdp.Pdu.Bodies
import Fprime.Os.File

/-!
# The manager's surroundings

The parameters the engine reads, what the operating system and the buffer pool answer, and the trace
the engine leaves. Telemetry and event reports are left out.
-/

namespace Fprime.Cfdp

open Fprime.Os Fprime.Fw

inductive Fault where
  | timerRun
  | historyMissing
  | chunksMissing
  | chunkEnd
  | gapSize
  | nodeAttached
  | listEmpty
  | insertPlace
  | traverseBound
  | historyPool
  | subState
  | txnState
  | metadataState
  | ackDirective
  | nakClass
  | dataEnd
  | cmdTxCounter
  | playbackCounter
  | activeQueue
  | tickType
  | index
  | overflow
  | codec

inductive SendFileStatus where
  | statusOk
  | statusError
  | statusInvalid

structure ChannelParams where
  ackLimit : UInt8
  nackLimit : UInt8
  ackTimer : UInt32
  inactivityTimer : UInt32
  moveDir : Bytes
  maxOutgoingPdusPerCycle : UInt32
  tmpDir : Bytes
  failDir : Bytes

/-- The parameters, and the answers of the surroundings to each call. Loops that need not end run on
`fuel`. -/
structure Mgr where
  localEid : UInt32
  outgoingFileChunkSize : UInt32
  rxCrcCalcBytesPerCycle : UInt32
  postInactivitySendRetries : UInt8
  channel : Nat → ChannelParams
  osOk : Nat → Bool
  allocOk : Nat → Bool
  listDir : Path → Option (List Bytes)
  fuel : Nat

def Mgr.ample : Mgr where
  localEid := 2
  outgoingFileChunkSize := 480
  rxCrcCalcBytesPerCycle := 1024
  postInactivitySendRetries := 3
  channel _ := ⟨4, 4, 3, 30, [], 64, [], []⟩
  osOk _ := true
  allocOk _ := true
  listDir _ := none
  fuel := 10

structure World where
  fs : FileSystem
  osCalls : Nat
  allocs : Nat
  sent : List Pdu
  fileDone : List SendFileStatus
  faults : List Fault
  /-- Some loop ran out of fuel. -/
  hung : Bool

namespace World

/-- `fw_assert!`: the hook records the failure and returns. -/
def assert (w : World) (f : Fault) (p : Bool) : World :=
  if p then w else { w with faults := f :: w.faults }

variable (w : World) (f : Fault)

theorem assert_eq (p : Bool) :
    w.assert f p = { w with faults := (w.assert f p).faults } := by
  cases p <;> rfl

@[simp] theorem assert_fs (p : Bool) : (w.assert f p).fs = w.fs := by
  cases p <;> rfl

@[simp] theorem assert_sent (p : Bool) : (w.assert f p).sent = w.sent := by
  cases p <;> rfl

def nextOs (mgr : Mgr) : Bool :=
  mgr.osOk w.osCalls

def afterOs (fs : FileSystem) : World :=
  { w with fs := fs, osCalls := w.osCalls + 1 }

end World

def decoded {α : Type} : Codec α → Option α
  | .ok a => some a
  | .error _ => none

theorem decoded_eq_some {α : Type} {x : Codec α} {a : α} : decoded x = some a ↔ x = .ok a := by
  cases x <;> simp [decoded]

def panics {α : Type} : Codec α → Bool
  | .error .panic => true
  | _ => false

end Fprime.Cfdp
