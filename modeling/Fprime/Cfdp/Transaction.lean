import Fprime.Cfdp.Types
import Fprime.Cfdp.Timer
import Fprime.Os.File
import Fprime.Utils.Checksum

/-!
# Transactions

The record of one file transfer, the history entry that names it, and the state and sub-state
enumerations.
-/

namespace Fprime.Cfdp

open Fprime.Os Fprime.Utils

inductive Flow where
  | notFrozen
  | frozen

inductive Keep where
  | delete
  | keep
  deriving DecidableEq

inductive QueueId where
  | pend
  | txa
  | txw
  | rx
  | hist
  | histFree
  | free
  deriving DecidableEq

inductive TxnState where
  | undef
  | init
  | r1
  | s1
  | r2
  | s2
  | drop
  | hold
  | invalid
  deriving DecidableEq

inductive TxSubState where
  | metadata
  | fileData
  | eof
  | closeoutSync
  | numStates
  deriving DecidableEq

inductive RxSubState where
  | fileData
  | eof
  | closeoutSync
  | numStates
  deriving DecidableEq

inductive Direction where
  | rx
  | tx
  deriving DecidableEq

inductive TransactionInitType where
  | initByCommand
  | initByPort
  deriving DecidableEq

/-- Negative before anything happened, zero for success, a condition code or a code from 16 on for
an error. -/
structure TxnStatus where
  code : Int
  deriving DecidableEq

namespace TxnStatus

def undefined : TxnStatus := ⟨-1⟩
def noError : TxnStatus := ⟨0⟩
def filestoreRejection : TxnStatus := ⟨4⟩
def fileChecksumFailure : TxnStatus := ⟨5⟩
def fileSizeError : TxnStatus := ⟨6⟩
def nakLimitReached : TxnStatus := ⟨7⟩
def inactivityDetected : TxnStatus := ⟨8⟩
def cancelRequestReceived : TxnStatus := ⟨15⟩
def protocolError : TxnStatus := ⟨16⟩
def ackLimitNoFin : TxnStatus := ⟨17⟩
def ackLimitNoEof : TxnStatus := ⟨18⟩
def nakResponseError : TxnStatus := ⟨19⟩
def earlyFin : TxnStatus := ⟨21⟩

def fromConditionCode (cc : ConditionCode) : TxnStatus := ⟨cc.code.toNat⟩

end TxnStatus

def txnStatusIsError (s : TxnStatus) : Bool :=
  decide (0 < s.code)

/-- The codes below 16 that are CFDP condition codes stand for themselves. -/
def txnStatusToConditionCode (s : TxnStatus) : ConditionCode :=
  if ¬ txnStatusIsError s then .noError
  else if s.code ≤ 11 ∨ s.code = 14 ∨ s.code = 15 then ⟨UInt8.ofNat s.code.toNat⟩
  else if s = .ackLimitNoFin ∨ s = .ackLimitNoEof then .inactivityDetected
  else .cancelRequestReceived

def getTxnStatus : TxnState → AckTxnStatus
  | .s1 | .r1 | .s2 | .r2 => .active
  | .drop | .hold => .terminated
  | _ => .invalid

structure TxnFilenames where
  srcFilename : Bytes
  dstFilename : Bytes

structure History where
  fnames : TxnFilenames
  dir : Direction
  txnStat : TxnStatus
  srcEid : UInt32
  peerEid : UInt32
  seqNum : UInt32

def History.default : History :=
  ⟨⟨[], []⟩, .rx, .undefined, 0, 0, 0⟩

inductive PbRef where
  | playback (i : Nat)
  | pollDir (i : Nat)

structure TxS2Data where
  finCc : UInt8
  acknakCount : UInt8

structure TxStateData where
  subState : TxSubState
  cachedPos : UInt32
  s2 : TxS2Data

structure RxS2Data where
  eofCrc : UInt32
  eofSize : UInt32
  rxCrcCalcBytes : UInt32
  dc : FinDeliveryCode
  fs : FinFileStatus
  eofCc : UInt8
  acknakCount : UInt8

structure RxStateData where
  subState : RxSubState
  cachedPos : UInt32
  r2 : RxS2Data

structure StateData where
  send : TxStateData
  receive : RxStateData

def StateData.default : StateData where
  send := ⟨.metadata, 0, ⟨0, 0⟩⟩
  receive := ⟨.fileData, 0, ⟨0, 0, 0, .complete, .discarded, 0, 0⟩⟩

structure FlagsCommon where
  qIndex : QueueId
  ackTimerArmed : Bool
  suspended : Bool
  canceled : Bool
  crcCalc : Bool
  inactivityFired : Bool
  keepHistory : Bool
  postInactivitySendRetries : UInt8

structure FlagsRx where
  mdRecv : Bool
  eofRecv : Bool
  sendNak : Bool
  sendFin : Bool
  sendEofAck : Bool
  complete : Bool
  fdNakSent : Bool

structure FlagsTx where
  mdNeedSend : Bool
  sendEof : Bool
  eofAckRecv : Bool
  finRecv : Bool
  sendFinAck : Bool
  cmdTx : Bool

structure StateFlags where
  com : FlagsCommon
  rx : FlagsRx
  tx : FlagsTx

def StateFlags.default : StateFlags where
  com := ⟨.pend, false, false, false, false, false, false, 0⟩
  rx := ⟨false, false, false, false, false, false, false⟩
  tx := ⟨false, false, false, false, false, false⟩

structure Transaction where
  state : TxnState
  txnClass : Class
  history : Option Nat
  chunks : Option Nat
  inactivityTimer : Timer
  ackTimer : Timer
  fsize : UInt32
  foffs : UInt32
  fd : File
  crc : Checksum
  keep : Keep
  chanNum : Nat
  priority : UInt8
  initType : TransactionInitType
  pb : Option PbRef
  stateData : StateData
  flags : StateFlags

namespace Transaction

def new (channelId : Nat) : Transaction where
  state := .undef
  txnClass := .class1
  history := none
  chunks := none
  inactivityTimer := .new
  ackTimer := .new
  fsize := 0
  foffs := 0
  fd := none
  crc := .new
  keep := .keep
  chanNum := channelId
  priority := 0
  initType := .initByCommand
  pb := none
  stateData := .default
  flags := .default

def reset (t : Transaction) : Transaction :=
  { t with
    state := .undef
    txnClass := .class1
    fsize := 0
    foffs := 0
    keep := .keep
    priority := 0
    initType := .initByCommand
    crc := ⟨0⟩
    pb := none
    stateData := .default
    flags := .default
    fd := none
    inactivityTimer := .disableTimer
    ackTimer := .disableTimer }

def initTxFile (t : Transaction) (cfdpClass : Class) (kept : Keep) (chan : Nat)
    (priority : UInt8) : Transaction :=
  { t with
    chanNum := chan
    priority := priority
    keep := kept
    txnClass := cfdpClass
    state := if cfdpClass = .class2 then .s2 else .s1
    stateData := { t.stateData with send := { t.stateData.send with subState := .metadata } } }

end Transaction

end Fprime.Cfdp
