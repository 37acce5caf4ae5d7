import Fprime.Fw.Packets
import Fprime.Lib.ArrayMap

/-!
# The command dispatcher

Command packets go out to the component that registered their opcode, under a sequence number of the
dispatcher's own, and are answered to the caller when the component completes them.
-/

namespace Fprime.Svc.CmdDispatcher

open Fw

abbrev commandPorts : Nat := 30
abbrev sequencePorts : Nat := 5
def dispatchTableSize : Nat := 150
def sequencerTableSize : Nat := 25

def opcodeCmdNoOp : UInt32 := 0
def opcodeCmdNoOpString : UInt32 := 1
def opcodeCmdTestCmd1 : UInt32 := 2
def opcodeCmdClearTracking : UInt32 := 3

/-- Which of the output ports are connected, and where the component's own opcodes start. -/
structure Wiring where
  seqCmdStatus : Fin sequencePorts → Bool
  compCmdSend : Fin commandPorts → Bool
  idBase : UInt32

structure SequenceTrackerEntry where
  opCode : UInt32
  context : UInt32
  callerPort : Fin sequencePorts
  deriving DecidableEq

abbrev SequenceTracker := Lib.ArrayMap UInt32 SequenceTrackerEntry sequencerTableSize

/-- The counters wrap, as unsigned arithmetic does in a release build. -/
structure State where
  entryTable : List (UInt32 × Fin commandPorts)
  sequenceTracker : SequenceTracker
  seq : UInt32
  numCmdsDispatched : UInt32
  numCmdErrors : UInt32
  numCmdsDropped : UInt32

def State.new : State :=
  ⟨[], Lib.ArrayMap.empty, 0, 0, 0, 0⟩

structure Reply where
  port : Fin sequencePorts
  opCode : UInt32
  cmdSeq : UInt32
  response : CmdResponse
  deriving DecidableEq

inductive Event where
  | opCodeRegistered (opCode : UInt32) (port : Fin commandPorts) (slot : Nat)
  | opCodeReregistered (opCode : UInt32) (port : Fin commandPorts)
  | opCodeDispatched (opCode : UInt32) (port : Fin commandPorts)
  | opCodeCompleted (opCode : UInt32)
  | opCodeError (opCode : UInt32) (error : CmdResponse)
  | malformedCommand (status : DeserialStatus)
  | invalidCommand (opCode : UInt32)
  | tooManyCommands (opCode : UInt32)
  | noOpReceived
  | noOpStringReceived (message : Bytes)
  | testCmd1Args (arg1 arg2 : UInt32) (arg3 : UInt8)

inductive Out where
  | seqCmdStatus (reply : Reply)
  | compCmdSend (port : Fin commandPorts) (opCode cmdSeq : UInt32) (args : Bytes)
  | cmdResponse (opCode cmdSeq : UInt32) (response : CmdResponse)
  | log (event : Event)
  | assertFailed (arg : UInt32)

variable (wiring : Wiring)

variable (s : State)

/-- A registration for another port, or one too many, fails an assertion. -/
def compCmdReg (port : Fin commandPorts) (opCode : UInt32) : State × List Out :=
  match s.entryTable.lookup opCode with
  | some existing =>
    if existing = port then (s, [.log (.opCodeReregistered opCode port)])
    else (s, [.assertFailed opCode])
  | none =>
    if s.entryTable.length < dispatchTableSize then
      ({ s with entryTable := (opCode, port) :: s.entryTable },
        [.log (.opCodeRegistered opCode port s.entryTable.length)])
    else (s, [.assertFailed opCode])

/-- The caller's context travels in the place of the sequence number. -/
def seqStatusReply (port : Fin sequencePorts) (opCode context : UInt32)
    (response : CmdResponse) : List Out :=
  if wiring.seqCmdStatus port then [.seqCmdStatus ⟨port, opCode, context, response⟩] else []

/-- The port that a command goes to: registered, and connected. -/
def connectedTarget (opCode : UInt32) : Option (Fin commandPorts) :=
  (s.entryTable.lookup opCode).filter wiring.compCmdSend

/-- Track a command whose caller can be answered; `none` when there is no room to. -/
def track (port : Fin sequencePorts) (opCode context : UInt32) :
    Option SequenceTracker :=
  if wiring.seqCmdStatus port then s.sequenceTracker.insert s.seq ⟨opCode, context, port⟩
  else some s.sequenceTracker

def seqCmdBuff (port : Fin sequencePorts) (data : ComBuffer) (context : UInt32) :
    State × List Out :=
  let (stat, cmdPkt) := CmdPacket.new.deserializeFrom data.val
  if stat ≠ .ok then
    (s, .log (.malformedCommand (.ofStatus stat)) ::
      seqStatusReply wiring port cmdPkt.opcode context .validationError)
  else
    match connectedTarget wiring s cmdPkt.opcode with
    | some entryPort =>
      match track wiring s port cmdPkt.opcode context with
      | none =>
        (s, .log (.tooManyCommands cmdPkt.opcode) ::
          seqStatusReply wiring port cmdPkt.opcode context .executionError)
      | some tracker =>
        ({ s with
            sequenceTracker := tracker
            numCmdsDispatched := s.numCmdsDispatched + 1
            seq := s.seq + 1 },
          [.compCmdSend entryPort cmdPkt.opcode s.seq cmdPkt.argBuffer,
            .log (.opCodeDispatched cmdPkt.opcode entryPort)])
    | none =>
      ({ s with numCmdErrors := s.numCmdErrors + 1, seq := s.seq + 1 },
        .log (.invalidCommand cmdPkt.opcode) ::
          seqStatusReply wiring port cmdPkt.opcode context .invalidOpcode)

/-- The entry that is found is gone from the tracker before its opcode is compared. -/
def compCmdStat (opCode cmdSeq : UInt32) (response : CmdResponse) :
    State × List Out :=
  let (s, reported) :=
    if response = .ok then (s, Out.log (.opCodeCompleted opCode))
    else ({ s with numCmdErrors := s.numCmdErrors + 1 }, Out.log (.opCodeError opCode response))
  let (tracked, tracker) := s.sequenceTracker.remove cmdSeq
  let s := { s with sequenceTracker := tracker }
  match tracked with
  | none => (s, [reported])
  | some entry =>
    if opCode = entry.opCode then
      (s, reported :: seqStatusReply wiring entry.callerPort opCode entry.context response)
    else (s, [reported, .assertFailed opCode])

def seqCmdBuffOverflowHook : State :=
  { s with numCmdsDropped := s.numCmdsDropped + 1 }

/-- A command is carried out once all its arguments, and nothing else, have been read. -/
def withArgs {α : Type} (s : State) (opCode cmdSeq : UInt32) (args : Bytes)
    (read : Bytes → Except SerializeStatus (α × Bytes))
    (handler : α → State × List Out) : State × List Out :=
  match read args with
  | .ok (a, []) =>
    let (s, out) := handler a
    (s, out ++ [.cmdResponse opCode cmdSeq .ok])
  | _ => (s, [.cmdResponse opCode cmdSeq .formatError])

def cmdNoOp (opCode cmdSeq : UInt32) (args : Bytes) : State × List Out :=
  withArgs s opCode cmdSeq args (fun args => .ok ((), args)) fun _ => (s, [.log .noOpReceived])

def cmdNoOpString (opCode cmdSeq : UInt32) (args : Bytes) : State × List Out :=
  withArgs s opCode cmdSeq args (deserializeString cmdStringMaxSize) fun arg1 =>
    (s, [.log (.noOpStringReceived arg1)])

/-- The numbers are kept as they are on the wire. -/
def cmdTestCmd1 (opCode cmdSeq : UInt32) (args : Bytes) : State × List Out :=
  withArgs s opCode cmdSeq args
    (fun args => do
      let (arg1, args) ← deserializeU32 args
      let (arg2, args) ← deserializeU32 args
      let (arg3, args) ← deserializeU8 args
      return ((arg1, arg2, arg3), args))
    fun (arg1, arg2, arg3) => (s, [.log (.testCmd1Args arg1 arg2 arg3)])

def cmdClearTracking (opCode cmdSeq : UInt32) (args : Bytes) :
    State × List Out :=
  withArgs s opCode cmdSeq args (fun args => .ok ((), args)) fun _ =>
    ({ s with sequenceTracker := Lib.ArrayMap.empty }, [])

def command (opCode cmdSeq : UInt32) (args : Bytes) : State × List Out :=
  let opcode := opCode - wiring.idBase
  if opcode = opcodeCmdNoOp then cmdNoOp s opCode cmdSeq args
  else if opcode = opcodeCmdNoOpString then cmdNoOpString s opCode cmdSeq args
  else if opcode = opcodeCmdTestCmd1 then cmdTestCmd1 s opCode cmdSeq args
  else if opcode = opcodeCmdClearTracking then cmdClearTracking s opCode cmdSeq args
  else (s, [.cmdResponse opCode cmdSeq .invalidOpcode])

end Fprime.Svc.CmdDispatcher
