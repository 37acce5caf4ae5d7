import Fprime.Svc.CmdSequencer.Sequence

/-!
# The command sequencer

Loads a sequence file and sends its commands, each at its time and, in the automatic mode, after the
one before has been answered.
-/

namespace Fprime.Svc.CmdSequencer

open Fw

inductive RunMode where
  | stopped
  | running
  deriving DecidableEq

inductive StepMode where
  | auto
  | manual
  deriving DecidableEq

inductive BlockState where
  | block
  | noBlock
  deriving DecidableEq

def BlockState.tryFrom (raw : UInt8) : Option BlockState :=
  if raw = 0 then some .block else if raw = 1 then some .noBlock else none

structure Timer where
  armed : Bool
  expirationTime : Time

namespace Timer

def new : Timer :=
  ⟨false, .zero⟩

def set (_ : Timer) (time : Time) : Timer :=
  ⟨true, time⟩

def clear (t : Timer) : Timer :=
  { t with armed := false }

/-- A time that does not compare counts as past the expiration. -/
def isExpiredAt (t : Timer) (time : Time) : Bool :=
  t.armed && decide (Time.compare t.expirationTime time ≠ .gt)

end Timer

structure Wiring where
  idBase : UInt32
  seqDone : Bool
  seqStartOut : Bool

/-- What the time port says for a load or a tick, and for a step or a timeout, and what opening a
file gives. -/
structure Env where
  first : Time
  second : Time
  files : Bytes → OpenResult

structure Response where
  opCode : UInt32
  cmdSeq : UInt32
  response : CmdResponse

/-- The calls on the output ports, the event of a failed load, and the taking of a record. A command
goes with its due time. -/
inductive Out where
  | comCmdOut (time : Time) (command : ComBuffer)
  | cmdResponse (response : Response)
  | seqDone (response : CmdResponse)
  | seqStartOut (fileName : Bytes)
  | pingOut (key : UInt32)
  | loadEvent (event : SequenceLoadEvent)
  | nextRecord (time : Time) (entry : Entry)

structure State where
  sequence : FPrimeSequence
  runMode : RunMode
  stepMode : StepMode
  timeout : UInt32
  blockState : BlockState
  opCode : UInt32
  cmdSeq : UInt32
  joinWaiting : Bool
  record : SequenceRecord
  cmdTimer : Timer
  cmdTimeoutTimer : Timer

def SequenceRecord.entry (record : SequenceRecord) : Entry :=
  let tag := Tag.mk record.timeTag.seconds record.timeTag.useconds record.timeTag.valid
  match record.descriptor with
  | .absolute => .command false tag record.command
  | .relative => .command true tag record.command
  | .endOfSequence => .endOfSequence

abbrev Result := Except Assertion (State × List Out)

namespace State

def new (capacity : Nat) (timeout : UInt32) : State where
  sequence := FPrimeSequence.new.allocateBuffer capacity
  runMode := .stopped
  stepMode := .auto
  timeout := timeout
  blockState := .noBlock
  opCode := 0
  cmdSeq := 0
  joinWaiting := false
  record := .default
  cmdTimer := .new
  cmdTimeoutTimer := .new

variable (w : Wiring) (s : State)

variable (env : Env)

/-- A load, and whether it has succeeded. One that fails leaves no record to take. -/
def loadFile (fileName : Bytes) :
    Except Assertion (State × List Out × Bool) :=
  match s.sequence.loadFile fileName (env.files fileName) env.first with
  | .ok sequence => .ok ({ s with sequence }, [], true)
  | .error (.event e) => .ok ({ s with sequence := s.sequence.clear }, [.loadEvent e], false)
  | .error (.assertion a) => .error a

def emitSeqStart : List Out :=
  if w.seqStartOut then [.seqStartOut s.sequence.fileName] else []

def seqDoneGuarded (response : CmdResponse) : List Out :=
  if w.seqDone then [.seqDone response] else []

def seqDoneUnguarded (response : CmdResponse) : Except Assertion (List Out) :=
  if w.seqDone then .ok [.seqDone response] else .error .seqDoneNotConnected

/-- The watchdog on the answer to a command, in the automatic mode only. -/
def setCmdTimeout (now : Time) : State :=
  if 0 < s.timeout ∧ s.stepMode = .auto then
    { s with cmdTimeoutTimer :=
        s.cmdTimeoutTimer.set (now.addDuration s.timeout 0 Time.zero_valid) }
  else s

theorem setCmdTimeout_eq (now : Time) :
    ∃ timer, s.setCmdTimeout now = { s with cmdTimeoutTimer := timer } := by
  unfold setCmdTimeout
  split
  · exact ⟨_, rfl⟩
  · exact ⟨s.cmdTimeoutTimer, rfl⟩

/-- The answer that a blocking run or a join is owed. -/
def owes : Bool :=
  s.blockState = .block || s.joinWaiting

def answer (response : CmdResponse) : List Out :=
  if s.owes then [.cmdResponse ⟨s.opCode, s.cmdSeq, response⟩] else []

/-- The sequence stays loaded and goes back to its first record. -/
def performCmdCancel : State × List Out :=
  ({ s with
      sequence := s.sequence.reset
      runMode := .stopped
      cmdTimer := s.cmdTimer.clear
      cmdTimeoutTimer := s.cmdTimeoutTimer.clear
      joinWaiting := if s.owes then false else s.joinWaiting
      blockState := .noBlock },
    seqDoneGuarded w .executionError ++ s.answer .executionError)

def sequenceComplete : State × List Out :=
  ({ s with sequence := s.sequence.clear, joinWaiting := false, blockState := .noBlock },
    seqDoneGuarded w .ok ++ s.answer .ok)

/-- Send the command in the record slot, or wait for its time. -/
def performCmdStepAbsolute (now : Time) : State × List Out :=
  let comparison := Time.compare now s.record.timeTag
  if comparison = .gt ∨ comparison = .eq then
    (s.setCmdTimeout now, [.comCmdOut now s.record.command])
  else ({ s with cmdTimer := s.cmdTimer.set s.record.timeTag }, [])

/-- Take the next record. Its time is on the base of the sequence, and counts from now if it is
relative. -/
def performCmdStep (now : Time) :
    Result := do
  let (record, sequence) ← s.sequence.nextRecord s.record
  let record := { record with
    timeTag := { record.timeTag with
      timeBase := s.sequence.header.timeBase
      timeContext := s.sequence.header.timeContext } }
  let taken := Out.nextRecord now record.entry
  match record.descriptor with
  | .endOfSequence =>
    let (s, outs) := sequenceComplete w { s with sequence, record, runMode := .stopped }
    return (s, taken :: outs)
  | .relative =>
    let record := { record with
      timeTag := record.timeTag.addDuration now.seconds now.useconds now.valid }
    let (s, outs) := performCmdStepAbsolute { s with sequence, record } now
    return (s, taken :: outs)
  | .absolute =>
    let (s, outs) := performCmdStepAbsolute { s with sequence, record } now
    return (s, taken :: outs)

def dueTime (header : SequenceHeader) (relative : Bool) (tag : Tag) (now : Time) : Time :=
  let time := Time.mk header.timeBase header.timeContext tag.seconds tag.useconds tag.valid
  if relative then time.addDuration now.seconds now.useconds now.valid else time

theorem performCmdStep_command {s : State} {relative : Bool} {tag : Tag} {packet : ComBuffer}
    {rest : Bytes} (h : readEntry s.sequence.left = .ok (.command relative tag packet, rest))
    (w : Wiring) (now : Time) :
    s.performCmdStep w now =
      let r := { s with
        sequence := { s.sequence with left := rest }
        record := ⟨if relative then .relative else .absolute,
          dueTime s.sequence.header relative tag now, packet⟩ }.performCmdStepAbsolute now
      .ok (r.1, .nextRecord now (.command relative tag packet) :: r.2) := by
  unfold performCmdStep
  rw [FPrimeSequence.nextRecord_of_entry h]
  cases relative <;> rfl

theorem performCmdStep_endOfSequence {s : State} {rest : Bytes}
    (h : readEntry s.sequence.left = .ok (.endOfSequence, rest)) (w : Wiring) (now : Time) :
    ∃ record, s.performCmdStep w now =
      let r := sequenceComplete w { s with
        sequence := { s.sequence with left := rest }
        record := record
        runMode := .stopped }
      .ok (r.1, .nextRecord now .endOfSequence :: r.2) := by
  unfold performCmdStep
  rw [FPrimeSequence.nextRecord_of_entry h]
  exact ⟨_, rfl⟩

def startAuto : Result := do
  let s := { s with runMode := .running }
  let start := s.emitSeqStart w
  let (s, outs) ← s.performCmdStep w env.second
  return (s, start ++ outs)

/-- A blocking run is answered when the sequence ends. -/
def csRun (opCode cmdSeq : UInt32) (fileName : Bytes)
    (blocking : BlockState) : Result :=
  let respond (r : CmdResponse) : Out := .cmdResponse ⟨opCode, cmdSeq, r⟩
  if s.runMode ≠ .stopped then .ok (s, [respond .executionError])
  else if blocking = .block ∧ s.stepMode = .manual then .ok (s, [respond .executionError])
  else do
    let (s, events, loaded) ← { s with blockState := blocking, cmdSeq, opCode }.loadFile env fileName
    if loaded then
      let (s, outs) ← if s.stepMode = .auto then s.startAuto w env else .ok (s, [])
      return (s, events ++ outs ++ if blocking = .noBlock then [respond .ok] else [])
    else
      return ({ s with blockState := .noBlock, opCode := 0, cmdSeq := 0 },
        events ++ [respond .executionError])

/-- Validation leaves no sequence to run. -/
def csValidate (opCode cmdSeq : UInt32) (fileName : Bytes) :
    Result :=
  let respond (r : CmdResponse) : Out := .cmdResponse ⟨opCode, cmdSeq, r⟩
  if s.runMode ≠ .stopped then .ok (s, [respond .executionError])
  else do
    let (s, events, loaded) ← s.loadFile env fileName
    if loaded then return ({ s with sequence := s.sequence.clear }, events ++ [respond .ok])
    else return (s, events ++ [respond .executionError])

def cancelSequence : State × List Out :=
  if s.runMode = .running then s.performCmdCancel w else (s, [])

def csCancel (opCode cmdSeq : UInt32) : State × List Out :=
  let (s, outs) := s.cancelSequence w
  (s, outs ++ [.cmdResponse ⟨opCode, cmdSeq, .ok⟩])

def csStart (opCode cmdSeq : UInt32) :
    Result :=
  let respond (r : CmdResponse) : Out := .cmdResponse ⟨opCode, cmdSeq, r⟩
  if ¬ s.sequence.hasMoreRecords then .ok (s, [respond .executionError])
  else if s.runMode ≠ .stopped then .ok (s, [respond .executionError])
  else do
    let (s, outs) ←
      { s with blockState := .noBlock, runMode := .running }.performCmdStep w env.second
    return (s, outs ++ s.emitSeqStart w ++ [respond .ok])

def csStep (opCode cmdSeq : UInt32) :
    Result :=
  let respond (r : CmdResponse) : Out := .cmdResponse ⟨opCode, cmdSeq, r⟩
  if s.runMode ≠ .running then .ok (s, [respond .executionError])
  else if s.stepMode ≠ .manual then .ok (s, [respond .executionError])
  else if ¬ s.sequence.hasMoreRecords then .ok (s, [respond .executionError])
  else do
    let (s, outs) ← s.performCmdStep w env.second
    return (s, outs ++ [respond .ok])

/-- Change the step mode, which is done only between sequences: `CS_AUTO` and `CS_MANUAL`. -/
def setStepMode (mode : StepMode) (opCode cmdSeq : UInt32) : State × List Out :=
  if s.runMode = .stopped then
    ({ s with stepMode := mode }, [.cmdResponse ⟨opCode, cmdSeq, .ok⟩])
  else (s, [.cmdResponse ⟨opCode, cmdSeq, .executionError⟩])

def csAuto (opCode cmdSeq : UInt32) : State × List Out :=
  s.setStepMode .auto opCode cmdSeq

def csManual (opCode cmdSeq : UInt32) : State × List Out :=
  s.setStepMode .manual opCode cmdSeq

/-- One answer at a time can be put off. -/
def csJoinWait (opCode cmdSeq : UInt32) : State × List Out :=
  if s.runMode ≠ .running then (s, [.cmdResponse ⟨opCode, cmdSeq, .ok⟩])
  else if s.owes then (s, [.cmdResponse ⟨opCode, cmdSeq, .executionError⟩])
  else ({ s with joinWaiting := true, cmdSeq, opCode }, [])

end State

inductive Opcode where
  | csRun
  | csValidate
  | csCancel
  | csStart
  | csStep
  | csAuto
  | csManual
  | csJoinWait
  deriving DecidableEq

def Opcode.ofOffset (offset : UInt32) : Option Opcode :=
  if offset = 0 then some .csRun
  else if offset = 1 then some .csValidate
  else if offset = 2 then some .csCancel
  else if offset = 3 then some .csStart
  else if offset = 4 then some .csStep
  else if offset = 5 then some .csAuto
  else if offset = 6 then some .csManual
  else if offset = 7 then some .csJoinWait
  else none

def csRunArgs (args : Bytes) : Except CmdResponse (Bytes × BlockState) :=
  match deserializeString cmdStringMaxSize args with
  | .error _ => .error .formatError
  | .ok (fileName, args) =>
    match deserializeU8 args with
    | .error _ => .error .formatError
    | .ok (rawBlock, args) =>
      match BlockState.tryFrom rawBlock with
      | none => .error .validationError
      | some blocking =>
        if args.length ≠ 0 then .error .formatError else .ok (fileName, blocking)

def csValidateArgs (args : Bytes) : Except CmdResponse Bytes :=
  match deserializeString cmdStringMaxSize args with
  | .error _ => .error .formatError
  | .ok (fileName, args) => if args.length ≠ 0 then .error .formatError else .ok fileName

namespace State

variable (w : Wiring) (s : State)

def withoutArgs (opCode cmdSeq : UInt32) (args : Bytes)
    (handler : Result) : Result :=
  if args.length ≠ 0 then .ok (s, [.cmdResponse ⟨opCode, cmdSeq, .formatError⟩]) else handler

def cmdIn (env : Env) (opCode cmdSeq : UInt32) (args : Bytes) :
    Result :=
  match Opcode.ofOffset (opCode - w.idBase) with
  | some .csRun =>
    match csRunArgs args with
    | .ok (fileName, blocking) => s.csRun w env opCode cmdSeq fileName blocking
    | .error r => .ok (s, [.cmdResponse ⟨opCode, cmdSeq, r⟩])
  | some .csValidate =>
    match csValidateArgs args with
    | .ok fileName => s.csValidate env opCode cmdSeq fileName
    | .error r => .ok (s, [.cmdResponse ⟨opCode, cmdSeq, r⟩])
  | some .csCancel => s.withoutArgs opCode cmdSeq args (.ok (s.csCancel w opCode cmdSeq))
  | some .csStart => s.withoutArgs opCode cmdSeq args (s.csStart w env opCode cmdSeq)
  | some .csStep => s.withoutArgs opCode cmdSeq args (s.csStep w env opCode cmdSeq)
  | some .csAuto => s.withoutArgs opCode cmdSeq args (.ok (s.csAuto opCode cmdSeq))
  | some .csManual => s.withoutArgs opCode cmdSeq args (.ok (s.csManual opCode cmdSeq))
  | some .csJoinWait => s.withoutArgs opCode cmdSeq args (.ok (s.csJoinWait opCode cmdSeq))
  | none => .ok (s, [.cmdResponse ⟨opCode, cmdSeq, .invalidOpcode⟩])

/-- A run that a port asks for: of a file, or of the sequence that is loaded. -/
def doSequenceRun (env : Env) (fileName : Bytes) :
    Result :=
  if s.stepMode = .manual then do
    let done ← seqDoneUnguarded w .executionError
    return (s, done)
  else if s.runMode ≠ .stopped then do
    let done ← seqDoneUnguarded w .executionError
    return (s, done)
  else if ¬ fileName.isEmpty then do
    let (s, events, loaded) ← s.loadFile env (setBytes cmdStringMaxSize fileName)
    if loaded then
      let (s, outs) ← if s.stepMode = .auto then s.startAuto w env else .ok (s, [])
      return (s, events ++ outs)
    else
      let done ← seqDoneUnguarded w .executionError
      return (s, events ++ done)
  else if ¬ s.sequence.hasMoreRecords then do
    let done ← seqDoneUnguarded w .executionError
    return (s, done)
  else if s.stepMode = .auto then s.startAuto w env
  else .ok (s, [])

/-- The answer to a command that the sequencer has sent, as it believes. -/
def cmdResponseIn (env : Env) (response : CmdResponse) :
    Result :=
  if s.runMode = .stopped then .ok (s, [])
  else
    let s := { s with cmdTimeoutTimer := s.cmdTimeoutTimer.clear }
    if response ≠ .ok then .ok (s.performCmdCancel w)
    else if s.stepMode = .auto then
      if s.sequence.hasMoreRecords then s.performCmdStep w env.second
      else .ok (sequenceComplete w { s with runMode := .stopped })
    else if ¬ s.sequence.hasMoreRecords then .ok (sequenceComplete w { s with runMode := .stopped })
    else .ok (s, [])

/-- A command that is due keeps the tick from looking at the timeout. -/
def schedIn (env : Env) : State × List Out :=
  if s.cmdTimer.isExpiredAt env.first then
    ({ s with cmdTimer := s.cmdTimer.clear }.setCmdTimeout env.first,
      [.comCmdOut env.first s.record.command])
  else if s.cmdTimeoutTimer.isExpiredAt env.second then s.performCmdCancel w
  else (s, [])

end State

inductive Call where
  | cmdIn (opCode cmdSeq : UInt32) (args : Bytes)
  | seqRunIn (fileName : Bytes)
  | seqDispatchIn (fileName : Bytes)
  | seqCancelIn
  | cmdResponseIn (opCode cmdSeq : UInt32) (response : CmdResponse)
  | schedIn
  | pingIn (key : UInt32)

def State.handle (w : Wiring) (s : State) (env : Env) : Call → Result
  | .cmdIn opCode cmdSeq args => s.cmdIn w env opCode cmdSeq args
  | .seqRunIn fileName => s.doSequenceRun w env fileName
  | .seqDispatchIn fileName => s.doSequenceRun w env fileName
  | .seqCancelIn => .ok (s.cancelSequence w)
  | .cmdResponseIn _ _ response => s.cmdResponseIn w env response
  | .schedIn => .ok (s.schedIn w env)
  | .pingIn key => .ok (s, [.pingOut key])

def Call.fileName (w : Wiring) : Call → Option Bytes
  | .cmdIn opCode _ args =>
    match Opcode.ofOffset (opCode - w.idBase) with
    | some .csRun => (csRunArgs args).toOption.map Prod.fst
    | some .csValidate => (csValidateArgs args).toOption
    | _ => none
  | .seqRunIn fileName => some (setBytes cmdStringMaxSize fileName)
  | .seqDispatchIn fileName => some (setBytes cmdStringMaxSize fileName)
  | _ => none

/-- Only the file that the message names can be opened. -/
def Env.loadedBy (w : Wiring) (env : Env) (call : Call) : Env :=
  { env with files := fun name => if call.fileName w = some name then env.files name else .failed }

theorem Env.files_loadedBy {w : Wiring} {call : Call} {fileName : Bytes} (env : Env)
    (h : call.fileName w = some fileName) :
    (env.loadedBy w call).files fileName = env.files fileName :=
  if_pos h

theorem Env.opened_of_loadedBy {w : Wiring} {env : Env} {call : Call} {fileName : Bytes}
    {file : SeqFile} (h : (env.loadedBy w call).files fileName = .opened file) :
    call.fileName w = some fileName ∧ env.files fileName = .opened file := by
  unfold loadedBy at h
  dsimp only at h
  split at h
  · exact ⟨‹_›, h⟩
  · cases h

theorem handle_loadedBy (w : Wiring) (s : State) (env : Env) (call : Call) :
    s.handle w (env.loadedBy w call) call = s.handle w env call := by
  cases call with
  | cmdIn opCode cmdSeq args =>
    simp only [State.handle, State.cmdIn]
    split
    · next hop =>
      split
      · next fileName blocking hargs =>
        have hname : (Call.cmdIn opCode cmdSeq args).fileName w = some fileName := by
          simp only [Call.fileName, hop, hargs]
          rfl
        simp only [State.csRun, State.loadFile, env.files_loadedBy hname]
        rfl
      · rfl
    · next hop =>
      split
      · next fileName hargs =>
        have hname : (Call.cmdIn opCode cmdSeq args).fileName w = some fileName := by
          simp only [Call.fileName, hop, hargs]
          rfl
        simp only [State.csValidate, State.loadFile, env.files_loadedBy hname]
        rfl
      · rfl
    all_goals rfl
  | seqRunIn fileName =>
    simp only [State.handle, State.doSequenceRun, State.loadFile,
      @Env.files_loadedBy w (.seqRunIn fileName) _ env rfl]
    rfl
  | seqDispatchIn fileName =>
    simp only [State.handle, State.doSequenceRun, State.loadFile,
      @Env.files_loadedBy w (.seqDispatchIn fileName) _ env rfl]
    rfl
  | _ => rfl

end Fprime.Svc.CmdSequencer
