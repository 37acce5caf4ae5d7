import Fprime.Fw.FilePacket
import Fprime.Fw.Com
import Fprime.Os.File
import Fprime.Utils.Checksum

/-!
# File downlink

Requests for files wait in a queue, a tick takes one out, and each packet waits for the buffer of
the one before. Telemetry is left out.
-/

namespace Fprime.Svc

open Fw Utils Lib.Bytes

open Os (FileStatus)

namespace FileDownlink

def internalBufferSize : Nat := 512

def maxDataSize : Nat := internalBufferSize - dataPacketHeaderSize - 2

def packetArenaCount : Nat := 2

def commandFailuresDisabled : Bool := true

inductive SendFileStatus where
  | statusOk
  | statusError
  | statusInvalid
  | statusBusy

structure SendFileResponse where
  status : SendFileStatus
  context : UInt32

abbrev SendFileNameArg := FwString 100

abbrev CmdStringArg := FwString cmdStringMaxSize

inductive Mode where
  | idle
  | downlink
  | cancel
  | wait
  | cooldown
  deriving DecidableEq

inductive CallerSource where
  | command
  | port
  deriving DecidableEq

structure FileEntry where
  srcFilename : FileNameString
  destFilename : FileNameString
  offset : UInt32
  length : UInt32
  source : CallerSource
  opCode : UInt32
  cmdSeq : UInt32
  context : UInt32
  deriving DecidableEq

def FileEntry.default : FileEntry :=
  ⟨.new, .new, 0, 0, .command, 0, 0, 0⟩

structure Disk where
  openRead : FileStatus
  size : FileStatus × UInt64
  seek : FileStatus
  read : Nat → Nat → FileStatus × Bytes

inductive Event where
  | fileOpenError (fileName : LogStringArg)
  | fileReadError (fileName : LogStringArg) (status : FileStatus)
  | fileSent (source dest : LogStringArg)
  | downlinkCanceled (source dest : LogStringArg)
  | downlinkPartialWarning (startOffset length fileSize : UInt32) (source dest : LogStringArg)
  | downlinkPartialFail (source dest : LogStringArg) (startOffset fileSize : UInt32)
  | sendDataFail (source : LogStringArg) (byteOffset : UInt32)
  | sendStarted (length : UInt32) (source dest : LogStringArg)
  | downlinkZeroSizeFile (source : LogStringArg)
  | filenameSourceOverflow
  | filenameDestinationOverflow
  | sourceOutOfSandbox (fileName : LogStringArg)

structure Buffer where
  storage : Nat
  context : UInt32
  bytes : Bytes
  deriving DecidableEq

inductive Out where
  | bufferSendOut (buffer : Buffer)
  | cmdResponse (opCode cmdSeq : UInt32) (response : CmdResponse)
  | fileComplete (response : SendFileResponse)
  | event (event : Event)

inductive Assertion where
  | storage
  | serialize
  | mode
  | completedType

structure DownlinkFile where
  sourceName : LogStringArg
  destName : LogStringArg
  size : UInt32
  isOpen : Bool
  checksum : Checksum

namespace DownlinkFile

def new : DownlinkFile :=
  ⟨.new, .new, 0, false, .new⟩

variable (disk : Disk) (file : DownlinkFile)

def close : DownlinkFile :=
  { file with isOpen := false }

def openStatus : FileStatus :=
  if file.isOpen ∧ disk.openRead ≠ .outsideSandbox then .invalidMode else disk.openRead

def open_ (source dest : FileNameString) :
    FileStatus × DownlinkFile :=
  let file := { file with
    sourceName := .setBytes _ source.bytes
    destName := .setBytes _ dest.bytes
    checksum := .new }
  if ¬FwString.isText source.bytes then (.otherError, file)
  else if file.openStatus disk ≠ .opOk then (file.openStatus disk, file)
  else if disk.size.1 ≠ .opOk then (.badSize, file.close)
  else if disk.size.2.toNat > 2 ^ 32 - 1 then (.badSize, file.close)
  else (.opOk, { file with size := UInt32.ofNat disk.size.2.toNat, isOpen := true })

def read (count : Nat) (byteOffset : UInt32) :
    Except FileStatus (DownlinkFile × Bytes) :=
  if file.isOpen = false then .error .notOpened
  else if disk.seek ≠ .opOk then .error disk.seek
  else
    let (status, data) := disk.read byteOffset.toNat count
    if status ≠ .opOk then .error status
    else if data.length ≠ count then .error .badSize
    else .ok ({ file with checksum := file.checksum.update data byteOffset.toNat }, data)

end DownlinkFile

def statusToCmdResp : SendFileStatus → CmdResponse
  | .statusOk => .ok
  | .statusError => .executionError
  | .statusInvalid => .validationError
  | .statusBusy => .busy

def failureStatus (failure : SendFileStatus) : SendFileStatus :=
  if commandFailuresDisabled then .statusOk else failure

def FileEntry.completion (entry : FileEntry) (status : SendFileStatus) : Out :=
  match entry.source with
  | .command => .cmdResponse entry.opCode entry.cmdSeq (statusToCmdResp status)
  | .port => .fileComplete ⟨status, entry.context⟩

end FileDownlink

open FileDownlink

structure FileDownlink where
  idBase : UInt32
  mode : Mode
  cooldown : UInt32
  cycleTime : UInt32
  fileQueue : List FileEntry
  fileQueueDepth : Nat
  cntxId : UInt32
  curEntry : FileEntry
  file : DownlinkFile
  sequenceIndex : UInt32
  curTimer : UInt32
  byteOffset : UInt32
  endOffset : UInt32
  lastCompletedType : FilePacketType
  lastBufferId : UInt32
  curContext : UInt32
  freeStorage : List Nat

namespace FileDownlink

abbrev Result := Except Assertion (FileDownlink × List Out)

def new (idBase cooldown cycleTime : UInt32) (fileQueueDepth : Nat) : FileDownlink where
  idBase := idBase
  mode := .idle
  cooldown := cooldown
  cycleTime := cycleTime
  fileQueue := []
  fileQueueDepth := fileQueueDepth
  cntxId := 0
  curEntry := .default
  file := .new
  sequenceIndex := 0
  curTimer := 0
  byteOffset := 0
  endOffset := 0
  lastCompletedType := .none
  lastBufferId := 0
  curContext := 0
  freeStorage := List.replicate packetArenaCount internalBufferSize

variable (disk : Disk) (s : FileDownlink)

def popStorage : Nat × FileDownlink :=
  match s.freeStorage.getLast? with
  | some storage => (storage, { s with freeStorage := s.freeStorage.dropLast })
  | none => (internalBufferSize, s)

def pushStorage (storage : Nat) : FileDownlink :=
  if storage = internalBufferSize ∧ s.freeStorage.length < packetArenaCount then
    { s with freeStorage := s.freeStorage ++ [storage] }
  else s

def sendResponse (status : SendFileStatus) : List Out :=
  [s.curEntry.completion status]

def enterCooldown : FileDownlink :=
  { s with file := s.file.close, mode := .cooldown, lastCompletedType := .none, curTimer := 0 }

def getBuffer : FileDownlink :=
  { s with curContext := s.lastBufferId, lastBufferId := s.lastBufferId + 1 }

def sendFilePacket (packet : FilePacket) (context : UInt32) :
    Result :=
  let bufferSize := packet.bufferSize + 2
  let (storage, s) := s.popStorage
  if storage < bufferSize then .error .storage
  else
    match (SerBuf.empty storage).serializeU16 Apid.fwPacketFile.asRepr >>= packet.serializeTo with
    | .error _ => .error .serialize
    | .ok ser => .ok (s, [.bufferSendOut ⟨storage, context, ser.bytes.take bufferSize⟩])

def sendStartPacket : Result :=
  s.sendFilePacket
    (.initializeStart s.file.size s.file.sourceName.bytes s.file.destName.bytes) s.curContext

/-- The buffer of the packet before is used again. -/
def sendEndPacket : Result :=
  s.sendFilePacket (.end_ s.sequenceIndex s.file.checksum.value) s.curContext

/-- A second buffer, which makes the one before stale. -/
def sendCancelPacket : Result :=
  { s with lastBufferId := s.lastBufferId + 1 }.sendFilePacket (.cancel s.sequenceIndex)
    s.lastBufferId

/-- The last data packet is marked before the file is read. -/
def markLast (dataSize : Nat) : FileDownlink :=
  if UInt32.ofNat dataSize + s.byteOffset = s.endOffset then
    { s with lastCompletedType := .data }
  else s

def sendDataPacket :
    Except Assertion (FileStatus × FileDownlink × List Out) :=
  if s.endOffset ≤ s.byteOffset then .ok (.invalidArgument, s, [])
  else
    let dataSize := min (s.endOffset - s.byteOffset).toNat maxDataSize
    let s := s.markLast dataSize
    match s.file.read disk dataSize s.byteOffset with
    | .error status => .ok (status, s, [.event (.fileReadError s.file.sourceName status)])
    | .ok (file, data) => do
      let packet :=
        FilePacket.initializeData s.sequenceIndex s.byteOffset (UInt16.ofNat dataSize) data
      let (s, outs) ← { s with
        file := file
        sequenceIndex := s.sequenceIndex + 1 }.sendFilePacket packet s.curContext
      return (.opOk, { s with byteOffset := s.byteOffset + UInt32.ofNat dataSize }, outs)

def waitForReturn : FileDownlink :=
  { s with mode := .wait, curTimer := 0 }

def downlinkPacket :
    Result :=
  if s.lastCompletedType = .none then .error .completedType
  else if s.mode ≠ .cancel ∧ s.mode ≠ .downlink then .error .mode
  else if s.mode = .cancel ∧ s.lastCompletedType = .start then do
    let (s, outs) ← s.sendCancelPacket
    return ({ s with lastCompletedType := .cancel }.waitForReturn, outs)
  else if s.mode = .downlink ∧ s.lastCompletedType = .start then do
    let (status, s, outs) ← s.sendDataPacket disk
    if status ≠ .opOk then
      return (s.enterCooldown, outs ++ [.event (.sendDataFail s.file.sourceName s.byteOffset)] ++
        s.sendResponse (failureStatus .statusError))
    else return (s.waitForReturn, outs)
  else if s.lastCompletedType = .data then do
    let (s, outs) ← s.sendEndPacket
    return ({ s with lastCompletedType := .end_ }.waitForReturn, outs)
  else .ok (s.waitForReturn, [])

/-- A cancelled downlink is answered like a complete one. -/
def finishHelper (cancel : Bool) : FileDownlink × List Out :=
  let event := if cancel then Event.downlinkCanceled s.file.sourceName s.file.destName
    else .fileSent s.file.sourceName s.file.destName
  (s.enterCooldown, .event event :: s.sendResponse .statusOk)

def bufferReturnHandler (buffer : Buffer) :
    Result :=
  let s := s.pushStorage buffer.storage
  if s.lastBufferId ≠ buffer.context + 1 ∨ s.mode = .idle then .ok (s, [])
  else if s.mode ≠ .wait ∧ s.mode ≠ .cancel then .error .mode
  else if s.lastCompletedType = .end_ ∨ s.lastCompletedType = .cancel then
    .ok (s.finishHelper (s.lastCompletedType = .cancel))
  else if s.mode = .wait then { s with mode := .downlink }.downlinkPacket disk
  else s.downlinkPacket disk

def startTransfer (startOffset length : UInt32) :
    Result := do
  let (s, outs) ← s.getBuffer.sendStartPacket
  let started := fun length => outs ++
    [.event (.sendStarted length s.file.sourceName s.file.destName)]
  let s := { s with
    mode := .wait
    sequenceIndex := 1
    curTimer := 0
    byteOffset := startOffset
    lastCompletedType := .start }
  -- a length of zero means the rest of the file
  if 0 < length then return ({ s with endOffset := startOffset + length }, started length)
  else return ({ s with endOffset := s.file.size }, started (s.file.size - startOffset))

def sendFile (source dest : FileNameString)
    (startOffset length : UInt32) : Result :=
  let (status, file) := s.file.open_ disk source dest
  let s : FileDownlink := { s with file := file }
  if status ≠ .opOk then
    let event := if status = .outsideSandbox then Event.sourceOutOfSandbox s.file.sourceName
      else .fileOpenError s.file.sourceName
    .ok ({ s with mode := .idle }, .event event :: s.sendResponse (failureStatus .statusError))
  else if s.file.size = 0 then
    .ok ({ s with file := s.file.close, mode := .idle },
      .event (.downlinkZeroSizeFile s.file.sourceName) ::
        s.sendResponse (failureStatus .statusInvalid))
  else if s.file.size ≤ startOffset then
    .ok (s.enterCooldown,
      .event (.downlinkPartialFail s.file.sourceName s.file.destName startOffset s.file.size) ::
        s.sendResponse (failureStatus .statusInvalid))
  else if s.file.size - startOffset < length then
    let warning := Event.downlinkPartialWarning startOffset length s.file.size s.file.sourceName
      s.file.destName
    (s.startTransfer startOffset (s.file.size - startOffset)).map fun r =>
      (r.1, .event warning :: r.2)
  else s.startTransfer startOffset length

/-- A tick, up to the point where a request that it takes out is sent. -/
def runHandler : FileDownlink × Option FileEntry :=
  match s.mode with
  | .idle =>
    match s.fileQueue with
    | [] => (s, none)
    | entry :: rest => ({ s with fileQueue := rest, curEntry := entry }, some entry)
  | .cooldown =>
    if s.cooldown ≤ s.curTimer then ({ s with curTimer := 0, mode := .idle }, none)
    else ({ s with curTimer := s.curTimer + s.cycleTime }, none)
  | .wait => ({ s with curTimer := s.curTimer + s.cycleTime }, none)
  | .downlink | .cancel => (s, none)

def enqueue (entry : FileEntry) : Option FileDownlink :=
  if s.fileQueueDepth ≤ s.fileQueue.length then none
  else some { s with fileQueue := s.fileQueue ++ [entry] }

def queueCommandRequest (opCode cmdSeq : UInt32) (source dest : CmdStringArg)
    (offset length : UInt32) : FileDownlink × List Out :=
  if fileNameStringSize ≤ source.bytes.length then
    (s, [.event .filenameSourceOverflow, .cmdResponse opCode cmdSeq .validationError])
  else if fileNameStringSize ≤ dest.bytes.length then
    (s, [.event .filenameDestinationOverflow, .cmdResponse opCode cmdSeq .validationError])
  else
    match s.enqueue ⟨.setBytes _ source.bytes, .setBytes _ dest.bytes, offset, length, .command,
      opCode, cmdSeq, 0xFFFFFFFF⟩ with
    | some s => (s, [])
    | none => (s, [.cmdResponse opCode cmdSeq .executionError])

def deserializeCmdString (args : Bytes) :
    Except SerializeStatus (CmdStringArg × Bytes) :=
  (deserializeString cmdStringMaxSize args).map fun r => (.setBytes _ r.1, r.2)

def sendFileArgs (args : Bytes) :
    Except SerializeStatus (CmdStringArg × CmdStringArg × Bytes) := do
  let (source, args) ← deserializeCmdString args
  let (dest, args) ← deserializeCmdString args
  return (source, dest, args)

def sendFileCmdHandler (opCode cmdSeq : UInt32) (args : Bytes) :
    FileDownlink × List Out :=
  match sendFileArgs args with
  | .ok (source, dest, []) => s.queueCommandRequest opCode cmdSeq source dest 0 0
  | _ => (s, [.cmdResponse opCode cmdSeq .formatError])

def sendPartialArgs (args : Bytes) :
    Except SerializeStatus (CmdStringArg × CmdStringArg × UInt32 × UInt32 × Bytes) := do
  let (source, dest, args) ← sendFileArgs args
  let (startOffset, args) ← deserializeU32 args
  let (length, args) ← deserializeU32 args
  return (source, dest, startOffset, length, args)

def sendPartialCmdHandler (opCode cmdSeq : UInt32) (args : Bytes) :
    FileDownlink × List Out :=
  match sendPartialArgs args with
  | .ok (source, dest, startOffset, length, []) =>
    s.queueCommandRequest opCode cmdSeq source dest startOffset length
  | _ => (s, [.cmdResponse opCode cmdSeq .formatError])

def cancelCmdHandler (opCode cmdSeq : UInt32) (args : Bytes) :
    FileDownlink × List Out :=
  if args.length ≠ 0 then (s, [.cmdResponse opCode cmdSeq .formatError])
  else
    (if s.mode = .downlink ∨ s.mode = .wait then { s with mode := .cancel } else s,
      [.cmdResponse opCode cmdSeq .ok])

def opcodeSendFile : UInt32 := 0

def opcodeCancel : UInt32 := 1

def opcodeSendPartial : UInt32 := 2

def cmdIn (opCode cmdSeq : UInt32) (args : Bytes) :
    FileDownlink × List Out :=
  if opCode - s.idBase = opcodeSendFile then s.sendFileCmdHandler opCode cmdSeq args
  else if opCode - s.idBase = opcodeCancel then s.cancelCmdHandler opCode cmdSeq args
  else if opCode - s.idBase = opcodeSendPartial then s.sendPartialCmdHandler opCode cmdSeq args
  else (s, [.cmdResponse opCode cmdSeq .invalidOpcode])

structure PortRequest where
  source : SendFileNameArg
  dest : SendFileNameArg
  offset : UInt32
  length : UInt32

/-- A port call first draws its context. -/
def drawContext : UInt32 × FileDownlink :=
  (s.cntxId, { s with cntxId := s.cntxId + 1 })

/-- The rest of a port call, on the thread of its caller. -/
def sendFilePortHandler (context : UInt32) (request : PortRequest) :
    FileDownlink × List Out × SendFileResponse :=
  if fileNameStringSize ≤ request.source.bytes.length then
    (s, [.event .filenameSourceOverflow], ⟨.statusError, 0xFFFFFFFF⟩)
  else if fileNameStringSize ≤ request.dest.bytes.length then
    (s, [.event .filenameDestinationOverflow], ⟨.statusError, 0xFFFFFFFF⟩)
  else
    match s.enqueue ⟨.setBytes _ request.source.bytes, .setBytes _ request.dest.bytes,
      request.offset, request.length, .port, 0, 0, context⟩ with
    | some s => (s, [], ⟨.statusOk, context⟩)
    | none => (s, [], ⟨.statusError, 0xFFFFFFFF⟩)

end FileDownlink

end Fprime.Svc
