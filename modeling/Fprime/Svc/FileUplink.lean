import Fprime.Fw.FilePacket
import Fprime.Fw.Com
import Fprime.Os.File
import Fprime.Utils.Checksum

/-!
# File uplink

A start packet opens the file, data packets are written at their offsets, the end packet brings the
checksum. Telemetry is left out.
-/

namespace Fprime.Svc

open Fw Utils Lib.Bytes

open Os (FileStatus FileSystem)

namespace FileUplink

inductive ReceiveMode where
  | start
  | data
  deriving DecidableEq

/-- What the operating system answers in one call, and how many bytes a write takes. -/
structure Disk where
  resolve : Bytes → Os.Path
  openWrite : FileStatus
  seek : FileStatus
  write : FileStatus
  room : Nat

inductive Event where
  | badChecksum (fileName : LogStringArg) (computed read : UInt32)
  | fileOpenError (fileName : LogStringArg)
  | fileReceived (fileName : LogStringArg)
  | fileWriteError (fileName : LogStringArg)
  | invalidReceiveMode (packetType : FilePacketType) (mode : ReceiveMode)
  | packetOutOfBounds (packetIndex : UInt32) (fileName : LogStringArg)
  | packetOutOfOrder (packetIndex lastPacketIndex : UInt32)
  | packetDuplicate (packetIndex : UInt32)
  | uplinkCanceled
  | decodeError (status : SerializeStatus)
  | invalidPacketReceived (packetType : UInt16)

inductive Out where
  | event (event : Event)
  | fileAnnounce (fileName : FileNameString)
  | bufferSendOut (buffer : Bytes)

structure UplinkFile where
  size : UInt32
  name : LogStringArg
  osFile : Os.File
  checksum : Checksum

namespace UplinkFile

def new : UplinkFile :=
  ⟨0, .new, none, .new⟩

variable (disk : Disk) (file : UplinkFile)

def close : UplinkFile :=
  { file with osFile := none }

def openStatus : FileStatus :=
  if file.osFile.isSome ∧ disk.openWrite ≠ .outsideSandbox then .invalidMode else disk.openWrite

def open_ (fs : FileSystem) (file : UplinkFile) (fileSize : UInt32)
    (destinationPath : PathName) : FileStatus × FileSystem × UplinkFile :=
  if destinationPath.1.length > pathNameMaxLength then (.badSize, fs, file)
  else
    let file := { file with
      name := .setBytes _ destinationPath.1
      size := fileSize
      checksum := .new }
    if FwString.isText destinationPath.1 then
      if file.openStatus disk = .opOk then
        let (fs, osFile) := fs.openWrite true (disk.resolve destinationPath.1)
        (.opOk, fs, { file with osFile := osFile })
      else (file.openStatus disk, fs, file)
    else (.badSize, fs, file)

def writeAt (fs : FileSystem) (handle : Os.Handle) (data : Bytes) : FileSystem × Os.File :=
  if data = [] then (fs, some handle)
  else
    let (fs, osFile, _) := fs.write true (some handle) data
    (fs, osFile)

/-- Write at a place; what has been written stays when the rest cannot be. -/
def write (fs : FileSystem) (file : UplinkFile) (data : Bytes)
    (byteOffset : UInt32) : FileStatus × FileSystem × UplinkFile :=
  match file.osFile with
  | none => (.notOpened, fs, file)
  | some handle =>
    if disk.seek ≠ .opOk then (disk.seek, fs, file)
    else
      let (fs, osFile) :=
        writeAt fs { handle with pos := byteOffset.toNat } (data.take disk.room)
      let file := { file with osFile := osFile }
      if disk.write ≠ .opOk then (disk.write, fs, file)
      else if disk.room < data.length then (.noSpace, fs, file)
      else (.opOk, fs, { file with checksum := file.checksum.update data byteOffset.toNat })

end UplinkFile

/-- The events that are throttled, with how often each may be emitted. -/
inductive Throttle where
  | fileWriteError
  | invalidReceiveMode
  | packetOutOfBounds
  | packetOutOfOrder
  | packetDuplicate
  deriving DecidableEq

def Throttle.limit : Throttle → Nat
  | fileWriteError | invalidReceiveMode | packetOutOfBounds => 5
  | packetOutOfOrder | packetDuplicate => 20

end FileUplink

open FileUplink

structure FileUplink where
  receiveMode : ReceiveMode
  lastSequenceIndex : UInt32
  lastPacketWriteStatus : Option FileStatus
  file : UplinkFile
  throttles : Throttle → Nat

namespace FileUplink

def new : FileUplink :=
  ⟨.start, 0, none, .new, fun _ => 0⟩

variable (s : FileUplink)

/-- A warning is emitted until its throttle is used up. -/
def warn (throttle : Throttle) (event : Event) : FileUplink × List Out :=
  if throttle.limit ≤ s.throttles throttle then (s, [])
  else
    ({ s with throttles := Function.update s.throttles throttle (s.throttles throttle + 1) },
      [.event event])

def clearThrottles : FileUplink :=
  { s with throttles := fun throttle =>
      if throttle = .packetDuplicate then s.throttles throttle else 0 }

def goToStartMode : FileUplink :=
  { s with
    file := s.file.close
    receiveMode := .start
    lastSequenceIndex := 0
    lastPacketWriteStatus := none }

/-- The file stays open. -/
def goToDataMode : FileUplink :=
  { s with receiveMode := .data, lastSequenceIndex := 0, lastPacketWriteStatus := none }

/-- A gap is reported; the index is stored in any case. -/
def checkSequenceIndex (sequenceIndex : UInt32) : FileUplink × List Out :=
  let (s, outs) := if sequenceIndex ≠ s.lastSequenceIndex + 1 then
      s.warn .packetOutOfOrder (.packetOutOfOrder sequenceIndex s.lastSequenceIndex)
    else (s, [])
  ({ s with lastSequenceIndex := sequenceIndex }, outs)

variable (disk : Disk)

def handleStartPacket (fs : FileSystem) (s : FileUplink) (fileSize : UInt32)
    (destinationPath : PathName) : FileSystem × FileUplink × List Out :=
  let s := s.clearThrottles
  let (s, outs) := if s.receiveMode ≠ .start then
      { s with file := s.file.close }.warn .invalidReceiveMode
        (.invalidReceiveMode .start s.receiveMode)
    else (s, [])
  let (status, fs, file) := s.file.open_ disk fs fileSize destinationPath
  let s := { s with file := file }
  if status = .opOk then (fs, s.goToDataMode, outs)
  else (fs, s.goToStartMode, outs ++ [.event (.fileOpenError s.file.name)])

/-- A packet that was written is skipped when it comes again. -/
def isDuplicate (sequenceIndex : UInt32) : Bool :=
  s.lastPacketWriteStatus = some .opOk ∧ sequenceIndex = s.lastSequenceIndex

def outOfBounds (byteOffset : UInt32) (dataSize : Nat) : Bool :=
  2 ^ 32 - 1 - byteOffset.toNat < dataSize ∨ s.file.size.toNat < byteOffset.toNat + dataSize

def handleDataPacket (fs : FileSystem) (s : FileUplink)
    (sequenceIndex byteOffset : UInt32) (data : Bytes) : FileSystem × FileUplink × List Out :=
  if s.receiveMode ≠ .data then
    (fs, s.warn .invalidReceiveMode (.invalidReceiveMode .data s.receiveMode))
  else if s.isDuplicate sequenceIndex then
    (fs, s.warn .packetDuplicate (.packetDuplicate sequenceIndex))
  else
    let (s, outs) := s.checkSequenceIndex sequenceIndex
    if s.outOfBounds byteOffset data.length then
      let (s, warning) :=
        s.warn .packetOutOfBounds (.packetOutOfBounds sequenceIndex s.file.name)
      (fs, s, outs ++ warning)
    else
      let (status, fs, file) := s.file.write disk fs data byteOffset
      let s := { s with file := file }
      let (s, warning) :=
        if status ≠ .opOk then s.warn .fileWriteError (.fileWriteError s.file.name) else (s, [])
      (fs, { s with lastPacketWriteStatus := some status }, outs ++ warning)

def handleEndPacket (sequenceIndex checksumValue : UInt32) :
    FileUplink × List Out :=
  if s.receiveMode = .data then
    let (s, outs) := s.checkSequenceIndex sequenceIndex
    if s.file.checksum.value = checksumValue then
      (s.goToStartMode, outs ++ [.event (.fileReceived s.file.name),
        .fileAnnounce (.setBytes _ s.file.name.bytes)])
    else
      (s.goToStartMode,
        outs ++ [.event (.badChecksum s.file.name s.file.checksum.value checksumValue)])
  else
    let (s, outs) := s.warn .invalidReceiveMode (.invalidReceiveMode .end_ s.receiveMode)
    (s.goToStartMode, outs)

def handleCancelPacket : FileUplink × List Out :=
  (s.goToStartMode, [.event .uplinkCanceled])

def handlePacket (fs : FileSystem) (s : FileUplink) :
    FilePacket → FileSystem × FileUplink × List Out
  | .start _ fileSize _ destinationPath => s.handleStartPacket disk fs fileSize destinationPath
  | .data sequenceIndex byteOffset payload =>
    s.handleDataPacket disk fs sequenceIndex byteOffset payload.1
  | .end_ sequenceIndex checksumValue => (fs, s.handleEndPacket sequenceIndex checksumValue)
  | .cancel _ => (fs, s.handleCancelPacket)

/-- The buffer goes back in every case. -/
def bufferSendInHandler (fs : FileSystem) (s : FileUplink) (buffer : Bytes) :
    FileSystem × FileUplink × List Out :=
  match deserializeU16 buffer with
  | .error _ =>
    (fs, s, [.event (.invalidPacketReceived Apid.fwPacketUnknown.asRepr), .bufferSendOut buffer])
  | .ok (packetType, rest) =>
    if packetType ≠ Apid.fwPacketFile.asRepr then
      (fs, s, [.event (.invalidPacketReceived packetType), .bufferSendOut buffer])
    else
      match FilePacket.fromBuffer rest with
      | .error status => (fs, s, [.event (.decodeError status), .bufferSendOut buffer])
      | .ok packet =>
        let (fs, s, outs) := s.handlePacket disk fs packet
        (fs, s, outs ++ [.bufferSendOut buffer])

end FileUplink

end Fprime.Svc
