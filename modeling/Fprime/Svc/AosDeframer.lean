import Fprime.Svc.SpacePacketDeframer
import Fprime.Utils.CircularBuffer

/-!
# The AOS deframer

The packets in the packet zones of frames of a fixed size, which may go on in the next frame, are
copied to buffers from an allocator and sent on.
-/

namespace Fprime.Svc.AosDeframer

open Fw Utils Ccsds Lib.Bytes

def aosMaxFrameFixedSize : Nat := 1536
def aosHeaderSize : Nat := 6
def mPduHeaderSize : Nat := 2
def aosTrailerSize : Nat := 2
def headerBufSize : Nat := 8

def validPvnMask : UInt8 := 0x81

structure Config where
  fixedFrameSize : Nat
  fecfEnabled : Bool
  spacecraftId : UInt16
  vcId : UInt8
  pvnMask : UInt8

structure Config.Valid (config : Config) : Prop where
  max : config.fixedFrameSize ≤ aosMaxFrameFixedSize
  min : aosHeaderSize + mPduHeaderSize + (if config.fecfEnabled then aosTrailerSize else 0) <
    config.fixedFrameSize
  spacecraftId : config.spacecraftId &&& 0xFC00 = 0
  vcId : config.vcId &&& 0xC0 = 0
  somePvn : config.pvnMask &&& validPvnMask ≠ 0
  onlyPvn : config.pvnMask &&& ~~~validPvnMask = 0

instance (config : Config) : Decidable config.Valid :=
  decidable_of_iff (config.fixedFrameSize ≤ aosMaxFrameFixedSize ∧
    aosHeaderSize + mPduHeaderSize + (if config.fecfEnabled then aosTrailerSize else 0) <
      config.fixedFrameSize ∧ config.spacecraftId &&& 0xFC00 = 0 ∧ config.vcId &&& 0xC0 = 0 ∧
    config.pvnMask &&& validPvnMask ≠ 0 ∧ config.pvnMask &&& ~~~validPvnMask = 0)
    ⟨fun ⟨a, b, c, d, e, f⟩ => ⟨a, b, c, d, e, f⟩, fun ⟨a, b, c, d, e, f⟩ => ⟨a, b, c, d, e, f⟩⟩

/-- A buffer from the allocator, with the number of the request it was the answer to. -/
structure Buffer where
  request : Nat
  bytes : Bytes

inductive FrameError where
  | aosInvalidScid
  | aosInvalidLength
  | aosInvalidVcid
  | aosInvalidCrc
  | aosInvalidVersion
  | aosVcFrameCountGap

inductive Event where
  | invalidSpacecraftId (transmitted configured : UInt16)
  | invalidFrameLength (actual expected : Nat)
  | invalidVcId (transmitted configured : UInt8)
  | invalidFecf (transmitted computed : UInt16)
  | invalidTfvn (transmitted expected : UInt8)
  | disabledPvn (vcId pvn : UInt8)
  | idleFrame (vcId : UInt8)
  | spanningPacketAllocFailed (vcId : UInt8) (pvn : Pvn) (packetSize : Nat)
  | vcFrameCountGap (vcId : UInt8) (received expected : UInt32)
  | spanningPacketAbandoned (vcId : UInt8) (pvn : Pvn) (bytesReceived bytesExpected : Nat)
  | invalidFhp (vcId : UInt8) (fhpReceived dataZoneSize : Nat)

inductive Out where
  | dataOut (buffer : Buffer) (context : FrameContext)
  | dataReturnOut (data : Bytes) (context : FrameContext)
  | errorNotify (error : FrameError)
  | allocate (size : Nat) (answer : Option Buffer)
  | deallocate (buffer : Buffer)
  | event (event : Event)

inductive Assertion where
  | configuration
  | emptyInput
  | headerFull
  | surplus
  | received
  | pvn
  | codec
  | slice
  | underflow

structure SpanningPacketState where
  headerBuf : Bytes := List.replicate headerBufSize 0
  buffer : Option Buffer := none
  bytesReceived : Nat := 0
  context : FrameContext := {}

/-- The state of the one virtual channel, with the requests made to the allocator and the calls
made so far. -/
structure State where
  framesProcessed : UInt32 := 0
  vcFrameCount : UInt32 := 0
  spanning : SpanningPacketState := {}
  requests : Nat := 0
  outs : List Out := []

/-- The configuration, whether the error port is connected, and the contents of the buffer that a
request is answered with. -/
structure Env where
  config : Config
  errorConnected : Bool
  alloc : Nat → Nat → Option Bytes

namespace State

variable (env : Env) (s : State)

def log (out : Out) : State :=
  { s with outs := s.outs ++ [out] }

def notifyErrorIfConnected (error : FrameError) : State :=
  if env.errorConnected then s.log (.errorNotify error) else s

def modSpanning (f : SpanningPacketState → SpanningPacketState) : State :=
  { s with spanning := f s.spanning }

def setPvn (pvn : Pvn) : State :=
  s.modSpanning fun p => { p with context := { p.context with pvn } }

def abandonSpanningPacket : State :=
  let s := match s.spanning.buffer with
    | some buffer =>
      ((s.log (.event (.spanningPacketAbandoned env.config.vcId s.spanning.context.pvn
        s.spanning.bytesReceived buffer.bytes.length))).log (.deallocate buffer)).modSpanning
        fun p => { p with buffer := none }
    | none => s
  (s.modSpanning fun p => { p with bytesReceived := 0 }).setPvn .invalidUninitialized

def configure : Except Assertion State :=
  if env.config.Valid then
    .ok ({ s with framesProcessed := 0, vcFrameCount := 0 }.abandonSpanningPacket env)
  else .error .configuration

end State

def require (p : Prop) [Decidable p] (assertion : Assertion) : Except Assertion Unit :=
  if p then .ok () else .error assertion

def slice (bytes : Bytes) (first last : Nat) : Except Assertion Bytes :=
  if first ≤ last ∧ last ≤ bytes.length then .ok ((bytes.drop first).take (last - first))
  else .error .slice

def checkedSub (a b : Nat) : Except Assertion Nat :=
  if b ≤ a then .ok (a - b) else .error .underflow

def copyInto (store : Bytes) (start : Nat) (bytes : Bytes) :
    Except Assertion Bytes :=
  if start + bytes.length ≤ store.length then .ok (copyAt store start bytes) else .error .slice

def getPacketVersion (firstByte : UInt8) : UInt8 :=
  firstByte >>> 5

/-- Zero where the header is not complete, and for an idle packet. -/
def sizeSppPacket (payload : Bytes) : Nat :=
  if payload.length < SpacePacketHeader.serializedSize then 0
  else
    let header := SpacePacketHeader.deserialize payload
    if header.apidValue = Apid.sppIdlePacket.asRepr then 0
    else SpacePacketHeader.serializedSize + header.packetDataLength.toNat + 1

/-- The offset and the width of the length field of an encapsulation packet, by its first byte. -/
def eppLengthField (first : UInt8) : Nat × Nat :=
  let lengthOfLength := first &&& 0x03
  if lengthOfLength = 3 then (4, 4)
  else if lengthOfLength = 2 then (2, 2)
  else (1, lengthOfLength.toNat)

def sizeEppPacket (payload : Bytes) : Nat :=
  let first := payload.getD 0 0
  if (first &&& 0x1C) >>> 2 = 0 then 0
  else
    let (lengthOffset, lengthOfLength) := eppLengthField first
    let headerLength := lengthOffset + lengthOfLength
    if payload.length < headerLength then 0
    else headerLength + decodeBE 0 ((payload.drop lengthOffset).take lengthOfLength)

/-- The size of a packet, or zero where there is none to be taken. -/
def sizePacket (env : Env) (s : State) (packet : Bytes) : Except Assertion (State × Nat) := do
  require (packet ≠ []) .emptyInput
  let pvn := getPacketVersion (packet.getD 0 0)
  let s := s.setPvn .invalidUninitialized
  if ~~~env.config.pvnMask &&& ((1 : UInt8) <<< pvn) ≠ 0 then
    return (s.log (.event (.disabledPvn env.config.vcId pvn)), 0)
  else if pvn = 0 then return (s.setPvn .spacePacketProtocol, sizeSppPacket packet)
  else if pvn = 7 then return (s.setPvn .encapsulationPacketProtocol, sizeEppPacket packet)
  else throw .pvn

namespace State

variable (env : Env) (s : State)

/-- Pack the header buffer; the number tells the bytes taken. -/
def takeHeader (input : Bytes) : Except Assertion (State × Nat) := do
  let received := s.spanning.bytesReceived
  let room ← checkedSub headerBufSize received
  let toHeader := min input.length room
  if toHeader = 0 then return (s, 0)
  else
    require (received < headerBufSize) .headerFull
    let headerBuf ← copyInto s.spanning.headerBuf received (input.take toHeader)
    return (s.modSpanning fun p => { p with headerBuf, bytesReceived := received + toHeader },
      toHeader)

/-- Give the bytes behind the end of the packet back to the next one. -/
def giveBack (packetSize toHeader : Nat) : Except Assertion (State × Nat) :=
  if packetSize < s.spanning.bytesReceived then do
    let surplus := s.spanning.bytesReceived - packetSize
    require (surplus ≤ toHeader) .surplus
    return (s.modSpanning fun p => { p with bytesReceived := packetSize }, toHeader - surplus)
  else .ok (s, toHeader)

/-- Ask the allocator for a buffer. One without room is not valid. -/
def allocate (size : Nat) : State × Option Buffer :=
  let answer := ((env.alloc s.requests size).filter (· ≠ [])).map (⟨s.requests, ·⟩)
  ({ s with requests := s.requests + 1 }.log (.allocate size answer), answer)

def loadHeader (buffer : Buffer) : Except Assertion State := do
  let received := s.spanning.bytesReceived
  require (received ≤ headerBufSize) .received
  require (received ≤ buffer.bytes.length) .received
  let header ← slice s.spanning.headerBuf 0 received
  let bytes ← copyInto buffer.bytes 0 header
  return s.modSpanning fun p => { p with buffer := some { buffer with bytes } }

/-- Fill the packet's buffer from a position of the input, and send it when it is complete. -/
def fillBody (input : Bytes) (pos : Nat) :
    Except Assertion (State × Nat) := do
  let received := s.spanning.bytesReceived
  let bufferSize := (s.spanning.buffer.map (·.bytes.length)).getD 0
  let left ← checkedSub input.length pos
  let room ← checkedSub bufferSize received
  let toBody := min left room
  let s ← match s.spanning.buffer with
    | some buffer => do
      let part ← slice input pos (pos + toBody)
      let bytes ← copyInto buffer.bytes received part
      Except.ok (s.modSpanning fun p =>
        { p with buffer := some { buffer with bytes }, bytesReceived := received + toBody })
    | none => Except.ok s
  if bufferSize > 0 ∧ s.spanning.bytesReceived ≥ bufferSize then
    let s := match s.spanning.buffer with
      | some buffer => (s.log (.dataOut buffer s.spanning.context)).modSpanning
          fun p => { p with buffer := none }
      | none => s
    return (s.abandonSpanningPacket env, pos + toBody)
  else return (s, pos + toBody)

/-- Without a buffer that is large enough, go on behind the packet if it ends in the input. -/
def allocFailed (input : Bytes) (packetSize pos : Nat)
    (buffer : Option Buffer) : Except Assertion (State × Nat) := do
  let s := (s.modSpanning fun p => { p with buffer }).log
    (.event (.spanningPacketAllocFailed env.config.vcId s.spanning.context.pvn packetSize))
  let remainingBody ← checkedSub packetSize s.spanning.bytesReceived
  let left ← checkedSub input.length pos
  return (s.abandonSpanningPacket env, if remainingBody > left then 0 else pos + remainingBody)

def startPacket (input : Bytes) (packetSize pos : Nat) :
    Except Assertion (State × Nat) :=
  match s.allocate env packetSize with
  | (s, some buffer) =>
    if packetSize ≤ buffer.bytes.length then do
      let s ← s.loadHeader buffer
      s.fillBody env input pos
    else s.allocFailed env input packetSize pos (some buffer)
  | (s, none) => s.allocFailed env input packetSize pos none

/-- Append to the packet in progress; the number tells how far to go on in the input, or zero when
done with the frame. -/
def appendToSpanningPacket (input : Bytes) :
    Except Assertion (State × Nat) := do
  require (input ≠ []) .emptyInput
  if s.spanning.buffer.isSome then s.fillBody env input 0
  else
    let (s, toHeader) ← s.takeHeader input
    let header ← slice s.spanning.headerBuf 0 s.spanning.bytesReceived
    let (s, packetSize) ← sizePacket env s header
    if packetSize = 0 then return (s, 0)
    else
      let (s, pos) ← s.giveBack packetSize toHeader
      s.startPacket env input packetSize pos

def fhpNoPacketStart : UInt16 := 0xFFFF
def fhpIdleDataOnly : UInt16 := 0xFFFE

/-- The packets from a place in the zone on, as many as the bound allows. -/
def extractLoop (env : Env) (zone : Bytes) : Nat → Nat → State → Except Assertion State
  | 0, _, s => .ok s
  | bound + 1, current, s =>
    if current < zone.length then do
      let (s, packetSize) ←
        (s.abandonSpanningPacket env).appendToSpanningPacket env (zone.drop current)
      if packetSize = 0 then return s
      else extractLoop env zone bound (current + packetSize) s
    else .ok s

/-- The bytes before the first header end the packet in progress. -/
def finishSpanningPacket (zone : Bytes) (fhp : Nat) :
    Except Assertion State :=
  if 0 < fhp ∧ 0 < s.spanning.bytesReceived then do
    let part ← slice zone 0 fhp
    let (s, _) ← s.appendToSpanningPacket env part
    return s.abandonSpanningPacket env
  else .ok s

def extractPackets (frame : Bytes) : Except Assertion State := do
  let pointer ← slice frame aosHeaderSize (aosHeaderSize + mPduHeaderSize)
  let fhp := u16At pointer 0
  let zoneEnd ← checkedSub env.config.fixedFrameSize
    (if env.config.fecfEnabled then aosTrailerSize else 0)
  let zone ← slice frame (aosHeaderSize + mPduHeaderSize) zoneEnd
  if fhp = fhpIdleDataOnly then return s.log (.event (.idleFrame env.config.vcId))
  else if fhp = fhpNoPacketStart then
    if 0 < s.spanning.bytesReceived then do
      let (s, _) ← s.appendToSpanningPacket env zone
      return s
    else return s
  else if zone.length ≤ fhp.toNat then
    return ((s.log (.event (.invalidFhp env.config.vcId fhp.toNat zone.length))
      ).notifyErrorIfConnected env .aosInvalidLength).abandonSpanningPacket env
  else
    let s ← s.finishSpanningPacket env zone fhp.toNat
    s.extractLoop env zone (zone.length - fhp.toNat) fhp.toNat

/-- Check the count of a frame against the last one; a gap drops the packet in progress. -/
def checkFrameCount (signaling : UInt32) : State :=
  let cycled := signaling &&& 0x40 ≠ 0
  let count := (signaling &&& 0xFFFFFF00) >>> 8
  let received := if cycled then count ||| ((signaling &&& 0x0F) <<< 24) else count
  let mask : UInt32 := if cycled then 0x0FFFFFFF else 0x00FFFFFF
  let expected := s.vcFrameCount + 1
  let s := if 0 < s.framesProcessed ∧ received ≠ expected &&& mask then
      ((s.log (.event (.vcFrameCountGap env.config.vcId received expected))
        ).notifyErrorIfConnected env .aosVcFrameCountGap).abandonSpanningPacket env
    else s
  { s with vcFrameCount := received }

/-- Parse and check the primary header; the flag tells whether the frame is accepted. -/
def parseAndValidateHeader (data : Bytes) :
    Except Assertion (State × Bool) := do
  let header ← (slice data 0 aosHeaderSize).mapError fun _ => .codec
  let globalVcId := u16At header 0
  let signaling := UInt32.ofNat (decodeBE 0 (header.drop 2))
  let tfvn := ((globalVcId &&& 0xC000) >>> 14).toUInt8
  let spacecraftId := ((globalVcId &&& 0x3FC0) >>> 6) ||| ((signaling &&& 0x30) <<< 4).toUInt16
  let vcId := (globalVcId &&& 0x003F).toUInt8
  if tfvn ≠ 1 then
    return ((s.log (.event (.invalidTfvn tfvn 1))).notifyErrorIfConnected env .aosInvalidVersion,
      false)
  else if spacecraftId ≠ env.config.spacecraftId then
    return ((s.log (.event (.invalidSpacecraftId spacecraftId env.config.spacecraftId))
      ).notifyErrorIfConnected env .aosInvalidScid, false)
  else if vcId ≠ env.config.vcId then
    return ((s.log (.event (.invalidVcId vcId env.config.vcId))
      ).notifyErrorIfConnected env .aosInvalidVcid, false)
  else return (s.checkFrameCount env signaling, true)

def validateFecf (data : Bytes) : Except Assertion (State × Bool) := do
  let crcDataLen ← checkedSub env.config.fixedFrameSize aosTrailerSize
  let covered ← slice data 0 crcDataLen
  let trailer ← (slice data crcDataLen (crcDataLen + aosTrailerSize)).mapError fun _ => .codec
  let computed := Crc16.compute covered
  let transmitted := u16At trailer 0
  if transmitted ≠ computed then
    return ((s.log (.event (.invalidFecf transmitted computed))
      ).notifyErrorIfConnected env .aosInvalidCrc, false)
  else return (s, true)

/-- A frame that was accepted. The context is noted unless a packet is in progress. -/
def acceptFrame (data : Bytes) (context : FrameContext) :
    Except Assertion State := do
  let packetContext := { context with vcId := env.config.vcId }
  let s := if s.spanning.buffer.isNone then
    s.modSpanning fun p => { p with context := packetContext } else s
  let s ← s.extractPackets env data
  let s := s.log (.dataReturnOut data context)
  return { s with framesProcessed := s.framesProcessed + 1 }

def dataIn (data : Bytes) (context : FrameContext) :
    Except Assertion State :=
  if data.length < env.config.fixedFrameSize then
    .ok (((s.log (.event (.invalidFrameLength data.length env.config.fixedFrameSize))
      ).notifyErrorIfConnected env .aosInvalidLength).log (.dataReturnOut data context))
  else do
    let (s, fecfOk) ← (if env.config.fecfEnabled then s.validateFecf env data else .ok (s, true))
    if ¬ fecfOk then return s.log (.dataReturnOut data context)
    else
      let (s, accepted) ← s.parseAndValidateHeader env data
      if ¬ accepted then return s.log (.dataReturnOut data context)
      else s.acceptFrame env data context

end State

def run (env : Env) (frames : List (Bytes × FrameContext)) : Except Assertion State := do
  let s ← ({} : State).configure env
  frames.foldlM (fun s frame => s.dataIn env frame.1 frame.2) s

end Fprime.Svc.AosDeframer
