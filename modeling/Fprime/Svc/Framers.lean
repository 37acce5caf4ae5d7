import Fprime.Svc.ComQueue
import Fprime.Utils.Hash

/-!
# The framers of the downlink

A framer puts the data of a com queue in a frame in a buffer from an allocator, sends the frame on
and gives the data back.
-/

namespace Fprime.Svc.Framers

open Fw Utils ComQueue Lib.Bytes

/-- Where an allocator is asked for a buffer of some size: the size of the buffer it gives, if
that one is valid. -/
abbrev Allocator := Nat → Option Nat

inductive Out where
  | bufferDeallocate (size : Nat)
  | dataOut (frame : Bytes) (context : FrameContext)
  | dataReturnOut (data : ComQueue.Buffer) (context : FrameContext)
  | comStatusOut (condition : Success)
  | noBufferAvailable

inductive Assertion where
  | payloadSize
  | apid
  | apidTable

def noBufferAvailableThrottle : Nat := 5

/-- The calls for data that is dropped, and the events counted against the throttle. -/
def dropFrame (throttle : Nat) (buffer : Option Nat) (data : ComQueue.Buffer) (context : FrameContext) :
    Nat × List Out :=
  let (throttle, event) :=
    if noBufferAvailableThrottle ≤ throttle then (throttle, [])
    else (throttle + 1, [Out.noBufferAvailable])
  let deallocated := buffer.toList.map Out.bufferDeallocate
  (throttle, event ++ deallocated ++ [.dataReturnOut data context])

namespace FprimeFramer

def startWord : UInt32 := 0xdeadbeef
def headerSize : Nat := 8
def trailerSize : Nat := 4

/-- Start word, length and payload, with the hash of all three behind them. -/
def frame (payload : Bytes) : Bytes :=
  let body := encodeBE 4 startWord.toNat ++ encodeBE 4 payload.length ++ payload
  body ++ encodeBE 4 (Hash.hashU32 body).toNat

def dataIn (throttle : Nat) (alloc : Allocator) (data : ComQueue.Buffer) (context : FrameContext) :
    Except Assertion (Nat × List Out) :=
  let frameSize := headerSize + data.bytes.length + trailerSize
  if data.bytes.length ≤ 2 ^ 32 - 1 then
    match alloc frameSize with
    | none => .ok (dropFrame throttle none data context)
    | some size =>
      if size < frameSize then .ok (dropFrame throttle (some size) data context)
      else .ok (throttle, [.dataOut (frame data.bytes) context, .dataReturnOut data context])
  else .error .payloadSize

end FprimeFramer

/-- The slots of the table of sequence counts, one for each identifier there is. -/
structure ApidState where
  entries : List (Option (Apid × UInt16))

namespace ApidState

def new : ApidState :=
  ⟨List.replicate Apid.constants.length none⟩

variable (state : ApidState)

def find (apid : Apid) : Option UInt16 :=
  ((state.entries.filterMap id).find? fun entry => entry.1 = apid).map Prod.snd

def insertSlot (apid : Apid) (seqCount : UInt16) :
    List (Option (Apid × UInt16)) → Option (List (Option (Apid × UInt16)))
  | [] => none
  | none :: slots => some (some (apid, seqCount) :: slots)
  | some entry :: slots =>
    if entry.1 = apid then some (some (entry.1, seqCount) :: slots)
    else (insertSlot apid seqCount slots).map (some entry :: ·)

def insert (apid : Apid) (seqCount : UInt16) : Option ApidState :=
  (insertSlot apid seqCount state.entries).map fun entries => ⟨entries⟩

def calculateNextSeqCount (seqCount : UInt16) : UInt16 :=
  UInt16.ofNat ((seqCount.toNat + 1) % 2 ^ 14)

def getAndIncrement (apid : Apid) : Except Assertion (UInt16 × ApidState) :=
  let seqCount := (state.find apid).getD 0
  match state.insert apid (calculateNextSeqCount seqCount) with
  | none => .error .apidTable
  | some state => .ok (seqCount, state)

end ApidState

namespace SpacePacketFramer

def headerSize : Nat := 6

def buildPacketIdentification (pvn packetType : UInt8) (hasSecHdr : Bool) (apid : UInt16) :
    UInt16 :=
  let secHdrFlag : UInt16 := if hasSecHdr then 1 else 0
  ((pvn.toUInt16 <<< 13) &&& (0xE000 : UInt16)) |||
    ((packetType.toUInt16 <<< 12) &&& (0x1000 : UInt16)) |||
    ((secHdrFlag <<< 11) &&& (0x0800 : UInt16)) ||| (apid &&& (0x07FF : UInt16))

def buildPacketSequenceControl (sequenceFlags : UInt8) (sequenceCount : UInt16) : UInt16 :=
  ((sequenceFlags.toUInt16 <<< 14) &&& (0xC000 : UInt16)) |||
    (sequenceCount &&& (0x3FFF : UInt16))

/-- The primary header and the payload; the length token is one less than the length. -/
def packet (context : FrameContext) (sequenceCount : UInt16) (payload : Bytes) :
    Bytes :=
  encodeBE 2 (buildPacketIdentification 0 0 context.hasSecHdr context.apid.asRepr).toNat ++
    encodeBE 2 (buildPacketSequenceControl context.sequenceFlags sequenceCount).toNat ++
    encodeBE 2 (payload.length - 1) ++ payload

def dataIn (throttle : Nat) (apids : ApidState) (alloc : Allocator) (data : ComQueue.Buffer)
    (context : FrameContext) : Except Assertion (Nat × ApidState × List Out) :=
  let frameSize := headerSize + data.bytes.length
  let drop := fun buffer =>
    let (throttle, outs) := dropFrame throttle buffer data context
    Except.ok (throttle, apids, outs)
  if data.bytes.length ≤ 2 ^ 32 - 1 - headerSize ∧ 0 < data.bytes.length then
    match alloc frameSize with
    | none => drop none
    | some size =>
      if size < frameSize then drop (some size)
      else if context.apid.asRepr >>> 11 ≠ 0 then .error .apid
      else do
        let (sequenceCount, apids) ← apids.getAndIncrement context.apid
        if data.bytes.length ≤ 2 ^ 16 - 1 then
          return (throttle, apids, [.dataOut (packet context sequenceCount data.bytes) context,
            .dataReturnOut data context])
        else throw .payloadSize
  else .error .payloadSize

end SpacePacketFramer

inductive Framer where
  | fprime (throttle : Nat)
  | spacePacket (throttle : Nat) (apids : ApidState)

namespace Framer

def dataIn (alloc : Allocator) (data : ComQueue.Buffer) (context : FrameContext) :
    Framer → Except Assertion (Framer × List Out)
  | fprime throttle => do
    let (throttle, outs) ← FprimeFramer.dataIn throttle alloc data context
    return (fprime throttle, outs)
  | spacePacket throttle apids => do
    let (throttle, apids, outs) ← SpacePacketFramer.dataIn throttle apids alloc data context
    return (spacePacket throttle apids, outs)

def comStatusIn (condition : Success) (_ : Framer) : List Out :=
  [.comStatusOut condition]

def frameSize (data : ComQueue.Buffer) : Framer → Nat
  | fprime _ => FprimeFramer.headerSize + data.bytes.length + FprimeFramer.trailerSize
  | spacePacket _ _ => SpacePacketFramer.headerSize + data.bytes.length

/-- The request is answered with a buffer that is large enough. -/
def Served (framer : Framer) (alloc : Allocator) (data : ComQueue.Buffer) : Prop :=
  ∃ size, alloc (framer.frameSize data) = some size ∧ framer.frameSize data ≤ size

theorem dataIn_of_served {framer framer' : Framer} {alloc : Allocator} {data : ComQueue.Buffer}
    {context : FrameContext} {outs : List Out}
    (hserved : framer.Served alloc data)
    (h : framer.dataIn alloc data context = .ok (framer', outs)) :
    ∃ frame, outs = [.dataOut frame context, .dataReturnOut data context] := by
  obtain ⟨size, hsize, hle⟩ := hserved
  cases framer with
  | fprime throttle =>
    obtain ⟨⟨t, o⟩, hdata, hret⟩ := Lib.Runs.bind_eq_ok.mp h
    cases hret
    unfold FprimeFramer.dataIn at hdata
    rw [frameSize] at hsize hle
    simp only [hsize, if_neg (Nat.not_lt.mpr hle)] at hdata
    split at hdata
    · cases hdata
      exact ⟨_, rfl⟩
    · cases hdata
  | spacePacket throttle apids =>
    obtain ⟨⟨t, a, o⟩, hdata, hret⟩ := Lib.Runs.bind_eq_ok.mp h
    cases hret
    unfold SpacePacketFramer.dataIn at hdata
    rw [frameSize] at hsize hle
    simp only [hsize, if_neg (Nat.not_lt.mpr hle)] at hdata
    split at hdata
    · split at hdata
      · cases hdata
      · obtain ⟨⟨count, state⟩, -, hdata⟩ := Lib.Runs.bind_eq_ok.mp hdata
        simp only at hdata
        split at hdata
        · cases hdata
          exact ⟨_, rfl⟩
        · cases hdata
    · cases hdata

end Framer

end Fprime.Svc.Framers
