import Fprime.Svc.Ccsds.Types
import Fprime.Svc.Framers

/-!
# The deframer of space packets

The fields of a primary header, the check of a sequence count that comes in, and the deframer.
-/

namespace Fprime.Svc

open Fw Lib.Bytes Ccsds

structure SpacePacketHeader where
  packetIdentification : UInt16
  packetSequenceControl : UInt16
  packetDataLength : UInt16

namespace SpacePacketHeader

def serializedSize : Nat := 6

def deserialize (bytes : Bytes) : SpacePacketHeader :=
  ⟨u16At bytes 0, u16At bytes 2, u16At bytes 4⟩

def pvn (header : SpacePacketHeader) : UInt8 :=
  ((header.packetIdentification &&& 0xE000) >>> 13).toUInt8

def hasSecHdr (header : SpacePacketHeader) : Bool :=
  header.packetIdentification &&& 0x0800 != 0

def apidValue (header : SpacePacketHeader) : UInt16 :=
  header.packetIdentification &&& 0x07FF

def sequenceFlags (header : SpacePacketHeader) : UInt8 :=
  ((header.packetSequenceControl &&& 0xC000) >>> 14).toUInt8

def sequenceCount (header : SpacePacketHeader) : UInt16 :=
  header.packetSequenceControl &&& 0x3FFF

/-- The length token is one less than the number of octets; the sum does not wrap. -/
def dataFieldLength (header : SpacePacketHeader) : Nat :=
  header.packetDataLength.toNat + 1

end SpacePacketHeader

namespace SpacePacketDeframer

open Framers (ApidState Assertion)

inductive FrameError where
  | spInvalidPacket
  | spInvalidLength

inductive Out where
  | dataOut (data : Bytes) (context : FrameContext)
  | dataReturnOut (data : Bytes) (context : FrameContext)
  | errorNotify (error : FrameError)
  | invalidPacket
  | invalidLength (transmitted actual : Nat)
  | unexpectedSequenceCount (transmitted expected : UInt16)

/-- On a mismatch the manager gives the count it expected, and goes on behind the one received. -/
def validateApidSeqCount (state : ApidState) (apid : Apid) (received : UInt16) :
    Except Assertion (ApidState × Option UInt16) := do
  let (expected, state) ← state.getAndIncrement apid
  if received = expected then return (state, none)
  else
    match state.insert apid (ApidState.calculateNextSeqCount received) with
    | none => throw .apidTable
    | some state => return (state, some expected)

def notify (connected : Bool) (error : FrameError) : List Out :=
  if connected then [.errorNotify error] else []

def rejectInvalidPacket (connected : Bool) (data : Bytes) (context : FrameContext) :
    List Out :=
  .invalidPacket :: notify connected .spInvalidPacket ++ [.dataReturnOut data context]

/-- One packet. The context that goes on has the fields of its header, and the count that was
received. -/
def dataIn (connected : Bool) (apids : ApidState) (data : Bytes) (context : FrameContext) :
    Except Assertion (ApidState × List Out) :=
  let header := SpacePacketHeader.deserialize data
  let pktLength := header.dataFieldLength
  let maxDataAvailable := data.length - SpacePacketHeader.serializedSize
  if data.length ≤ SpacePacketHeader.serializedSize then
    .ok (apids, rejectInvalidPacket connected data context)
  else if header.pvn.toUInt16 ≠ 0 then .ok (apids, rejectInvalidPacket connected data context)
  else if pktLength > maxDataAvailable then
    .ok (apids, .invalidLength pktLength maxDataAvailable ::
      notify connected .spInvalidLength ++ [.dataReturnOut data context])
  else do
    let apid := (Apid.tryFrom header.apidValue).getD .invalidUninitialized
    let received := header.sequenceCount
    let (apids, mismatch) ← validateApidSeqCount apids apid received
    let contextCopy := { context with
      apid := apid
      hasSecHdr := header.hasSecHdr
      sequenceFlags := header.sequenceFlags
      sequenceCount := received }
    let payload := (data.drop SpacePacketHeader.serializedSize).take pktLength
    return (apids, (mismatch.map (.unexpectedSequenceCount received)).toList ++
      [.dataOut payload contextCopy])

end SpacePacketDeframer

end Fprime.Svc
