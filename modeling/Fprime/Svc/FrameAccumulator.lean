import Fprime.Svc.Ccsds.Types
import Fprime.Svc.Framers
import Fprime.Utils.CircularBuffer

/-!
# The frame accumulator

Bytes of the uplink go into a ring, in which a detector looks for frames. Where there is none at the
front, one byte is dropped; a frame is sent on.
-/

namespace Fprime.Svc.FrameAccumulator

open Fw Utils Ccsds Lib.Bytes

inductive DetectorStatus where
  | frameDetected (size : Nat)
  | noFrameDetected
  | moreDataNeeded (size : Nat)

inductive Assertion where
  | peek (status : SerializeStatus)
  | serialize (status : SerializeStatus)
  | rotate (status : SerializeStatus)
  | frameSize
  | bufferSize
  | moreDataNeeded
  | ringFree

variable (ring : CircularBuffer)

def peekAll (size : Nat) : Except Assertion Bytes :=
  ((List.range size).mapM ring.peekU8).mapError .peek

def minFrameSize : Nat := 12

/-- Frames with a start word, a length and a CRC-32. -/
def FprimeFrameDetector.detect : Except Assertion DetectorStatus :=
  if ring.allocatedSize < minFrameSize then .ok (.moreDataNeeded minFrameSize)
  else
    match ring.peekU32Be 0 with
    | .error _ => .ok .noFrameDetected
    | .ok startWord =>
      if startWord ≠ Framers.FprimeFramer.startWord then .ok .noFrameDetected
      else
        match ring.peekU32Be 4 with
        | .error _ => .ok .noFrameDetected
        | .ok lengthField =>
          let expected := lengthField.toNat + minFrameSize
          if ring.getCapacity < expected then .ok .noFrameDetected
          else if ring.allocatedSize < expected then .ok (.moreDataNeeded expected)
          else
            match ring.peekU32Be (Framers.FprimeFramer.headerSize + lengthField.toNat) with
            | .error _ => .ok .noFrameDetected
            | .ok transmittedCrc => do
              let hashed ← peekAll ring (Framers.FprimeFramer.headerSize + lengthField.toNat)
              if transmittedCrc ≠ Hash.hashU32 hashed then return .noFrameDetected
              else return .frameDetected expected

def tcMinFrameSize : Nat := TCHeader.serializedSize + tcTrailerSize

/-- Telecommand frames for one spacecraft, with a length and a CRC-16. -/
def CcsdsTcFrameDetector.detect (expectedFlagsAndScId : UInt16) (ring : CircularBuffer) :
    Except Assertion DetectorStatus :=
  if ring.allocatedSize < tcMinFrameSize then .ok (.moreDataNeeded tcMinFrameSize)
  else
    match ring.peekBytes TCHeader.serializedSize 0 with
    | .error _ => .ok .noFrameDetected
    | .ok headerBytes =>
      let header := TCHeader.deserialize headerBytes
      if header.flagsAndScId ≠ expectedFlagsAndScId then .ok .noFrameDetected
      else
        let expectedFrameLength := header.totalFrameLength.toNat
        if ring.allocatedSize < expectedFrameLength then
          .ok (.moreDataNeeded expectedFrameLength)
        else if expectedFrameLength < tcMinFrameSize then .ok .noFrameDetected
        else do
          let dataToCrcLength := expectedFrameLength - tcTrailerSize
          let crcBytes ← peekAll ring dataToCrcLength
          match ring.peekBytes tcTrailerSize dataToCrcLength with
          | .error _ => return .noFrameDetected
          | .ok trailerBytes =>
            if u16At trailerBytes 0 ≠ Crc16.compute crcBytes then return .noFrameDetected
            else return .frameDetected expectedFrameLength

inductive FrameDetector where
  | fprime
  | ccsdsTc (spacecraftId : UInt16)

def FrameDetector.detect : FrameDetector → CircularBuffer → Except Assertion DetectorStatus
  | fprime, ring => FprimeFrameDetector.detect ring
  | ccsdsTc spacecraftId, ring => CcsdsTcFrameDetector.detect (tcToken spacecraftId) ring

inductive Out where
  | dataOut (frame : Bytes) (context : FrameContext)
  | dataReturnOut (data : Bytes) (context : FrameContext)
  | noBufferAvailable
  | frameDetectionSizeError (size : Nat)
  | validFrameDropped

def DetectorStatus.sizeOut : DetectorStatus → Nat
  | frameDetected size => size
  | moreDataNeeded size => size
  | noFrameDetected => 0

def rotate (amount : Nat) : Except Assertion CircularBuffer :=
  (ring.rotate amount).mapError .rotate

/-- Detect and extract frames, or drop a byte, as often as the bound allows. -/
def processRing (detector : FrameDetector) (alloc : Framers.Allocator) (context : FrameContext) :
    Nat → CircularBuffer → Except Assertion (CircularBuffer × List Out)
  | 0, ring => .ok (ring, [])
  | bound + 1, ring =>
    if ring.allocatedSize = 0 then .ok (ring, [])
    else do
      let status ← detector.detect ring
      if status.sizeOut > ring.getCapacity then
        let ring ← rotate ring 1
        let (ring, outs) ← processRing detector alloc context bound ring
        return (ring, .frameDetectionSizeError status.sizeOut :: outs)
      else
        match status with
        | .frameDetected size =>
          if size = 0 ∨ size > ring.allocatedSize then throw .frameSize
          else
            match alloc size with
            | some bufferSize =>
              if bufferSize < size then throw .bufferSize
              else
                let frame ← (ring.peekBytes size 0).mapError .peek
                let ring ← rotate ring size
                let (ring, outs) ← processRing detector alloc context bound ring
                return (ring, .dataOut frame context :: outs)
            | none =>
              -- without a buffer, a frame is dropped only to make room in the ring
              if ring.getFreeSize = 0 then
                let ring ← rotate ring size
                return (ring, [.noBufferAvailable, .validFrameDropped])
              else return (ring, [.noBufferAvailable])
        | .moreDataNeeded size =>
          if size ≤ ring.allocatedSize then throw .moreDataNeeded else return (ring, [])
        | .noFrameDetected =>
          let ring ← rotate ring 1
          processRing detector alloc context bound ring

/-- Copy data into the ring, as much as there is room for, and process it, as often as the bound
allows. -/
def feedRing (detector : FrameDetector) (alloc : Framers.Allocator) (context : FrameContext) :
    Nat → CircularBuffer → Bytes →
      Except Assertion (CircularBuffer × Bytes × List Out)
  | 0, ring, data => .ok (ring, data, [])
  | bound + 1, ring, data =>
    if data.length = 0 ∨ ring.getFreeSize = 0 then .ok (ring, data, [])
    else do
      let serSize := min ring.getFreeSize data.length
      let ring ← (ring.serialize (data.take serSize)).mapError .serialize
      let (ring, outs) ← processRing detector alloc context ring.getCapacity ring
      let (ring, rest, outs') ← feedRing detector alloc context bound ring (data.drop serSize)
      return (ring, rest, outs ++ outs')

def processBuffer (detector : FrameDetector) (alloc : Framers.Allocator) (ring : CircularBuffer)
    (data : Bytes) (context : FrameContext) : Except Assertion (CircularBuffer × List Out) := do
  let (ring, rest, outs) ← feedRing detector alloc context data.length ring data
  if rest.length ≠ 0 ∧ ring.getFreeSize ≠ 0 then throw .ringFree
  else return (ring, outs)

/-- The incoming buffer always goes back. One without data is not valid. -/
def dataIn (detector : FrameDetector) (alloc : Framers.Allocator) (ring : CircularBuffer)
    (data : Bytes) (context : FrameContext) :
    Except Assertion (CircularBuffer × List Out) :=
  if data = [] then .ok (ring, [.dataReturnOut data context])
  else do
    let (ring, outs) ← processBuffer detector alloc ring data context
    return (ring, outs ++ [.dataReturnOut data context])

end Fprime.Svc.FrameAccumulator
