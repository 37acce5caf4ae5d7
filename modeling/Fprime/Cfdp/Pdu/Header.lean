import Fprime.Fw.Serial
import Fprime.Cfdp.Types

/-!
# PDU header

The read cursor over a received PDU and the fixed header every PDU starts with.
-/

namespace Fprime.Cfdp

open Lib.Bytes Fprime.Fw

inductive PduType where
  | directive
  | fileData
  deriving DecidableEq

def PduType.asRepr : PduType → UInt8
  | .directive => 0
  | .fileData => 1

inductive PduDirection where
  | towardReceiver
  | towardSender
  deriving DecidableEq

def PduDirection.asRepr : PduDirection → UInt8
  | .towardReceiver => 0
  | .towardSender => 1

inductive CrcFlag where
  | notPresent
  | present
  deriving DecidableEq

def CrcFlag.asRepr : CrcFlag → UInt8
  | .notPresent => 0
  | .present => 1

inductive LargeFileFlag where
  | largeFile32Bit
  | largeFile64Bit
  deriving DecidableEq

def LargeFileFlag.asRepr : LargeFileFlag → UInt8
  | .largeFile32Bit => 0
  | .largeFile64Bit => 1

structure PduReader where
  rest : Bytes

namespace PduReader

variable (r : PduReader) (n : Nat)

def remaining : Nat :=
  r.rest.length

def take : Codec (Bytes × PduReader) :=
  if r.remaining = 0 ∧ 0 < n then .error (.status .deserBufferEmpty)
  else if r.remaining < n then .error (.status .deserSizeMismatch)
  else .ok (r.rest.take n, ⟨r.rest.drop n⟩)

def readU8 : Codec (UInt8 × PduReader) := do
  let (b, r) ← r.take 1
  return (UInt8.ofNat (decodeBE 0 b), r)

def readU16 : Codec (UInt16 × PduReader) := do
  let (b, r) ← r.take 2
  return (UInt16.ofNat (decodeBE 0 b), r)

def readU32 : Codec (UInt32 × PduReader) := do
  let (b, r) ← r.take 4
  return (UInt32.ofNat (decodeBE 0 b), r)

def readBytes : Codec (Bytes × PduReader) :=
  if n > r.remaining then .error (.status .deserSizeMismatch)
  else .ok (r.rest.take n, ⟨r.rest.drop n⟩)

theorem take_append (x rest : Bytes) :
    take ⟨x ++ rest⟩ x.length = .ok (x, ⟨rest⟩) := by
  have hempty : ¬ (x.length + rest.length = 0 ∧ 0 < x.length) := by omega
  have hshort : ¬ x.length + rest.length < x.length := by omega
  simp only [take, remaining, List.length_append, if_neg hempty, if_neg hshort,
    List.take_left, List.drop_left]

theorem readBytes_append (x rest : Bytes) :
    readBytes ⟨x ++ rest⟩ x.length = .ok (x, ⟨rest⟩) := by
  simp [readBytes, remaining]

@[simp] theorem readU8_cons (b : UInt8) (rest : Bytes) :
    readU8 ⟨b :: rest⟩ = .ok (b, ⟨rest⟩) := by
  have h := take_append [b] rest
  simp only [List.length_singleton, List.singleton_append] at h
  simp [readU8, h, bind, Except.bind, pure, Except.pure, decodeBE]

@[simp] theorem readU16_encodeBE (v : UInt16) (rest : Bytes) :
    readU16 ⟨encodeBE 2 v.toNat ++ rest⟩ = .ok (v, ⟨rest⟩) := by
  have h := take_append (encodeBE 2 v.toNat) rest
  rw [encodeBE_length] at h
  simp [readU16, h, bind, Except.bind, pure, Except.pure, decodeBE_encodeBE]

@[simp] theorem readU32_encodeBE (v : UInt32) (rest : Bytes) :
    readU32 ⟨encodeBE 4 v.toNat ++ rest⟩ = .ok (v, ⟨rest⟩) := by
  have h := take_append (encodeBE 4 v.toNat) rest
  rw [encodeBE_length] at h
  simp [readU32, h, bind, Except.bind, pure, Except.pure, decodeBE_encodeBE]

end PduReader

structure PduHeader where
  type : PduTypeEnum
  version : UInt8
  pduType : PduType
  direction : PduDirection
  class_ : Class
  crcFlag : CrcFlag
  largeFileFlag : LargeFileFlag
  segmentationControl : UInt8
  segmentMetadataFlag : UInt8
  pduDataLength : UInt16
  sourceEid : UInt32
  transactionSeq : UInt32
  destEid : UInt32
  deriving DecidableEq

def encodeIntegerInSize (b : SerBuf) (value : Nat) : Nat → Codec SerBuf
  | 0 => .ok b
  | size + 1 => do
    let b ← b.serializeU8 (UInt8.ofNat (value / 256 ^ size))
    encodeIntegerInSize b value size

def decodeIntegerInSize (value : Nat) (r : PduReader) : Nat → Codec (Nat × PduReader)
  | 0 => .ok (value, r)
  | size + 1 => do
    let (byte, r) ← r.readU8
    decodeIntegerInSize ((value * 256 + byte.toNat) % 2 ^ 64) r size

/-- The loop that widens the size while the value does not fit; the size stops at eight. -/
def valueEncodedSizeLoop (value : Nat) : Nat → Nat → Nat → Nat
  | 0, minSize, _ => minSize
  | fuel + 1, minSize, limit =>
    if minSize < 8 ∧ limit ≤ value then
      valueEncodedSizeLoop value fuel (minSize + 1) (limit * 256 % 2 ^ 64)
    else minSize

def getValueEncodedSize (value : Nat) : Nat :=
  valueEncodedSizeLoop value 8 1 0x100

namespace PduHeader

def minHeadersize : Nat := 7

def initialized (type : PduTypeEnum) (direction : PduDirection) (txmMode : Class)
    (sourceEid transactionSeq destEid : UInt32) : PduHeader where
  type := type
  version := 1
  pduType := if type = .fileData then .fileData else .directive
  direction := direction
  class_ := txmMode
  crcFlag := .notPresent
  largeFileFlag := .largeFile32Bit
  segmentationControl := 0
  segmentMetadataFlag := 0
  pduDataLength := 0
  sourceEid := sourceEid
  transactionSeq := transactionSeq
  destEid := destEid

def eidSize (h : PduHeader) : Nat :=
  getValueEncodedSize (max h.sourceEid.toNat h.destEid.toNat)

def tsnSize (h : PduHeader) : Nat :=
  getValueEncodedSize h.transactionSeq.toNat

def getBufferSize (h : PduHeader) : Nat :=
  4 + 2 * h.eidSize + h.tsnSize

def flagsByte (h : PduHeader) : UInt8 :=
  ((h.version &&& 0x07) <<< 5) ||| ((h.pduType.asRepr &&& 0x01) <<< 4)
    ||| ((h.direction.asRepr &&& 0x01) <<< 3) ||| ((h.class_.asRepr &&& 0x01) <<< 2)
    ||| ((h.crcFlag.asRepr &&& 0x01) <<< 1) ||| (h.largeFileFlag.asRepr &&& 0x01)

def lengthsByte (h : PduHeader) : UInt8 :=
  ((h.segmentationControl &&& 0x01) <<< 7) ||| ((UInt8.ofNat (h.eidSize - 1) &&& 0x07) <<< 4)
    ||| ((h.segmentMetadataFlag &&& 0x01) <<< 3) ||| (UInt8.ofNat (h.tsnSize - 1) &&& 0x07)

def toSerialBuffer (h : PduHeader) (b : SerBuf) : Codec SerBuf := do
  let b ← b.serializeU8 h.flagsByte
  let b ← b.serializeU16 h.pduDataLength
  let b ← b.serializeU8 h.lengthsByte
  let b ← encodeIntegerInSize b h.sourceEid.toNat h.eidSize
  let b ← encodeIntegerInSize b h.transactionSeq.toNat h.tsnSize
  encodeIntegerInSize b h.destEid.toNat h.eidSize

def fromSerialBuffer (r : PduReader) : Codec (PduHeader × PduReader) := do
  let (flags, r) ← r.readU8
  let pduType : PduType := if (flags >>> 4) &&& 0x01 = 1 then .fileData else .directive
  let (pduDataLength, r) ← r.readU16
  let (lengths, r) ← r.readU8
  let eidSize := (((lengths >>> 4) &&& 0x07) + 1).toNat
  let tsnSize := ((lengths &&& 0x07) + 1).toNat
  fwAssert (1 ≤ eidSize ∧ eidSize ≤ 8)
  fwAssert (1 ≤ tsnSize ∧ tsnSize ≤ 8)
  -- Wider encodings are truncated to the configured 32-bit widths.
  let (sourceEid, r) ← decodeIntegerInSize 0 r eidSize
  let (transactionSeq, r) ← decodeIntegerInSize 0 r tsnSize
  let (destEid, r) ← decodeIntegerInSize 0 r eidSize
  return ({ type := if pduType = .fileData then .fileData else .none
            version := (flags >>> 5) &&& 0x07
            pduType := pduType
            direction := if (flags >>> 3) &&& 0x01 = 1 then .towardSender else .towardReceiver
            class_ := if (flags >>> 2) &&& 0x01 = 1 then .class1 else .class2
            crcFlag := if (flags >>> 1) &&& 0x01 = 1 then .present else .notPresent
            largeFileFlag := if flags &&& 0x01 = 1 then .largeFile64Bit else .largeFile32Bit
            segmentationControl := (lengths >>> 7) &&& 0x01
            segmentMetadataFlag := (lengths >>> 3) &&& 0x01
            pduDataLength := pduDataLength
            sourceEid := UInt32.ofNat sourceEid
            transactionSeq := UInt32.ofNat transactionSeq
            destEid := UInt32.ofNat destEid }, r)

end PduHeader

def writeHeader (h : PduHeader) (totalSize : Nat) (b : SerBuf) : Codec SerBuf :=
  { h with pduDataLength := UInt16.ofNat (totalSize - h.getBufferSize) }.toSerialBuffer b

def readDirectiveHeader (r : PduReader) (expected : FileDirective) (type : PduTypeEnum) :
    Codec (PduHeader × PduReader) := do
  let (h, r) ← PduHeader.fromSerialBuffer r
  if h.pduType ≠ .directive then throw (.status .deserTypeMismatch)
  let (directiveCode, r) ← r.readU8
  if directiveCode ≠ expected.code then throw (.status .deserTypeMismatch)
  return ({ h with type := type }, r)

def FileDirective.pduTypeEnum (code : FileDirective) : PduTypeEnum :=
  if code = .metadata then .metadata
  else if code = .endOfFile then .endOfFile
  else if code = .fin then .finished
  else if code = .ack then .acknowledgment
  else if code = .nak then .negativeAck
  else .none

def peekPduType (data : Bytes) : PduTypeEnum :=
  if data.length < PduHeader.minHeadersize then .none
  else if (data.getD 0 0 >>> 4) &&& 0x01 = PduType.fileData.asRepr then .fileData
  else
    let lengths := data.getD 3 0
    let eidSize := (((lengths >>> 4) &&& 0x07) + 1).toNat
    let tsnSize := ((lengths &&& 0x07) + 1).toNat
    let directiveCodeOffset := 4 + 2 * eidSize + tsnSize
    if directiveCodeOffset ≥ data.length then .none
    else FileDirective.pduTypeEnum ⟨data.getD directiveCodeOffset 0⟩

end Fprime.Cfdp
