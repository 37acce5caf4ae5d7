import Fprime.Cfdp.Pdu.Tlv

/-!
# The six PDUs

Each PDU with its `initialize`, its encoded size, its encoder and its decoder. Decoders start
from a fresh PDU, as every caller does.
-/

namespace Fprime.Cfdp

open Lib.Bytes Fprime.Fw

structure MetadataPdu where
  header : PduHeader
  closureRequested : UInt8
  checksumType : ChecksumType
  fileSize : UInt32
  sourceFilename : Bytes
  destFilename : Bytes
  deriving DecidableEq

namespace MetadataPdu

def initialized (direction : PduDirection) (txmMode : Class)
    (sourceEid transactionSeq destEid fileSize : UInt32)
    (sourceFilename destFilename : Bytes) (checksumType : ChecksumType)
    (closureRequested : UInt8) : Codec MetadataPdu := do
  fwAssert (sourceFilename.length ≤ maxFilePathSize)
  fwAssert (destFilename.length ≤ maxFilePathSize)
  return { header := .initialized .metadata direction txmMode sourceEid transactionSeq destEid
           closureRequested := closureRequested
           checksumType := checksumType
           fileSize := fileSize
           sourceFilename := setBytes maxFilePathSize sourceFilename
           destFilename := setBytes maxFilePathSize destFilename }

def getBufferSize (p : MetadataPdu) : Nat :=
  p.header.getBufferSize + 1 + 1 + 4 + 1 + p.sourceFilename.length + 1 + p.destFilename.length

def serializeName (b : SerBuf) (name : Bytes) : Codec SerBuf := do
  let b ← b.serializeU8 (UInt8.ofNat name.length)
  b.writeRaw name

def serializeTo (p : MetadataPdu) (b : SerBuf) : Codec SerBuf := do
  fwAssert (p.header.type = .metadata)
  let b ← writeHeader p.header p.getBufferSize b
  let b ← b.serializeU8 FileDirective.metadata.code
  let b ← b.serializeU8
    (((p.closureRequested &&& 0x01) <<< 7) ||| (p.checksumType.code &&& 0x0F))
  let b ← b.serializeU32 p.fileSize
  let b ← serializeName b p.sourceFilename
  serializeName b p.destFilename

def readName (r : PduReader) : Codec (Bytes × PduReader) := do
  let (length, r) ← r.readU8
  if length.toNat > maxFilePathSize ∨ length = 0 then throw (.status .deserSizeMismatch)
  let (bytes, r) ← r.readBytes length.toNat
  return (setBytes maxFilePathSize bytes, r)

def deserializeFrom (r : PduReader) : Codec MetadataPdu := do
  let (header, r) ← readDirectiveHeader r .metadata .metadata
  fwAssert (header.type = .metadata)
  let (segmentationControl, r) ← r.readU8
  let (fileSize, r) ← r.readU32
  let (sourceFilename, r) ← readName r
  let (destFilename, _) ← readName r
  return { header := header
           closureRequested := (segmentationControl >>> 7) &&& 0x01
           checksumType := ⟨segmentationControl &&& 0x0F⟩
           fileSize := fileSize
           sourceFilename := sourceFilename
           destFilename := destFilename }

end MetadataPdu

/-- A file-data PDU; the encoder and the accessors use the first `dataSize` bytes of `data`. -/
structure FileDataPdu where
  header : PduHeader
  offset : UInt32
  dataSize : UInt16
  data : Bytes
  deriving DecidableEq

namespace FileDataPdu

def initialized (direction : PduDirection) (txmMode : Class)
    (sourceEid transactionSeq destEid offset : UInt32) (dataSize : UInt16) (data : Bytes) :
    FileDataPdu where
  header := .initialized .fileData direction txmMode sourceEid transactionSeq destEid
  offset := offset
  dataSize := dataSize
  data := data

variable (p : FileDataPdu)

def getData : Bytes :=
  p.data.take p.dataSize.toNat

def offsetSize : Nat :=
  if p.header.largeFileFlag = .largeFile64Bit then 8 else 4

def getBufferSize : Nat :=
  p.header.getBufferSize + p.offsetSize + p.dataSize.toNat

def getMaxFileDataSize : Nat :=
  maxPduSize - (p.header.getBufferSize + p.offsetSize)

def serializeTo (b : SerBuf) : Codec SerBuf := do
  fwAssert (p.header.type = .fileData)
  let b ← writeHeader p.header p.getBufferSize b
  let b ← if p.header.largeFileFlag = .largeFile64Bit then b.serializeU64 p.offset.toUInt64
    else b.serializeU32 p.offset
  if p.dataSize > 0 then
    -- The slice of the first `dataSize` bytes panics when fewer are there.
    fwAssert (p.dataSize.toNat ≤ p.data.length)
    b.writeRaw (p.data.take p.dataSize.toNat)
  else return b

def deserializeFrom (r : PduReader) : Codec FileDataPdu := do
  let (header, r) ← PduHeader.fromSerialBuffer r
  fwAssert (header.type = .fileData)
  let (offset, r) ← r.readU32
  if header.pduDataLength < 4 then throw (.status .deserSizeMismatch)
  let dataSize := header.pduDataLength - 4
  if r.remaining < dataSize.toNat then throw (.status .deserSizeMismatch)
  return { header := header, offset := offset, dataSize := dataSize, data := r.rest }

end FileDataPdu

structure EofPdu where
  header : PduHeader
  conditionCode : ConditionCode
  checksum : UInt32
  fileSize : UInt32
  tlvList : TlvList
  deriving DecidableEq

namespace EofPdu

def initialized (direction : PduDirection) (txmMode : Class)
    (sourceEid transactionSeq destEid : UInt32) (conditionCode : ConditionCode)
    (checksum fileSize : UInt32) : EofPdu where
  header := .initialized .endOfFile direction txmMode sourceEid transactionSeq destEid
  conditionCode := conditionCode
  checksum := checksum
  fileSize := fileSize
  tlvList := .new

def appendTlv (p : EofPdu) (t : Tlv) : EofPdu × Bool :=
  ({ p with tlvList := (p.tlvList.appendTlv t).1 }, (p.tlvList.appendTlv t).2)

def getBufferSize (p : EofPdu) : Nat :=
  p.header.getBufferSize + 1 + 1 + 4 + 4 + p.tlvList.getEncodedSize

def serializeTo (p : EofPdu) (b : SerBuf) : Codec SerBuf := do
  fwAssert (p.header.type = .endOfFile)
  let b ← writeHeader p.header p.getBufferSize b
  let b ← b.serializeU8 FileDirective.endOfFile.code
  let b ← b.serializeU8 ((p.conditionCode.code &&& 0x0F) <<< 4)
  let b ← b.serializeU32 p.checksum
  let b ← b.serializeU32 p.fileSize
  p.tlvList.toSerialBuffer b

def deserializeFrom (r : PduReader) : Codec EofPdu := do
  let (header, r) ← readDirectiveHeader r .endOfFile .endOfFile
  fwAssert (header.type = .endOfFile)
  let (cc, r) ← r.readU8
  let (checksum, r) ← r.readU32
  let (fileSize, r) ← r.readU32
  let (tlvList, _) ← TlvList.fromSerialBuffer r
  return { header := header
           conditionCode := ⟨(cc >>> 4) &&& 0x0F⟩
           checksum := checksum
           fileSize := fileSize
           tlvList := tlvList }

end EofPdu

structure FinPdu where
  header : PduHeader
  conditionCode : ConditionCode
  deliveryCode : FinDeliveryCode
  fileStatus : FinFileStatus
  tlvList : TlvList
  deriving DecidableEq

namespace FinPdu

def initialized (direction : PduDirection) (txmMode : Class)
    (sourceEid transactionSeq destEid : UInt32) (conditionCode : ConditionCode)
    (deliveryCode : FinDeliveryCode) (fileStatus : FinFileStatus) : FinPdu where
  header := .initialized .finished direction txmMode sourceEid transactionSeq destEid
  conditionCode := conditionCode
  deliveryCode := deliveryCode
  fileStatus := fileStatus
  tlvList := .new

def appendTlv (p : FinPdu) (t : Tlv) : FinPdu × Bool :=
  ({ p with tlvList := (p.tlvList.appendTlv t).1 }, (p.tlvList.appendTlv t).2)

def getBufferSize (p : FinPdu) : Nat :=
  p.header.getBufferSize + 1 + 1 + p.tlvList.getEncodedSize

def flagsByte (p : FinPdu) : UInt8 :=
  ((p.conditionCode.code &&& 0x0F) <<< 4) ||| ((p.deliveryCode.asRepr &&& 0x01) <<< 2)
    ||| (p.fileStatus.asRepr &&& 0x03)

def serializeTo (p : FinPdu) (b : SerBuf) : Codec SerBuf := do
  fwAssert (p.header.type = .finished)
  let b ← writeHeader p.header p.getBufferSize b
  let b ← b.serializeU8 FileDirective.fin.code
  let b ← b.serializeU8 p.flagsByte
  p.tlvList.toSerialBuffer b

def deserializeFrom (r : PduReader) : Codec FinPdu := do
  let (header, r) ← readDirectiveHeader r .fin .finished
  fwAssert (header.type = .finished)
  let (flags, r) ← r.readU8
  let (tlvList, _) ← TlvList.fromSerialBuffer r
  return { header := header
           conditionCode := ⟨(flags >>> 4) &&& 0x0F⟩
           deliveryCode := FinDeliveryCode.fromBit ((flags >>> 2) &&& 0x01)
           fileStatus := FinFileStatus.fromBits (flags &&& 0x03)
           tlvList := tlvList }

end FinPdu

structure AckPdu where
  header : PduHeader
  directiveCode : FileDirective
  directiveSubtypeCode : UInt8
  conditionCode : ConditionCode
  transactionStatus : AckTxnStatus
  deriving DecidableEq

namespace AckPdu

def initialized (direction : PduDirection) (txmMode : Class)
    (sourceEid transactionSeq destEid : UInt32) (directiveCode : FileDirective)
    (directiveSubtypeCode : UInt8) (conditionCode : ConditionCode)
    (transactionStatus : AckTxnStatus) : AckPdu where
  header := .initialized .acknowledgment direction txmMode sourceEid transactionSeq destEid
  directiveCode := directiveCode
  directiveSubtypeCode := directiveSubtypeCode
  conditionCode := conditionCode
  transactionStatus := transactionStatus

def getBufferSize (p : AckPdu) : Nat :=
  p.header.getBufferSize + 3

def serializeTo (p : AckPdu) (b : SerBuf) : Codec SerBuf := do
  fwAssert (p.header.type = .acknowledgment)
  let b ← writeHeader p.header p.getBufferSize b
  let b ← b.serializeU8 FileDirective.ack.code
  let b ← b.serializeU8
    (((p.directiveCode.code &&& 0x0F) <<< 4) ||| (p.directiveSubtypeCode &&& 0x0F))
  b.serializeU8 (((p.conditionCode.code &&& 0x0F) <<< 4) ||| (p.transactionStatus.code &&& 0x03))

def deserializeFrom (r : PduReader) : Codec AckPdu := do
  let (header, r) ← readDirectiveHeader r .ack .acknowledgment
  fwAssert (header.type = .acknowledgment)
  let (directiveAndSubtype, r) ← r.readU8
  let (ccAndStatus, _) ← r.readU8
  return { header := header
           directiveCode := ⟨(directiveAndSubtype >>> 4) &&& 0x0F⟩
           directiveSubtypeCode := directiveAndSubtype &&& 0x0F
           conditionCode := ⟨(ccAndStatus >>> 4) &&& 0x0F⟩
           transactionStatus := ⟨ccAndStatus &&& 0x03⟩ }

end AckPdu

structure SegmentRequest where
  offsetStart : UInt32
  offsetEnd : UInt32
  deriving DecidableEq

structure NakPdu where
  header : PduHeader
  scopeStart : UInt32
  scopeEnd : UInt32
  segments : List SegmentRequest
  count : segments.length ≤ nakMaxSegments
  deriving DecidableEq

namespace NakPdu

def initialized (direction : PduDirection) (txmMode : Class)
    (sourceEid transactionSeq destEid scopeStart scopeEnd : UInt32) : NakPdu where
  header := .initialized .negativeAck direction txmMode sourceEid transactionSeq destEid
  scopeStart := scopeStart
  scopeEnd := scopeEnd
  segments := []
  count := Nat.zero_le _

def addSegment (p : NakPdu) (offsetStart offsetEnd : UInt32) : NakPdu × Bool :=
  if h : p.segments.length ≥ nakMaxSegments then (p, false)
  else
    ({ p with
        segments := p.segments ++ [⟨offsetStart, offsetEnd⟩]
        count := by simp only [List.length_append, List.length_singleton]; omega }, true)

def getBufferSize (p : NakPdu) : Nat :=
  p.header.getBufferSize + 1 + 2 * 4 + p.segments.length * 2 * 4

def serializeSegments (b : SerBuf) : List SegmentRequest → Codec SerBuf
  | [] => .ok b
  | s :: ss => do
    let b ← b.serializeU32 s.offsetStart
    let b ← b.serializeU32 s.offsetEnd
    serializeSegments b ss

def serializeTo (p : NakPdu) (b : SerBuf) : Codec SerBuf := do
  fwAssert (p.header.type = .negativeAck)
  let b ← writeHeader p.header p.getBufferSize b
  let b ← b.serializeU8 FileDirective.nak.code
  let b ← b.serializeU32 p.scopeStart
  let b ← b.serializeU32 p.scopeEnd
  serializeSegments b p.segments

def readSegments (r : PduReader) : Nat → Codec (List SegmentRequest)
  | 0 => .ok []
  | n + 1 => do
    let (offsetStart, r) ← r.readU32
    let (offsetEnd, r) ← r.readU32
    let segments ← readSegments r n
    return ⟨offsetStart, offsetEnd⟩ :: segments

def deserializeFrom (r : PduReader) : Codec NakPdu := do
  let (header, r) ← readDirectiveHeader r .nak .negativeAck
  fwAssert (header.type = .negativeAck)
  let (scopeStart, r) ← r.readU32
  let (scopeEnd, r) ← r.readU32
  -- The count is truncated to a byte before it is clamped.
  let numSegments := min (r.remaining / 8 % 256) nakMaxSegments
  let segments ← readSegments r numSegments
  if h : segments.length ≤ nakMaxSegments then
    return { header := header, scopeStart := scopeStart, scopeEnd := scopeEnd
             segments := segments, count := h }
  else throw .panic

end NakPdu

/-- Any PDU, for what the engine does with all of them alike. -/
inductive Pdu where
  | metadata (p : MetadataPdu)
  | fileData (p : FileDataPdu)
  | eof (p : EofPdu)
  | fin (p : FinPdu)
  | ack (p : AckPdu)
  | nak (p : NakPdu)
  deriving DecidableEq

namespace Pdu

def header : Pdu → PduHeader
  | .metadata p => p.header
  | .fileData p => p.header
  | .eof p => p.header
  | .fin p => p.header
  | .ack p => p.header
  | .nak p => p.header

def getType (p : Pdu) : PduTypeEnum :=
  p.header.type

def getBufferSize : Pdu → Nat
  | .metadata p => p.getBufferSize
  | .fileData p => p.getBufferSize
  | .eof p => p.getBufferSize
  | .fin p => p.getBufferSize
  | .ack p => p.getBufferSize
  | .nak p => p.getBufferSize

def serializeTo : Pdu → SerBuf → Codec SerBuf
  | .metadata p => p.serializeTo
  | .fileData p => p.serializeTo
  | .eof p => p.serializeTo
  | .fin p => p.serializeTo
  | .ack p => p.serializeTo
  | .nak p => p.serializeTo

def deserializeFrom (type : PduTypeEnum) (r : PduReader) : Codec Pdu :=
  match type with
  | .metadata => (MetadataPdu.deserializeFrom r).map .metadata
  | .fileData => (FileDataPdu.deserializeFrom r).map .fileData
  | .endOfFile => (EofPdu.deserializeFrom r).map .eof
  | .finished => (FinPdu.deserializeFrom r).map .fin
  | .acknowledgment => (AckPdu.deserializeFrom r).map .ack
  | .negativeAck => (NakPdu.deserializeFrom r).map .nak
  | .none => .error (.status .deserTypeMismatch)

end Pdu

end Fprime.Cfdp
