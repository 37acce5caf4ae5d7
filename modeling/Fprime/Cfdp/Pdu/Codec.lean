import Fprime.Cfdp.Pdu.HeaderCodec
import Fprime.Cfdp.Pdu.Bodies

/-!
# PDU codec round trip

Every PDU encodes as its header, with the data length filled in, followed by a body that its decoder
undoes.
-/

namespace Fprime.Cfdp

open Lib.Bytes Fprime.Fw List SerBuf FileDataPdu MetadataPdu PduHeader

theorem exists_fin_of_toNat_lt {n : Nat} {c : UInt8} (h : c.toNat < n) :
    ∃ i : Fin n, c = UInt8.ofNat i.val :=
  ⟨⟨c.toNat, h⟩, (UInt8.ofNat_toNat).symm⟩

variable {hi lo : UInt8}

theorem nibbles_decode (hhi : hi.toNat < 16) (hlo : lo.toNat < 16) :
    ((((hi &&& 0x0F) <<< 4) ||| (lo &&& 0x0F)) >>> 4) &&& 0x0F = hi ∧
    (((hi &&& 0x0F) <<< 4) ||| (lo &&& 0x0F)) &&& 0x0F = lo := by
  obtain ⟨i, rfl⟩ := exists_fin_of_toNat_lt hhi
  obtain ⟨j, rfl⟩ := exists_fin_of_toNat_lt hlo
  revert i j
  decide +kernel

theorem codeAndStatus_decode (hhi : hi.toNat < 16) (hlo : lo.toNat < 4) :
    ((((hi &&& 0x0F) <<< 4) ||| (lo &&& 0x03)) >>> 4) &&& 0x0F = hi ∧
    (((hi &&& 0x0F) <<< 4) ||| (lo &&& 0x03)) &&& 0x03 = lo := by
  obtain ⟨i, rfl⟩ := exists_fin_of_toNat_lt hhi
  obtain ⟨j, rfl⟩ := exists_fin_of_toNat_lt hlo
  revert i j
  decide +kernel

theorem closureAndChecksum_decode (hhi : hi.toNat < 2) (hlo : lo.toNat < 16) :
    ((((hi &&& 0x01) <<< 7) ||| (lo &&& 0x0F)) >>> 7) &&& 0x01 = hi ∧
    (((hi &&& 0x01) <<< 7) ||| (lo &&& 0x0F)) &&& 0x0F = lo := by
  obtain ⟨i, rfl⟩ := exists_fin_of_toNat_lt hhi
  obtain ⟨j, rfl⟩ := exists_fin_of_toNat_lt hlo
  revert i j
  decide +kernel

theorem highNibble_decode (hhi : hi.toNat < 16) :
    (((hi &&& 0x0F) <<< 4) >>> 4) &&& 0x0F = hi := by
  obtain ⟨i, rfl⟩ := exists_fin_of_toNat_lt hhi
  revert i
  decide +kernel

theorem FinPdu.flagsByte_decode {p : FinPdu} (hcc : p.conditionCode.code.toNat < 16) :
    (p.flagsByte >>> 4) &&& 0x0F = p.conditionCode.code ∧
    FinDeliveryCode.fromBit ((p.flagsByte >>> 2) &&& 0x01) = p.deliveryCode ∧
    FinFileStatus.fromBits (p.flagsByte &&& 0x03) = p.fileStatus := by
  obtain ⟨i, hi⟩ := exists_fin_of_toNat_lt hcc
  simp only [FinPdu.flagsByte, hi]
  clear hi
  revert i
  cases p.deliveryCode <;> cases p.fileStatus <;> decide +kernel

namespace Pdu

def metadataBody (p : MetadataPdu) : Bytes :=
  FileDirective.metadata.code ::
    (((p.closureRequested &&& 0x01) <<< 7) ||| (p.checksumType.code &&& 0x0F)) ::
    (encodeBE 4 p.fileSize.toNat ++
      (UInt8.ofNat p.sourceFilename.length :: (p.sourceFilename ++
        UInt8.ofNat p.destFilename.length :: p.destFilename)))

def fileDataBody (p : FileDataPdu) : Bytes :=
  encodeBE 4 p.offset.toNat ++ p.getData

def eofBody (p : EofPdu) : Bytes :=
  FileDirective.endOfFile.code :: ((p.conditionCode.code &&& 0x0F) <<< 4) ::
    (encodeBE 4 p.checksum.toNat ++ (encodeBE 4 p.fileSize.toNat ++ p.tlvList.encoded))

def finBody (p : FinPdu) : Bytes :=
  FileDirective.fin.code :: p.flagsByte :: p.tlvList.encoded

def ackBody (p : AckPdu) : Bytes :=
  [FileDirective.ack.code,
    ((p.directiveCode.code &&& 0x0F) <<< 4) ||| (p.directiveSubtypeCode &&& 0x0F),
    ((p.conditionCode.code &&& 0x0F) <<< 4) ||| (p.transactionStatus.code &&& 0x03)]

def segmentBytes (s : SegmentRequest) : Bytes :=
  encodeBE 4 s.offsetStart.toNat ++ encodeBE 4 s.offsetEnd.toNat

def nakBody (p : NakPdu) : Bytes :=
  FileDirective.nak.code :: (encodeBE 4 p.scopeStart.toNat ++
    (encodeBE 4 p.scopeEnd.toNat ++ p.segments.flatMap segmentBytes))

def body : Pdu → Bytes
  | .metadata p => metadataBody p
  | .fileData p => fileDataBody p
  | .eof p => eofBody p
  | .fin p => finBody p
  | .ack p => ackBody p
  | .nak p => nakBody p

def wireHeader (p : Pdu) : PduHeader :=
  p.header.withDataLength (p.getBufferSize - p.header.getBufferSize)

/-- The PDU as the receiver sees it: with the data length filled in, and without storage that does
not count. -/
def onWire (p : Pdu) : Pdu :=
  match p with
  | .metadata q => .metadata { q with header := p.wireHeader }
  | .fileData q => .fileData { q with header := p.wireHeader, data := q.getData }
  | .eof q => .eof { q with header := p.wireHeader, tlvList := q.tlvList.cleared }
  | .fin q => .fin { q with header := p.wireHeader, tlvList := q.tlvList.cleared }
  | .ack q => .ack { q with header := p.wireHeader }
  | .nak q => .nak { q with header := p.wireHeader }

/-- The PDUs a sender builds with each `initialize`, from arguments that fit their fields. -/
inductive Built : Pdu → Prop
  | metadata {direction : PduDirection} {txmMode : Class} {src seq dst size : UInt32}
      {srcName dstName : Bytes} {checksumType : ChecksumType} {closure : UInt8}
      {p : MetadataPdu}
      (hinit : initialized direction txmMode src seq dst size srcName dstName
        checksumType closure = .ok p)
      (hsrc : srcName ≠ [] ∧ (0 : UInt8) ∉ srcName) (hdst : dstName ≠ [] ∧ (0 : UInt8) ∉ dstName)
      (hchecksum : checksumType.code.toNat < 16) (hclosure : closure.toNat < 2) :
      Built (.metadata p)
  | fileData (direction : PduDirection) (txmMode : Class) (src seq dst offset : UInt32)
      (dataSize : UInt16) (data : Bytes) (hdata : dataSize.toNat ≤ data.length)
      (hsize : 4 + dataSize.toNat < 2 ^ 16) :
      Built (.fileData (.initialized direction txmMode src seq dst offset dataSize data))
  | eof (direction : PduDirection) (txmMode : Class) (src seq dst : UInt32) (cc : ConditionCode)
      (checksum size : UInt32) (tlvs : List Tlv) (hcc : cc.code.toNat < 16)
      (hcount : tlvs.length ≤ maxTlv) (hbuilt : ∀ t ∈ tlvs, t.Built) :
      Built (.eof (tlvs.foldl (fun p t => (p.appendTlv t).1)
        (.initialized direction txmMode src seq dst cc checksum size)))
  | fin (direction : PduDirection) (txmMode : Class) (src seq dst : UInt32) (cc : ConditionCode)
      (dc : FinDeliveryCode) (fs : FinFileStatus) (tlvs : List Tlv) (hcc : cc.code.toNat < 16)
      (hcount : tlvs.length ≤ maxTlv) (hbuilt : ∀ t ∈ tlvs, t.Built) :
      Built (.fin (tlvs.foldl (fun p t => (p.appendTlv t).1)
        (.initialized direction txmMode src seq dst cc dc fs)))
  | ack (direction : PduDirection) (txmMode : Class) (src seq dst : UInt32)
      (directive : FileDirective) (subtype : UInt8) (cc : ConditionCode) (status : AckTxnStatus)
      (hdirective : directive.code.toNat < 16) (hsubtype : subtype.toNat < 16)
      (hcc : cc.code.toNat < 16) (hstatus : status.code.toNat < 4) :
      Built (.ack (.initialized direction txmMode src seq dst directive subtype cc status))
  | nak (direction : PduDirection) (txmMode : Class) (src seq dst scopeStart scopeEnd : UInt32)
      (segments : List SegmentRequest) (hcount : segments.length ≤ nakMaxSegments) :
      Built (.nak (segments.foldl (fun p s => (p.addSegment s.offsetStart s.offsetEnd).1)
        (.initialized direction txmMode src seq dst scopeStart scopeEnd)))

structure Encodes (p : Pdu) : Prop where
  wellFormed : p.header.WellFormed
  serialize : ∀ b, p.serializeTo b = b.writeRaw (p.wireHeader.encoded ++ p.body)
  size : p.getBufferSize = p.header.getBufferSize + p.body.length
  fits : p.body.length < 2 ^ 16
  peek : peekPduType (p.wireHeader.encoded ++ p.body) = p.getType
  decode : deserializeFrom p.getType ⟨p.wireHeader.encoded ++ p.body⟩ = .ok p.onWire

theorem ack_serializeTo {q : AckPdu} (htype : q.header.type = .acknowledgment) (b : SerBuf) :
    q.serializeTo b = b.writeRaw ((Pdu.ack q).wireHeader.encoded ++ ackBody q) := by
  simp only [AckPdu.serializeTo, htype, decide_true, fwAssert_true, Codec.ok_bind,
    writeHeader_eq_writeRaw, serializeU8, writeRaw_bind_writeRaw,
    singleton_append]
  rfl

theorem metadata_serializeTo {q : MetadataPdu} (htype : q.header.type = .metadata) (b : SerBuf) :
    q.serializeTo b = b.writeRaw ((Pdu.metadata q).wireHeader.encoded ++ metadataBody q) := by
  simp only [MetadataPdu.serializeTo, MetadataPdu.serializeName, htype, decide_true,
    fwAssert_true, Codec.ok_bind, writeHeader_eq_writeRaw, serializeU8,
    serializeU32, writeRaw_bind_writeRaw, singleton_append]
  rfl

theorem eof_serializeTo {q : EofPdu} (htype : q.header.type = .endOfFile) (b : SerBuf) :
    q.serializeTo b = b.writeRaw ((Pdu.eof q).wireHeader.encoded ++ eofBody q) := by
  simp only [EofPdu.serializeTo, htype, decide_true, fwAssert_true, Codec.ok_bind,
    writeHeader_eq_writeRaw, TlvList.toSerialBuffer_eq_writeRaw, serializeU8,
    serializeU32, writeRaw_bind_writeRaw, singleton_append]
  rfl

theorem fin_serializeTo {q : FinPdu} (htype : q.header.type = .finished) (b : SerBuf) :
    q.serializeTo b = b.writeRaw ((Pdu.fin q).wireHeader.encoded ++ finBody q) := by
  simp only [FinPdu.serializeTo, htype, decide_true, fwAssert_true, Codec.ok_bind,
    writeHeader_eq_writeRaw, TlvList.toSerialBuffer_eq_writeRaw, serializeU8,
    writeRaw_bind_writeRaw, singleton_append]
  rfl

theorem serializeSegments_eq_writeRaw (b : SerBuf) (segments : List SegmentRequest) :
    NakPdu.serializeSegments b segments = b.writeRaw (segments.flatMap segmentBytes) := by
  induction segments generalizing b with
  | nil => exact (writeRaw_nil b).symm
  | cons s segments ih =>
    simp only [NakPdu.serializeSegments, ih, serializeU32, writeRaw_bind_writeRaw,
      flatMap_cons, segmentBytes, append_assoc]

theorem nak_serializeTo {q : NakPdu} (htype : q.header.type = .negativeAck) (b : SerBuf) :
    q.serializeTo b = b.writeRaw ((Pdu.nak q).wireHeader.encoded ++ nakBody q) := by
  simp only [NakPdu.serializeTo, htype, decide_true, fwAssert_true, Codec.ok_bind,
    writeHeader_eq_writeRaw, serializeSegments_eq_writeRaw, serializeU8,
    serializeU32, writeRaw_bind_writeRaw, singleton_append]
  rfl

variable {q : FileDataPdu}

theorem fileData_serializeTo (htype : q.header.type = .fileData)
    (hsmall : q.header.largeFileFlag = .largeFile32Bit) (hdata : q.dataSize.toNat ≤ q.data.length)
    (b : SerBuf) :
    q.serializeTo b = b.writeRaw ((Pdu.fileData q).wireHeader.encoded ++ fileDataBody q) := by
  simp only [FileDataPdu.serializeTo, htype, decide_true, fwAssert_true, Codec.ok_bind,
    writeHeader_eq_writeRaw, hsmall, reduceCtorEq, if_false, serializeU32, hdata]
  by_cases hpos : q.dataSize > 0
  · simp only [hpos, if_true, writeRaw_bind_writeRaw]
    rfl
  · have hzero : q.dataSize.toNat = 0 := by
      have : ¬ (0 < q.dataSize.toNat) := fun h => hpos (UInt16.lt_iff_toNat_lt.mpr h)
      omega
    have hnil : q.getData = [] := by rw [getData, hzero, take_zero]
    simp only [hpos, if_false, bind_pure, writeRaw_bind_writeRaw, fileDataBody, hnil,
      append_nil]
    rfl

section Decoders

variable {h : PduHeader} (hw : h.WellFormed) (hdir : h.pduType = .directive)

include hw hdir

theorem ack_deserializeFrom {q : AckPdu} (htype : h.type = .acknowledgment)
    (hdirective : q.directiveCode.code.toNat < 16) (hsubtype : q.directiveSubtypeCode.toNat < 16)
    (hcc : q.conditionCode.code.toNat < 16) (hstatus : q.transactionStatus.code.toNat < 4) :
    AckPdu.deserializeFrom ⟨h.encoded ++ ackBody q⟩ = .ok { q with header := h } := by
  obtain ⟨hd, hs⟩ := nibbles_decode hdirective hsubtype
  obtain ⟨hc, ht⟩ := codeAndStatus_decode hcc hstatus
  have hread := readDirectiveHeader_encoded hw hdir .ack
  rw [htype] at hread
  simp only [AckPdu.deserializeFrom, ackBody, hread, Codec.ok_bind, htype, decide_true,
    fwAssert_true, PduReader.readU8_cons, hd, hs, hc, ht]
  rfl

omit hw hdir in
theorem metadata_readName {name : Bytes} (hne : name ≠ []) (hnul : (0 : UInt8) ∉ name)
    (hlen : name.length ≤ maxFilePathSize) (rest : Bytes) :
    readName ⟨UInt8.ofNat name.length :: (name ++ rest)⟩ = .ok (name, ⟨rest⟩) := by
  have hpos : 0 < name.length := length_pos_iff.mpr hne
  have hmax : name.length < 256 := lt_of_le_of_lt hlen (by decide)
  have hn : (UInt8.ofNat name.length).toNat = name.length := by
    simp only [UInt8.toNat_ofNat']
    omega
  have hok : ¬ (name.length > maxFilePathSize ∨ UInt8.ofNat name.length = 0) := by
    rintro (hgt | hzero)
    · omega
    · rw [hzero] at hn
      exact absurd hn (ne_of_lt hpos)
  simp only [readName, PduReader.readU8_cons, Codec.ok_bind, hn,
    PduReader.readBytes_append, setBytes_eq_self hlen hnul]
  rw [if_neg hok]
  rfl

theorem metadata_deserializeFrom {q : MetadataPdu} (htype : h.type = .metadata)
    (hsrc : q.sourceFilename ≠ [] ∧ (0 : UInt8) ∉ q.sourceFilename ∧
      q.sourceFilename.length ≤ maxFilePathSize)
    (hdst : q.destFilename ≠ [] ∧ (0 : UInt8) ∉ q.destFilename ∧
      q.destFilename.length ≤ maxFilePathSize)
    (hchecksum : q.checksumType.code.toNat < 16) (hclosure : q.closureRequested.toNat < 2) :
    MetadataPdu.deserializeFrom ⟨h.encoded ++ metadataBody q⟩ = .ok { q with header := h } := by
  obtain ⟨hcl, hck⟩ := closureAndChecksum_decode hclosure hchecksum
  have hread := readDirectiveHeader_encoded hw hdir .metadata
  have hdstName := metadata_readName hdst.1 hdst.2.1 hdst.2.2 []
  rw [append_nil] at hdstName
  rw [htype] at hread
  simp only [MetadataPdu.deserializeFrom, metadataBody, hread, Codec.ok_bind, htype, decide_true,
    fwAssert_true, PduReader.readU8_cons, PduReader.readU32_encodeBE,
    metadata_readName hsrc.1 hsrc.2.1 hsrc.2.2, hdstName, hcl, hck]
  rfl

theorem eof_deserializeFrom {q : EofPdu} (htype : h.type = .endOfFile)
    (hcc : q.conditionCode.code.toNat < 16) (htlvs : ∀ t ∈ q.tlvList.tlvs, t.Built) :
    EofPdu.deserializeFrom ⟨h.encoded ++ eofBody q⟩ =
      .ok { q with header := h, tlvList := q.tlvList.cleared } := by
  have hread := readDirectiveHeader_encoded hw hdir .endOfFile
  rw [htype] at hread
  simp only [EofPdu.deserializeFrom, eofBody, hread, Codec.ok_bind, htype, decide_true,
    fwAssert_true, PduReader.readU8_cons, PduReader.readU32_encodeBE,
    TlvList.fromSerialBuffer_encoded htlvs, highNibble_decode hcc]
  rfl

theorem fin_deserializeFrom {q : FinPdu} (htype : h.type = .finished)
    (hcc : q.conditionCode.code.toNat < 16) (htlvs : ∀ t ∈ q.tlvList.tlvs, t.Built) :
    FinPdu.deserializeFrom ⟨h.encoded ++ finBody q⟩ =
      .ok { q with header := h, tlvList := q.tlvList.cleared } := by
  obtain ⟨hc, hd, hs⟩ := FinPdu.flagsByte_decode hcc
  have hread := readDirectiveHeader_encoded hw hdir .fin
  rw [htype] at hread
  simp only [FinPdu.deserializeFrom, finBody, hread, Codec.ok_bind, htype, decide_true,
    fwAssert_true, PduReader.readU8_cons, TlvList.fromSerialBuffer_encoded htlvs, hc, hd, hs]
  rfl

omit hw hdir in
theorem nak_readSegments (segments : List SegmentRequest) :
    NakPdu.readSegments ⟨segments.flatMap segmentBytes⟩ segments.length = .ok segments := by
  induction segments with
  | nil => rfl
  | cons s segments ih =>
    simp only [flatMap_cons, segmentBytes, append_assoc, length_cons,
      NakPdu.readSegments, PduReader.readU32_encodeBE, Codec.ok_bind, ih]
    rfl

theorem nak_deserializeFrom {q : NakPdu} (htype : h.type = .negativeAck) :
    NakPdu.deserializeFrom ⟨h.encoded ++ nakBody q⟩ = .ok { q with header := h } := by
  have hread := readDirectiveHeader_encoded hw hdir .nak
  rw [htype] at hread
  have hcount := q.count
  have hrem : PduReader.remaining ⟨q.segments.flatMap segmentBytes⟩ = 8 * q.segments.length := by
    simp [PduReader.remaining, length_flatMap, segmentBytes, map_const', Nat.mul_comm]
  have hnum : min (8 * q.segments.length / 8 % 256) nakMaxSegments = q.segments.length := by
    rw [nakMaxSegments] at hcount ⊢
    omega
  simp only [NakPdu.deserializeFrom, nakBody, hread, Codec.ok_bind, htype, decide_true,
    fwAssert_true, PduReader.readU32_encodeBE, hrem, hnum, nak_readSegments, dif_pos hcount]
  rfl

end Decoders

theorem fileData_deserializeFrom {h : PduHeader} (hw : h.WellFormed) (hfd : h.pduType = .fileData)
    (htype : h.type = .fileData) (hdata : q.dataSize.toNat ≤ q.data.length)
    (hlen : h.pduDataLength = q.dataSize + 4) (hsize : 4 + q.dataSize.toNat < 2 ^ 16) :
    FileDataPdu.deserializeFrom ⟨h.encoded ++ fileDataBody q⟩ =
      .ok { q with header := h, data := q.getData } := by
  have hheader : { h with type := .fileData } = h := by rw [← htype]
  have hnat : (q.dataSize + 4).toNat = q.dataSize.toNat + 4 := by
    have h4 : (4 : UInt16).toNat = 4 := rfl
    rw [UInt16.toNat_add, h4]
    exact Nat.mod_eq_of_lt (by omega)
  have hlong : ¬ h.pduDataLength < 4 := by
    rw [hlen, UInt16.lt_iff_toNat_lt, hnat]
    exact Nat.not_lt.mpr (Nat.le_add_left 4 _)
  have hback : h.pduDataLength - 4 = q.dataSize := by
    rw [hlen]
    simp
  have hroom : ¬ PduReader.remaining ⟨q.getData⟩ < q.dataSize.toNat := by
    simp only [PduReader.remaining, getData, length_take]
    omega
  have hread := fromSerialBuffer_encoded hw (fileDataBody q)
  rw [if_pos hfd, hheader] at hread
  rw [fileDataBody] at hread ⊢
  simp only [FileDataPdu.deserializeFrom, hread, Codec.ok_bind, htype, decide_true,
    fwAssert_true, PduReader.readU32_encodeBE, hlong, if_false, hback, hroom]
  rfl

theorem eof_foldl_appendTlv (ts : List Tlv) (p : EofPdu) :
    ts.foldl (fun p t => (p.appendTlv t).1) p =
      { p with tlvList := ts.foldl (fun l t => (l.appendTlv t).1) p.tlvList } := by
  induction ts generalizing p with
  | nil => rfl
  | cons t ts ih => rw [foldl_cons, ih]; rfl

theorem fin_foldl_appendTlv (ts : List Tlv) (p : FinPdu) :
    ts.foldl (fun p t => (p.appendTlv t).1) p =
      { p with tlvList := ts.foldl (fun l t => (l.appendTlv t).1) p.tlvList } := by
  induction ts generalizing p with
  | nil => rfl
  | cons t ts ih => rw [foldl_cons, ih]; rfl

theorem nak_foldl_addSegment (ss : List SegmentRequest) (p : NakPdu)
    (hroom : p.segments.length + ss.length ≤ nakMaxSegments) :
    ∃ hcount, ss.foldl (fun p s => (p.addSegment s.offsetStart s.offsetEnd).1) p =
      { p with segments := p.segments ++ ss, count := hcount } := by
  induction ss generalizing p with
  | nil => exact ⟨by simpa using hroom, by simp⟩
  | cons s ss ih =>
    rw [length_cons] at hroom
    have hadd : (p.addSegment s.offsetStart s.offsetEnd).1 =
        { p with
          segments := p.segments ++ [s]
          count := by rw [length_append, length_singleton]; omega } := by
      rw [NakPdu.addSegment, dif_neg (by omega)]
    obtain ⟨hcount, heq⟩ := ih (p.addSegment s.offsetStart s.offsetEnd).1
      (by rw [hadd, length_append, length_singleton]; omega)
    refine ⟨by rw [length_append, length_cons]; omega, ?_⟩
    rw [foldl_cons, heq]
    simp [hadd]

theorem metadata_initialized_eq_ok {direction : PduDirection} {txmMode : Class}
    {src seq dst size : UInt32} {srcName dstName : Bytes} {checksumType : ChecksumType}
    {closure : UInt8} {p : MetadataPdu}
    (h : initialized direction txmMode src seq dst size srcName dstName checksumType
      closure = .ok p) :
    srcName.length ≤ maxFilePathSize ∧ dstName.length ≤ maxFilePathSize ∧
      p = { header := .initialized .metadata direction txmMode src seq dst
            closureRequested := closure
            checksumType := checksumType
            fileSize := size
            sourceFilename := setBytes maxFilePathSize srcName
            destFilename := setBytes maxFilePathSize dstName } := by
  by_cases hs : srcName.length ≤ maxFilePathSize
  · by_cases hd : dstName.length ≤ maxFilePathSize
    · simp only [MetadataPdu.initialized, hs, hd, decide_true, fwAssert_true, Codec.ok_bind, pure,
        Except.pure, Except.ok.injEq] at h
      exact ⟨hs, hd, h.symm⟩
    · simp [MetadataPdu.initialized, hs, hd, fwAssert, bind, Except.bind] at h
  · simp [MetadataPdu.initialized, hs, fwAssert, bind, Except.bind] at h

theorem metadata_encodes {q : MetadataPdu} (hw : q.header.WellFormed)
    (hdir : q.header.pduType = .directive) (htype : q.header.type = .metadata)
    (hsrc : q.sourceFilename ≠ [] ∧ (0 : UInt8) ∉ q.sourceFilename ∧
      q.sourceFilename.length ≤ maxFilePathSize)
    (hdst : q.destFilename ≠ [] ∧ (0 : UInt8) ∉ q.destFilename ∧
      q.destFilename.length ≤ maxFilePathSize)
    (hchecksum : q.checksumType.code.toNat < 16) (hclosure : q.closureRequested.toNat < 2) :
    (Pdu.metadata q).Encodes := by
  have hwire : (Pdu.metadata q).wireHeader.WellFormed := hw.withDataLength _
  have hlen : q.sourceFilename.length + q.destFilename.length ≤ 400 :=
    Nat.add_le_add hsrc.2.2 hdst.2.2
  have hget : (Pdu.metadata q).getType = .metadata := htype
  refine ⟨hw, fun b => metadata_serializeTo htype b, ?_, ?_, ?_, ?_⟩
  · simp only [getBufferSize, MetadataPdu.getBufferSize, header, body, metadataBody,
      length_cons, length_append, encodeBE_length]
    omega
  · simp only [body, metadataBody, length_cons, length_append, encodeBE_length]
    omega
  · rw [hget]
    exact peekPduType_directive hwire hdir .metadata _
  · rw [hget]
    exact congrArg (Except.map Pdu.metadata)
      (metadata_deserializeFrom hwire hdir htype hsrc hdst hchecksum hclosure)

theorem fileData_encodes (hw : q.header.WellFormed) (hfd : q.header.pduType = .fileData)
    (htype : q.header.type = .fileData) (hsmall : q.header.largeFileFlag = .largeFile32Bit)
    (hdata : q.dataSize.toNat ≤ q.data.length) (hsize : 4 + q.dataSize.toNat < 2 ^ 16) :
    (Pdu.fileData q).Encodes := by
  have hwire : (Pdu.fileData q).wireHeader.WellFormed := hw.withDataLength _
  have hget : (Pdu.fileData q).getType = .fileData := htype
  have hlen : (fileDataBody q).length = 4 + q.dataSize.toNat := by
    rw [fileDataBody, length_append, encodeBE_length, getData, length_take,
      Nat.min_eq_left hdata]
  have htotal : q.getBufferSize = q.header.getBufferSize + (4 + q.dataSize.toNat) := by
    rw [FileDataPdu.getBufferSize, FileDataPdu.offsetSize, hsmall, ← Nat.add_assoc]
    rfl
  have hfield : (Pdu.fileData q).wireHeader.pduDataLength = q.dataSize + 4 := by
    apply UInt16.toNat_inj.mp
    have h4 : (4 : UInt16).toNat = 4 := rfl
    simp only [wireHeader, getBufferSize, header, withDataLength, htotal,
      Nat.add_sub_cancel_left, UInt16.toNat_ofNat', UInt16.toNat_add, h4]
    rw [Nat.add_comm]
  refine ⟨hw, fun b => fileData_serializeTo htype hsmall hdata b, ?_, ?_, ?_, ?_⟩
  · rw [body, hlen]
    exact htotal
  · rw [body, hlen]
    exact hsize
  · rw [hget]
    exact peekPduType_fileData hwire hfd _
  · rw [hget]
    exact congrArg (Except.map Pdu.fileData)
      (fileData_deserializeFrom hwire hfd htype hdata hfield hsize)

theorem eof_encodes {q : EofPdu} (hw : q.header.WellFormed)
    (hdir : q.header.pduType = .directive) (htype : q.header.type = .endOfFile)
    (hcc : q.conditionCode.code.toNat < 16) (htlvs : ∀ t ∈ q.tlvList.tlvs, t.Built) :
    (Pdu.eof q).Encodes := by
  have hwire : (Pdu.eof q).wireHeader.WellFormed := hw.withDataLength _
  have hget : (Pdu.eof q).getType = .endOfFile := htype
  have hlen := TlvList.encoded_length htlvs
  have hmax := q.tlvList.getEncodedSize_le
  rw [maxTlv] at hmax
  refine ⟨hw, fun b => eof_serializeTo htype b, ?_, ?_, ?_, ?_⟩
  · simp only [getBufferSize, EofPdu.getBufferSize, header, body, eofBody, length_cons,
      length_append, encodeBE_length, hlen]
    omega
  · simp only [body, eofBody, length_cons, length_append, encodeBE_length, hlen]
    omega
  · rw [hget]
    exact peekPduType_directive hwire hdir .endOfFile _
  · rw [hget]
    exact congrArg (Except.map Pdu.eof) (eof_deserializeFrom hwire hdir htype hcc htlvs)

theorem fin_encodes {q : FinPdu} (hw : q.header.WellFormed)
    (hdir : q.header.pduType = .directive) (htype : q.header.type = .finished)
    (hcc : q.conditionCode.code.toNat < 16) (htlvs : ∀ t ∈ q.tlvList.tlvs, t.Built) :
    (Pdu.fin q).Encodes := by
  have hwire : (Pdu.fin q).wireHeader.WellFormed := hw.withDataLength _
  have hget : (Pdu.fin q).getType = .finished := htype
  have hlen := TlvList.encoded_length htlvs
  have hmax := q.tlvList.getEncodedSize_le
  rw [maxTlv] at hmax
  refine ⟨hw, fun b => fin_serializeTo htype b, ?_, ?_, ?_, ?_⟩
  · simp only [getBufferSize, FinPdu.getBufferSize, header, body, finBody, length_cons, hlen]
    omega
  · simp only [body, finBody, length_cons, hlen]
    omega
  · rw [hget]
    exact peekPduType_directive hwire hdir .fin _
  · rw [hget]
    exact congrArg (Except.map Pdu.fin) (fin_deserializeFrom hwire hdir htype hcc htlvs)

theorem nak_encodes {q : NakPdu} (hw : q.header.WellFormed)
    (hdir : q.header.pduType = .directive) (htype : q.header.type = .negativeAck) :
    (Pdu.nak q).Encodes := by
  have hwire : (Pdu.nak q).wireHeader.WellFormed := hw.withDataLength _
  have hget : (Pdu.nak q).getType = .negativeAck := htype
  have hcount := q.count
  rw [nakMaxSegments] at hcount
  have hlen : (q.segments.flatMap segmentBytes).length = q.segments.length * 8 := by
    simp [length_flatMap, segmentBytes, map_const']
  refine ⟨hw, fun b => nak_serializeTo htype b, ?_, ?_, ?_, ?_⟩
  · simp only [getBufferSize, NakPdu.getBufferSize, header, body, nakBody, length_cons,
      length_append, encodeBE_length, hlen]
    omega
  · simp only [body, nakBody, length_cons, length_append, encodeBE_length, hlen]
    omega
  · rw [hget]
    exact peekPduType_directive hwire hdir .nak _
  · rw [hget]
    exact congrArg (Except.map Pdu.nak) (nak_deserializeFrom hwire hdir htype)

theorem ack_encodes {q : AckPdu} (hw : q.header.WellFormed)
    (hdir : q.header.pduType = .directive) (htype : q.header.type = .acknowledgment)
    (hdirective : q.directiveCode.code.toNat < 16) (hsubtype : q.directiveSubtypeCode.toNat < 16)
    (hcc : q.conditionCode.code.toNat < 16) (hstatus : q.transactionStatus.code.toNat < 4) :
    (Pdu.ack q).Encodes := by
  have hwire : (Pdu.ack q).wireHeader.WellFormed := hw.withDataLength _
  have hget : (Pdu.ack q).getType = .acknowledgment := htype
  refine ⟨hw, fun b => ack_serializeTo htype b, rfl, Nat.lt_of_sub_eq_succ rfl, ?_, ?_⟩
  · rw [hget]
    exact peekPduType_directive hwire hdir .ack _
  · rw [hget]
    exact congrArg (Except.map Pdu.ack)
      (ack_deserializeFrom hwire hdir htype hdirective hsubtype hcc hstatus)

theorem Built.encodes {p : Pdu} (h : p.Built) : p.Encodes := by
  cases h with
  | ack direction txmMode src seq dst directive subtype cc status hdirective hsubtype hcc
      hstatus =>
    exact ack_encodes (initialized_wellFormed ..) rfl rfl hdirective hsubtype hcc hstatus
  | metadata hinit hsrc hdst hchecksum hclosure =>
    obtain ⟨hslen, hdlen, hq⟩ := metadata_initialized_eq_ok hinit
    rw [setBytes_eq_self hslen hsrc.2, setBytes_eq_self hdlen hdst.2] at hq
    subst hq
    exact metadata_encodes (initialized_wellFormed ..) rfl rfl
      ⟨hsrc.1, hsrc.2, hslen⟩ ⟨hdst.1, hdst.2, hdlen⟩ hchecksum hclosure
  | fileData direction txmMode src seq dst offset dataSize data hdata hsize =>
    exact fileData_encodes (initialized_wellFormed ..) rfl rfl rfl hdata hsize
  | eof direction txmMode src seq dst cc checksum size tlvs hcc hcount hbuilt =>
    have htlvs := TlvList.foldl_appendTlv_tlvs tlvs .new (by simpa [TlvList.new] using hcount)
    rw [eof_foldl_appendTlv]
    refine eof_encodes (initialized_wellFormed ..) rfl rfl hcc fun t ht => hbuilt t ?_
    have hmem : t ∈ (tlvs.foldl (fun l t => (l.appendTlv t).1) TlvList.new).tlvs := ht
    rw [htlvs] at hmem
    exact hmem
  | fin direction txmMode src seq dst cc dc fs tlvs hcc hcount hbuilt =>
    have htlvs := TlvList.foldl_appendTlv_tlvs tlvs .new (by simpa [TlvList.new] using hcount)
    rw [fin_foldl_appendTlv]
    refine fin_encodes (initialized_wellFormed ..) rfl rfl hcc fun t ht => hbuilt t ?_
    have hmem : t ∈ (tlvs.foldl (fun l t => (l.appendTlv t).1) TlvList.new).tlvs := ht
    rw [htlvs] at hmem
    exact hmem
  | nak direction txmMode src seq dst scopeStart scopeEnd segments hcount =>
    obtain ⟨hcount', heq⟩ := nak_foldl_addSegment segments
      (.initialized direction txmMode src seq dst scopeStart scopeEnd)
      (by simpa [NakPdu.initialized] using hcount)
    rw [heq]
    exact nak_encodes (initialized_wellFormed ..) rfl rfl

/-- A sender's PDU encodes in its announced size, and the matching decoder gives every field back.
-/
theorem serializeTo_deserializeFrom {p : Pdu} (hp : p.Built) {capacity : Nat}
    (hcap : p.getBufferSize ≤ capacity) :
    ∃ b, p.serializeTo (.empty capacity) = .ok b ∧ b.bytes.length = p.getBufferSize ∧
      decodeBE 0 ((b.bytes.drop 1).take 2) = b.bytes.length - p.header.getBufferSize ∧
      peekPduType b.bytes = p.getType ∧
      deserializeFrom p.getType ⟨b.bytes⟩ = .ok p.onWire := by
  have he := hp.encodes
  have hlen : (p.wireHeader.encoded ++ p.body).length = p.getBufferSize := by
    rw [length_append, encoded_length, he.size]
    rfl
  have hfield : ((p.wireHeader.encoded ++ p.body).drop 1).take 2 =
      encodeBE 2 p.wireHeader.pduDataLength.toNat := rfl
  refine ⟨⟨capacity, p.wireHeader.encoded ++ p.body, hlen.le.trans hcap⟩, ?_, hlen, ?_, he.peek,
    he.decode⟩
  · rw [he.serialize]
    exact writeRaw_empty _
  · rw [hfield, decodeBE_encodeBE, hlen, he.size, Nat.add_sub_cancel_left]
    simp only [wireHeader, withDataLength, he.size, Nat.add_sub_cancel_left,
      UInt16.toNat_ofNat']
    have := he.fits
    omega

theorem serializeTo_deserializeFrom_ack :
    ∃ p : Pdu, p.Built ∧ ∃ b, p.serializeTo (.empty p.getBufferSize) = .ok b ∧
      deserializeFrom p.getType ⟨b.bytes⟩ = .ok p.onWire := by
  have hp : Built (.ack (.initialized .towardSender .class2 7 300 9 .endOfFile 1 .noError
      .terminated)) :=
    .ack _ _ _ _ _ _ _ _ _ (by decide) (by decide) (by decide) (by decide)
  obtain ⟨b, hb, -, -, -, hdec⟩ := serializeTo_deserializeFrom hp le_rfl
  exact ⟨_, hp, b, hb, hdec⟩

/-- The transaction status field has two bits, so the declared status 4 comes back as 0. -/
theorem ack_invalid_status_decodes_undefined :
    (AckPdu.initialized .towardSender .class2 7 300 9 .endOfFile 1 .noError
      .invalid).transactionStatus = .invalid ∧
    ((AckPdu.initialized .towardSender .class2 7 300 9 .endOfFile 1 .noError
      .invalid).serializeTo (.empty 64) >>= fun b =>
        (AckPdu.deserializeFrom ⟨b.bytes⟩).map (·.transactionStatus)) = .ok .undefined ∧
    AckTxnStatus.undefined ≠ .invalid :=
  ⟨rfl, rfl, by decide⟩

end Pdu

end Fprime.Cfdp
