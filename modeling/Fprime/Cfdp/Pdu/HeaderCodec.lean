import Mathlib.Data.List.GetD
import Mathlib.Tactic.IntervalCases
import Fprime.Cfdp.Pdu.Header

/-!
# The header codec round trip

The encoder writes one fixed byte string, and decoding that string followed by anything
returns the header and leaves what follows.
-/

namespace Fprime.Cfdp

open Lib.Bytes Fprime.Fw Nat PduHeader

theorem encodeIntegerInSize_eq_writeRaw (b : SerBuf) (value size : Nat) :
    encodeIntegerInSize b value size = b.writeRaw (encodeBE size value) := by
  induction size generalizing b with
  | zero => exact (SerBuf.writeRaw_nil b).symm
  | succ size ih =>
    simp only [encodeIntegerInSize, ih, SerBuf.serializeU8, SerBuf.writeRaw_bind_writeRaw,
      List.singleton_append, encodeBE]

theorem decodeIntegerInSize_encodeBE (value v size : Nat) (rest : Bytes)
    (hfit : (value + 1) * 256 ^ size ≤ 2 ^ 64) :
    decodeIntegerInSize value ⟨encodeBE size v ++ rest⟩ size =
      .ok (value * 256 ^ size + v % 256 ^ size, ⟨rest⟩) := by
  induction size generalizing value with
  | zero => simp [decodeIntegerInSize, encodeBE, mod_one]
  | succ size ih =>
    have hbyte : (UInt8.ofNat (v / 256 ^ size)).toNat = v / 256 ^ size % 256 := by simp
    have hmod : v / 256 ^ size % 256 < 256 := mod_lt _ (by decide)
    have hpow : 1 ≤ 256 ^ size := one_le_pow _ _ (by decide)
    have hstep : (value * 256 + v / 256 ^ size % 256 + 1) * 256 ^ size ≤ 2 ^ 64 := by
      calc (value * 256 + v / 256 ^ size % 256 + 1) * 256 ^ size
          ≤ ((value + 1) * 256) * 256 ^ size := mul_le_mul_right _ (by omega)
        _ = (value + 1) * 256 ^ (size + 1) := by ring
        _ ≤ 2 ^ 64 := hfit
    have hword : value * 256 + v / 256 ^ size % 256 < 2 ^ 64 := by
      calc value * 256 + v / 256 ^ size % 256
          < (value * 256 + v / 256 ^ size % 256 + 1) * 1 := by omega
        _ ≤ (value * 256 + v / 256 ^ size % 256 + 1) * 256 ^ size :=
          mul_le_mul_left _ hpow
        _ ≤ 2 ^ 64 := hstep
    have hv : v % 256 ^ (size + 1) = v % 256 ^ size + 256 ^ size * (v / 256 ^ size % 256) := by
      rw [pow_succ, mod_mul]
    simp only [decodeIntegerInSize, encodeBE, List.cons_append, PduReader.readU8_cons, bind,
      Except.bind, hbyte, mod_eq_of_lt hword, ih _ hstep, hv]
    congr 2
    ring

theorem getValueEncodedSize_of_lt {v : Nat} (h : v < 2 ^ 32) :
    1 ≤ getValueEncodedSize v ∧ getValueEncodedSize v ≤ 4 ∧ v < 256 ^ getValueEncodedSize v := by
  have hclosed : getValueEncodedSize v =
      if v < 2 ^ 8 then 1 else if v < 2 ^ 16 then 2 else if v < 2 ^ 24 then 3 else 4 := by
    simp only [getValueEncodedSize, valueEncodedSizeLoop]
    split_ifs <;> omega
  rw [hclosed]
  split_ifs <;> omega

theorem PduType.ofBit_asRepr (t : PduType) :
    (if t.asRepr = 1 then PduType.fileData else .directive) = t := by
  cases t <;> rfl

theorem PduDirection.ofBit_asRepr (d : PduDirection) :
    (if d.asRepr = 1 then PduDirection.towardSender else .towardReceiver) = d := by
  cases d <;> rfl

theorem Class.ofBit_asRepr (c : Class) :
    (if c.asRepr = 1 then Class.class1 else .class2) = c := by
  cases c <;> rfl

theorem CrcFlag.ofBit_asRepr (f : CrcFlag) :
    (if f.asRepr = 1 then CrcFlag.present else .notPresent) = f := by
  cases f <;> rfl

theorem LargeFileFlag.ofBit_asRepr (f : LargeFileFlag) :
    (if f.asRepr = 1 then LargeFileFlag.largeFile64Bit else .largeFile32Bit) = f := by
  cases f <;> rfl

namespace PduHeader

def encoded (h : PduHeader) : Bytes :=
  h.flagsByte :: (encodeBE 2 h.pduDataLength.toNat ++ h.lengthsByte ::
    (encodeBE h.eidSize h.sourceEid.toNat ++ (encodeBE h.tsnSize h.transactionSeq.toNat ++
      encodeBE h.eidSize h.destEid.toNat)))

theorem toSerialBuffer_eq_writeRaw (h : PduHeader) (b : SerBuf) :
    h.toSerialBuffer b = b.writeRaw h.encoded := by
  simp only [toSerialBuffer, encodeIntegerInSize_eq_writeRaw, SerBuf.serializeU8,
    SerBuf.serializeU16, SerBuf.writeRaw_bind_writeRaw, List.singleton_append, encoded]

theorem encoded_length (h : PduHeader) : h.encoded.length = h.getBufferSize := by
  simp only [encoded, getBufferSize, List.length_cons, List.length_append, encodeBE_length]
  omega

theorem eidSize_bounds (h : PduHeader) :
    1 ≤ h.eidSize ∧ h.eidSize ≤ 4 ∧ h.sourceEid.toNat < 256 ^ h.eidSize ∧
      h.destEid.toNat < 256 ^ h.eidSize := by
  have hs := h.sourceEid.toNat_lt
  have hd := h.destEid.toNat_lt
  obtain ⟨hpos, hle, hlt⟩ :=
    getValueEncodedSize_of_lt (v := max h.sourceEid.toNat h.destEid.toNat) (by omega)
  exact ⟨hpos, hle, lt_of_le_of_lt (le_max_left _ _) hlt, lt_of_le_of_lt (le_max_right _ _) hlt⟩

theorem tsnSize_bounds (h : PduHeader) :
    1 ≤ h.tsnSize ∧ h.tsnSize ≤ 4 ∧ h.transactionSeq.toNat < 256 ^ h.tsnSize :=
  getValueEncodedSize_of_lt h.transactionSeq.toNat_lt

/-- What the sender guarantees of a header: one-bit fields hold one bit and the version is the
protocol's. -/
structure WellFormed (h : PduHeader) : Prop where
  version : h.version = 1
  segmentationControl : h.segmentationControl = 0
  segmentMetadataFlag : h.segmentMetadataFlag = 0

theorem initialized_wellFormed (type : PduTypeEnum) (direction : PduDirection) (txmMode : Class)
    (src seq dst : UInt32) : (initialized type direction txmMode src seq dst).WellFormed :=
  ⟨rfl, rfl, rfl⟩

theorem flagsByte_decode {h : PduHeader} (hw : h.WellFormed) :
    (h.flagsByte >>> 5) &&& 0x07 = h.version ∧
    (h.flagsByte >>> 4) &&& 0x01 = h.pduType.asRepr ∧
    (h.flagsByte >>> 3) &&& 0x01 = h.direction.asRepr ∧
    (h.flagsByte >>> 2) &&& 0x01 = h.class_.asRepr ∧
    (h.flagsByte >>> 1) &&& 0x01 = h.crcFlag.asRepr ∧
    h.flagsByte &&& 0x01 = h.largeFileFlag.asRepr := by
  simp only [flagsByte, hw.version]
  cases h.pduType <;> cases h.direction <;> cases h.class_ <;> cases h.crcFlag <;>
    cases h.largeFileFlag <;> decide

theorem lengthsByte_decode {h : PduHeader} (hw : h.WellFormed) :
    (((h.lengthsByte >>> 4) &&& 0x07) + 1).toNat = h.eidSize ∧
    ((h.lengthsByte &&& 0x07) + 1).toNat = h.tsnSize ∧
    (h.lengthsByte >>> 7) &&& 0x01 = 0 ∧ (h.lengthsByte >>> 3) &&& 0x01 = 0 := by
  obtain ⟨he, he', -, -⟩ := h.eidSize_bounds
  obtain ⟨ht, ht', -⟩ := h.tsnSize_bounds
  simp only [lengthsByte, hw.segmentationControl, hw.segmentMetadataFlag]
  generalize h.eidSize = e at *
  generalize h.tsnSize = t at *
  interval_cases e <;> interval_cases t <;> decide

/-- Decoding an encoded header returns it, except that the type of a directive is left to
the directive code. -/
theorem fromSerialBuffer_encoded {h : PduHeader} (hw : h.WellFormed) (rest : Bytes) :
    fromSerialBuffer ⟨h.encoded ++ rest⟩ =
      .ok ({ h with type := if h.pduType = .fileData then .fileData else .none }, ⟨rest⟩) := by
  obtain ⟨he, he', hsrc, hdst⟩ := h.eidSize_bounds
  obtain ⟨ht, ht', hseq⟩ := h.tsnSize_bounds
  obtain ⟨fver, ftype, fdir, fcls, fcrc, flarge⟩ := flagsByte_decode hw
  obtain ⟨leid, ltsn, lctrl, lmeta⟩ := lengthsByte_decode hw
  have hword (size : Nat) (hs : size ≤ 4) : (0 + 1) * 256 ^ size ≤ 2 ^ 64 := by
    calc (0 + 1) * 256 ^ size = 256 ^ size := by ring
      _ ≤ 256 ^ 4 := Nat.pow_le_pow_right (by decide) hs
      _ ≤ 2 ^ 64 := by decide
  simp only [encoded, List.cons_append, List.append_assoc, fromSerialBuffer, bind, Except.bind,
    PduReader.readU8_cons, PduReader.readU16_encodeBE, leid, ltsn,
    decodeIntegerInSize_encodeBE _ _ _ _ (hword _ he'),
    decodeIntegerInSize_encodeBE _ _ _ _ (hword _ ht'),
    mod_eq_of_lt hsrc, mod_eq_of_lt hdst, mod_eq_of_lt hseq]
  have ha (n : Nat) (h1 : 1 ≤ n) (h4 : n ≤ 4) : decide (1 ≤ n ∧ n ≤ 8) = true := by
    simp; omega
  simp only [ha _ he he', ha _ ht ht', fwAssert_true, fver, ftype, fdir, fcls, fcrc, flarge,
    lctrl, lmeta, PduType.ofBit_asRepr, PduDirection.ofBit_asRepr, Class.ofBit_asRepr,
    CrcFlag.ofBit_asRepr, LargeFileFlag.ofBit_asRepr]
  simp [pure, Except.pure, hw.segmentationControl, hw.segmentMetadataFlag]

def withDataLength (h : PduHeader) (n : Nat) : PduHeader :=
  { h with pduDataLength := UInt16.ofNat n }

theorem WellFormed.withDataLength {h : PduHeader} (hw : h.WellFormed) (n : Nat) :
    (h.withDataLength n).WellFormed :=
  ⟨hw.version, hw.segmentationControl, hw.segmentMetadataFlag⟩

theorem minHeadersize_le_getBufferSize (h : PduHeader) : minHeadersize ≤ h.getBufferSize := by
  have he := h.eidSize_bounds.1
  have ht := h.tsnSize_bounds.1
  simp only [minHeadersize, getBufferSize]
  omega

end PduHeader

theorem writeHeader_eq_writeRaw (h : PduHeader) (totalSize : Nat) (b : SerBuf) :
    writeHeader h totalSize b =
      b.writeRaw (h.withDataLength (totalSize - h.getBufferSize)).encoded :=
  toSerialBuffer_eq_writeRaw _ b

theorem readDirectiveHeader_encoded {h : PduHeader} (hw : h.WellFormed)
    (hdir : h.pduType = .directive) (directive : FileDirective) (rest : Bytes) :
    readDirectiveHeader ⟨h.encoded ++ directive.code :: rest⟩ directive h.type =
      .ok (h, ⟨rest⟩) := by
  simp only [readDirectiveHeader, fromSerialBuffer_encoded hw, hdir, Codec.ok_bind,
    ne_eq, not_true_eq_false, if_false, PduReader.readU8_cons, pure, Except.pure]
  rw [← hdir]

theorem peekPduType_fileData {h : PduHeader} (hw : h.WellFormed) (hfd : h.pduType = .fileData)
    (rest : Bytes) : peekPduType (h.encoded ++ rest) = .fileData := by
  have hlen : ¬ (h.encoded ++ rest).length < minHeadersize := by
    have := h.minHeadersize_le_getBufferSize
    rw [List.length_append, h.encoded_length]
    omega
  obtain ⟨-, htype, -⟩ := flagsByte_decode hw
  have hhead : (h.encoded ++ rest).getD 0 0 = h.flagsByte := rfl
  rw [peekPduType, if_neg hlen, hhead, htype, hfd, if_pos rfl]

theorem peekPduType_directive {h : PduHeader} (hw : h.WellFormed)
    (hdir : h.pduType = .directive) (directive : FileDirective) (rest : Bytes) :
    peekPduType (h.encoded ++ directive.code :: rest) = directive.pduTypeEnum := by
  set data := h.encoded ++ directive.code :: rest with hdata
  have hdlen : data.length = h.getBufferSize + (rest.length + 1) := by
    rw [hdata, List.length_append, h.encoded_length, List.length_cons]
  have hmin := h.minHeadersize_le_getBufferSize
  obtain ⟨-, htype, -⟩ := flagsByte_decode hw
  obtain ⟨heid, htsn, -, -⟩ := lengthsByte_decode hw
  have hflags : data.getD 0 0 = h.flagsByte := rfl
  have hlengths : data.getD 3 0 = h.lengthsByte := rfl
  have hoff : 4 + 2 * h.eidSize + h.tsnSize = h.getBufferSize := rfl
  have hcode : data.getD h.getBufferSize 0 = directive.code := by
    rw [hdata, List.getD_append_right _ _ _ _ (le_of_eq h.encoded_length), h.encoded_length,
      Nat.sub_self]
    rfl
  have hbit : ¬ (PduType.directive.asRepr = PduType.fileData.asRepr) := by decide
  simp only [peekPduType, hflags, htype, hdir, hlengths, heid, htsn, hoff, hcode]
  rw [if_neg (by omega), if_neg hbit, if_neg (by omega)]

end Fprime.Cfdp
