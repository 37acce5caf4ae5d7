import Mathlib.Algebra.Group.Action.Defs
import Mathlib.Algebra.Order.BigOperators.Group.List
import Fprime.Cfdp.Pdu.Header

/-!
# Type-length-value entries

The value storage overlays an entity id and raw bytes: the id lives in the first four bytes
in host byte order (little endian here), so each view sees what the other wrote.
-/

namespace Fprime.Cfdp

open Lib.Bytes Fprime.Fw List SerBuf

structure TlvType where
  code : UInt8
  deriving DecidableEq

def TlvType.entityId : TlvType := ⟨6⟩

def eidBytes : Nat := 4

structure TlvData where
  raw : Bytes
  length : UInt8
  rawSize : raw.length = 256
  deriving DecidableEq

namespace TlvData

def new : TlvData :=
  ⟨replicate 256 0, 0, length_replicate⟩

def overwrite (raw data : Bytes) : Bytes :=
  data ++ raw.drop data.length

theorem overwrite_length {raw data : Bytes} (h : data.length ≤ raw.length) :
    (overwrite raw data).length = raw.length := by
  rw [overwrite, length_append, length_drop]
  omega

variable (d : TlvData)

def setEntityId (eid : UInt32) : TlvData where
  raw := overwrite d.raw (encodeLE eidBytes eid.toNat)
  length := UInt8.ofNat eidBytes
  rawSize := by
    rw [overwrite_length, d.rawSize]
    rw [encodeLE_length, d.rawSize]
    decide

def setData (data : Bytes) : Codec TlvData :=
  if h : data.length ≤ 255 then
    .ok { raw := overwrite d.raw data
          length := UInt8.ofNat data.length
          rawSize := by
            rw [overwrite_length, d.rawSize]
            rw [d.rawSize]
            omega }
  else .error .panic

def getEntityId : UInt32 :=
  UInt32.ofNat (decodeLE (d.raw.take eidBytes))

@[simp] theorem getEntityId_setEntityId (eid : UInt32) :
    (d.setEntityId eid).getEntityId = eid := by
  have htake : (d.setEntityId eid).raw.take eidBytes = encodeLE eidBytes eid.toNat := by
    have h := encodeLE_length eidBytes eid.toNat
    simp only [setEntityId, overwrite]
    rw [take_append_of_le_length (le_of_eq h.symm), take_of_length_le (le_of_eq h)]
  rw [getEntityId, htake, decodeLE_encodeLE,
    Nat.mod_eq_of_lt (lt_of_lt_of_le eid.toNat_lt (by decide)), UInt32.ofNat_toNat]

end TlvData

structure Tlv where
  tlvType : TlvType
  data : TlvData
  deriving DecidableEq

def serializeEach (b : SerBuf) : Bytes → Codec SerBuf
  | [] => .ok b
  | byte :: bytes => do
    let b ← b.serializeU8 byte
    serializeEach b bytes

def PduReader.readEach (r : PduReader) : Nat → Codec (Bytes × PduReader)
  | 0 => .ok ([], r)
  | n + 1 => do
    let (byte, r) ← r.readU8
    let (bytes, r) ← r.readEach n
    return (byte :: bytes, r)

namespace Tlv

def new : Tlv := ⟨.entityId, .new⟩

variable (t : Tlv)

def initializeEntityId (eid : UInt32) : Tlv where
  tlvType := .entityId
  data := t.data.setEntityId eid

def initialized (tlvType : TlvType) (data : Bytes) : Codec Tlv := do
  let data ← t.data.setData data
  return ⟨tlvType, data⟩

def getEncodedSize : Nat :=
  2 + t.data.length.toNat

def toSerialBuffer (b : SerBuf) : Codec SerBuf := do
  let b ← b.serializeU8 t.tlvType.code
  let b ← b.serializeU8 t.data.length
  if t.tlvType = .entityId then b.serializeU32 t.data.getEntityId
  else serializeEach b (t.data.raw.take t.data.length.toNat)

def fromSerialBuffer (r : PduReader) : Codec (Tlv × PduReader) := do
  let (typeVal, r) ← r.readU8
  let tlvType : TlvType := ⟨typeVal⟩
  let (length, r) ← r.readU8
  if tlvType = .entityId then
    if length.toNat > eidBytes then throw (.status .deserFormatError)
    let (bytes, r) ← r.readEach length.toNat
    return (⟨tlvType, t.data.setEntityId (UInt32.ofNat (decodeBE 0 bytes))⟩, r)
  else
    let (bytes, r) ← r.readEach length.toNat
    let data ← t.data.setData bytes
    return (⟨tlvType, data⟩, r)

end Tlv

structure TlvList where
  tlvs : List Tlv
  count : tlvs.length ≤ maxTlv
  deriving DecidableEq

namespace TlvList

def new : TlvList := ⟨[], Nat.zero_le _⟩

variable (l : TlvList) (r : PduReader)

def appendTlv (t : Tlv) : TlvList × Bool :=
  if h : l.tlvs.length ≥ maxTlv then (l, false)
  else (⟨l.tlvs ++ [t], by simp only [length_append, length_singleton]; omega⟩, true)

def getEncodedSize : Nat :=
  (l.tlvs.map Tlv.getEncodedSize).sum

def serializeTlvs (b : SerBuf) : List Tlv → Codec SerBuf
  | [] => .ok b
  | t :: ts => do
    let b ← t.toSerialBuffer b
    serializeTlvs b ts

def toSerialBuffer (b : SerBuf) : Codec SerBuf :=
  serializeTlvs b l.tlvs

/-- Decode until the bytes or the free slots run out. A failure counts on the first entry only. -/
def readTlvs (l : TlvList) (r : PduReader) : Nat → Codec (TlvList × PduReader)
  | 0 => .ok (l, r)
  | slots + 1 =>
    if r.remaining = 0 then .ok (l, r)
    else
      match Tlv.fromSerialBuffer .new r with
      | .ok (t, r') => readTlvs (l.appendTlv t).1 r' slots
      | .error .panic => .error .panic
      | .error (.status s) => if l.tlvs = [] then .error (.status s) else .ok (l, r)

def fromSerialBuffer : Codec (TlvList × PduReader) :=
  readTlvs .new r maxTlv

end TlvList

theorem serializeEach_eq_writeRaw (b : SerBuf) (bytes : Bytes) :
    serializeEach b bytes = b.writeRaw bytes := by
  induction bytes generalizing b with
  | nil => exact (writeRaw_nil b).symm
  | cons byte bytes ih =>
    simp only [serializeEach, ih, serializeU8, writeRaw_bind_writeRaw,
      singleton_append]

theorem PduReader.readEach_append (x rest : Bytes) :
    readEach ⟨x ++ rest⟩ x.length = .ok (x, ⟨rest⟩) := by
  induction x with
  | nil => rfl
  | cons byte x ih =>
    simp only [cons_append, length_cons, readEach, readU8_cons, ih, bind, Except.bind,
      pure, Except.pure]

theorem TlvData.ext_raw {d d' : TlvData} (hraw : d.raw = d'.raw) (hlen : d.length = d'.length) :
    d = d' := by
  cases d
  cases d'
  simp only at hraw hlen
  subst hraw hlen
  rfl

def TlvData.cleared (d : TlvData) : TlvData where
  raw := overwrite new.raw (d.raw.take d.length.toNat)
  length := d.length
  rawSize := by
    have hlt := d.length.toNat_lt
    rw [overwrite_length, new.rawSize]
    rw [length_take, d.rawSize, new.rawSize]
    omega

theorem TlvData.take_overwrite {raw data : Bytes} {n : Nat} (h : data.length = n) :
    (overwrite raw data).take n = data := by
  subst h
  rw [overwrite, take_left]

namespace Tlv

def cleared (t : Tlv) : Tlv :=
  { t with data := t.data.cleared }

def encoded (t : Tlv) : Bytes :=
  t.tlvType.code :: t.data.length ::
    (if t.tlvType = .entityId then encodeBE 4 t.data.getEntityId.toNat
      else t.data.raw.take t.data.length.toNat)

theorem toSerialBuffer_eq_writeRaw (t : Tlv) (b : SerBuf) :
    t.toSerialBuffer b = b.writeRaw t.encoded := by
  unfold toSerialBuffer encoded
  by_cases h : t.tlvType = .entityId
  · simp only [h, if_true, serializeU8, serializeU32,
      writeRaw_bind_writeRaw, singleton_append]
  · simp only [h, if_false, serializeEach_eq_writeRaw, serializeU8,
      writeRaw_bind_writeRaw, singleton_append]

/-- The entries a sender builds, in storage of any earlier content: an entity id, or a value
of another type. -/
inductive Built : Tlv → Prop
  | entityId (t : Tlv) (eid : UInt32) : Built (t.initializeEntityId eid)
  | value {t t' : Tlv} {tlvType : TlvType} {data : Bytes} (htype : tlvType ≠ .entityId)
      (hinit : t.initialized tlvType data = .ok t') : Built t'

theorem initialized_eq_ok {t t' : Tlv} {tlvType : TlvType} {data : Bytes}
    (h : t.initialized tlvType data = .ok t') :
    data.length ≤ 255 ∧ t'.tlvType = tlvType ∧ t'.data.length = UInt8.ofNat data.length ∧
      t'.data.raw = TlvData.overwrite t.data.raw data := by
  simp only [initialized, TlvData.setData] at h
  split at h
  · rename_i hlen
    simp only [bind, Except.bind, pure, Except.pure, Except.ok.injEq] at h
    subst h
    exact ⟨hlen, rfl, rfl, rfl⟩
  · simp [bind, Except.bind] at h

theorem initializeEntityId_cleared (t : Tlv) (eid : UInt32) :
    (t.initializeEntityId eid).cleared = new.initializeEntityId eid := by
  simp only [cleared, initializeEntityId, Tlv.mk.injEq, true_and]
  refine TlvData.ext_raw ?_ rfl
  have hlen : (encodeLE eidBytes eid.toNat).length = (UInt8.ofNat eidBytes).toNat := by
    rw [encodeLE_length]
    rfl
  simp only [TlvData.cleared, TlvData.setEntityId, TlvData.take_overwrite hlen]
  rfl

theorem Built.encoded_length {t : Tlv} (h : t.Built) : t.encoded.length = t.getEncodedSize := by
  cases h with
  | entityId t eid => rfl
  | value htype hinit =>
    rename_i t0 tlvType data
    obtain ⟨hlen, hty, hlength, hraw⟩ := initialized_eq_ok hinit
    have hn : (UInt8.ofNat data.length).toNat = data.length := by
      simp only [UInt8.toNat_ofNat']
      omega
    rw [encoded, if_neg (by rw [hty]; exact htype), getEncodedSize, hlength, hraw, hn,
      TlvData.take_overwrite rfl, length_cons, length_cons]
    omega

theorem Built.fromSerialBuffer_encoded {t : Tlv} (h : t.Built) (rest : Bytes) :
    fromSerialBuffer .new ⟨t.encoded ++ rest⟩ = .ok (t.cleared, ⟨rest⟩) := by
  cases h with
  | entityId t eid =>
    have hread : PduReader.readEach ⟨encodeBE 4 eid.toNat ++ rest⟩ 4 =
        .ok (encodeBE 4 eid.toNat, ⟨rest⟩) := by
      simpa using PduReader.readEach_append (encodeBE 4 eid.toNat) rest
    have hdec : UInt32.ofNat (decodeBE 0 (encodeBE 4 eid.toNat)) = eid := by
      simp [decodeBE_encodeBE]
    have hlen : (t.data.setEntityId eid).length = 4 := rfl
    rw [initializeEntityId_cleared]
    simp [encoded, fromSerialBuffer, initializeEntityId, hlen, bind, Except.bind, pure,
      Except.pure, hread, hdec, eidBytes]
  | value htype hinit =>
    rename_i t0 tlvType data
    obtain ⟨hlen, hty, hlength, hraw⟩ := initialized_eq_ok hinit
    have hn : (UInt8.ofNat data.length).toNat = data.length := by
      simp only [UInt8.toNat_ofNat']
      omega
    have henc : t.encoded = tlvType.code :: UInt8.ofNat data.length :: data := by
      rw [encoded, if_neg (by rw [hty]; exact htype), hty, hlength, hraw, hn,
        TlvData.take_overwrite rfl]
    have hcleared : t.cleared.data.raw = TlvData.overwrite TlvData.new.raw data := by
      simp only [cleared, TlvData.cleared, hlength, hraw, hn, TlvData.take_overwrite rfl]
    have hset : TlvData.new.setData data = .ok t.cleared.data := by
      rw [TlvData.setData, dif_pos hlen]
      exact congrArg _ (TlvData.ext_raw hcleared.symm hlength.symm)
    have hnew : new.data = TlvData.new := rfl
    simp only [henc, cons_append, fromSerialBuffer, PduReader.readU8_cons, bind, Except.bind,
      hn, PduReader.readEach_append, hnew, hset, pure, Except.pure]
    rw [if_neg htype]
    exact congrArg Except.ok (by rw [← hty]; rfl)

end Tlv

namespace TlvList

theorem ext_tlvs {l l' : TlvList} (h : l.tlvs = l'.tlvs) : l = l' := by
  cases l
  cases l'
  simp only at h
  subst h
  rfl

variable (ts : List Tlv) (l : TlvList)

def encoded : Bytes :=
  l.tlvs.flatMap Tlv.encoded

def cleared : TlvList :=
  ⟨l.tlvs.map Tlv.cleared, by rw [length_map]; exact l.count⟩

theorem toSerialBuffer_eq_writeRaw (b : SerBuf) :
    l.toSerialBuffer b = b.writeRaw l.encoded := by
  unfold toSerialBuffer encoded
  induction l.tlvs generalizing b with
  | nil => exact (writeRaw_nil b).symm
  | cons t ts ih =>
    simp only [serializeTlvs, Tlv.toSerialBuffer_eq_writeRaw, ih, writeRaw_bind_writeRaw,
      flatMap_cons]

theorem encoded_length {l : TlvList} (h : ∀ t ∈ l.tlvs, t.Built) :
    l.encoded.length = l.getEncodedSize := by
  unfold encoded getEncodedSize
  rw [length_flatMap]
  congr 1
  exact map_congr_left fun t ht => (h t ht).encoded_length

theorem appendTlv_tlvs {l : TlvList} {t : Tlv} (h : l.tlvs.length < maxTlv) :
    (l.appendTlv t).1.tlvs = l.tlvs ++ [t] := by
  rw [appendTlv, dif_neg (by omega)]

theorem foldl_appendTlv_tlvs
    (hroom : l.tlvs.length + ts.length ≤ maxTlv) :
    (ts.foldl (fun l t => (l.appendTlv t).1) l).tlvs = l.tlvs ++ ts := by
  induction ts generalizing l with
  | nil => simp
  | cons t ts ih =>
    rw [length_cons] at hroom
    have happ := appendTlv_tlvs (l := l) (t := t) (by omega)
    rw [foldl_cons, ih _ (by rw [happ]; simp; omega), happ]
    simp

theorem getEncodedSize_le : l.getEncodedSize ≤ maxTlv * 257 := by
  have hbound : ∀ n ∈ l.tlvs.map Tlv.getEncodedSize, n ≤ 257 := by
    intro n hn
    obtain ⟨t, -, rfl⟩ := mem_map.mp hn
    have := t.data.length.toNat_lt
    rw [Tlv.getEncodedSize]
    omega
  have hsum := sum_le_card_nsmul _ 257 hbound
  rw [length_map, smul_eq_mul] at hsum
  exact hsum.trans (Nat.mul_le_mul_right _ l.count)

theorem readTlvs_encoded (hb : ∀ t ∈ ts, t.Built) (l : TlvList) (slots : Nat)
    (hslots : ts.length ≤ slots) (hroom : l.tlvs.length + ts.length ≤ maxTlv) :
    ∃ l' : TlvList, l'.tlvs = l.tlvs ++ ts.map Tlv.cleared ∧
      readTlvs l ⟨ts.flatMap Tlv.encoded⟩ slots = .ok (l', ⟨[]⟩) := by
  induction ts generalizing l slots with
  | nil =>
    refine ⟨l, by simp, ?_⟩
    cases slots with
    | zero => rfl
    | succ slots => simp [readTlvs, PduReader.remaining]
  | cons t ts ih =>
    obtain ⟨slots, rfl⟩ : ∃ n, slots = n + 1 := ⟨slots - 1, by simp at hslots; omega⟩
    simp only [length_cons] at hslots hroom
    have happ := appendTlv_tlvs (l := l) (t := t.cleared) (by omega)
    obtain ⟨l', hl', hread⟩ := ih (fun t' ht' => hb t' (mem_cons_of_mem _ ht'))
      (l.appendTlv t.cleared).1 slots (by omega) (by rw [happ]; simp; omega)
    refine ⟨l', by simp [hl', happ], ?_⟩
    have hpos : ¬ PduReader.remaining ⟨t.encoded ++ ts.flatMap Tlv.encoded⟩ = 0 := by
      simp [PduReader.remaining, Tlv.encoded]
    rw [flatMap_cons, readTlvs, if_neg hpos,
      (hb t mem_cons_self).fromSerialBuffer_encoded]
    exact hread

theorem fromSerialBuffer_encoded {l : TlvList} (h : ∀ t ∈ l.tlvs, t.Built) :
    fromSerialBuffer ⟨l.encoded⟩ = .ok (l.cleared, ⟨[]⟩) := by
  obtain ⟨l', hl', hread⟩ := readTlvs_encoded l.tlvs h .new maxTlv l.count
    (by simpa [new] using l.count)
  have heq : l' = l.cleared := ext_tlvs (by simpa [new, cleared] using hl')
  rw [fromSerialBuffer, encoded, hread, heq]

end TlvList

end Fprime.Cfdp
