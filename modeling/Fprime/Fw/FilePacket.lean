import Fprime.Fw.Packets

/-!
# File packets

The four packets of a file transfer, with their encoding and the decoder. Paths and payloads
carry the bound that their length field needs.
-/

namespace Fprime.Fw

open Lib.Bytes Lib.Runs List Nat SerBuf

structure FwString (capacity : Nat) where
  bytes : Bytes
  fits : bytes.length ≤ capacity
  noNul : (0 : UInt8) ∉ bytes

theorem FwString.eq_of_bytes {capacity : Nat} (s t : FwString capacity) :
    s.bytes = t.bytes ↔ s = t := by
  cases s
  cases t
  simp

instance {capacity : Nat} : DecidableEq (FwString capacity) :=
  fun s t => decidable_of_iff _ (FwString.eq_of_bytes s t)

theorem length_setBytes (capacity : Nat) (src : Bytes) :
    (Fw.setBytes capacity src).length ≤ capacity :=
  length_take_le _ _

theorem noNul_setBytes (capacity : Nat) (src : Bytes) : 0 ∉ Fw.setBytes capacity src := by
  intro h
  have hmem := mem_takeWhile_imp (mem_of_mem_take h)
  simp at hmem

namespace FwString

variable {capacity : Nat}

def setBytes (capacity : Nat) (src : Bytes) : FwString capacity :=
  ⟨Fw.setBytes capacity src, length_setBytes capacity src, noNul_setBytes capacity src⟩

def new : FwString capacity :=
  setBytes capacity []

/-- A string can be handed to the operating system only if it is text. -/
def isText (bytes : Bytes) : Bool :=
  ByteArray.validateUTF8 ⟨bytes.toArray⟩

/-- A string as text; one that is none reads as empty. -/
def asStr (bytes : Bytes) : Bytes :=
  if isText bytes then bytes else []

end FwString

def logStringMaxSize : Nat := 200

def fileNameStringSize : Nat := 240

abbrev LogStringArg := FwString logStringMaxSize

abbrev FileNameString := FwString fileNameStringSize

inductive FilePacketType where
  | start
  | data
  | end_
  | cancel
  | none
  deriving DecidableEq

def FilePacketType.asRepr : FilePacketType → UInt8
  | start => 0
  | data => 1
  | end_ => 2
  | cancel => 3
  | none => 255

def FilePacketType.tryFrom (repr : UInt8) : Option FilePacketType :=
  [start, data, end_, cancel, none].find? fun packetType => packetType.asRepr = repr

def filePacketHeaderSize : Nat := 5

def dataPacketHeaderSize : Nat := filePacketHeaderSize + 4 + 2

def pathNameMaxLength : Nat := 255

abbrev PathName := { path : Bytes // path.length ≤ pathNameMaxLength }

abbrev Payload := { data : Bytes // data.length < 2 ^ 16 }

theorem length_payload_lt (dataSize : UInt16) (data : Bytes) :
    (data.take dataSize.toNat).length < 2 ^ 16 :=
  lt_of_le_of_lt (length_take_le _ _) dataSize.toNat_lt

theorem length_path_le (len : UInt8) (buf : Bytes) :
    (buf.take len.toNat).length ≤ pathNameMaxLength :=
  le_trans (length_take_le _ _) (le_of_lt_succ len.toNat_lt)

theorem length_lt_of_eq {dataSize : UInt16} {data : Bytes}
    (h : data.length = dataSize.toNat) : data.length < 2 ^ 16 :=
  h ▸ dataSize.toNat_lt

inductive FilePacket where
  | start (sequenceIndex fileSize : UInt32) (sourcePath destinationPath : PathName)
  | data (sequenceIndex byteOffset : UInt32) (payload : Payload)
  | end_ (sequenceIndex checksumValue : UInt32)
  | cancel (sequenceIndex : UInt32)

def truncatePath (path : Bytes) : PathName :=
  ⟨path.take pathNameMaxLength, length_take_le _ _⟩

namespace FilePacket

def initializeStart (fileSize : UInt32) (sourcePath destinationPath : Bytes) : FilePacket :=
  start 0 fileSize (truncatePath sourcePath) (truncatePath destinationPath)

def initializeData (sequenceIndex byteOffset : UInt32) (dataSize : UInt16) (data : Bytes) :
    FilePacket :=
  .data sequenceIndex byteOffset ⟨data.take dataSize.toNat, length_payload_lt dataSize data⟩

def packetType : FilePacket → FilePacketType
  | start .. => .start
  | data .. => .data
  | end_ .. => .end_
  | cancel .. => .cancel

def sequenceIndex : FilePacket → UInt32
  | start seq .. | data seq .. | end_ seq .. | cancel seq => seq

def bufferSize : FilePacket → Nat
  | start _ _ source destination =>
    filePacketHeaderSize + 4 + (1 + source.1.length) + (1 + destination.1.length)
  | data _ _ payload => dataPacketHeaderSize + payload.1.length
  | end_ .. => filePacketHeaderSize + 4
  | cancel _ => filePacketHeaderSize

def serializePath (path : PathName) (buf : SerBuf) : Codec SerBuf := do
  let buf ← buf.serializeU8 (UInt8.ofNat path.1.length)
  buf.writeRaw path.1

def serializeHeader (packet : FilePacket) (buf : SerBuf) : Codec SerBuf := do
  let buf ← buf.serializeU8 packet.packetType.asRepr
  buf.serializeU32 packet.sequenceIndex

def serializeTo (packet : FilePacket) (buf : SerBuf) : Codec SerBuf := do
  let buf ← packet.serializeHeader buf
  match packet with
  | start _ fileSize source destination =>
    let buf ← buf.serializeU32 fileSize
    let buf ← serializePath source buf
    serializePath destination buf
  | data _ byteOffset payload =>
    let buf ← buf.serializeU32 byteOffset
    let buf ← buf.serializeU16 (UInt16.ofNat payload.1.length)
    buf.writeRaw payload.1
  | end_ _ checksumValue => buf.serializeU32 checksumValue
  | cancel _ => return buf

def readPath (buf : Bytes) : Except SerializeStatus (PathName × Bytes) := do
  let (len, buf) ← deserializeU8 buf
  if buf.length < len.toNat then throw .deserSizeMismatch
  else return (⟨buf.take len.toNat, length_path_le len buf⟩, buf.drop len.toNat)

def expectEmpty (buf : Bytes) (packet : FilePacket) : Except SerializeStatus FilePacket :=
  if buf.length = 0 then .ok packet else .error .deserSizeMismatch

def fromBuffer (data : Bytes) : Except SerializeStatus FilePacket := do
  let (rawType, buf) ← deserializeU8 data
  let (sequenceIndex, buf) ← deserializeU32 buf
  match FilePacketType.tryFrom rawType with
  | none => throw .deserInvalidData
  | some .start =>
    let (fileSize, buf) ← deserializeU32 buf
    let (source, buf) ← readPath buf
    let (destination, buf) ← readPath buf
    expectEmpty buf (start sequenceIndex fileSize source destination)
  | some .data =>
    let (byteOffset, buf) ← deserializeU32 buf
    let (dataSize, buf) ← deserializeU16 buf
    if h : buf.length = dataSize.toNat then
      return .data sequenceIndex byteOffset ⟨buf, length_lt_of_eq h⟩
    else throw .deserSizeMismatch
  | some .end_ =>
    let (checksumValue, buf) ← deserializeU32 buf
    expectEmpty buf (end_ sequenceIndex checksumValue)
  | some .cancel => expectEmpty buf (cancel sequenceIndex)
  | some .none => throw .deserTypeMismatch

def encodedPath (path : PathName) : Bytes :=
  UInt8.ofNat path.1.length :: path.1

def encodedBody : FilePacket → Bytes
  | start _ fileSize source destination =>
    encodeBE 4 fileSize.toNat ++ (encodedPath source ++ encodedPath destination)
  | data _ byteOffset payload =>
    encodeBE 4 byteOffset.toNat ++
      (encodeBE 2 (UInt16.ofNat payload.1.length).toNat ++ payload.1)
  | end_ _ checksumValue => encodeBE 4 checksumValue.toNat
  | cancel _ => []

def encoded (packet : FilePacket) : Bytes :=
  packet.packetType.asRepr :: (encodeBE 4 packet.sequenceIndex.toNat ++ packet.encodedBody)

variable (packet : FilePacket)

theorem length_encoded : packet.encoded.length = packet.bufferSize := by
  cases packet <;>
    simp only [encoded, encodedBody, encodedPath, bufferSize, dataPacketHeaderSize,
      filePacketHeaderSize, length_cons, length_append, encodeBE_length,
      length_nil] <;> omega

theorem serializePath_eq_writeRaw (path : PathName) (buf : SerBuf) :
    serializePath path buf = buf.writeRaw (encodedPath path) :=
  writeRaw_bind_writeRaw buf _ _

theorem serializeTo_eq_writeRaw (buf : SerBuf) :
    packet.serializeTo buf = buf.writeRaw packet.encoded := by
  have hheader : packet.serializeHeader buf =
      buf.writeRaw (packet.packetType.asRepr :: encodeBE 4 packet.sequenceIndex.toNat) :=
    writeRaw_bind_writeRaw buf _ _
  have hsplit : packet.encoded =
      (packet.packetType.asRepr :: encodeBE 4 packet.sequenceIndex.toNat) ++ packet.encodedBody :=
    rfl
  rw [serializeTo, hheader, hsplit, ← writeRaw_bind_writeRaw]
  congr 1
  funext buf
  cases packet with
  | start seq fileSize source destination =>
    simp only [serializeU32, serializePath_eq_writeRaw, writeRaw_bind_writeRaw,
      encodedBody]
  | data seq byteOffset payload =>
    simp only [serializeU32, serializeU16, writeRaw_bind_writeRaw,
      encodedBody]
  | end_ seq checksumValue => rfl
  | cancel seq => exact (writeRaw_nil buf).symm

theorem readPath_encodedPath (path : PathName) (rest : Bytes) :
    readPath (encodedPath path ++ rest) = .ok (path, rest) := by
  have hlen : (UInt8.ofNat path.1.length).toNat = path.1.length :=
    (UInt8.toNat_ofNat').trans (mod_eq_of_lt (lt_succ_of_le path.2))
  have hfits : ¬(path.1 ++ rest).length < path.1.length := by
    rw [length_append]
    omega
  simp only [readPath, encodedPath, cons_append, deserializeU8_cons, bind, Except.bind,
    hlen, take_left, drop_left]
  exact if_neg hfits

theorem fromBuffer_encoded : fromBuffer packet.encoded = .ok packet := by
  cases packet <;> simp only [encoded, fromBuffer, deserializeU8_cons, bind, Except.bind,
    sequenceIndex, deserializeU32_encode, encodedBody, packetType]
  case start seq fileSize source destination =>
    have hlast : readPath (encodedPath destination) = .ok (destination, []) := by
      rw [← append_nil (encodedPath destination), readPath_encodedPath]
    simp only [FilePacketType.tryFrom, readPath_encodedPath, hlast]
    rfl
  case data seq byteOffset payload =>
    have hlen : payload.1.length = (UInt16.ofNat payload.1.length).toNat :=
      ((UInt16.toNat_ofNat').trans (mod_eq_of_lt payload.2)).symm
    simp only [FilePacketType.tryFrom, deserializeU16_encode]
    exact dif_pos hlen
  case end_ seq checksumValue =>
    have hlast : deserializeU32 (encodeBE 4 checksumValue.toNat) = .ok (checksumValue, []) := by
      rw [← append_nil (encodeBE _ _), deserializeU32_encode]
    simp only [FilePacketType.tryFrom, hlast]
    rfl
  case cancel seq => rfl

theorem readPath_eq_ok {buf rest : Bytes} {path : PathName}
    (h : readPath buf = .ok (path, rest)) : encodedPath path ++ rest = buf := by
  obtain ⟨⟨len, buf'⟩, hlen, h⟩ := bind_eq_ok.mp h
  dsimp only at h
  split at h
  · cases h
  · next hfits =>
    cases h
    have htake : (buf'.take len.toNat).length = len.toNat := length_take_of_le (by omega)
    rw [← deserializeU8_eq_ok hlen, encodedPath, htake, UInt8.ofNat_toNat, cons_append,
      take_append_drop]

theorem expectEmpty_eq_ok {buf : Bytes} {packet packet' : FilePacket}
    (h : expectEmpty buf packet = .ok packet') : buf = [] ∧ packet' = packet := by
  rw [expectEmpty] at h
  split at h
  · next hempty =>
    cases h
    exact ⟨length_eq_zero_iff.mp hempty, rfl⟩
  · cases h

theorem tryFrom_eq_some {raw : UInt8} {packetType : FilePacketType}
    (h : FilePacketType.tryFrom raw = some packetType) : packetType.asRepr = raw := by
  have hfound := find?_some h
  exact of_decide_eq_true hfound

theorem encoded_of_fromBuffer {data : Bytes} {packet : FilePacket}
    (h : fromBuffer data = .ok packet) : packet.encoded = data := by
  obtain ⟨⟨raw, buf1⟩, hraw, h⟩ := bind_eq_ok.mp h
  obtain ⟨⟨seq, buf2⟩, hseq, h⟩ := bind_eq_ok.mp h
  rw [← deserializeU8_eq_ok hraw, ← show _ = buf1 from deserializeU32_eq_ok hseq]
  dsimp only at h
  split at h
  · cases h
  · next htype =>
    obtain ⟨⟨size, buf3⟩, hsize, h⟩ := bind_eq_ok.mp h
    obtain ⟨⟨source, buf4⟩, hsource, h⟩ := bind_eq_ok.mp h
    obtain ⟨⟨destination, buf5⟩, hdestination, h⟩ := bind_eq_ok.mp h
    obtain ⟨hnil, rfl⟩ := expectEmpty_eq_ok h
    have hlast : encodedPath destination ++ buf5 = buf4 := readPath_eq_ok hdestination
    rw [← deserializeU32_eq_ok hsize, ← show _ = buf3 from readPath_eq_ok hsource, ← hlast,
      show buf5 = [] from hnil, append_nil, ← tryFrom_eq_some htype]
    rfl
  · next htype =>
    obtain ⟨⟨offset, buf3⟩, hoffset, h⟩ := bind_eq_ok.mp h
    obtain ⟨⟨size, buf4⟩, hsize, h⟩ := bind_eq_ok.mp h
    dsimp only at h
    split at h
    · next hlen =>
      cases h
      rw [← deserializeU32_eq_ok hoffset, ← show _ = buf3 from deserializeU16_eq_ok hsize,
        ← tryFrom_eq_some htype, encoded, encodedBody, hlen, UInt16.ofNat_toNat]
      rfl
    · cases h
  · next htype =>
    obtain ⟨⟨value, buf3⟩, hvalue, h⟩ := bind_eq_ok.mp h
    obtain ⟨hnil, rfl⟩ := expectEmpty_eq_ok h
    rw [← deserializeU32_eq_ok hvalue, show buf3 = [] from hnil, append_nil,
      ← tryFrom_eq_some htype]
    rfl
  · next htype =>
    obtain ⟨hnil, rfl⟩ := expectEmpty_eq_ok h
    rw [hnil, ← tryFrom_eq_some htype]
    rfl
  · cases h

/-- A packet is written in as many bytes as it says and read back from them, and nothing else can be
read. -/
theorem file_packet_codec_exact :
    (∀ (packet : FilePacket) (buf : SerBuf),
      buf.bytes.length + packet.bufferSize ≤ buf.capacity →
      ∃ buf' written, packet.serializeTo buf = .ok buf' ∧ buf'.bytes = buf.bytes ++ written ∧
        written.length = packet.bufferSize ∧ fromBuffer written = .ok packet) ∧
    (∀ (data : Bytes) (packet : FilePacket), fromBuffer data = .ok packet →
      ∀ capacity, data.length ≤ capacity →
        ∃ buf, packet.serializeTo (.empty capacity) = .ok buf ∧ buf.bytes = data) := by
  constructor
  · intro packet buf hroom
    rw [← length_encoded] at hroom
    refine ⟨⟨buf.capacity, buf.bytes ++ packet.encoded, by simpa using hroom⟩, packet.encoded, ?_,
      rfl, length_encoded packet, fromBuffer_encoded packet⟩
    rw [serializeTo_eq_writeRaw, writeRaw, dif_pos hroom]
  · intro data packet h capacity hroom
    rw [serializeTo_eq_writeRaw, encoded_of_fromBuffer h]
    exact ⟨_, writeRaw_empty hroom, rfl⟩

end FilePacket

end Fprime.Fw
