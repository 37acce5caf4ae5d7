import Fprime.Fw.Packets
import Fprime.Os.File
import Fprime.Utils.Hash

/-!
# Parameter files

The file of the parameter database: a CRC, then one record for each parameter. A load or a save may
fail anywhere.
-/

namespace Fprime.Svc.PrmDb

open Fw Os Utils Lib.Bytes Lib.Runs List

def entryDelimiter : UInt8 := 0xA5

def paramBufferMaxSize : Nat := comBufferMaxSize - 4 - 2

def minRecordSize : UInt32 := 4

def maxRecordSize : UInt32 := UInt32.ofNat (paramBufferMaxSize + 4)

abbrev ParamBuffer := { bytes : Bytes // bytes.length ≤ paramBufferMaxSize }

abbrev Records := List (UInt32 × ParamBuffer)

inductive PrmReadError where
  | «open»
  | delimiter
  | delimiterSize
  | delimiterValue
  | recordSize
  | recordSizeSize
  | recordSizeValue
  | parameterId
  | parameterIdSize
  | parameterValue
  | parameterValueSize
  | crc
  | crcSize
  | crcBuffer
  | seekZero
  deriving DecidableEq

inductive PrmWriteError where
  | «open»
  | delimiter
  | delimiterSize
  | recordSize
  | recordSizeSize
  | parameterId
  | parameterIdSize
  | parameterValue
  | parameterValueSize
  | crcPlace
  | crcReal
  | currPosition
  | seekZero
  | seekPosition
  deriving DecidableEq

def statusCode : FileStatus → Int32
  | .opOk => 0
  | .doesntExist => 1
  | .noSpace => 2
  | .noPermission => 3
  | .badSize => 4
  | .notOpened => 5
  | .fileExists => 6
  | .notSupported => 7
  | .invalidMode => 8
  | .invalidArgument => 9
  | .noMoreResources => 10
  | .otherError => 11
  | .outsideSandbox => 12

/-- How the operating system answers one operation on a file. A write may take fewer bytes than
it is given. -/
structure Answer where
  status : FileStatus := .opOk
  limit : Nat := 65536

structure ParamFile where
  contents : Bytes
  pos : Nat := 0
  answers : Nat → Answer := fun _ => {}
  op : Nat := 0

namespace ParamFile

variable (file : ParamFile)

def rest : Bytes :=
  file.contents.drop file.pos

/-- Read to the end of a buffer of the given size, or to the end of the file. -/
def read (size : Nat) : FileStatus × Bytes × ParamFile :=
  match (file.answers file.op).status with
  | .opOk => (.opOk, file.rest.take size,
      { file with pos := file.pos + (file.rest.take size).length, op := file.op + 1 })
  | status => (status, [], { file with op := file.op + 1 })

/-- The register after everything behind the position; it is not complemented at the end. -/
def calculateCrc : FileStatus × UInt32 × ParamFile :=
  match (file.answers file.op).status with
  | .opOk => (.opOk, Hash.update 0xFFFFFFFF file.rest,
      { file with pos := file.contents.length, op := file.op + 1 })
  | status => (status, 0, { file with op := file.op + 1 })

def seek (offset : Nat) : FileStatus × ParamFile :=
  match (file.answers file.op).status with
  | .opOk => (.opOk, { file with pos := offset, op := file.op + 1 })
  | status => (status, { file with op := file.op + 1 })

def position : FileStatus × Nat × ParamFile :=
  ((file.answers file.op).status, file.pos, { file with op := file.op + 1 })

def write (data : Bytes) : FileStatus × Nat × ParamFile :=
  let answer := file.answers file.op
  let taken := data.take answer.limit
  (answer.status, taken.length,
    { file with
      contents := overwrite file.contents file.pos taken
      pos := file.pos + taken.length
      op := file.op + 1 })

end ParamFile

/-- A read error: the stage, the record and a status or a number. -/
structure ReadFailure where
  stage : PrmReadError
  record : Nat
  error : Int32
  deriving DecidableEq

inductive ReadStop where
  | endOfFile
  | failed (failure : ReadFailure)
  | assertion

def readField (file : ParamFile) (size record : Nat) (errorStage sizeStage : PrmReadError) :
    Except ReadStop (Bytes × ParamFile) :=
  match file.read size with
  | (.opOk, bytes, file) =>
    if bytes.length ≠ size then .error (.failed ⟨sizeStage, record, Int32.ofNat bytes.length⟩)
    else .ok (bytes, file)
  | (status, _, _) => .error (.failed ⟨errorStage, record, statusCode status⟩)

/-- The delimiter of a record. A successful read of nothing is the end of the file. -/
def readDelimiter (file : ParamFile) (record : Nat) : Except ReadStop ParamFile :=
  match file.read 1 with
  | (.opOk, [], _) => .error .endOfFile
  | (.opOk, [delimiter], file) =>
    if delimiter ≠ entryDelimiter then
      .error (.failed ⟨.delimiterValue, record, Int32.ofNat delimiter.toNat⟩)
    else .ok file
  | (.opOk, bytes, _) => .error (.failed ⟨.delimiterSize, record, Int32.ofNat bytes.length⟩)
  | (status, _, _) => .error (.failed ⟨.delimiter, record, statusCode status⟩)

def setBuff (bytes : Bytes) : Option ParamBuffer :=
  if h : bytes.length ≤ paramBufferMaxSize then some ⟨bytes, h⟩ else none

def readRecord (file : ParamFile) (record : Nat) :
    Except ReadStop (UInt32 × ParamBuffer × ParamFile) := do
  let file ← readDelimiter file record
  let (sizeBytes, file) ← readField file 4 record .recordSize .recordSizeSize
  let recordSize := UInt32.ofNat (decodeBE 0 sizeBytes)
  if minRecordSize ≤ recordSize ∧ recordSize ≤ maxRecordSize then
    let (idBytes, file) ← readField file 4 record .parameterId .parameterIdSize
    let (value, file) ←
      readField file (recordSize - 4).toNat record .parameterValue .parameterValueSize
    match setBuff value with
    | some value => return (UInt32.ofNat (decodeBE 0 idBytes), value, file)
    | none => throw .assertion
  else throw (.failed ⟨.recordSizeValue, record, recordSize.toInt32⟩)

/-- A load checks the CRC and goes back behind it. The second kind of failure is a CRC that is not
the stored one. -/
def checkCrc (file : ParamFile) : Except (ReadFailure ⊕ UInt32 × UInt32) ParamFile :=
  match file.read 4 with
  | (.opOk, crcBytes, file) =>
    if crcBytes.length ≠ 4 then .error (.inl ⟨.crcSize, 0, Int32.ofNat crcBytes.length⟩)
    else
      let fileCrc := UInt32.ofNat (decodeBE 0 crcBytes)
      match file.calculateCrc with
      | (.opOk, crc, file) =>
        if fileCrc ≠ crc then .error (.inr (fileCrc, crc))
        else
          match file.seek 4 with
          | (.opOk, file) => .ok file
          | (status, _) => .error (.inl ⟨.seekZero, 0, statusCode status⟩)
      | (status, _, _) => .error (.inl ⟨.crcBuffer, 0, statusCode status⟩)
  | (status, _, _) => .error (.inl ⟨.crc, 0, statusCode status⟩)

/-- A write error: the stage, the record and a status or a number. -/
structure WriteFailure where
  stage : PrmWriteError
  record : Nat
  error : Int32
  deriving DecidableEq

abbrev Save := ExceptT WriteFailure (StateM ParamFile)

def Save.check {α : Type} (op : ParamFile → FileStatus × α × ParamFile) (stage : PrmWriteError) :
    Save α := do
  let (status, a, file) := op (← get)
  set file
  if status ≠ .opOk then throw ⟨stage, 0, statusCode status⟩
  return a

def writeField (bytes : Bytes) (record : Nat) (errorStage sizeStage : PrmWriteError) :
    Save Unit := do
  let (status, writeSize, file) := (← get).write bytes
  set file
  if status ≠ .opOk then throw ⟨errorStage, record, statusCode status⟩
  if writeSize ≠ bytes.length then throw ⟨sizeStage, record, Int32.ofNat writeSize⟩

def writeRecords (entries : Records) : Save (Nat × UInt32) :=
  entries.foldlM (fun (numRecords, hash) (id, value) => do
    let delim := [entryDelimiter]
    writeField delim numRecords .delimiter .delimiterSize
    let recordSizeBytes := encodeBE 4 (4 + value.val.length)
    writeField recordSizeBytes numRecords .recordSize .recordSizeSize
    let idBytes := encodeBE 4 id.toNat
    writeField idBytes numRecords .parameterId .parameterIdSize
    writeField value.val numRecords .parameterValue .parameterValueSize
    return (numRecords + 1,
      Hash.update hash (delim ++ recordSizeBytes ++ idBytes ++ value.val))) (0, 0xFFFFFFFF)

/-- A whole file: room for the CRC, the records, and then the CRC in its place. -/
def writeFile (entries : Records) : Save Nat := do
  let _ ← .check (·.write (encodeBE 4 0xFFFFFFFF)) .crcPlace
  let (numRecords, hash) ← writeRecords entries
  let currPos ← .check (·.position) .currPosition
  .check (fun file => let r := file.seek 0; (r.1, (), r.2)) .seekZero
  let _ ← .check (·.write (encodeBE 4 hash.toNat)) .crcReal
  .check (fun file => let r := file.seek currPos; (r.1, (), r.2)) .seekPosition
  return numRecords

def encodeRecord (record : UInt32 × ParamBuffer) : Bytes :=
  entryDelimiter :: encodeBE 4 (4 + record.2.val.length) ++ encodeBE 4 record.1.toNat
    ++ record.2.val

def decodeRecord (bytes : Bytes) : Option ((UInt32 × ParamBuffer) × Bytes) :=
  let size := decodeBE 0 ((bytes.drop 1).take 4)
  if bytes.take 1 = [entryDelimiter] ∧ 4 ≤ size ∧ size ≤ paramBufferMaxSize + 4 ∧
      5 + size ≤ bytes.length then
    (setBuff ((bytes.drop 9).take (size - 4))).map fun value =>
      ((UInt32.ofNat (decodeBE 0 ((bytes.drop 5).take 4)), value), bytes.drop (5 + size))
  else none

def leadingRecords : Nat → Bytes → Records
  | 0, _ => []
  | n + 1, bytes =>
    match decodeRecord bytes with
    | some (record, rest) => record :: leadingRecords n rest
    | none => []

variable {bytes : Bytes} {record size : Nat} {file file' : ParamFile}

theorem rest_of_read (h : file.read size = (.opOk, bytes, file')) :
    bytes = file.rest.take size ∧ file'.rest = file.rest.drop size := by
  unfold ParamFile.read at h
  split at h
  · cases h
    refine ⟨rfl, ?_⟩
    simp only [ParamFile.rest, ← drop_drop, length_take]
    rcases Nat.le_total size (file.contents.drop file.pos).length with hle | hle
    · rw [Nat.min_eq_left hle]
    · rw [Nat.min_eq_right hle, drop_length, drop_of_length_le hle]
  · next hne => exact absurd (congrArg Prod.fst h) hne

theorem readField_eq_ok {e e' : PrmReadError}
    (h : readField file size record e e' = .ok (bytes, file')) :
    bytes = file.rest.take size ∧ file'.rest = file.rest.drop size ∧ size ≤ file.rest.length := by
  unfold readField at h
  split at h
  · next hread =>
    obtain ⟨hbytes, hrest⟩ := rest_of_read hread
    split_ifs at h with hsize
    cases h
    refine ⟨hbytes, hrest, ?_⟩
    rw [not_not, hbytes, length_take] at hsize
    omega
  · cases h

theorem readDelimiter_eq_ok (h : readDelimiter file record = .ok file') :
    file.rest.take 1 = [entryDelimiter] ∧ file'.rest = file.rest.drop 1 := by
  unfold readDelimiter at h
  split at h
  · cases h
  · next hread =>
    obtain ⟨hbytes, hrest⟩ := rest_of_read hread
    split_ifs at h with hdelim
    cases h
    rw [← hbytes, not_not.mp hdelim]
    exact ⟨rfl, hrest⟩
  · cases h
  · cases h

theorem toNat_decode_u32 (h : bytes.length ≤ 4) :
    (UInt32.ofNat (decodeBE 0 bytes)).toNat = decodeBE 0 bytes := by
  have hlt := decodeBE_lt 0 bytes
  have hpow : 256 ^ bytes.length ≤ 256 ^ 4 := Nat.pow_le_pow_right (by decide) h
  rw [UInt32.toNat_ofNat']
  omega

theorem recordSize_in_range {size : UInt32}
    (h : minRecordSize ≤ size ∧ size ≤ maxRecordSize) :
    4 ≤ size.toNat ∧ size.toNat ≤ paramBufferMaxSize + 4 ∧ (size - 4).toNat = size.toNat - 4 :=
  ⟨UInt32.le_iff_toNat_le.mp h.1, UInt32.le_iff_toNat_le.mp h.2,
    UInt32.toNat_sub_of_le _ _ h.1⟩

theorem decodeRecord_of_readRecord {id : UInt32} {value : ParamBuffer}
    (h : readRecord file record = .ok (id, value, file')) :
    decodeRecord file.rest = some ((id, value), file'.rest) := by
  unfold readRecord at h
  obtain ⟨f1, hdelim, h⟩ := bind_eq_ok.mp h
  obtain ⟨⟨sizeBytes, f2⟩, hsize, h⟩ := bind_eq_ok.mp h
  dsimp only at h
  split_ifs at h with hrange
  obtain ⟨⟨idBytes, f3⟩, hid, h⟩ := bind_eq_ok.mp h
  obtain ⟨⟨valueBytes, f4⟩, hvalue, h⟩ := bind_eq_ok.mp h
  dsimp only at h
  split at h
  · next v hbuff =>
    cases h
    obtain ⟨hfirst, h1⟩ := readDelimiter_eq_ok hdelim
    obtain ⟨hsizeBytes, h2, hlen1⟩ := readField_eq_ok hsize
    obtain ⟨hidBytes, h3, hlen2⟩ := readField_eq_ok hid
    obtain ⟨hvalueBytes, h4, hlen3⟩ := readField_eq_ok hvalue
    obtain ⟨hmin, hmax, hsub⟩ := recordSize_in_range hrange
    have hsizeLen : sizeBytes.length ≤ 4 := by
      rw [hsizeBytes, length_take]
      omega
    rw [toNat_decode_u32 hsizeLen] at hmin hmax hsub
    rw [hsub] at hvalueBytes h4 hlen3
    -- every field is a piece of the same bytes
    rw [h1] at hsizeBytes h2
    rw [h2, length_drop, length_drop] at hlen2
    rw [h2, drop_drop] at hidBytes h3
    rw [h3, drop_drop] at hvalueBytes h4 hlen3
    rw [drop_drop] at h4
    rw [length_drop] at hlen3
    rw [hsizeBytes] at hmin hmax hvalueBytes h4 hlen3
    rw [decodeRecord, if_pos ⟨hfirst, hmin, hmax, by omega⟩, ← hvalueBytes, hbuff, ← hidBytes, h4]
    simp only [Option.map_some]
    congr 3
    omega
  · cases h

theorem readField_ne_endOfFile {e e' : PrmReadError} :
    readField file size record e e' ≠ .error .endOfFile := by
  intro h
  unfold readField at h
  split at h
  · split_ifs at h
    cases h
  · cases h

theorem rest_of_endOfFile (h : readRecord file record = .error .endOfFile) : file.rest = [] := by
  unfold readRecord at h
  rcases bind_eq_error.mp h with hdelim | ⟨f1, -, h⟩
  · unfold readDelimiter at hdelim
    split at hdelim
    · next hread =>
      have hnil := (rest_of_read hread).1.symm
      rw [take_eq_nil_iff] at hnil
      exact hnil.resolve_left (by decide)
    · split_ifs at hdelim
      cases hdelim
    · cases hdelim
    · cases hdelim
  · exfalso
    rcases bind_eq_error.mp h with hfield | ⟨⟨sizeBytes, f2⟩, -, h⟩
    · exact readField_ne_endOfFile hfield
    dsimp only at h
    split_ifs at h with hrange
    · rcases bind_eq_error.mp h with hfield | ⟨⟨idBytes, f3⟩, -, h⟩
      · exact readField_ne_endOfFile hfield
      rcases bind_eq_error.mp h with hfield | ⟨⟨valueBytes, f4⟩, -, h⟩
      · exact readField_ne_endOfFile hfield
      dsimp only at h
      split at h <;> cases h
    · cases h

theorem contents_of_read (file : ParamFile) (size : Nat) :
    (file.read size).2.2.contents = file.contents := by
  unfold ParamFile.read
  split <;> rfl

theorem contents_of_calculateCrc (file : ParamFile) :
    file.calculateCrc.2.2.contents = file.contents := by
  unfold ParamFile.calculateCrc
  split <;> rfl

theorem rest_of_seek {offset : Nat} (h : file.seek offset = (.opOk, file')) :
    file'.rest = file.contents.drop offset := by
  unfold ParamFile.seek at h
  split at h
  · cases h
    rfl
  · next hne => exact absurd (congrArg Prod.fst h) hne

theorem rest_of_checkCrc (h : checkCrc file = .ok file') :
    file'.rest = file.contents.drop 4 := by
  unfold checkCrc at h
  split at h
  · next f1 hread =>
    dsimp only at h
    split_ifs at h with hlen
    split at h
    · next f2 hcrc =>
      split_ifs at h
      split at h
      · next f3 hseek =>
        cases h
        have hsame1 := contents_of_read file 4
        have hsame2 := contents_of_calculateCrc f1
        rw [hread] at hsame1
        rw [hcrc] at hsame2
        rw [rest_of_seek hseek, hsame2, hsame1]
      · cases h
    · cases h
  · cases h

end Fprime.Svc.PrmDb
