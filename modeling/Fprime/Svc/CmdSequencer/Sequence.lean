import Fprime.Fw.Time
import Fprime.Os.File
import Fprime.Utils.Hash

/-!
# Sequence files

The binary format of command sequences: a header, the records, and a CRC over both. A file is
validated as a whole; afterwards the records are taken one by one.
-/

namespace Fprime.Svc.CmdSequencer

open Fw Lib.Bytes Lib.Runs List Nat UInt32
open Os (FileStatus)

def sequenceHeaderSize : Nat := 11

def sequenceCrcSize : Nat := 4

def contextDontCare : UInt8 := 0xFF

/-- What stops the component: an assertion of the source that fails. -/
inductive Assertion where
  | timeTag (useconds : UInt32)
  | noBuffer
  | headerCapacity
  | nextRecord (status : SerializeStatus)
  | seqDoneNotConnected
  deriving DecidableEq

/-- A file that is open for reading: what it holds, and how the two reads of a load go. -/
structure SeqFile where
  contents : Bytes
  headerRead : FileStatus := .opOk
  dataRead : FileStatus := .opOk

inductive OpenResult where
  | opened (file : SeqFile)
  | doesntExist
  | failed

structure SequenceHeader where
  fileSize : UInt32
  numRecords : UInt32
  timeBase : TimeBase
  timeContext : UInt8

inductive FileReadStage where
  | readHeader
  | readHeaderSize
  | deserSize
  | deserNumRecords
  | deserTimeBase
  | deserTimeContext
  | readSeqCrc
  | readSeqData
  | readSeqDataSize

/-- The number in a `FileInvalid` event is a status of the file, one of the buffer or a length. -/
inductive FileError where
  | file (status : FileStatus)
  | buffer (status : SerializeStatus)
  | length (length : Nat)

inductive SequenceLoadEvent where
  | fileNotFound
  | fileReadError
  | fileInvalid (stage : FileReadStage) (error : FileError)
  | fileSizeError (size : UInt32)
  | fileCrcFailure (stored computed : UInt32)
  | recordInvalid (recordNumber : Nat) (error : SerializeStatus)
  | recordMismatch (headerRecords : UInt32) (extraBytes : Nat)
  | timeBaseMismatch (current seq : TimeBase)
  | timeContextMismatch (current seq : UInt8)
  | noRecords

inductive RecordDescriptor where
  | absolute
  | relative
  | endOfSequence

structure SequenceRecord where
  descriptor : RecordDescriptor
  timeTag : Time
  command : ComBuffer

def SequenceRecord.default : SequenceRecord :=
  ⟨.endOfSequence, .zero, ⟨[], zero_le _⟩⟩

structure Tag where
  seconds : UInt32
  useconds : UInt32
  valid : useconds < 1000000
  deriving Repr

theorem Tag.eq_iff (a b : Tag) : a = b ↔ a.seconds = b.seconds ∧ a.useconds = b.useconds := by
  cases a
  cases b
  simp

instance : DecidableEq Tag := fun a b =>
  decidable_of_iff (a.seconds = b.seconds ∧ a.useconds = b.useconds) (a.eq_iff b).symm

inductive Entry where
  | command (relative : Bool) (tag : Tag) (packet : ComBuffer)
  | endOfSequence
  deriving DecidableEq

/-- What the record slot holds after an entry. The end of the sequence leaves all but the
descriptor. -/
def Entry.store (record : SequenceRecord) : Entry → SequenceRecord
  | .command relative tag packet =>
    { descriptor := if relative then .relative else .absolute
      timeTag := { record.timeTag with
        seconds := tag.seconds, useconds := tag.useconds, valid := tag.valid }
      command := packet }
  | .endOfSequence => { record with descriptor := .endOfSequence }

inductive RecordFailure where
  | status (s : SerializeStatus)
  | assertion (useconds : UInt32)

variable {buf bytes data : Bytes} {entry : Entry} {entries : List Entry} {capacity n : Nat}
  {file : SeqFile} {header : SequenceHeader} {now : Time}

theorem length_take_le_of_fits {size : UInt32} (h : ¬ size.toNat + 2 > comBufferMaxSize) :
    (buf.take size.toNat).length ≤ comBufferMaxSize := by
  rw [length_take]
  omega

/-- The fields of one record and what is left. A record size may be at most two bytes below the size
of a com buffer. -/
def readEntry (buf : Bytes) : Except RecordFailure (Entry × Bytes) := do
  let (descEntry, buf) ← (deserializeU8 buf).mapError .status
  if descEntry > 2 then throw (.status .deserFormatError)
  if descEntry = 2 then return (.endOfSequence, buf)
  let (seconds, buf) ← (deserializeU32 buf).mapError .status
  let (useconds, buf) ← (deserializeU32 buf).mapError .status
  -- setting the time tag asserts that the microseconds are in range
  if hvalid : ¬ useconds < 1000000 then throw (.assertion useconds)
  else
    let (recordSize, buf) ← (deserializeU32 buf).mapError .status
    if recordSize.toNat > buf.length then throw (.status .deserSizeMismatch)
    if h : recordSize.toNat + 2 > comBufferMaxSize then throw (.status .deserSizeMismatch)
    else
      let tag := Tag.mk seconds useconds (not_not.mp hvalid)
      return (.command (descEntry = 1) tag ⟨buf.take recordSize.toNat, length_take_le_of_fits h⟩,
        buf.drop recordSize.toNat)

theorem length_of_readEntry {rest : Bytes} (h : readEntry buf = .ok (entry, rest)) :
    rest.length < buf.length := by
  unfold readEntry at h
  obtain ⟨⟨desc, buf1⟩, h1, h⟩ := bind_eq_ok.mp h
  have hlt := length_of_deserializeU8 (mapError_eq_ok.mp h1)
  dsimp only at h
  split at h
  · cases h
  dsimp only [pure, Except.pure] at h
  split at h
  · cases h
    exact hlt
  obtain ⟨⟨seconds, buf2⟩, h2, h⟩ := bind_eq_ok.mp h
  obtain ⟨⟨useconds, buf3⟩, h3, h⟩ := bind_eq_ok.mp h
  have hle2 := length_of_deserializeU32 (mapError_eq_ok.mp h2)
  have hle3 := length_of_deserializeU32 (mapError_eq_ok.mp h3)
  dsimp only at h
  split at h
  · cases h
  obtain ⟨⟨size, buf4⟩, h4, h⟩ := bind_eq_ok.mp h
  have hle4 := length_of_deserializeU32 (mapError_eq_ok.mp h4)
  dsimp only at h
  split at h
  · cases h
  split at h
  · cases h
  cases h
  rw [length_drop]
  dsimp only at *
  omega

/-- The microseconds of the record at the front, where the buffer gets that far. -/
def microseconds : Bytes → Option UInt32
  | [] => none
  | descEntry :: buf =>
    if descEntry > 1 ∨ buf.length < 8 then none
    else some (ofNat (decodeBE 0 ((buf.drop 4).take 4)))

theorem microseconds_of_assertion {useconds : UInt32}
    (h : readEntry buf = .error (.assertion useconds)) :
    microseconds buf = some useconds ∧ ¬ useconds < 1000000 := by
  unfold readEntry at h
  rcases bind_eq_error.mp h with h | ⟨⟨desc, buf1⟩, h1, h⟩
  · obtain ⟨s, -, hs⟩ := mapError_eq_error.mp h
    cases hs
  dsimp only at h
  split at h
  · cases h
  rename_i hle
  dsimp only [pure, Except.pure] at h
  split at h
  · cases h
  rename_i hne
  rcases bind_eq_error.mp h with h | ⟨⟨seconds, buf2⟩, h2, h⟩
  · obtain ⟨s, -, hs⟩ := mapError_eq_error.mp h
    cases hs
  rcases bind_eq_error.mp h with h | ⟨⟨u, buf3⟩, h3, h⟩
  · obtain ⟨s, -, hs⟩ := mapError_eq_error.mp h
    cases hs
  dsimp only at h
  split at h
  · rename_i hge
    cases h
    refine ⟨?_, hge⟩
    obtain ⟨x, hx, hdesc⟩ := map_eq_ok.mp (mapError_eq_ok.mp h1)
    obtain ⟨y, hy, hbuf2⟩ := map_eq_ok.mp (mapError_eq_ok.mp h2)
    obtain ⟨z, hz, hbuf3⟩ := map_eq_ok.mp (mapError_eq_ok.mp h3)
    obtain ⟨-, hpos, rfl⟩ := readRaw_eq_ok hx
    obtain ⟨hfour, -, rfl⟩ := readRaw_eq_ok hy
    obtain ⟨hfour', -, rfl⟩ := readRaw_eq_ok hz
    cases buf with
    | nil => simp at hpos
    | cons b bs =>
      simp only [Prod.mk.injEq, take_succ_cons, take_zero, drop_succ_cons,
        drop_zero] at hdesc hbuf2 hbuf3
      obtain ⟨hb, rfl⟩ := hdesc
      obtain ⟨-, rfl⟩ := hbuf2
      obtain ⟨rfl, -⟩ := hbuf3
      have hb' : b = desc := by simpa [decodeBE] using hb
      subst hb'
      rw [length_drop] at hfour'
      have hdesc : ¬ b > 1 := by
        intro hgt
        apply hne
        apply UInt8.toNat_inj.mp
        simp only [gt_iff_lt, UInt8.lt_iff_toNat_lt] at hle hgt
        simp at hle hgt ⊢
        omega
      have hlen : ¬ bs.length < 8 := by omega
      simp only [microseconds, hdesc, hlen, or_self, if_false]
  · rcases bind_eq_error.mp h with h | ⟨⟨size, buf4⟩, h4, h⟩
    · obtain ⟨s, -, hs⟩ := mapError_eq_error.mp h
      cases hs
    dsimp only at h
    split at h
    · cases h
    split at h <;> cases h

def deserializeRecord (record : SequenceRecord) (buf : Bytes) :
    Except RecordFailure (SequenceRecord × Bytes) :=
  (readEntry buf).map fun (entry, buf) => (entry.store record, buf)

inductive LoadFailure where
  | event (event : SequenceLoadEvent)
  | assertion (assertion : Assertion)

abbrev Load (α : Type) := Except LoadFailure α

def fail {α : Type} (event : SequenceLoadEvent) : Load α :=
  .error (.event event)

/-- A read from the buffer, whose failure is reported with the stage it belongs to. -/
def atStage {α : Type} (stage : FileReadStage) (r : Except SerializeStatus α) : Load α :=
  r.mapError fun status => .event (.fileInvalid stage (.buffer status))

def readHeader (capacity : Nat) (file : SeqFile) : Load Bytes :=
  let bytes := file.contents.take sequenceHeaderSize
  if capacity < sequenceHeaderSize then .error (.assertion .headerCapacity)
  else if file.headerRead ≠ .opOk then fail (.fileInvalid .readHeader (.file file.headerRead))
  else if bytes.length ≠ sequenceHeaderSize then
    fail (.fileInvalid .readHeaderSize (.length bytes.length))
  else return bytes

def deserializeHeader (capacity : Nat) (bytes : Bytes) : Load SequenceHeader := do
  let (fileSize, buf) ← atStage .deserSize (deserializeU32 bytes)
  if fileSize.toNat > capacity then fail (.fileSizeError fileSize)
  let (numRecords, buf) ← atStage .deserNumRecords (deserializeU32 buf)
  let (timeBase, buf) ← atStage .deserTimeBase (deserializeTimeBase buf)
  let (timeContext, _) ← atStage .deserTimeContext (deserializeU8 buf)
  return ⟨fileSize, numRecords, timeBase, timeContext⟩

/-- The records and the CRC, read over the header in the same buffer. -/
def readRecordsAndCrc (size : Nat) (file : SeqFile) : Load Bytes :=
  let bytes := (file.contents.drop sequenceHeaderSize).take size
  if file.dataRead ≠ .opOk then fail (.fileInvalid .readSeqData (.file file.dataRead))
  else if bytes.length ≠ size then fail (.fileInvalid .readSeqDataSize (.length bytes.length))
  else return bytes

def extractCrc (bytes : Bytes) : Load (Bytes × UInt32) :=
  if bytes.length < sequenceCrcSize then fail (.fileInvalid .readSeqCrc (.length bytes.length))
  else
    let dataSize := bytes.length - sequenceCrcSize
    return (bytes.take dataSize, ofNat (decodeBE 0 (bytes.drop dataSize)))

def validateCrc (header data : Bytes) (stored : UInt32) : Load Unit :=
  let computed := ~~~ Utils.Hash.update (Utils.Hash.update 0xFFFFFFFF header) data
  if stored ≠ computed then fail (.fileCrcFailure stored computed) else return ()

/-- The header gets the current base and context, which lets sequences run that do not care. -/
def validateTime (header : SequenceHeader) (now : Time) : Load SequenceHeader :=
  if header.timeBase ≠ now.timeBase ∧ header.timeBase ≠ .tbDontCare then
    fail (.timeBaseMismatch now.timeBase header.timeBase)
  else if header.timeContext ≠ now.timeContext ∧ header.timeContext ≠ contextDontCare then
    fail (.timeContextMismatch now.timeContext header.timeContext)
  else return { header with timeBase := now.timeBase, timeContext := now.timeContext }

/-- The loop over the records the header promises, from a record number on; it gives what is
left behind them. -/
def validateLoop : Nat → Nat → Bytes → Load Bytes
  | 0, _, buf => return buf
  | n + 1, recordNumber, buf =>
    match deserializeRecord .default buf with
    | .ok (_, buf) => validateLoop n (recordNumber + 1) buf
    | .error (.status s) => fail (.recordInvalid recordNumber s)
    | .error (.assertion useconds) => .error (.assertion (.timeTag useconds))

def validateRecords (numRecords : UInt32) (data : Bytes) : Load Unit := do
  if numRecords = 0 then fail .noRecords
  let left ← validateLoop numRecords.toNat 0 data
  if left.length > 0 then fail (.recordMismatch numRecords left.length)

/-- A sequence: the size of its buffer, the bytes in it, and those behind the read cursor. -/
structure FPrimeSequence where
  capacity : Nat
  data : Bytes
  left : Bytes
  header : SequenceHeader
  fileName : Bytes

namespace FPrimeSequence

def new : FPrimeSequence :=
  ⟨0, [], [], ⟨0, 0, .tbDontCare, contextDontCare⟩, []⟩

variable (seq : FPrimeSequence)

/-- The call of the setup asserts that the buffer holds a header. -/
def allocateBuffer (bytes : Nat) : FPrimeSequence :=
  { seq with capacity := bytes, data := [], left := [] }

/-- Read and validate an open file, each step only if the one before has succeeded. -/
def loadOpenFile (fileName : Bytes) (file : SeqFile) (now : Time) :
    Load FPrimeSequence := do
  let headerBytes ← readHeader seq.capacity file
  let header ← deserializeHeader seq.capacity headerBytes
  let bytes ← readRecordsAndCrc header.fileSize.toNat file
  let (data, stored) ← extractCrc bytes
  validateCrc headerBytes data stored
  let header ← validateTime header now
  validateRecords header.numRecords data
  return { seq with data := data, left := data, header := header, fileName := fileName }

/-- A load that fails leaves the header, which is looked at only when there is a record to take. -/
def loadFile (fileName : Bytes) (opened : OpenResult) (now : Time) :
    Load FPrimeSequence :=
  if seq.capacity = 0 then .error (.assertion .noBuffer)
  else
    match opened with
    | .opened file => seq.loadOpenFile fileName file now
    | .doesntExist => fail .fileNotFound
    | .failed => fail .fileReadError

def hasMoreRecords : Bool :=
  0 < seq.left.length

def nextRecord (record : SequenceRecord) :
    Except Assertion (SequenceRecord × FPrimeSequence) :=
  match deserializeRecord record seq.left with
  | .ok (record, left) => .ok (record, { seq with left := left })
  | .error (.status s) => .error (.nextRecord s)
  | .error (.assertion useconds) => .error (.timeTag useconds)

def reset : FPrimeSequence :=
  { seq with left := seq.data }

def clear : FPrimeSequence :=
  { seq with data := [], left := [] }

theorem nextRecord_of_entry {seq : FPrimeSequence} {entry : Entry} {rest : Bytes}
    (h : readEntry seq.left = .ok (entry, rest)) (record : SequenceRecord) :
    seq.nextRecord record = .ok (entry.store record, { seq with left := rest }) := by
  simp only [nextRecord, deserializeRecord, h, Except.map]

end FPrimeSequence

inductive Reads : Bytes → List Entry → Prop where
  | nil : Reads [] []
  | cons {buf rest : Bytes} {entry : Entry} {entries : List Entry} :
      readEntry buf = .ok (entry, rest) → Reads rest entries → Reads buf (entry :: entries)

theorem Reads.exists_cons (h : Reads buf entries) (hpos : 0 < buf.length) :
    ∃ entry rest later, readEntry buf = .ok (entry, rest) ∧ entries = entry :: later ∧
      Reads rest later := by
  cases h with
  | nil => cases hpos
  | cons hread hrest => exact ⟨_, _, _, hread, rfl, hrest⟩

theorem Reads.of_readEntry {rest : Bytes} (h : Reads buf entries)
    (hread : readEntry buf = .ok (entry, rest)) :
    ∃ later, entries = entry :: later ∧ Reads rest later := by
  obtain ⟨entry', rest', later, hread', hentries, hlater⟩ :=
    h.exists_cons (zero_lt_of_lt (length_of_readEntry hread))
  rw [hread] at hread'
  cases hread'
  exact ⟨later, hentries, hlater⟩

theorem Reads.pos (h : Reads buf (entry :: entries)) : 0 < buf.length := by
  cases h with
  | cons hread _ => exact zero_lt_of_lt (length_of_readEntry hread)

/-- The records at the front of some bytes, as far as they can be read. -/
def entriesFrom : Nat → Bytes → List Entry
  | 0, _ => []
  | n + 1, buf =>
    match readEntry buf with
    | .ok (entry, rest) => entry :: entriesFrom n rest
    | .error _ => []

def entriesOf (data : Bytes) : List Entry :=
  entriesFrom data.length data

theorem Reads.entriesFrom_eq (h : Reads buf entries) (hn : buf.length ≤ n) :
    entriesFrom n buf = entries := by
  induction h generalizing n with
  | nil =>
    cases n with
    | zero | succ n => rfl
  | cons hread _ ih =>
    have hlt := length_of_readEntry hread
    cases n with
    | zero => omega
    | succ n =>
      simp only [entriesFrom, hread]
      rw [ih (by omega)]

theorem Reads.entriesOf_eq (h : Reads data entries) :
    entriesOf data = entries :=
  h.entriesFrom_eq (le_refl _)

theorem validateLoop_eq_ok {k : Nat} {left : Bytes} (h : validateLoop n k buf = .ok left) :
    ∃ entries : List Entry, entries.length = n ∧
      ∀ later, Reads left later → Reads buf (entries ++ later) := by
  induction n generalizing k buf with
  | zero =>
    cases h
    exact ⟨[], rfl, fun later hlater => hlater⟩
  | succ n ih =>
    unfold validateLoop at h
    cases hread : readEntry buf with
    | error e => cases e <;> simp [deserializeRecord, hread, Except.map, fail] at h
    | ok r =>
      simp only [deserializeRecord, hread, Except.map] at h
      obtain ⟨entries, hlen, hreads⟩ := ih h
      exact ⟨r.1 :: entries, by simp [hlen],
        fun later hlater => .cons hread (hreads later hlater)⟩

theorem validateRecords_eq_ok {numRecords : UInt32} (h : validateRecords numRecords data = .ok ()) :
    ∃ entry entries, Reads data (entry :: entries) := by
  unfold validateRecords at h
  split at h
  · cases h
  rename_i hne
  obtain ⟨left, hleft, h⟩ := bind_eq_ok.mp h
  split at h
  · cases h
  rename_i hnil
  obtain ⟨entries, hlen, hreads⟩ := validateLoop_eq_ok hleft
  have hleft : left = [] := length_eq_zero_iff.mp (by omega)
  subst hleft
  cases entries with
  | nil =>
    have : numRecords = 0 := UInt32.toNat_inj.mp (by simpa using hlen.symm)
    exact absurd this hne
  | cons entry entries => exact ⟨entry, entries, by simpa using hreads [] .nil⟩

theorem readHeader_eq_ok (h : readHeader capacity file = .ok bytes) :
    bytes = file.contents.take sequenceHeaderSize := by
  unfold readHeader at h
  dsimp only at h
  split_ifs at h <;> cases h
  rfl

theorem deserializeHeader_eq_ok (h : deserializeHeader capacity bytes = .ok header) :
    header.fileSize = ofNat (decodeBE 0 (bytes.take 4)) ∧
      header.numRecords = ofNat (decodeBE 0 ((bytes.drop 4).take 4)) := by
  unfold deserializeHeader at h
  obtain ⟨⟨fileSize, buf1⟩, h1, h⟩ := bind_eq_ok.mp h
  dsimp only at h
  split at h
  · cases h
  obtain ⟨⟨numRecords, buf2⟩, h2, h⟩ := bind_eq_ok.mp h
  obtain ⟨⟨timeBase, buf3⟩, -, h⟩ := bind_eq_ok.mp h
  obtain ⟨⟨timeContext, buf4⟩, -, h⟩ := bind_eq_ok.mp h
  cases h
  obtain ⟨x, hx, hsize⟩ := map_eq_ok.mp (mapError_eq_ok.mp h1)
  obtain ⟨y, hy, hnum⟩ := map_eq_ok.mp (mapError_eq_ok.mp h2)
  obtain ⟨-, -, rfl⟩ := readRaw_eq_ok hx
  obtain ⟨-, -, rfl⟩ := readRaw_eq_ok hy
  cases hsize
  cases hnum
  exact ⟨rfl, rfl⟩

theorem deserializeHeader_ne_assertion (a : Assertion) :
    deserializeHeader capacity bytes ≠ .error (.assertion a) := by
  have hstage : ∀ {α : Type} {stage : FileReadStage} {r : Except SerializeStatus α},
      atStage stage r ≠ .error (.assertion a) := by
    intro α stage r h
    obtain ⟨s, -, hs⟩ := mapError_eq_error.mp h
    cases hs
  intro h
  unfold deserializeHeader at h
  rcases bind_eq_error.mp h with h | ⟨⟨fileSize, buf1⟩, -, h⟩
  · exact hstage h
  dsimp only at h
  split at h
  · cases h
  rcases bind_eq_error.mp h with h | ⟨⟨numRecords, buf2⟩, -, h⟩
  · exact hstage h
  rcases bind_eq_error.mp h with h | ⟨⟨timeBase, buf3⟩, -, h⟩
  · exact hstage h
  rcases bind_eq_error.mp h with h | ⟨⟨timeContext, buf4⟩, -, h⟩
  · exact hstage h
  · cases h

theorem readRecordsAndCrc_eq_ok {size : Nat} (h : readRecordsAndCrc size file = .ok bytes) :
    bytes = (file.contents.drop sequenceHeaderSize).take size ∧ bytes.length = size := by
  unfold readRecordsAndCrc at h
  dsimp only at h
  split_ifs at h with hread hlen <;> cases h
  exact ⟨rfl, not_not.mp hlen⟩

theorem extractCrc_eq_ok {stored : UInt32} (h : extractCrc bytes = .ok (data, stored)) :
    data = bytes.take (bytes.length - sequenceCrcSize) := by
  unfold extractCrc at h
  split at h
  · cases h
  · cases h
    rfl

theorem validateTime_eq_ok {header' : SequenceHeader} (h : validateTime header now = .ok header') :
    header' = { header with timeBase := now.timeBase, timeContext := now.timeContext } := by
  unfold validateTime at h
  split_ifs at h <;> cases h
  rfl

/-- The bytes of a file in which its records are: as many as the header says, less the CRC. -/
def recordBlock (contents : Bytes) : Bytes :=
  let fileSize := ofNat (decodeBE 0 (contents.take 4))
  (contents.drop sequenceHeaderSize).take (fileSize.toNat - sequenceCrcSize)

theorem recordBlock_eq {headerBytes : Bytes} {stored : UInt32}
    (hread : readHeader capacity file = .ok headerBytes)
    (hheader : deserializeHeader capacity headerBytes = .ok header)
    (hbytes : readRecordsAndCrc header.fileSize.toNat file = .ok bytes)
    (hdata : extractCrc bytes = .ok (data, stored)) : data = recordBlock file.contents := by
  obtain ⟨hsize, -⟩ := deserializeHeader_eq_ok hheader
  obtain ⟨hblock, hlen⟩ := readRecordsAndCrc_eq_ok hbytes
  rw [readHeader_eq_ok hread, take_take] at hsize
  rw [extractCrc_eq_ok hdata, hlen, hblock, take_take, min_eq_left (sub_le _ _),
    recordBlock, hsize]
  rfl

theorem FPrimeSequence.loadFile_eq_ok {seq seq' : FPrimeSequence} {fileName : Bytes}
    {opened : OpenResult} (h : seq.loadFile fileName opened now = .ok seq') :
    (∃ file, opened = .opened file ∧ seq'.data = recordBlock file.contents) ∧
      (∃ entry entries, Reads seq'.data (entry :: entries)) ∧ seq'.left = seq'.data ∧
      seq'.header.timeBase = now.timeBase ∧ seq'.capacity = seq.capacity := by
  unfold loadFile at h
  split at h
  · cases h
  cases opened with
  | doesntExist | failed => cases h
  | opened file =>
    dsimp only [loadOpenFile] at h
    obtain ⟨headerBytes, hread, h⟩ := bind_eq_ok.mp h
    obtain ⟨header, hheader, h⟩ := bind_eq_ok.mp h
    obtain ⟨bytes, hbytes, h⟩ := bind_eq_ok.mp h
    obtain ⟨⟨data, stored⟩, hdata, h⟩ := bind_eq_ok.mp h
    obtain ⟨_, -, h⟩ := bind_eq_ok.mp h
    obtain ⟨header', htime, h⟩ := bind_eq_ok.mp h
    obtain ⟨_, hrecords, h⟩ := bind_eq_ok.mp h
    cases h
    refine ⟨⟨file, rfl, recordBlock_eq hread hheader hbytes hdata⟩,
      validateRecords_eq_ok hrecords, rfl, ?_, rfl⟩
    rw [validateTime_eq_ok htime]

/-- No record that the loop comes to has a million microseconds or more. -/
def TagsOk : Nat → Bytes → Prop
  | 0, _ => True
  | n + 1, buf =>
    (∀ useconds ∈ microseconds buf, useconds < 1000000) ∧
      ∀ entry rest, readEntry buf = .ok (entry, rest) → TagsOk n rest

/-- Decided on the record at the front, not over all numbers of microseconds. -/
instance decidableTag (buf : Bytes) :
    Decidable (∀ useconds ∈ microseconds buf, useconds < 1000000) :=
  match h : microseconds buf with
  | none => .isTrue nofun
  | some useconds => decidable_of_iff (useconds < 1000000) (by simp)

instance TagsOk.decidable : ∀ n buf, Decidable (TagsOk n buf)
  | 0, _ => .isTrue trivial
  | n + 1, buf =>
    have htag := decidableTag buf
    match h : readEntry buf with
    | .error _ => decidable_of_iff (∀ useconds ∈ microseconds buf, useconds < 1000000)
        (by simp [TagsOk, h])
    | .ok (entry, rest) =>
      have hrest := TagsOk.decidable n rest
      decidable_of_iff ((∀ useconds ∈ microseconds buf, useconds < 1000000) ∧ TagsOk n rest)
        (by simp [TagsOk, h])

/-- The records of a file, as many as its header promises, have time tags in range. -/
def WellTagged (contents : Bytes) : Prop :=
  TagsOk (ofNat (decodeBE 0 ((contents.drop 4).take 4))).toNat (recordBlock contents)

instance (contents : Bytes) : Decidable (WellTagged contents) :=
  TagsOk.decidable _ _

theorem validateLoop_ne_assertion {k : Nat} (h : TagsOk n buf) (a : Assertion) :
    validateLoop n k buf ≠ .error (.assertion a) := by
  induction n generalizing k buf with
  | zero => exact fun heq => nomatch heq
  | succ n ih =>
    unfold validateLoop
    cases hread : readEntry buf with
    | error e =>
      cases e with
      | status s => simp [deserializeRecord, hread, Except.map, fail]
      | assertion useconds =>
        obtain ⟨hmicro, hge⟩ := microseconds_of_assertion hread
        exact absurd (h.1 useconds hmicro) hge
    | ok r =>
      simp only [deserializeRecord, hread, Except.map]
      exact ih (h.2 r.1 r.2 hread)

/-- The CRC behind the records is that of the header and the records. -/
def CrcOk (contents : Bytes) : Prop :=
  let fileSize := ofNat (decodeBE 0 (contents.take 4))
  ∃ data stored, extractCrc ((contents.drop sequenceHeaderSize).take fileSize.toNat) =
    .ok (data, stored) ∧ validateCrc (contents.take sequenceHeaderSize) data stored = .ok ()

theorem FPrimeSequence.loadFile_ne_assertion {seq : FPrimeSequence} {fileName : Bytes}
    {opened : OpenResult} (hcap : sequenceHeaderSize ≤ seq.capacity)
    (htags : ∀ file, opened = .opened file → CrcOk file.contents → WellTagged file.contents) (a : Assertion) :
    seq.loadFile fileName opened now ≠ .error (.assertion a) := by
  intro h
  unfold loadFile at h
  split at h
  · rename_i hzero
    rw [hzero] at hcap
    exact absurd hcap (by decide)
  cases opened with
  | doesntExist | failed => cases h
  | opened file =>
    dsimp only [loadOpenFile] at h
    rcases bind_eq_error.mp h with h | ⟨headerBytes, hread, h⟩
    · unfold readHeader at h
      dsimp only at h
      rw [if_neg (not_lt.mpr hcap)] at h
      split_ifs at h <;> cases h
    rcases bind_eq_error.mp h with h | ⟨header, hheader, h⟩
    · exact deserializeHeader_ne_assertion a h
    rcases bind_eq_error.mp h with h | ⟨bytes, hbytes, h⟩
    · unfold readRecordsAndCrc at h
      dsimp only at h
      split_ifs at h <;> cases h
    rcases bind_eq_error.mp h with h | ⟨⟨data, stored⟩, hdata, h⟩
    · unfold extractCrc at h
      split at h <;> cases h
    rcases bind_eq_error.mp h with h | ⟨_, hcrc, h⟩
    · unfold validateCrc at h
      dsimp only at h
      split at h <;> cases h
    rcases bind_eq_error.mp h with h | ⟨header', htime, h⟩
    · unfold validateTime at h
      split_ifs at h <;> cases h
    rcases bind_eq_error.mp h with h | ⟨_, -, h⟩
    · obtain ⟨hsize, hnum⟩ := deserializeHeader_eq_ok hheader
      rw [readHeader_eq_ok hread] at hnum hsize hcrc
      have hblock := hdata
      rw [(readRecordsAndCrc_eq_ok hbytes).1, hsize, take_take] at hblock
      have htagged := htags file rfl ⟨data, stored, hblock, hcrc⟩
      have hcount : (file.contents.take sequenceHeaderSize |>.drop 4).take 4 =
          (file.contents.drop 4).take 4 := by
        rw [drop_take, take_take]
        rfl
      rw [hcount] at hnum
      rw [validateTime_eq_ok htime] at h
      rw [WellTagged, ← hnum, ← recordBlock_eq hread hheader hbytes hdata] at htagged
      unfold validateRecords at h
      split at h
      · cases h
      rcases bind_eq_error.mp h with h | ⟨left, -, h⟩
      · exact validateLoop_ne_assertion htagged a h
      · split at h <;> cases h
    · cases h

end Fprime.Svc.CmdSequencer
