import Mathlib.Data.List.Nodup
import Fprime.Fw.FilePacket
import Fprime.Svc.PrmDb.File
import Fprime.Lib.Thread

/-!
# The parameter database

Two stores of parameters, the active one and the one a load stages. Parameters are read wherever the
component's thread does not hold the lock.
-/

namespace Fprime.Svc.PrmDb

open Fw FwString Os Lib Lib.Bytes List

def numDbEntries : Nat := 25

inductive PrmDbType where
  | dbActive
  | dbStaging
  deriving DecidableEq

inductive PrmDbFileLoadState where
  | idle
  | loadingFileUpdates
  | fileUpdatesStaged
  deriving DecidableEq

inductive Merge where
  | merge
  | reset

inductive PrmLoadAction where
  | setParameter
  | saveFileCommand
  | loadFileCommand
  | commitStagedCommand
  deriving DecidableEq

inductive PrmUpdateType where
  | noSlots
  | paramAdded
  | paramUpdated
  deriving DecidableEq

inductive PrmLoadStatus where
  | success
  | error

inductive ParamValid where
  | valid
  | invalid
  deriving DecidableEq

def overwriteValue (id : UInt32) (value : ParamBuffer) :
    Records → Option Records
  | [] => none
  | (key, slot) :: rest =>
    if key = id then some ((key, value) :: rest)
    else (overwriteValue id value rest).map ((key, slot) :: ·)

theorem keys_of_overwriteValue {id : UInt32} {value : ParamBuffer}
    {entries entries' : Records}
    (h : overwriteValue id value entries = some entries') :
    entries'.map Prod.fst = entries.map Prod.fst := by
  fun_induction overwriteValue id value entries generalizing entries' with
  | case1 => cases h
  | case2 slot rest =>
    cases h
    rfl
  | case3 key slot rest hne ih =>
    obtain ⟨rest', hrest, rfl⟩ := Option.map_eq_some_iff.mp h
    rw [map_cons, map_cons, ih hrest]

theorem overwriteValue_eq_none {id : UInt32} {value : ParamBuffer}
    {entries : Records} :
    overwriteValue id value entries = none ↔ id ∉ entries.map Prod.fst := by
  fun_induction overwriteValue id value entries with
  | case1 => simp
  | case2 slot rest => simp
  | case3 key slot rest hne ih =>
    rw [Option.map_eq_none_iff, ih, map_cons, mem_cons, not_or]
    exact ⟨fun h => ⟨Ne.symm hne, h⟩, fun h => h.2⟩

/-- A database: parameters by their id, in the order in which they came. -/
structure PrmDbStore where
  entries : Records
  nodup : (entries.map Prod.fst).Nodup
  fits : entries.length ≤ numDbEntries

namespace PrmDbStore

def new : PrmDbStore :=
  ⟨[], nodup_nil, Nat.zero_le _⟩

def find (db : PrmDbStore) (id : UInt32) : Option ParamBuffer :=
  (db.entries.find? fun entry => entry.1 = id).map Prod.snd

variable {value : ParamBuffer} {id : UInt32}

variable (db : PrmDbStore)

theorem nodup_overwrite {entries : Records}
    (h : overwriteValue id value db.entries = some entries) :
    (entries.map Prod.fst).Nodup := by
  rw [keys_of_overwriteValue h]
  exact db.nodup

theorem fits_overwrite {entries : Records}
    (h : overwriteValue id value db.entries = some entries) :
    entries.length ≤ numDbEntries := by
  have hkeys := congrArg length (keys_of_overwriteValue h)
  rw [length_map, length_map] at hkeys
  rw [hkeys]
  exact db.fits

theorem nodup_push (h : overwriteValue id value db.entries = none) :
    ((db.entries ++ [(id, value)]).map Prod.fst).Nodup := by
  rw [map_append]
  exact db.nodup.append (nodup_singleton id)
    (disjoint_singleton.mpr (overwriteValue_eq_none.mp h))

theorem fits_push (entry : UInt32 × ParamBuffer)
    (h : db.entries.length < numDbEntries) :
    (db.entries ++ [entry]).length ≤ numDbEntries := by
  rw [length_append]
  exact h

def insert (db : PrmDbStore) (id : UInt32) (value : ParamBuffer) : Bool × PrmDbStore :=
  match h : overwriteValue id value db.entries with
  | some entries => (true, ⟨entries, db.nodup_overwrite h, db.fits_overwrite h⟩)
  | none =>
    if hroom : db.entries.length < numDbEntries then
      (true, ⟨db.entries ++ [(id, value)], db.nodup_push h, db.fits_push (id, value) hroom⟩)
    else (false, db)

end PrmDbStore

structure State where
  active : PrmDbStore
  staging : PrmDbStore
  loadState : PrmDbFileLoadState
  fileName : Path
  sandboxDir : Path

namespace State

def new : State :=
  ⟨.new, .new, .idle, [], []⟩

def db (s : State) : PrmDbType → PrmDbStore
  | .dbActive => s.active
  | .dbStaging => s.staging

def setDb (s : State) (db : PrmDbStore) : PrmDbType → State
  | .dbActive => { s with active := db }
  | .dbStaging => { s with staging := db }

def copyDb (s : State) (dest src : PrmDbType) : State :=
  if dest = src then s
  else
    match dest with
    | .dbActive => { s with active := s.staging }
    | .dbStaging => { s with staging := s.active }

/-- Insert or overwrite, and which of the two it was. -/
def updateAddPrm (id : UInt32) (val : ParamBuffer) (dbType : PrmDbType) (s : State) :
    PrmUpdateType × State :=
  let prevSize := (s.db dbType).entries.length
  let (inserted, db) := (s.db dbType).insert id val
  if ¬ inserted then (.noSlots, s)
  else if prevSize < db.entries.length then (.paramAdded, s.setDb db dbType)
  else (.paramUpdated, s.setDb db dbType)

end State

inductive Event where
  | prmIdNotFound (id : UInt32)
  | prmIdUpdated (id : UInt32)
  | prmDbFull (id : UInt32)
  | prmIdAdded (id : UInt32)
  | prmFileWriteError (failure : WriteFailure)
  | prmFileSaveComplete (records : Nat)
  | prmFileReadError (failure : ReadFailure)
  | prmFileLoadComplete (db : PrmDbType) (total added updated : Nat)
  | prmDbCommitComplete
  | prmDbCopyAllComplete (src dest : PrmDbType)
  | prmDbFileLoadFailed
  | prmDbFileLoadInvalidAction (currentState : PrmDbFileLoadState) (attemptedAction : PrmLoadAction)
  | prmFileBadCrc (readCrc compCrc : UInt32)
  deriving DecidableEq

inductive Out where
  | event (event : Event)
  | cmdResponse (opCode cmdSeq : UInt32) (response : CmdResponse)
  | pingOut (key : UInt32)
  deriving DecidableEq

/-- What stops the component: an assertion of the source that fails. -/
inductive Assertion where
  | fileName
  | paramBuffer

/-- What is outside the component while it handles one request: how paths resolve, and the files
that it opens. -/
structure Disk where
  resolveFromCwd : Path → Option Path
  checkContainment : Path → Path → Bool
  openRead : Path → FileStatus × ParamFile
  openWrite : Path → FileStatus × ParamFile

/-- Runs on the caller's thread. A value that is not found is left as it is; a few of the misses
are reported. -/
def getPrmHandler (s : State) (notFoundCount : Nat) (id : UInt32) (val : ParamBuffer) :
    ParamValid × ParamBuffer × Nat × List Out :=
  match s.active.find id with
  | some value => (.valid, value, notFoundCount, [])
  | none =>
    if notFoundCount < 5 then
      (.invalid, val, notFoundCount + 1, [.event (.prmIdNotFound id)])
    else (.invalid, val, notFoundCount, [])

abbrev Handler := Thread State (Except Assertion (List Out))

def setPrmHandler (id : UInt32) (val : ParamBuffer) : Handler := do
  let loadState ← .read State.loadState
  if loadState ≠ .idle then
    return .ok [.event (.prmDbFileLoadInvalidAction loadState .setParameter)]
  else
    match ← .update (State.updateAddPrm id val .dbActive) with
    | .paramUpdated => return .ok [.event (.prmIdUpdated id)]
    | .noSlots => return .ok [.event (.prmDbFull id)]
    | .paramAdded => return .ok [.event (.prmIdAdded id)]

/-- Write the active database to the configured file. The records are written in one section. -/
def prmSaveFileCmdHandler (disk : Disk) (opCode cmdSeq : UInt32) : Handler := do
  let loadState ← .read State.loadState
  if loadState ≠ .idle then
    return .ok [.event (.prmDbFileLoadInvalidAction loadState .saveFileCommand),
      .cmdResponse opCode cmdSeq .busy]
  else
    let fileName ← .read State.fileName
    let path := asStr fileName
    if path = [] then return .error .fileName
    else
      match disk.openWrite path with
      | (.opOk, file) =>
        let (result, _) ← .read fun s => (writeFile s.active.entries).run file
        match result with
        | .ok numRecords => return .ok [.event (.prmFileSaveComplete numRecords),
            .cmdResponse opCode cmdSeq .ok]
        | .error failure => return .ok [.event (.prmFileWriteError failure),
            .cmdResponse opCode cmdSeq .executionError]
      | (status, _) => return .ok [.event (.prmFileWriteError ⟨.open, 0, statusCode status⟩),
          .cmdResponse opCode cmdSeq .executionError]

structure LoadCounts where
  total : Nat := 0
  added : Nat := 0
  updated : Nat := 0
  dropped : Nat := 0

def LoadCounts.count (counts : LoadCounts) (update : PrmUpdateType) : LoadCounts :=
  let counts := { counts with total := counts.total + 1 }
  match update with
  | .paramAdded => { counts with added := counts.added + 1 }
  | .paramUpdated => { counts with updated := counts.updated + 1 }
  | .noSlots => { counts with dropped := counts.dropped + 1 }

/-- How the records of a file end: with the counts, and the events on the way. -/
abbrev RecordsResult := Except Assertion (Except ReadFailure LoadCounts × List Event)

/-- Read up to a number of records. One for which there is no room is dropped. -/
def readRecords (dbType : PrmDbType) :
    Nat → ParamFile → LoadCounts → List Event → Thread State RecordsResult
  | 0, _, counts, events => return .ok (.ok counts, events)
  | n + 1, file, counts, events =>
    match readRecord file counts.total with
    | .error .endOfFile => return .ok (.ok counts, events)
    | .error (.failed failure) => return .ok (.error failure, events)
    | .error .assertion => return .error .paramBuffer
    | .ok (id, value, file) => do
      let update ← .update (State.updateAddPrm id value dbType)
      let full := if update = .noSlots then [.prmDbFull id] else []
      readRecords dbType n file (counts.count update) (events ++ full)

abbrev LoadResult := Except Assertion (PrmLoadStatus × List Event)

def readParamFileWork (opened : FileStatus × ParamFile) (dbType : PrmDbType) :
    Thread State LoadResult :=
  match opened with
  | (.opOk, file) =>
    match checkCrc file with
    | .error (.inl failure) => return .ok (.error, [.prmFileReadError failure])
    | .error (.inr (fileCrc, crc)) => return .ok (.error, [.prmFileBadCrc fileCrc crc])
    | .ok file => do
      match ← readRecords dbType numDbEntries file {} [] with
      | .error assertion => return .error assertion
      | .ok (.error failure, events) =>
        return .ok (.error, events ++ [.prmFileReadError failure])
      | .ok (.ok counts, events) =>
        if counts.dropped > 0 then return .ok (.error, events)
        else return .ok (.success, events ++
          [.prmFileLoadComplete dbType counts.total counts.added counts.updated])
  | (status, _) =>
    return .ok (.error, [.prmFileReadError ⟨.open, 0, statusCode status⟩])

/-- Open the file, which a commanded load may only do in its sandbox, and read it. -/
def readParamFileImpl (disk : Disk) (fileName : Path) (dbType : PrmDbType) :
    Thread State LoadResult :=
  if fileName = [] then return .error .fileName
  else do
    let sandboxDir := asStr (← .read State.sandboxDir)
    if dbType = .dbStaging ∧ sandboxDir ≠ [] then
      match disk.resolveFromCwd fileName with
      | some resolved =>
        if disk.checkContainment resolved sandboxDir then
          readParamFileWork (disk.openRead resolved) dbType
        else readParamFileWork (.outsideSandbox, ⟨[], 0, fun _ => {}, 0⟩) dbType
      | none => readParamFileWork (.outsideSandbox, ⟨[], 0, fun _ => {}, 0⟩) dbType
    else readParamFileWork (disk.openRead fileName) dbType

def prmLoadFileCmdHandler (disk : Disk) (opCode cmdSeq : UInt32) (fileName : Bytes)
    (mode : Merge) : Handler := do
  let loadState ← .read State.loadState
  if loadState ≠ .idle then
    return .ok [.event (.prmDbFileLoadInvalidAction loadState .loadFileCommand),
      .cmdResponse opCode cmdSeq .busy]
  else
    .modify fun s => { s with loadState := .loadingFileUpdates }
    let copied ← (match mode with
      | .merge => do
        .modify fun s => s.copyDb .dbStaging .dbActive
        return [.prmDbCopyAllComplete .dbActive .dbStaging]
      | .reset => do
        .modify fun s => { s with staging := .new }
        return [] : Thread State (List Event))
    match ← readParamFileImpl disk (asStr fileName) .dbStaging with
    | .error assertion => return .error assertion
    | .ok (.success, events) =>
      .modify fun s => { s with loadState := .fileUpdatesStaged }
      return .ok ((copied ++ events).map .event ++ [.cmdResponse opCode cmdSeq .ok])
    | .ok (.error, events) =>
      .modify fun s => { s with staging := .new, loadState := .idle }
      return .ok ((copied ++ events ++ [Event.prmDbFileLoadFailed]).map .event ++
        [.cmdResponse opCode cmdSeq .executionError])

/-- The staged database becomes the active one, in one section. -/
def prmCommitStagedCmdHandler (opCode cmdSeq : UInt32) : Handler := do
  let loadState ← .read State.loadState
  if loadState ≠ .fileUpdatesStaged then
    return .ok [.event (.prmDbFileLoadInvalidAction loadState .commitStagedCommand),
      .cmdResponse opCode cmdSeq .validationError]
  else
    .modify fun s => { s with active := s.staging, staging := .new, loadState := .idle }
    return .ok [.event .prmDbCommitComplete, .cmdResponse opCode cmdSeq .ok]

inductive Command where
  | saveFile
  | loadFile (fileName : Bytes) (mode : Merge)
  | commitStaged

/-- The command that a code and its arguments stand for, or the response to a malformed one. -/
def parseCommand (idBase opCode : UInt32) (args : Bytes) : Except CmdResponse Command :=
  match (opCode - idBase).toNat with
  | 0 => if args.length ≠ 0 then .error .formatError else .ok .saveFile
  | 1 =>
    match deserializeString cmdStringMaxSize args with
    | .error _ => .error .formatError
    | .ok (fileName, left) =>
      match deserializeU8 left with
      | .error _ => .error .formatError
      | .ok (mergeRaw, left) =>
        if mergeRaw > 1 then .error .validationError
        else if left.length ≠ 0 then .error .formatError
        else .ok (.loadFile fileName (if mergeRaw = 0 then .merge else .reset))
  | 2 => if args.length ≠ 0 then .error .formatError else .ok .commitStaged
  | _ => .error .invalidOpcode

def cmdInHandler (idBase : UInt32) (disk : Disk) (opCode cmdSeq : UInt32) (args : Bytes) :
    Handler :=
  match parseCommand idBase opCode args with
  | .error response => return .ok [.cmdResponse opCode cmdSeq response]
  | .ok .saveFile => prmSaveFileCmdHandler disk opCode cmdSeq
  | .ok (.loadFile fileName mode) => prmLoadFileCmdHandler disk opCode cmdSeq fileName mode
  | .ok .commitStaged => prmCommitStagedCmdHandler opCode cmdSeq

inductive Request where
  | setPrm (id : UInt32) (val : ParamBuffer)
  | pingIn (key : UInt32)
  | cmdIn (opCode cmdSeq : UInt32) (args : Bytes)

def handle (idBase : UInt32) (disk : Disk) : Request → Handler
  | .setPrm id val => setPrmHandler id val
  | .pingIn key => return .ok [.pingOut key]
  | .cmdIn opCode cmdSeq args => cmdInHandler idBase disk opCode cmdSeq args

inductive Task where
  | waiting
  | busy (request : Request) (disk : Disk) (rest : Handler)
  | aborted (assertion : Assertion)

/-- What can be seen from outside: the answer to a read, and a request that has been handled. -/
inductive Observation where
  | got (id : UInt32) (val : ParamBuffer) (answer : ParamValid × ParamBuffer) (outs : List Out)
  | handled (request : Request) (disk : Disk) (outs : List Out)

structure World where
  state : State
  notFoundCount : Nat
  task : Task
  observed : List Observation

/-- The thread takes the next request, or goes through its next section; a parameter is read. -/
inductive Input where
  | dispatch (request : Request) (disk : Disk)
  | advance
  | getPrm (id : UInt32) (val : ParamBuffer)

namespace World

def new (s : State) : World :=
  ⟨s, 0, .waiting, []⟩

def arrive (w : World) (request : Request) (disk : Disk) : Handler → World
  | .done (.ok outs) =>
    { w with task := .waiting, observed := w.observed ++ [.handled request disk outs] }
  | .done (.error assertion) => { w with task := .aborted assertion }
  | .locked f next => { w with task := .busy request disk (.locked f next) }

/-- A request waits while another one is handled, and nothing happens after an assertion. -/
def step (idBase : UInt32) (w : World) : Input → World
  | .dispatch request disk =>
    match w.task with
    | .waiting => w.arrive request disk (handle idBase disk request)
    | _ => w
  | .advance =>
    match w.task with
    | .busy request disk (.locked f next) =>
      { w with state := f w.state }.arrive request disk (next w.state)
    | _ => w
  | .getPrm id val =>
    match w.task with
    | .aborted _ => w
    | _ =>
      let (answer, value, notFoundCount, outs) := getPrmHandler w.state w.notFoundCount id val
      { w with
        notFoundCount := notFoundCount
        observed := w.observed ++ [.got id val (answer, value) outs] }

end World

end Fprime.Svc.PrmDb
