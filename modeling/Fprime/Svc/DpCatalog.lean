import Fprime.Fw.FilePacket
import Fprime.Lib.SortedSet
import Mathlib.Data.Nat.Digits.Defs

/-!
# The data product catalog

The component that scans directories for data products and has them sent, the most urgent first, one
file at a time. Events are left out.
-/

namespace Fprime.Svc

open Fw FwString Nat UInt32

namespace DpCatalog

def dpMaxDirectories : Nat := 2

def dpMaxFiles : Nat := 127

def minPacketSize : Nat := 65

inductive DpState where
  | untransmitted
  | partially
  | transmitted
  deriving DecidableEq

structure DpRecord where
  id : UInt32
  tSec : UInt32
  tSub : UInt32
  priority : UInt32
  size : UInt64
  blocks : UInt32
  state : DpState
  deriving DecidableEq

def DpRecord.default : DpRecord :=
  ⟨0, 0, 0, 0, 0, 0, .untransmitted⟩

structure DpStateEntry where
  dir : Int
  record : DpRecord
  deriving DecidableEq

def DpStateEntry.default : DpStateEntry :=
  ⟨0, .default⟩

def compareU32 (a b : UInt32) : Ordering :=
  if a < b then .lt else if b < a then .gt else .eq

/-- By priority, time and identifier; the directory does not count. -/
def compareEntries (left right : DpStateEntry) : Ordering :=
  (compareU32 left.record.priority right.record.priority).then
    ((compareU32 left.record.tSec right.record.tSec).then
      ((compareU32 left.record.tSub right.record.tSub).then
        (compareU32 left.record.id right.record.id)))

def DpStateEntry.rank (entry : DpStateEntry) : Nat :=
  ((entry.record.priority.toNat * 2 ^ 32 + entry.record.tSec.toNat) * 2 ^ 32 +
    entry.record.tSub.toNat) * 2 ^ 32 + entry.record.id.toNat

theorem compareU32_eq (a b : UInt32) : compareU32 a b = compare a.toNat b.toNat := by
  rw [compareU32, compare_eq_ite_lt]
  rfl

theorem compare_then {a b c d base : Nat} (hc : c < base) (hd : d < base) :
    (compare a b).then (compare c d) = compare (a * base + c) (b * base + d) := by
  rcases lt_trichotomy a b with h | rfl | h
  · have hle : (a + 1) * base ≤ b * base := mul_le_mul_right base h
    have hlt : a * base + c < b * base + d := by
      rw [succ_mul] at hle
      omega
    rw [Nat.compare_eq_lt.mpr h, Nat.compare_eq_lt.mpr hlt]
    rfl
  · rw [Nat.compare_eq_eq.mpr rfl, Nat.compare_eq_ite_lt, Nat.compare_eq_ite_lt]
    simp
  · have hle : (b + 1) * base ≤ a * base := mul_le_mul_right base h
    have hlt : b * base + d < a * base + c := by
      rw [succ_mul] at hle
      omega
    rw [Nat.compare_eq_gt.mpr h, Nat.compare_eq_gt.mpr hlt]
    rfl

theorem compareEntries_eq (left right : DpStateEntry) :
    compareEntries left right = compare left.rank right.rank := by
  simp only [compareEntries, compareU32_eq, DpStateEntry.rank]
  rw [← Ordering.then_assoc, ← Ordering.then_assoc]
  rw [compare_then (toNat_lt _) (toNat_lt _),
    compare_then (toNat_lt _) (toNat_lt _),
    compare_then (toNat_lt _) (toNat_lt _)]

structure DpStateFileEntry where
  used : Bool
  visited : Bool
  entry : DpStateEntry

abbrev Catalog := Lib.SortedSet DpStateEntry.rank dpMaxFiles

abbrev SendFileNameArg := FwString 100

def digits8 (n : Nat) : Bytes :=
  let digits := (digits 10 n).reverse
  (List.replicate (8 - digits.length) 0 ++ digits).map fun d => 48 + UInt8.ofNat d

def dpExt : Bytes := [46, 102, 100, 112]

def formatDpFileName (baseDir : Bytes) (id seconds useconds : UInt32) :
    FileNameString × Bool :=
  let formatted := baseDir ++ [47, 68, 112, 95] ++ digits8 id.toNat ++ 95 ::
    digits8 seconds.toNat ++ 95 :: digits8 useconds.toNat ++ dpExt
  (.setBytes _ formatted, formatted.length ≤ fileNameStringSize)

structure FileInfo where
  size : UInt64
  dataSize : UInt16
  id : UInt32
  seconds : UInt32
  useconds : UInt32
  priority : UInt32
  state : DpState

inductive StateRead where
  | failed
  | truncated
  | malformed
  | line (dir : Int) (record : DpRecord)

/-- The state file: it is not there, cannot be opened, or is read record by record. -/
inductive StateFile where
  | doesntExist
  | openError
  | reads (reads : List StateRead)

structure Env where
  stateFile : StateFile
  /-- The names in a directory up to the first error, if it can be opened. -/
  directory : Bytes → Option (List (Option FileNameString))
  file : Bytes → Option FileInfo
  accepts : Bool

inductive Out where
  | cmdResponse (opCode cmdSeq : UInt32) (response : CmdResponse)
  | fileOut (entry : DpStateEntry) (name : SendFileNameArg)
  | writeState (lines : List DpStateEntry)
  | appendState (entry : DpStateEntry)

inductive Assertion where
  | noCurrentXmit
  | notRemoved
  | underflow
  | noMemory
  | directory
  deriving DecidableEq

end DpCatalog

open DpCatalog

structure DpCatalog where
  idBase : UInt32
  initialized : Bool
  catalog : Catalog
  currentXmitEntry : DpStateEntry
  hasCurrentXmit : Bool
  numDpSlots : Nat
  directories : List FileNameString
  stateFile : FileNameString
  /-- The lines of the state file; there is one slot for each product. -/
  stateFileData : List DpStateFileEntry
  catalogBuilt : Bool
  xmitInProgress : Bool
  currXmitFileName : FileNameString
  xmitCmdWait : Bool
  xmitBytes : UInt64
  xmitOpCode : UInt32
  xmitCmdSeq : UInt32
  pendingFiles : Nat
  pendingDpBytes : UInt64
  remainActive : Bool

namespace DpCatalog

def configured (idBase : UInt32) (directories : List FileNameString) (stateFile : FileNameString)
    (slots : Nat) : DpCatalog where
  idBase := idBase
  initialized := true
  catalog := .empty
  currentXmitEntry := .default
  hasCurrentXmit := false
  numDpSlots := min slots dpMaxFiles
  directories := directories.take dpMaxDirectories
  stateFile := stateFile
  stateFileData := []
  catalogBuilt := false
  xmitInProgress := false
  currXmitFileName := .new
  xmitCmdWait := false
  xmitBytes := 0
  xmitOpCode := 0
  xmitCmdSeq := 0
  pendingFiles := 0
  pendingDpBytes := 0
  remainActive := false

variable (env : Env) (s : DpCatalog)

def directoryName (dir : Nat) : Bytes :=
  asStr (s.directories.getD dir .new).bytes

def resetCatalog : DpCatalog :=
  { s with
    catalog := .empty
    hasCurrentXmit := false
    pendingFiles := 0
    pendingDpBytes := 0
    catalogBuilt := false }

def resetStateFileData : DpCatalog :=
  { s with stateFileData := [] }

def checkInit : Bool :=
  s.initialized && s.numDpSlots != 0

/-- Read the lines of the state file into the slots; without a result it cannot be used. -/
def loadLines : Nat → List StateRead → Option (List DpStateFileEntry)
  | 0, _ => some []
  | _ + 1, [] => some []
  | _ + 1, .failed :: _ => none
  | _ + 1, .malformed :: _ => none
  | _ + 1, .truncated :: _ => some []
  | slots + 1, .line dir record :: rest =>
    (loadLines slots rest).map fun lines => ⟨true, false, ⟨dir, record⟩⟩ :: lines

def loadStateFile : Option DpCatalog :=
  if s.stateFile.bytes = [] then some s
  else
    match env.stateFile with
    | .doesntExist => some s
    | .openError => none
    | .reads reads => (loadLines s.numDpSlots reads).map fun lines =>
        { s with stateFileData := lines }

/-- Take the state of a product over from the first line about it. -/
def getFileState (entry : DpStateEntry) :
    List DpStateFileEntry → DpStateEntry × List DpStateFileEntry
  | [] => (entry, [])
  | line :: rest =>
    if line.entry.dir = entry.dir ∧ compareEntries line.entry entry = .eq then
      ({ entry with record := { entry.record with
          state := line.entry.record.state
          blocks := line.entry.record.blocks } },
        { line with visited := true } :: rest)
    else
      let (entry, rest) := getFileState entry rest
      (entry, line :: rest)

def pruneAndWriteStateFile : List Out :=
  [.writeState ((s.stateFileData.filter fun line => line.used && line.visited).map
    DpStateFileEntry.entry)]

inductive ProcessFileStatus where
  | success
  | failed
  | quit

def insertEntry (entry : DpStateEntry) : ProcessFileStatus × DpCatalog :=
  if s.catalog.find entry then (.failed, s)
  else
    match s.catalog.insert entry with
    | none => (.quit, s)
    | some catalog =>
      let s := { s with
        catalog := catalog
        pendingFiles := s.pendingFiles + 1
        pendingDpBytes := s.pendingDpBytes + entry.record.size }
      if s.numDpSlots < s.pendingFiles then (.quit, s) else (.success, s)

def processFile (fullFile : Bytes) (dir : Nat) :
    ProcessFileStatus × DpCatalog :=
  match env.file fullFile with
  | none => (.failed, s)
  | some info =>
    if info.size.toNat < minPacketSize ∨ info.dataSize.toNat ≠ info.size.toNat - minPacketSize then
      (.failed, s)
    else
      let (canonical, fits) :=
        formatDpFileName (s.directoryName dir) info.id info.seconds info.useconds
      if ¬fits then (.failed, s)
      else if canonical.bytes ≠ fullFile then (.failed, s)
      else if info.state = .transmitted then (.failed, s)
      else
        let (entry, lines) := getFileState ⟨dir, ⟨info.id, info.seconds, info.useconds,
          info.priority, info.size, 0, info.state⟩⟩ s.stateFileData
        { s with stateFileData := lines }.insertEntry entry

/-- The files of a directory; without a result the directory cannot be read. -/
def processFiles (env : Env) (dir : Nat) (total : Nat) :
    List (Option FileNameString) → DpCatalog → Nat → Option (DpCatalog × Nat)
  | [], s, processed => some (s, processed)
  | none :: _, _, _ => none
  | some fileName :: rest, s, processed =>
    let name := asStr fileName.bytes
    if ¬dpExt.isSuffixOf name then processFiles env dir total rest s processed
    else if total + processed = s.numDpSlots then some (s, processed)
    else
      let fullFile := s.directoryName dir ++ 47 :: name
      if 256 < fullFile.length then processFiles env dir total rest s processed
      else
        match s.processFile env fullFile dir with
        | (.quit, s) => some (s, processed)
        | (.success, s) => processFiles env dir total rest s (processed + 1)
        | (.failed, s) => processFiles env dir total rest s processed

def fillCatalog (env : Env) : List Nat → DpCatalog → Nat → Option DpCatalog
  | [], s, _ => some s
  | dir :: dirs, s, total =>
    match env.directory (s.directoryName dir) with
    | none => none
    | some names =>
      match processFiles env dir total names s 0 with
      | none => none
      | some (s, processed) =>
        if total + processed = s.numDpSlots then some s
        else fillCatalog env dirs s (total + processed)

def doCatalogBuild : CmdResponse × DpCatalog × List Out :=
  if ¬s.checkInit then (.executionError, s, [])
  else if s.xmitInProgress then (.executionError, s, [])
  else
    match s.resetStateFileData.loadStateFile env with
    | none => (.executionError, s.resetStateFileData, [])
    | some loaded =>
      match fillCatalog env (List.range loaded.directories.length) loaded.resetCatalog 0 with
      | none => (.executionError, loaded.resetCatalog.resetStateFileData, [])
      | some filled => (.ok, { filled with catalogBuilt := true }, filled.pruneAndWriteStateFile)

def dispatchWaitedResponse (response : CmdResponse) : DpCatalog × List Out :=
  if s.xmitCmdWait then
    ({ s with xmitCmdWait := false, xmitOpCode := 0, xmitCmdSeq := 0 },
      [.cmdResponse s.xmitOpCode s.xmitCmdSeq response])
  else (s, [])

def haltXmit (response : CmdResponse) : DpCatalog × List Out :=
  { s with hasCurrentXmit := false, xmitInProgress := false }.dispatchWaitedResponse response

def sendNextEntry : DpCatalog × List Out :=
  if ¬s.xmitInProgress then (s, [])
  else
    match s.catalog.first with
    | none => { s with xmitInProgress := false }.dispatchWaitedResponse .ok
    | some entry =>
      let (fileName, fits) := formatDpFileName (s.directoryName entry.dir.toNat) entry.record.id
        entry.record.tSec entry.record.tSub
      let s := { s with
        currentXmitEntry := entry
        hasCurrentXmit := true
        currXmitFileName := fileName }
      if ¬fits then s.haltXmit .executionError
      else
        let request := Out.fileOut entry (.setBytes _ fileName.bytes)
        if env.accepts then (s, [request])
        else
          let (s, outs) := s.haltXmit .executionError
          (s, request :: outs)

def doCatalogXmit : CmdResponse × DpCatalog × List Out :=
  if ¬s.checkInit then (.executionError, s, [])
  else if s.xmitInProgress then (.executionError, s, [])
  else if ¬s.catalogBuilt then (.executionError, s, [])
  else
    let (s, outs) := { s with xmitBytes := 0, xmitInProgress := true }.sendNextEntry env
    (.ok, s, outs)

/-- Take the counts of a file that has been sent down. -/
def countDown (size : UInt64) : Except Assertion DpCatalog :=
  if s.pendingDpBytes < size ∨ s.pendingFiles = 0 then .error .underflow
  else .ok { s with
    pendingDpBytes := s.pendingDpBytes - size
    pendingFiles := s.pendingFiles - 1 }

/-- A file has been sent, and the next one is. Which file it was is not said. -/
def fileDoneHandler (ok : Bool) :
    Except Assertion (DpCatalog × List Out) :=
  if ¬ok then .ok ({ s with xmitInProgress := false }.dispatchWaitedResponse .executionError)
  else if ¬s.catalogBuilt then .ok (s.haltXmit .executionError)
  else if ¬s.hasCurrentXmit then .error .noCurrentXmit
  else do
    let entry := { s.currentXmitEntry with
      record := { s.currentXmitEntry.record with state := .transmitted } }
    let s ← s.countDown entry.record.size
    if s.numDpSlots = 0 then throw .noMemory
    if entry.dir < 0 ∨ s.directories.length ≤ entry.dir.toNat then throw .directory
    match s.catalog.remove entry with
    | none => throw .notRemoved
    | some catalog =>
      let (s, outs) := { s with
        currentXmitEntry := entry
        xmitBytes := s.xmitBytes + entry.record.size
        catalog := catalog
        hasCurrentXmit := false }.sendNextEntry env
      return (s, .appendState entry :: outs)

def determineDirectory (path : Bytes) : Option Nat :=
  if 47 ∈ path then
    let holder := (path.reverse.dropWhile (· ≠ 47)).tail.reverse
    (List.range s.directories.length).find? fun dir => (s.directories.getD dir .new).bytes = holder
  else none

def addToCatHandler (fileName : FileNameString) :
    DpCatalog × List Out :=
  if ¬s.checkInit then (s, [])
  else if ¬s.catalogBuilt then (s, [])
  else
    match s.determineDirectory (asStr fileName.bytes) with
    | none => (s, [])
    | some dir =>
      match s.processFile env (asStr fileName.bytes) dir with
      | (.success, s) =>
        let (s, outs) := if ¬s.xmitInProgress ∧ s.remainActive then
            { s with xmitInProgress := true }.sendNextEntry env
          else (s, [])
        (s, outs ++ s.pruneAndWriteStateFile)
      | (_, s) => (s, [])

def buildCatalogCmdHandler (opCode cmdSeq : UInt32) :
    DpCatalog × List Out :=
  let (response, s, outs) := s.doCatalogBuild env
  (s, outs ++ [.cmdResponse opCode cmdSeq response])

/-- The slot of the waiting command is filled before the request is looked at, and emptied when it
is refused. -/
def startXmitCatalogCmdHandler (opCode cmdSeq : UInt32)
    (wait remainActive : Bool) : DpCatalog × List Out :=
  let s := { s with remainActive := remainActive }
  let s := if wait then
      { s with xmitCmdWait := true, xmitOpCode := opCode, xmitCmdSeq := cmdSeq }
    else s
  let (response, s, outs) := s.doCatalogXmit env
  if response ≠ .ok then
    ({ s with xmitCmdWait := false, xmitOpCode := 0, xmitCmdSeq := 0 },
      outs ++ [.cmdResponse opCode cmdSeq response])
  else if wait then (s, outs)
  else (s, outs ++ [.cmdResponse opCode cmdSeq response])

def stopXmitCatalogCmdHandler (opCode cmdSeq : UInt32) : DpCatalog × List Out :=
  if ¬s.xmitInProgress then (s, [.cmdResponse opCode cmdSeq .ok])
  else
    let (s, outs) := { s with xmitInProgress := false }.dispatchWaitedResponse .ok
    (s, outs ++ [.cmdResponse opCode cmdSeq .ok])

/-- The transmission is neither looked at nor stopped. -/
def clearCatalogCmdHandler (opCode cmdSeq : UInt32) : DpCatalog × List Out :=
  (s.resetCatalog.resetStateFileData, [.cmdResponse opCode cmdSeq .ok])

def startArgs : Bytes → Except CmdResponse (Bool × Bool)
  | [] => .error .formatError
  | wait :: rest =>
    if 1 < wait then .error .validationError
    else
      match rest with
      | [0xFF] => .ok (wait = 0, true)
      | [0] => .ok (wait = 0, false)
      | _ => .error .formatError

def opcodeBuildCatalog : UInt32 := 0

def opcodeStartXmitCatalog : UInt32 := 1

def opcodeStopXmitCatalog : UInt32 := 2

def opcodeClearCatalog : UInt32 := 3

def plainCommand (opCode cmdSeq : UInt32) (args : Bytes)
    (handler : DpCatalog × List Out) : DpCatalog × List Out :=
  if args ≠ [] then (s, [.cmdResponse opCode cmdSeq .formatError]) else handler

def handleCommand (opCode cmdSeq : UInt32) (args : Bytes) :
    DpCatalog × List Out :=
  if opCode - s.idBase = opcodeBuildCatalog then
    s.plainCommand opCode cmdSeq args (s.buildCatalogCmdHandler env opCode cmdSeq)
  else if opCode - s.idBase = opcodeStartXmitCatalog then
    match startArgs args with
    | .error response => (s, [.cmdResponse opCode cmdSeq response])
    | .ok (wait, remainActive) =>
      s.startXmitCatalogCmdHandler env opCode cmdSeq wait remainActive
  else if opCode - s.idBase = opcodeStopXmitCatalog then
    s.plainCommand opCode cmdSeq args (s.stopXmitCatalogCmdHandler opCode cmdSeq)
  else if opCode - s.idBase = opcodeClearCatalog then
    s.plainCommand opCode cmdSeq args (s.clearCatalogCmdHandler opCode cmdSeq)
  else (s, [.cmdResponse opCode cmdSeq .invalidOpcode])

end DpCatalog

end Fprime.Svc
