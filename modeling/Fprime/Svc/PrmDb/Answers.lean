import Fprime.Svc.PrmDb

/-!
# Commands are answered

Whatever the arguments of a command and whatever becomes of the files, a command gets one response;
the exception is a load whose file name is no text, or empty, which trips an assertion.
-/

namespace Fprime.Svc.PrmDb

open Fw FwString Os Lib Runs Thread

def Out.response : Out → Option (UInt32 × UInt32 × CmdResponse)
  | cmdResponse opCode cmdSeq response => some (opCode, cmdSeq, response)
  | _ => none

def Answered (opCode cmdSeq : UInt32) (r : Except Assertion (List Out)) : Prop :=
  ∃ outs response, r = .ok outs ∧ outs.filterMap Out.response = [(opCode, cmdSeq, response)]

variable {s : State} {opCode cmdSeq : UInt32}

theorem answered_events (events : List Event) (response : CmdResponse) :
    Answered opCode cmdSeq (.ok (events.map .event ++ [.cmdResponse opCode cmdSeq response])) := by
  have hnone : (events.map Out.event).filterMap Out.response = [] := by
    rw [List.filterMap_map]
    exact List.filterMap_eq_nil_iff.mpr fun _ _ => rfl
  refine ⟨_, response, rfl, ?_⟩
  rw [List.filterMap_append, hnone]
  rfl

theorem readField_ne_assertion {file : ParamFile} {size record : Nat} {e e' : PrmReadError} :
    readField file size record e e' ≠ .error .assertion := by
  intro h
  unfold readField at h
  split at h
  · split_ifs at h
    cases h
  · cases h

theorem readRecord_ne_assertion (file : ParamFile) (record : Nat) :
    readRecord file record ≠ .error .assertion := by
  intro h
  unfold readRecord at h
  rcases bind_eq_error.mp h with hdelim | ⟨f1, -, h⟩
  · unfold readDelimiter at hdelim
    split at hdelim
    · cases hdelim
    · split_ifs at hdelim
      cases hdelim
    · cases hdelim
    · cases hdelim
  rcases bind_eq_error.mp h with hfield | ⟨⟨sizeBytes, f2⟩, -, h⟩
  · exact readField_ne_assertion hfield
  dsimp only at h
  split_ifs at h with hrange
  · rcases bind_eq_error.mp h with hfield | ⟨⟨idBytes, f3⟩, -, h⟩
    · exact readField_ne_assertion hfield
    rcases bind_eq_error.mp h with hfield | ⟨⟨valueBytes, f4⟩, hvalue, h⟩
    · exact readField_ne_assertion hfield
    obtain ⟨-, hmax, hsub⟩ := recordSize_in_range hrange
    obtain ⟨hbytes, -⟩ := readField_eq_ok hvalue
    have hroom : valueBytes.length ≤ paramBufferMaxSize := by
      rw [hbytes, List.length_take, hsub]
      omega
    simp only [setBuff, dif_pos hroom] at h
    cases h
  · cases h

abbrev Passes {α : Type} (t : Thread State (Except Assertion α)) (s : State) : Prop :=
  t.Ends (fun _ => True) (fun _ r => ∃ a, r = .ok a) s

theorem passes_readRecords (dbType : PrmDbType) (n : Nat) (file : ParamFile) (counts : LoadCounts)
    (events : List Event) : Passes (readRecords dbType n file counts events) s := by
  induction n generalizing file counts events s with
  | zero => exact ⟨_, rfl⟩
  | succ n ih =>
    unfold readRecords
    split
    · exact ⟨_, rfl⟩
    · exact ⟨_, rfl⟩
    · next hread => exact absurd hread (readRecord_ne_assertion file counts.total)
    · exact ends_update trivial (ih _ _ _)

theorem passes_readParamFileWork (opened : FileStatus × ParamFile) (dbType : PrmDbType) :
    Passes (readParamFileWork opened dbType) s := by
  unfold readParamFileWork
  split
  · split
    · exact ⟨_, rfl⟩
    · exact ⟨_, rfl⟩
    · refine .bind_keeps ((passes_readRecords dbType numDbEntries _ {} []).mono ?_)
      rintro s' r ⟨result, rfl⟩
      refine ⟨trivial, ?_⟩
      split
      · next heq => cases heq
      · exact ⟨_, rfl⟩
      · split_ifs <;> exact ⟨_, rfl⟩
  · exact ⟨_, rfl⟩

variable (disk : Disk) {fileName : Bytes}

theorem passes_readParamFileImpl {fileName : Path} (h : fileName ≠ [])
    (dbType : PrmDbType) : Passes (readParamFileImpl disk fileName dbType) s := by
  unfold readParamFileImpl
  rw [if_neg h]
  refine ends_read trivial ?_
  dsimp only
  split_ifs
  · split
    · split_ifs
      · exact passes_readParamFileWork _ _
      · exact passes_readParamFileWork _ _
    · exact passes_readParamFileWork _ _
  · exact passes_readParamFileWork _ _

theorem saveFile_answered (hconfigured : asStr s.fileName ≠ []) :
    (prmSaveFileCmdHandler disk opCode cmdSeq).Ends (fun _ => True)
      (fun _ r => Answered opCode cmdSeq r) s := by
  refine ends_read trivial ?_
  split_ifs
  · exact answered_events [_] _
  refine ends_read trivial ?_
  dsimp only
  rw [if_neg hconfigured]
  split
  · refine ends_read trivial ?_
    split
    split <;> exact answered_events [_] _
  · exact answered_events [_] _

theorem commitStaged_answered :
    (prmCommitStagedCmdHandler opCode cmdSeq).Ends (fun _ => True)
      (fun _ r => Answered opCode cmdSeq r) s := by
  refine ends_read trivial ?_
  split_ifs
  · exact answered_events [_] _
  · exact ends_modify_last (answered_events [_] _)

theorem ends_loadFile {mode : Merge}
    {Q : Except Assertion (List Out) → Prop} (hidle : s.loadState = .idle)
    (hread : ∀ s, (readParamFileImpl disk (asStr fileName) .dbStaging).Ends (fun _ => True)
      (fun _ r => match r with
        | .error assertion => Q (.error assertion)
        | .ok _ => ∀ (events : List Event) response,
          Q (.ok (events.map .event ++ [.cmdResponse opCode cmdSeq response]))) s) :
    (prmLoadFileCmdHandler disk opCode cmdSeq fileName mode).Ends (fun _ => True)
      (fun _ r => Q r) s := by
  refine ends_read trivial ?_
  rw [hidle, if_neg (by decide)]
  refine ends_modify trivial (.bind_keeps (Thread.Ends.mono (Q := fun _ _ => True) ?_ ?_))
  · cases mode with
    | merge | reset => exact ends_modify_last trivial
  intro s1 copied _
  refine ⟨trivial, .bind_keeps ((hread s1).mono fun s2 r hr => ⟨trivial, ?_⟩)⟩
  split
  · exact hr
  · exact ends_modify_last (hr _ _)
  · exact ends_modify_last (hr _ _)

theorem loadFile_answered {mode : Merge}
    (h : s.loadState = .idle → asStr fileName ≠ []) :
    (prmLoadFileCmdHandler disk opCode cmdSeq fileName mode).Ends (fun _ => True)
      (fun _ r => Answered opCode cmdSeq r) s := by
  by_cases hidle : s.loadState = .idle
  · refine ends_loadFile disk hidle fun s1 =>
      (passes_readParamFileImpl disk (h hidle) .dbStaging).mono ?_
    rintro s2 r ⟨result, rfl⟩
    exact fun events response => answered_events events response
  · refine ends_read trivial ?_
    rw [if_pos hidle]
    exact answered_events [_] _

theorem loadFile_aborts {mode : Merge}
    (hidle : s.loadState = .idle) (h : asStr fileName = []) :
    (prmLoadFileCmdHandler disk opCode cmdSeq fileName mode).Ends (fun _ => True)
      (fun _ r => r = .error .fileName) s := by
  refine ends_loadFile disk hidle fun s1 => ?_
  rw [readParamFileImpl, if_pos h]
  exact rfl

def NamesNoFile (idBase opCode : UInt32) (args : Bytes) (s : State) : Prop :=
  s.loadState = .idle ∧ ∃ fileName mode,
    parseCommand idBase opCode args = .ok (.loadFile fileName mode) ∧ asStr fileName = []

/-- With a parameter file configured, a command gets one response and trips no assertion, unless it
is a load of a file without a name. -/
theorem command_answered_iff (idBase opCode cmdSeq : UInt32) (args : Bytes) (disk : Disk)
    (s : State) (hconfigured : asStr s.fileName ≠ []) :
    (cmdInHandler idBase disk opCode cmdSeq args).Ends (fun _ => True)
        (fun _ r => Answered opCode cmdSeq r) s ↔ ¬NamesNoFile idBase opCode args s := by
  unfold cmdInHandler
  constructor
  · rintro h ⟨hidle, fileName, mode, hparse, hname⟩
    rw [hparse] at h
    obtain ⟨_, r, ⟨outs, _, hok, -⟩, herror⟩ := h.meet (loadFile_aborts disk hidle hname)
    rw [hok] at herror
    cases herror
  · intro hnamed
    cases hparse : parseCommand idBase opCode args with
    | error response => exact answered_events [] response
    | ok command =>
      cases command with
      | saveFile => exact saveFile_answered disk hconfigured
      | loadFile fileName mode =>
        exact loadFile_answered disk fun hidle hname =>
          hnamed ⟨hidle, fileName, mode, hparse, hname⟩
      | commitStaged => exact commitStaged_answered

def configured : State :=
  { State.new with fileName := [97] }

def noFiles : Disk where
  resolveFromCwd := some
  checkContainment _ _ := true
  openRead _ := (.doesntExist, { contents := [] })
  openWrite _ := (.doesntExist, { contents := [] })

theorem asStr_a : asStr [97] ≠ [] := by decide +kernel

theorem command_answered_missing_file :
    asStr configured.fileName ≠ [] ∧
      (cmdInHandler 0 noFiles 1 0 [0, 1, 97, 0]).Ends (fun _ => True)
        (fun _ r => Answered 1 0 r) configured := by
  refine ⟨asStr_a, (command_answered_iff 0 1 0 [0, 1, 97, 0] noFiles configured asStr_a).mpr ?_⟩
  rintro ⟨-, fileName, mode, hparse, hname⟩
  cases (show parseCommand 0 1 [0, 1, 97, 0] = .ok (.loadFile [97] .merge) from rfl).symm.trans hparse
  exact asStr_a hname

theorem load_without_name_aborts :
    asStr configured.fileName ≠ [] ∧
      (cmdInHandler 0 noFiles 1 0 [0, 0, 0]).Ends (fun _ => True)
        (fun _ r => r = .error .fileName) configured := by
  have haborts := @loadFile_aborts configured 1 0 noFiles [] .merge rfl (ite_self _)
  exact ⟨asStr_a, haborts⟩

end Fprime.Svc.PrmDb
