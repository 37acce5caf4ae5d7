import Fprime.Svc.DpCatalog.Sending

/-!
# What can come of a message to the data product catalog

For each message the possible outcomes, and what holds of the component after any of them.
-/

namespace Fprime.Svc.DpCatalog

open Fw FwString Lib

inductive Message where
  | cmd (opCode cmdSeq : UInt32) (args : Bytes)
  | addToCat (fileName : FileNameString)
  | fileDone (ok : Bool)

variable (env : Env)

def receive (s : DpCatalog) : Message → Except Assertion (DpCatalog × List Out)
  | .cmd opCode cmdSeq args => .ok (s.handleCommand env opCode cmdSeq args)
  | .addToCat fileName => .ok (s.addToCatHandler env fileName)
  | .fileDone ok => s.fileDoneHandler env ok

def isPlain (s : DpCatalog) (opcode : UInt32) : Message → Bool
  | .cmd opCode _ args => opCode - s.idBase = opcode && args.isEmpty
  | _ => false

def isStart (s : DpCatalog) : Message → Bool
  | .cmd opCode _ args => opCode - s.idBase = opcodeStartXmitCatalog && (startArgs args).isOk
  | _ => false

def starting (s : DpCatalog) (opCode cmdSeq : UInt32) (wait remainActive : Bool) : DpCatalog :=
  { s with
    remainActive := remainActive
    xmitCmdWait := if wait then true else s.xmitCmdWait
    xmitOpCode := if wait then opCode else s.xmitOpCode
    xmitCmdSeq := if wait then cmdSeq else s.xmitCmdSeq
    xmitBytes := 0
    xmitInProgress := true }

def completed (s : DpCatalog) (catalog : Catalog) : DpCatalog :=
  { s with
    pendingDpBytes := s.pendingDpBytes - s.currentXmitEntry.record.size
    pendingFiles := s.pendingFiles - 1
    currentXmitEntry := { s.currentXmitEntry with
      record := { s.currentXmitEntry.record with state := .transmitted } }
    xmitBytes := s.xmitBytes + s.currentXmitEntry.record.size
    catalog := catalog
    hasCurrentXmit := false }

inductive Outcome (env : Env) (s : DpCatalog) : Message → DpCatalog → List Out → Prop
  | answered {opCode cmdSeq : UInt32} {args : Bytes} (response : CmdResponse)
      (lines : List DpStateFileEntry) :
      Outcome env s (.cmd opCode cmdSeq args) { s with stateFileData := lines }
        [.cmdResponse opCode cmdSeq response]
  | rebuilt {opCode cmdSeq : UInt32} {args : Bytes} {s' : DpCatalog} {outs : List Out}
      (hbuild : s.isPlain opcodeBuildCatalog (.cmd opCode cmdSeq args)) (h : Rebuilt s s')
      (hresponses : responses outs = [(opCode, cmdSeq)]) (hrequests : requests outs = [])
      (hrecords : records outs = []) :
      Outcome env s (.cmd opCode cmdSeq args) s' outs
  | turnedAway {opCode cmdSeq : UInt32} {args : Bytes} (remainActive : Bool)
      (hstart : s.isStart (.cmd opCode cmdSeq args)) :
      Outcome env s (.cmd opCode cmdSeq args)
        { s with
          remainActive := remainActive
          xmitCmdWait := false
          xmitOpCode := 0
          xmitCmdSeq := 0 }
        [.cmdResponse opCode cmdSeq .executionError]
  | started {opCode cmdSeq : UInt32} {args : Bytes} {r : DpCatalog × List Out}
      (wait remainActive : Bool) (hstart : s.isStart (.cmd opCode cmdSeq args))
      (hidle : s.xmitInProgress = false) (hbuilt : s.catalogBuilt = true)
      (h : Advances env (s.starting opCode cmdSeq wait remainActive) r) :
      Outcome env s (.cmd opCode cmdSeq args) r.1
        (r.2 ++ if wait then [] else [.cmdResponse opCode cmdSeq .ok])
  | stopped {opCode cmdSeq : UInt32} {args : Bytes} :
      Outcome env s (.cmd opCode cmdSeq args)
        ({ s with xmitInProgress := false }.dispatchWaitedResponse .ok).1
        (({ s with xmitInProgress := false }.dispatchWaitedResponse .ok).2 ++
          [.cmdResponse opCode cmdSeq .ok])
  | cleared {opCode cmdSeq : UInt32} {args : Bytes}
      (hclear : s.isPlain opcodeClearCatalog (.cmd opCode cmdSeq args)) :
      Outcome env s (.cmd opCode cmdSeq args) s.resetCatalog.resetStateFileData
        [.cmdResponse opCode cmdSeq .ok]
  | added {fileName : FileNameString} {s' : DpCatalog} {outs : List Out} (h : Grows s s')
      (hresponses : responses outs = []) (hrequests : requests outs = [])
      (hrecords : records outs = []) :
      Outcome env s (.addToCat fileName) s' outs
  | resumed {fileName : FileNameString} {s₁ : DpCatalog} {r : DpCatalog × List Out}
      (hgrows : Grows s s₁) (hidle : s.xmitInProgress = false) (hactive : s.remainActive = true)
      (h : Advances env { s₁ with xmitInProgress := true } r) (lines : List DpStateEntry) :
      Outcome env s (.addToCat fileName) r.1 (r.2 ++ [.writeState lines])
  | halted {ok : Bool} {r : DpCatalog × List Out} (h : Advances env s r)
      (hidle : r.1.xmitInProgress = false) :
      Outcome env s (.fileDone ok) r.1 r.2
  | completed {catalog : Catalog} {r : DpCatalog × List Out} (hcurrent : s.hasCurrentXmit = true)
      (hbuilt : s.catalogBuilt = true)
      (hcatalog : s.catalog.entries.Perm (s.currentXmitEntry :: catalog.entries))
      (h : Advances env (s.completed catalog) r) :
      Outcome env s (.fileDone true) r.1
        (.appendState (s.completed catalog).currentXmitEntry :: r.2)

variable {s s' : DpCatalog} {args : Bytes} {cmdSeq opCode : UInt32}

theorem isPlain_cmd {opcode : UInt32} (hop : opCode - s.idBase = opcode) (hargs : ¬args ≠ []) :
    s.isPlain opcode (.cmd opCode cmdSeq args) = true := by
  rw [isPlain, decide_eq_true hop, not_not.mp hargs]
  rfl

theorem isStart_cmd {read : Bool × Bool} (hop : opCode - s.idBase = opcodeStartXmitCatalog)
    (hargs : startArgs args = .ok read) : s.isStart (.cmd opCode cmdSeq args) = true := by
  rw [isStart, decide_eq_true hop, hargs]
  rfl

theorem buildCatalog_outcome
    (hbuild : s.isPlain opcodeBuildCatalog (.cmd opCode cmdSeq args)) :
    Outcome env s (.cmd opCode cmdSeq args) (s.buildCatalogCmdHandler env opCode cmdSeq).1
      (s.buildCatalogCmdHandler env opCode cmdSeq).2 := by
  have hspec := doCatalogBuild_spec env s
  rw [buildCatalogCmdHandler]
  generalize s.doCatalogBuild env = r at hspec
  obtain ⟨response, s', outs⟩ := r
  dsimp only at hspec ⊢
  rcases hspec with ⟨lines, heq⟩ | ⟨hrebuilt, houts⟩
  · cases heq
    exact .answered response lines
  · rcases houts with rfl | ⟨lines, rfl⟩ <;> exact .rebuilt hbuild hrebuilt rfl rfl rfl

theorem doCatalogXmit_spec (s : DpCatalog) :
    s.doCatalogXmit env = (.executionError, s, []) ∨
      (s.xmitInProgress = false ∧ s.catalogBuilt = true ∧
        s.doCatalogXmit env =
          (.ok, { s with xmitBytes := 0, xmitInProgress := true }.sendNextEntry env)) := by
  rw [doCatalogXmit]
  split
  · exact .inl rfl
  split
  · exact .inl rfl
  · next hidle =>
    split
    · exact .inl rfl
    · next hbuilt => exact .inr ⟨Bool.not_eq_true _ ▸ hidle, not_not.mp hbuilt, rfl⟩

theorem startXmitCatalog_outcome (wait remainActive : Bool)
    (hstart : s.isStart (.cmd opCode cmdSeq args)) :
    Outcome env s (.cmd opCode cmdSeq args)
      (s.startXmitCatalogCmdHandler env opCode cmdSeq wait remainActive).1
      (s.startXmitCatalogCmdHandler env opCode cmdSeq wait remainActive).2 := by
  -- the component as it is when the request is looked at
  have hhandler : s.startXmitCatalogCmdHandler env opCode cmdSeq wait remainActive =
      (fun r : CmdResponse × DpCatalog × List Out =>
        if r.1 ≠ .ok then
          ({ r.2.1 with xmitCmdWait := false, xmitOpCode := 0, xmitCmdSeq := 0 },
            r.2.2 ++ [.cmdResponse opCode cmdSeq r.1])
        else if wait then r.2
        else (r.2.1, r.2.2 ++ [.cmdResponse opCode cmdSeq r.1]))
      (doCatalogXmit env (if wait then { s with
          remainActive := remainActive
          xmitCmdWait := true
          xmitOpCode := opCode
          xmitCmdSeq := cmdSeq } else { s with remainActive := remainActive })) := rfl
  rw [hhandler]
  cases wait with
  | true =>
    rw [if_pos rfl]
    rcases doCatalogXmit_spec env { s with
        remainActive := remainActive
        xmitCmdWait := true
        xmitOpCode := opCode
        xmitCmdSeq := cmdSeq } with heq | ⟨hidle, hbuilt, heq⟩
    · rw [heq]
      exact .turnedAway remainActive hstart
    · rw [heq]
      have h := Outcome.started true remainActive hstart hidle hbuilt
        (sendNextEntry_advances env (s.starting opCode cmdSeq true remainActive))
      rw [if_pos rfl, List.append_nil] at h
      exact h
  | false =>
    rw [if_neg Bool.false_ne_true]
    rcases doCatalogXmit_spec env { s with remainActive := remainActive } with
      heq | ⟨hidle, hbuilt, heq⟩
    · rw [heq]
      exact .turnedAway remainActive hstart
    · rw [heq]
      exact .started false remainActive hstart hidle hbuilt
        (sendNextEntry_advances env (s.starting opCode cmdSeq false remainActive))

/-- A stop of no transmission is a stop too: there is nobody to answer. -/
theorem stopXmitCatalog_outcome :
    Outcome env s (.cmd opCode cmdSeq args) (s.stopXmitCatalogCmdHandler opCode cmdSeq).1
      (s.stopXmitCatalogCmdHandler opCode cmdSeq).2 := by
  rw [stopXmitCatalogCmdHandler]
  split
  · exact .answered .ok s.stateFileData
  · exact .stopped

theorem handleCommand_outcome (s : DpCatalog) (opCode cmdSeq : UInt32)
    (args : Bytes) :
    Outcome env s (.cmd opCode cmdSeq args) (s.handleCommand env opCode cmdSeq args).1
      (s.handleCommand env opCode cmdSeq args).2 := by
  have hplain : ∀ (opcode : UInt32) (handler : DpCatalog × List Out),
      opCode - s.idBase = opcode →
      (s.isPlain opcode (.cmd opCode cmdSeq args) →
        Outcome env s (.cmd opCode cmdSeq args) handler.1 handler.2) →
      Outcome env s (.cmd opCode cmdSeq args) (s.plainCommand opCode cmdSeq args handler).1
        (s.plainCommand opCode cmdSeq args handler).2 := by
    intro opcode handler hop h
    rw [plainCommand]
    split
    · exact .answered .formatError s.stateFileData
    · next hargs => exact h (isPlain_cmd hop hargs)
  rw [handleCommand]
  split
  · next hop => exact hplain _ _ hop (buildCatalog_outcome env)
  split
  · next hop =>
    split
    · next response _ => exact .answered response s.stateFileData
    · next wait remainActive hargs =>
      exact startXmitCatalog_outcome env wait remainActive (isStart_cmd hop hargs)
  split
  · next hop => exact hplain _ _ hop fun _ => stopXmitCatalog_outcome env
  split
  · next hop => exact hplain _ _ hop fun hclear => .cleared hclear
  · exact .answered .invalidOpcode s.stateFileData

theorem determineDirectory_lt {path : Bytes} {dir : Nat}
    (h : s.determineDirectory path = some dir) : dir < s.directories.length := by
  rw [determineDirectory] at h
  split at h
  · exact List.mem_range.mp (List.mem_of_find?_eq_some h)
  · cases h

theorem addToCat_outcome (s : DpCatalog) (fileName : FileNameString) :
    Outcome env s (.addToCat fileName) (s.addToCatHandler env fileName).1
      (s.addToCatHandler env fileName).2 := by
  rw [addToCatHandler]
  split
  · exact .added (.refl s) rfl rfl rfl
  split
  · exact .added (.refl s) rfl rfl rfl
  split
  · exact .added (.refl s) rfl rfl rfl
  · next dir hdir =>
    have hgrows := processFile_grows env s (asStr fileName.bytes) (determineDirectory_lt hdir)
    generalize s.processFile env (asStr fileName.bytes) dir = r at hgrows
    obtain ⟨status, s1⟩ := r
    cases status with
    | quit | failed => exact .added hgrows rfl rfl rfl
    | success =>
      dsimp only
      split
      · next hresume =>
        have hsame : s1.xmitInProgress = s.xmitInProgress ∧ s1.remainActive = s.remainActive := by
          obtain ⟨c, n, b, l, rfl⟩ := hgrows.frame
          exact ⟨rfl, rfl⟩
        exact .resumed hgrows (hsame.1 ▸ Bool.not_eq_true _ ▸ hresume.1) (hsame.2 ▸ hresume.2)
          (sendNextEntry_advances env { s1 with xmitInProgress := true }) _
      · exact .added hgrows rfl rfl rfl

theorem countDown_eq (hs : s.Stocked) (hmem : s.currentXmitEntry ∈ s.catalog.entries) :
    s.countDown s.currentXmitEntry.record.size = .ok { s with
      pendingDpBytes := s.pendingDpBytes - s.currentXmitEntry.record.size
      pendingFiles := s.pendingFiles - 1 } := by
  have hbytes : s.currentXmitEntry.record.size.toNat ≤ s.pendingDpBytes.toNat := by
    rw [hs.bytes, totalSize_perm (List.perm_cons_erase hmem), totalSize_cons]
    exact Nat.le_add_right _ _
  have hfiles : s.pendingFiles ≠ 0 := by
    rw [hs.files]
    exact List.length_pos_of_mem hmem |>.ne'
  rw [countDown, if_neg]
  rw [not_or, UInt64.not_lt]
  exact ⟨hbytes, hfiles⟩

theorem completed_coherent {catalog : Catalog} (hs : s.Coherent)
    (hperm : s.catalog.entries.Perm (s.currentXmitEntry :: catalog.entries)) :
    (s.completed catalog).Coherent := by
  have htotal : totalSize s.catalog.entries =
      s.currentXmitEntry.record.size.toNat + totalSize catalog.entries :=
    (totalSize_perm hperm).trans (totalSize_cons _ _)
  refine ⟨⟨?_, ?_, fun e he => ?_⟩, hs.memory, (fun h => nomatch h), hs.waits⟩
  · show s.pendingFiles - 1 = catalog.entries.length
    rw [hs.files, hperm.length_eq]
    rfl
  · show (s.pendingDpBytes - s.currentXmitEntry.record.size).toNat = totalSize catalog.entries
    have hle : s.currentXmitEntry.record.size ≤ s.pendingDpBytes := by
      rw [UInt64.le_iff_toNat_le, hs.bytes, htotal]
      exact Nat.le_add_right _ _
    rw [UInt64.toNat_sub_of_le _ _ hle, hs.bytes, htotal, Nat.add_sub_cancel_left]
  · have hlisted := hs.listed e (hperm.mem_iff.mpr (List.mem_cons_of_mem _ he))
    exact ⟨hlisted.nonneg, hlisted.lt, hlisted.size⟩

theorem halted_outcome (ok : Bool)
    (hframe : ∃ entry hasCurrent name inProgress, s' = s.sendingState entry hasCurrent name inProgress s.xmitCmdWait s.xmitOpCode s.xmitCmdSeq)
    (hstop : s'.xmitInProgress = false)
    (hcurrent : s'.hasCurrentXmit = true → s.hasCurrentXmit = true ∧ s'.currentXmitEntry = s.currentXmitEntry) :
    Outcome env s (.fileDone ok) (s'.dispatchWaitedResponse .executionError).1
      (s'.dispatchWaitedResponse .executionError).2 := by
  have hadvances := advances_stopped env [] .executionError hframe hstop hcurrent rfl rfl
    (fun _ h => nomatch h) (ite_self _)
  refine .halted hadvances ?_
  obtain ⟨⟨opCode, cmdSeq, hfst⟩, -⟩ := dispatchWaitedResponse_spec s' .executionError
  rw [hfst]
  exact hstop

theorem fileDone_outcome (hs : s.Consistent) (ok : Bool) :
    (∃ s' outs, s.fileDoneHandler env ok = .ok (s', outs) ∧ Outcome env s (.fileDone ok) s' outs) ∨
      (ok = true ∧ s.catalogBuilt = true ∧ s.hasCurrentXmit = false ∧
        s.fileDoneHandler env ok = .error .noCurrentXmit) := by
  rw [fileDoneHandler]
  split
  · exact .inl ⟨_, _, rfl, halted_outcome env ok ⟨_, _, _, _, rfl⟩ rfl fun h => ⟨h, rfl⟩⟩
  · next hok =>
    obtain rfl : ok = true := not_not.mp hok
    split
    · exact .inl ⟨_, _, rfl, halted_outcome env true ⟨_, _, _, _, rfl⟩ rfl fun h => nomatch h⟩
    · next hbuilt =>
      have hbuilt := not_not.mp hbuilt
      split
      · next hcurrent => exact .inr ⟨rfl, hbuilt, Bool.not_eq_true _ ▸ hcurrent, rfl⟩
      · next hcurrent =>
        have hcurrent := not_not.mp hcurrent
        have hmem := hs.current hcurrent
        have hlisted := hs.listed _ hmem
        have hdir : ¬(s.currentXmitEntry.dir < 0 ∨
            s.directories.length ≤ s.currentXmitEntry.dir.toNat) := by
          have hnonneg := hlisted.nonneg
          have hlt := hlisted.lt
          omega
        obtain ⟨catalog, hremove, hperm⟩ := SortedSet.remove_perm hmem
        -- the state is not compared, so the entry is found under its new one
        have hremoved : s.catalog.remove { s.currentXmitEntry with
            record := { s.currentXmitEntry.record with state := .transmitted } } = some catalog :=
          (SortedSet.remove_congr s.catalog (by rfl)).trans hremove
        refine .inl ⟨_, _, ?_, .completed hcurrent hbuilt hperm
          (sendNextEntry_advances env (s.completed catalog))⟩
        dsimp only
        rw [countDown_eq hs.toStocked hmem]
        dsimp only [bind, Except.bind]
        rw [if_neg (hs.memory hbuilt), if_neg hdir, hremoved]
        rfl

theorem receive_outcome (hs : s.Consistent) (message : Message) :
    (∃ s' outs, s.receive env message = .ok (s', outs) ∧ Outcome env s message s' outs) ∨
      (message = .fileDone true ∧ s.catalogBuilt = true ∧ s.hasCurrentXmit = false ∧
        s.receive env message = .error .noCurrentXmit) := by
  cases message with
  | cmd opCode cmdSeq args =>
    exact .inl ⟨_, _, rfl, handleCommand_outcome env s opCode cmdSeq args⟩
  | addToCat fileName => exact .inl ⟨_, _, rfl, addToCat_outcome env s fileName⟩
  | fileDone ok =>
    rcases fileDone_outcome env hs ok with h | ⟨rfl, h⟩
    · exact .inl h
    · exact .inr ⟨rfl, h⟩

theorem Consistent.configured (idBase : UInt32) (directories : List FileNameString)
    (stateFile : FileNameString) (slots : Nat) :
    (configured idBase directories stateFile slots).Consistent :=
  ⟨⟨⟨rfl, rfl, fun _ h => nomatch h⟩, (fun h => nomatch h), (fun h => nomatch h),
    fun h => nomatch h⟩, fun h => nomatch h⟩

theorem Stocked.congr (hs : s.Stocked) (hcatalog : s'.catalog = s.catalog)
    (hfiles : s'.pendingFiles = s.pendingFiles) (hbytes : s'.pendingDpBytes = s.pendingDpBytes)
    (hdirectories : s'.directories = s.directories) : s'.Stocked := by
  refine ⟨?_, ?_, fun e he => ?_⟩
  · rw [hfiles, hcatalog]
    exact hs.files
  · rw [hbytes, hcatalog]
    exact hs.bytes
  · rw [hcatalog] at he
    have hlisted := hs.listed e he
    exact ⟨hlisted.nonneg, hdirectories ▸ hlisted.lt, hlisted.size⟩

theorem Grows.consistent (h : Grows s s') (hs : s.Consistent) :
    s'.Consistent := by
  have hstocked := h.stocked hs.toStocked
  have hentries := h.entries
  obtain ⟨c, n, b, l, rfl⟩ := h.frame
  exact ⟨⟨hstocked, hs.memory, fun hc => hentries (hs.current hc), hs.waits⟩, hs.sending⟩

theorem Outcome.consistent {env : Env} {message : Message} {outs : List Out}
    (h : Outcome env s message s' outs) (hs : s.Consistent) : s'.Consistent := by
  cases h with
  | answered response lines => exact (lines_grows s lines).consistent hs
  | rebuilt hbuild h =>
    have hstocked := h.stocked
    have hidle := h.idle
    have hmemory := h.memory
    obtain ⟨c, n, b, l, built, rfl⟩ := h.frame
    refine ⟨⟨hstocked, fun _ => hmemory, (fun hc => nomatch hc), hs.waits⟩, fun hbusy => ?_⟩
    exact absurd (hidle.symm.trans hbusy) Bool.false_ne_true
  | turnedAway remainActive =>
    exact ⟨⟨hs.toStocked.congr rfl rfl rfl rfl, hs.memory, hs.current, fun h => nomatch h⟩,
      hs.sending⟩
  | started wait remainActive hstart hidle hbuilt h =>
    exact h.consistent ⟨hs.toStocked.congr rfl rfl rfl rfl, hs.memory, hs.current, fun _ => rfl⟩
  | stopped =>
    obtain ⟨⟨opCode, cmdSeq, hfst⟩, -⟩ :=
      dispatchWaitedResponse_spec { s with xmitInProgress := false } .ok
    rw [hfst]
    exact ⟨⟨hs.toStocked.congr rfl rfl rfl rfl, hs.memory, hs.current, fun h => nomatch h⟩,
      fun h => nomatch h⟩
  | cleared hclear =>
    exact ⟨⟨⟨rfl, rfl, fun _ h => nomatch h⟩, (fun h => nomatch h), (fun h => nomatch h),
      hs.waits⟩, fun _ h => nomatch h⟩
  | added h => exact h.consistent hs
  | resumed hgrows hidle hactive h =>
    have hgrown := hgrows.consistent hs
    exact h.consistent ⟨hgrown.toStocked.congr rfl rfl rfl rfl, hgrown.memory, hgrown.current,
      fun _ => rfl⟩
  | halted h => exact h.consistent hs.toCoherent
  | completed hcurrent hbuilt hcatalog h =>
    exact h.consistent (completed_coherent hs.toCoherent hcatalog)

structure Transition where
  before : DpCatalog
  message : Message
  oldest : Option DpStateEntry
  after : DpCatalog
  outs : List Out

structure World where
  component : DpCatalog
  outstanding : List DpStateEntry
  commands : List (UInt32 × UInt32)
  answers : List (UInt32 × UInt32)
  history : List Transition

namespace World

def initial (idBase : UInt32) (directories : List FileNameString) (stateFile : FileNameString)
    (slots : Nat) : World :=
  ⟨configured idBase directories stateFile slots, [], [], [], []⟩

end World

namespace Message

def command : Message → List (UInt32 × UInt32)
  | .cmd opCode cmdSeq _ => [(opCode, cmdSeq)]
  | _ => []

def awaited (outstanding : List DpStateEntry) : Message → List DpStateEntry
  | .fileDone _ => outstanding.tail
  | _ => outstanding

end Message

namespace World

def after (w : World) (event : Env × Message) (r : DpCatalog × List Out) : World where
  component := r.1
  outstanding := event.2.awaited w.outstanding ++ acceptedSends event.1 r.2
  commands := w.commands ++ event.2.command
  answers := w.answers ++ responses r.2
  history := w.history ++ [⟨w.component, event.2, w.outstanding.head?, r.1, r.2⟩]

def step (w : World) (event : Env × Message) : Except Assertion World :=
  (w.component.receive event.1 event.2).map (w.after event)

def Permitted (w : World) (event : Env × Message) : Prop :=
  match event.2 with
  | .fileDone _ => w.outstanding ≠ []
  | _ => True

instance (w : World) (event : Env × Message) : Decidable (w.Permitted event) :=
  match h : event.2 with
  | .fileDone _ => decidable_of_iff (w.outstanding ≠ []) (by rw [Permitted, h])
  | .cmd _ _ _ => .isTrue (by rw [Permitted, h]; trivial)
  | .addToCat _ => .isTrue (by rw [Permitted, h]; trivial)

end World

end Fprime.Svc.DpCatalog
