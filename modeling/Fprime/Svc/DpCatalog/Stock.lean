import Fprime.Svc.DpCatalog

/-!
# The products of the catalog and their counts

Whatever a build or a new product does, the counts are those of the entries.
-/

namespace Fprime.Svc.DpCatalog

open Fw FwString Lib Nat

/-- The size of a file whose header can state the size of its data. -/
def maxFileSize : Nat := 65600

structure Listed (s : DpCatalog) (entry : DpStateEntry) : Prop where
  nonneg : 0 ≤ entry.dir
  lt : entry.dir.toNat < s.directories.length
  size : entry.record.size.toNat ≤ maxFileSize

def totalSize (entries : List DpStateEntry) : Nat :=
  (entries.map fun entry => entry.record.size.toNat).sum

structure Stocked (s : DpCatalog) : Prop where
  files : s.pendingFiles = s.catalog.entries.length
  bytes : s.pendingDpBytes.toNat = totalSize s.catalog.entries
  listed : ∀ entry ∈ s.catalog.entries, s.Listed entry

theorem totalSize_cons (entry : DpStateEntry) (entries : List DpStateEntry) :
    totalSize (entry :: entries) = entry.record.size.toNat + totalSize entries :=
  List.sum_cons

theorem totalSize_perm {entries entries' : List DpStateEntry} (h : entries.Perm entries') :
    totalSize entries = totalSize entries' :=
  (h.map _).sum_nat

theorem totalSize_le {entries : List DpStateEntry}
    (h : ∀ entry ∈ entries, entry.record.size.toNat ≤ maxFileSize) :
    totalSize entries ≤ entries.length * maxFileSize := by
  induction entries with
  | nil => exact zero_le _
  | cons entry entries ih =>
    have htail := ih fun e he => h e (List.mem_cons_of_mem _ he)
    have hhead := h entry List.mem_cons_self
    rw [totalSize_cons, List.length_cons, succ_mul]
    omega

theorem totalSize_lt (catalog : Catalog)
    (h : ∀ entry ∈ catalog.entries, entry.record.size.toNat ≤ maxFileSize) :
    totalSize catalog.entries < 2 ^ 64 := by
  have hle := totalSize_le h
  have hfits : catalog.entries.length * maxFileSize ≤ dpMaxFiles * maxFileSize :=
    mul_le_mul_right _ catalog.fits
  exact lt_of_le_of_lt (le_trans hle hfits) (by decide)

variable {s s' : DpCatalog}

theorem Stocked.empty : s.resetCatalog.Stocked :=
  ⟨rfl, rfl, fun _ h => nomatch h⟩

/-- Only the catalog, its counts and the lines of the state file are other. -/
def restock (s : DpCatalog) (catalog : Catalog) (files : Nat) (bytes : UInt64)
    (lines : List DpStateFileEntry) : DpCatalog :=
  { s with
    catalog := catalog
    pendingFiles := files
    pendingDpBytes := bytes
    stateFileData := lines }

structure Grows (s s' : DpCatalog) : Prop where
  frame : ∃ catalog files bytes lines, s' = s.restock catalog files bytes lines
  entries : s.catalog.entries ⊆ s'.catalog.entries
  stocked : s.Stocked → s'.Stocked

namespace Grows

theorem refl (s : DpCatalog) : Grows s s :=
  ⟨⟨_, _, _, _, rfl⟩, List.Subset.refl _, id⟩

theorem trans {s s' s'' : DpCatalog} (h : Grows s s') (h' : Grows s' s'') : Grows s s'' := by
  obtain ⟨c, n, b, l, rfl⟩ := h.frame
  obtain ⟨c', n', b', l', rfl⟩ := h'.frame
  exact ⟨⟨c', n', b', l', rfl⟩, List.Subset.trans h.entries h'.entries, fun hs => h'.stocked (h.stocked hs)⟩

theorem directories {s s' : DpCatalog} (h : Grows s s') : s'.directories = s.directories := by
  obtain ⟨c, n, b, l, rfl⟩ := h.frame
  rfl

end Grows

theorem lines_grows (s : DpCatalog) (lines : List DpStateFileEntry) :
    Grows s { s with stateFileData := lines } :=
  ⟨⟨_, _, _, _, rfl⟩, List.Subset.refl _, fun h => ⟨h.files, h.bytes, fun e he =>
    ⟨(h.listed e he).nonneg, (h.listed e he).lt, (h.listed e he).size⟩⟩⟩

theorem inserted_grows {entry : DpStateEntry} {catalog : Catalog} (hentry : s.Listed entry)
    (hnew : s.catalog.find entry = false) (h : s.catalog.insert entry = some catalog) :
    Grows s { s with
      catalog := catalog
      pendingFiles := s.pendingFiles + 1
      pendingDpBytes := s.pendingDpBytes + entry.record.size } := by
  have hperm := SortedSet.insert_perm hnew h
  refine ⟨⟨_, _, _, _, rfl⟩, fun e he => hperm.mem_iff.mpr (List.mem_cons_of_mem _ he),
    fun hs => ?_⟩
  have hlisted : ∀ e ∈ catalog.entries, s.Listed e := by
    intro e he
    rcases List.mem_cons.mp (hperm.mem_iff.mp he) with rfl | he
    · exact hentry
    · exact hs.listed e he
  refine ⟨?_, ?_, fun e he => ⟨(hlisted e he).nonneg, (hlisted e he).lt, (hlisted e he).size⟩⟩
  · exact (congrArg (· + 1) hs.files).trans hperm.length_eq.symm
  · have htotal : totalSize catalog.entries =
        entry.record.size.toNat + totalSize s.catalog.entries :=
      (totalSize_perm hperm).trans (totalSize_cons _ _)
    have hlt := totalSize_lt catalog fun e he => (hlisted e he).size
    show (s.pendingDpBytes + entry.record.size).toNat = totalSize catalog.entries
    rw [UInt64.toNat_add, hs.bytes, htotal, mod_eq_of_lt (by omega), add_comm]

theorem insertEntry_grows (s : DpCatalog) {entry : DpStateEntry} (hentry : s.Listed entry) :
    Grows s (s.insertEntry entry).2 := by
  rw [insertEntry]
  split
  · exact .refl s
  · next hfind =>
    split
    · exact .refl s
    · next catalog hinsert =>
      have hgrows := inserted_grows hentry (Bool.not_eq_true _ ▸ hfind) hinsert
      dsimp only
      split <;> exact hgrows

theorem getFileState_fst (entry : DpStateEntry) (lines : List DpStateFileEntry) :
    (getFileState entry lines).1.dir = entry.dir ∧
      (getFileState entry lines).1.record.size = entry.record.size := by
  induction lines with
  | nil => exact ⟨rfl, rfl⟩
  | cons line lines ih =>
    rw [getFileState]
    split
    · exact ⟨rfl, rfl⟩
    · exact ih

theorem processFile_grows (env : Env) (s : DpCatalog) (fullFile : Bytes) {dir : Nat}
    (hdir : dir < s.directories.length) : Grows s (s.processFile env fullFile dir).2 := by
  rw [processFile]
  split
  · exact .refl s
  · next info hinfo =>
    split
    · exact .refl s
    · next hsize =>
      dsimp only
      split
      · exact .refl s
      split
      · exact .refl s
      split
      · exact .refl s
      · refine (lines_grows s _).trans (insertEntry_grows _ ?_)
        obtain ⟨hd, hs⟩ := getFileState_fst ⟨dir, ⟨info.id, info.seconds, info.useconds,
          info.priority, info.size, 0, info.state⟩⟩ s.stateFileData
        have hdata := info.dataSize.toNat_lt
        refine ⟨?_, ?_, ?_⟩
        · rw [hd]
          exact Int.natCast_nonneg dir
        · rw [hd]
          exact hdir
        · rw [hs]
          simp only [minPacketSize, not_or, not_lt, ne_eq, not_not] at hsize
          simp only [maxFileSize]
          omega

theorem processFiles_grows (env : Env) {dir total : Nat} {names : List (Option FileNameString)}
    {processed processed' : Nat} (hdir : dir < s.directories.length)
    (h : processFiles env dir total names s processed = some (s', processed')) :
    Grows s s' := by
  induction names generalizing s processed with
  | nil =>
    cases h
    exact .refl _
  | cons name names ih =>
    cases name with
    | none => cases h
    | some name =>
      rw [processFiles] at h
      dsimp only at h
      split at h
      · exact ih hdir h
      split at h
      · cases h
        exact .refl _
      split at h
      · exact ih hdir h
      · have hgrows := processFile_grows env s (s.directoryName dir ++ 47 :: asStr name.bytes) hdir
        revert h hgrows
        generalize s.processFile env (s.directoryName dir ++ 47 :: asStr name.bytes) dir = r
        obtain ⟨status, s1⟩ := r
        intro h hgrows
        have hdir1 : dir < s1.directories.length := by
          rw [hgrows.directories]
          exact hdir
        cases status with
        | quit =>
          cases h
          exact hgrows
        | success | failed => exact hgrows.trans (ih hdir1 h)

theorem fillCatalog_grows (env : Env) {dirs : List Nat} {total : Nat}
    (hdirs : ∀ dir ∈ dirs, dir < s.directories.length) (h : fillCatalog env dirs s total = some s') :
    Grows s s' := by
  induction dirs generalizing s total with
  | nil =>
    cases h
    exact .refl _
  | cons dir dirs ih =>
    rw [fillCatalog] at h
    split at h
    · cases h
    split at h
    · cases h
    · next s1 processed hfiles =>
      have hgrows := processFiles_grows env (hdirs dir List.mem_cons_self) hfiles
      split at h
      · cases h
        exact hgrows
      · refine hgrows.trans (ih (fun d hd => ?_) h)
        rw [hgrows.directories]
        exact hdirs d (List.mem_cons_of_mem _ hd)

theorem loadStateFile_frame {env : Env} (h : s.loadStateFile env = some s') :
    ∃ lines, s' = { s with stateFileData := lines } := by
  rw [loadStateFile] at h
  split at h
  · cases h
    exact ⟨_, rfl⟩
  split at h
  · cases h
    exact ⟨_, rfl⟩
  · cases h
  · obtain ⟨lines, -, rfl⟩ := Option.map_eq_some_iff.mp h
    exact ⟨lines, rfl⟩

/-- A build that is not refused leaves a new catalog, without an entry in flight. -/
structure Rebuilt (s s' : DpCatalog) : Prop where
  frame : ∃ catalog files bytes lines built,
    s' = { s.restock catalog files bytes lines with
      hasCurrentXmit := false
      catalogBuilt := built }
  memory : s.numDpSlots ≠ 0
  idle : s.xmitInProgress = false
  stocked : s'.Stocked

theorem checkInit_slots (h : s.checkInit = true) : s.numDpSlots ≠ 0 := by
  rw [checkInit, Bool.and_eq_true] at h
  exact bne_iff_ne.mp h.2

theorem doCatalogBuild_spec (env : Env) (s : DpCatalog) :
    (∃ lines, (s.doCatalogBuild env).2 = ({ s with stateFileData := lines }, [])) ∨
      (Rebuilt s (s.doCatalogBuild env).2.1 ∧
        ((s.doCatalogBuild env).2.2 = [] ∨
          ∃ lines, (s.doCatalogBuild env).2.2 = [.writeState lines])) := by
  rw [doCatalogBuild]
  split
  · exact .inl ⟨_, rfl⟩
  · next hinit =>
    have hslots := checkInit_slots (not_not.mp hinit)
    split
    · exact .inl ⟨_, rfl⟩
    · next hidle =>
      have hxmit : s.xmitInProgress = false := Bool.not_eq_true _ ▸ hidle
      split
      · exact .inl ⟨_, rfl⟩
      · next loaded hload =>
        obtain ⟨lines, rfl⟩ := loadStateFile_frame hload
        split
        · exact .inr ⟨⟨⟨_, _, _, _, _, rfl⟩, hslots, hxmit, ⟨rfl, rfl, fun _ h => nomatch h⟩⟩,
            .inl rfl⟩
        · next filled hfill =>
          have hgrows := fillCatalog_grows env (by exact fun d => List.mem_range.mp) hfill
          have hstocked := hgrows.stocked .empty
          obtain ⟨c, n, b, l, rfl⟩ := hgrows.frame
          refine .inr ⟨⟨⟨_, _, _, _, _, rfl⟩, hslots, hxmit, hstocked.files, hstocked.bytes,
            fun e he => ?_⟩, .inr ⟨_, rfl⟩⟩
          have := hstocked.listed e he
          exact ⟨this.nonneg, this.lt, this.size⟩

end Fprime.Svc.DpCatalog
