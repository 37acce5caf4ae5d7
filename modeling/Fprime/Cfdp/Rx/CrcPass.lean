import Fprime.Cfdp.Rx.Delivery

/-!
# The checksum pass over a received file

The pass reads the file in slices until it has read the announced size or the bytes for one cycle. A
read at the end of the file brings it no further, so that the loop does not end where the file is
too short.
-/

namespace Fprime.Cfdp.Session

open Fprime.Os Fprime.Fw Lib.Runs Rx Nat UInt32

abbrev crcBytes (s : Session) : UInt32 :=
  s.txn.stateData.receive.r2.rxCrcCalcBytes

/-- The handle that the next slice is read through: it is moved to its place if need be. -/
def crcFile (s : Session) : Option Handle :=
  match s.txn.fd with
  | some h =>
    if h.mode = .openRead then
      some { h with pos := if s.txn.stateData.receive.cachedPos = s.crcBytes then h.pos
        else s.crcBytes.toNat }
    else none
  | none => none

variable {mgr : Mgr} {s : Session} {h : Handle}

theorem crcFile_eq (hfd : s.txn.fd = some h) (hmode : h.mode = .openRead) :
    s.crcFile = some { h with pos := if s.txn.stateData.receive.cachedPos = s.crcBytes then h.pos
      else s.crcBytes.toNat } := by
  rw [crcFile, hfd]
  exact if_pos hmode

theorem crcFile_of_inPlace (hfd : s.txn.fd = some h) (hmode : h.mode = .openRead)
    (hplace : s.txn.stateData.receive.cachedPos = s.crcBytes) :
    s.crcFile = some h := by
  rw [crcFile_eq hfd hmode, if_pos hplace]

def available (fs : FileSystem) (h : Handle) : Nat :=
  ((fs h.path).getD []).length - h.pos

def readSize (s : Session) : UInt32 :=
  if s.txn.fsize < s.crcBytes + r2CrcChunkSize then s.txn.fsize - s.crcBytes else r2CrcChunkSize

/-- One slice: the transaction after it, and the number of bytes read unless it failed. -/
def crcSlice (mgr : Mgr) (s : Session) : Session × Option Nat :=
  let done := s.crcBytes
  let r := s.rSeek mgr done
  if ¬ r.2 then (r.1, none)
  else
    let r := r.1.fdRead mgr s.readSize.toNat
    match r.2 with
    | none => (r.1.setTxnStatus .fileSizeError, none)
    | some data =>
      let read := ofNat data.length
      let s := (r.1.modTxn fun x => { x with crc := x.crc.update data done.toNat }).modReceive
        fun d => { d with
          r2 := { d.r2 with rxCrcCalcBytes := done + read }, cachedPos := done + read }
      (s.armInactTimer mgr, some data.length)

theorem crcLoop_succ (mgr : Mgr) (fuel : Nat) (countBytes : UInt32) (s : Session) :
    crcLoop mgr (fuel + 1) countBytes s =
      if countBytes < mgr.rxCrcCalcBytesPerCycle ∧ s.crcBytes < s.txn.fsize then
        match s.crcSlice mgr with
        | (s', none) => (s', .error)
        | (s', some n) => crcLoop mgr fuel (countBytes + ofNat n) s'
      else (s, .success) := by
  rw [crcLoop, crcSlice]
  dsimp only
  split
  · by_cases hok : (s.rSeek mgr s.crcBytes).2
    · rw [if_neg (not_not.2 hok), if_neg (not_not.2 hok), readSize]
      cases ((s.rSeek mgr s.crcBytes).1.fdRead mgr _).2 <;> rfl
    · rw [if_pos hok, if_pos hok]
  · rfl

structure SliceFrame (s s' : Session) : Prop where
  fsize : s'.txn.fsize = s.txn.fsize
  fs : s'.chan.world.fs = s.chan.world.fs
  hung : s'.chan.world.hung = s.chan.world.hung

theorem SliceFrame.setTxnStatus {s' : Session} (h : SliceFrame s s') (stat : TxnStatus) :
    SliceFrame s (s'.setTxnStatus stat) := by
  rw [Session.setTxnStatus]
  split
  · exact h
  · exact ⟨h.fsize, h.fs, h.hung⟩

theorem crcBytes_setTxnStatus (s : Session) (stat : TxnStatus) :
    (s.setTxnStatus stat).crcBytes = s.crcBytes := by
  rw [setTxnStatus]
  split <;> rfl

theorem rSeek_crcBytes (mgr : Mgr) (s : Session) :
    SliceFrame s (s.rSeek mgr s.crcBytes).1 ∧
      (s.rSeek mgr s.crcBytes).1.crcBytes = s.crcBytes ∧
      ((s.rSeek mgr s.crcBytes).2 = true → ∀ h, (s.rSeek mgr s.crcBytes).1.txn.fd = some h →
        h.mode = .openRead → s.crcFile = some h) := by
  rw [rSeek]
  by_cases hpos : s.txn.stateData.receive.cachedPos = s.crcBytes
  · rw [if_neg (not_not.2 hpos)]
    refine ⟨⟨rfl, rfl, rfl⟩, rfl, fun _ h hfd hmode => ?_⟩
    exact crcFile_of_inPlace hfd hmode hpos
  · rw [if_pos hpos]
    refine ⟨⟨rfl, rfl, rfl⟩, rfl, fun hok h hfd hmode => ?_⟩
    rcases File.seekAbsolute_cases s.txn.fd (s.chan.world.nextOs mgr) s.crcBytes.toNat with
      ⟨h0, hfd0, heq⟩ | heq
    · have hmoved : some { h0 with pos := s.crcBytes.toNat } = some h :=
        (congrArg Prod.fst heq).symm.trans hfd
      cases hmoved
      rw [crcFile_eq hfd0 hmode, if_neg hpos]
    · have hrefused : (s.fdSeekAbsolute mgr s.crcBytes.toNat).2 = false := congrArg Prod.snd heq
      rw [hrefused] at hok
      cases hok

theorem crcSlice_spec (mgr : Mgr) (s : Session) :
    (∃ s', s.crcSlice mgr = (s', none) ∧ SliceFrame s s' ∧ s'.crcBytes = s.crcBytes) ∨
    ∃ s' h n, s.crcSlice mgr = (s', some n) ∧ SliceFrame s s' ∧ s.crcFile = some h ∧
      n = min s.readSize.toNat (available s.chan.world.fs h) ∧
      s'.crcBytes = s.crcBytes + ofNat n ∧ s'.crcFile = some { h with pos := h.pos + n } := by
  obtain ⟨hframe, hbytes, hfile⟩ := s.rSeek_crcBytes mgr
  rw [crcSlice]
  generalize s.rSeek mgr s.crcBytes = r at hframe hbytes hfile
  dsimp only
  by_cases hok : r.2 = true
  · rw [if_neg (not_not.2 hok)]
    rcases FileSystem.read_cases r.1.chan.world.fs (r.1.chan.world.nextOs mgr) r.1.txn.fd
      s.readSize.toNat with ⟨h, hfd, hmode, heq⟩ | heq
    · have hdata : (r.1.fdRead mgr s.readSize.toNat).2 = some ((((r.1.chan.world.fs h.path).getD
          []).drop h.pos).take s.readSize.toNat) := congrArg Prod.snd heq
      have hread : (r.1.fdRead mgr s.readSize.toNat).1.txn.fd = _ := congrArg Prod.fst heq
      have hlen : ((((r.1.chan.world.fs h.path).getD []).drop h.pos).take
          s.readSize.toNat).length = min s.readSize.toNat (available s.chan.world.fs h) := by
        rw [List.length_take, List.length_drop, available, hframe.fs]
      generalize (((r.1.chan.world.fs h.path).getD []).drop h.pos).take s.readSize.toNat = data
        at hdata hread hlen
      rw [hdata]
      refine .inr ⟨_, h, _, rfl, ⟨hframe.fsize, hframe.fs, hframe.hung⟩, hfile hok h hfd hmode, hlen,
        rfl, ?_⟩
      exact crcFile_of_inPlace hread hmode rfl
    · have hdata : (r.1.fdRead mgr s.readSize.toNat).2 = none := congrArg Prod.snd heq
      rw [hdata]
      have hread : SliceFrame s (r.1.fdRead mgr s.readSize.toNat).1 :=
        ⟨hframe.fsize, hframe.fs, hframe.hung⟩
      refine .inl ⟨_, rfl, hread.setTxnStatus _, ?_⟩
      rw [crcBytes_setTxnStatus]
      exact hbytes
  · rw [if_pos hok]
    exact .inl ⟨r.1, rfl, hframe, hbytes⟩

theorem crcSlice_granted (hos : ∀ n, mgr.osOk n = true) (hfile : s.crcFile = some h) :
    ∃ s' n, s.crcSlice mgr = (s', some n) := by
  obtain ⟨h0, hfd, hmode⟩ : ∃ h0, s.txn.fd = some h0 ∧ h0.mode = .openRead := by
    rw [crcFile] at hfile
    split at hfile
    · rename_i h0 hfd
      split at hfile
      · rename_i hmode
        exact ⟨h0, hfd, hmode⟩
      · cases hfile
    · cases hfile
  have hseek : (s.rSeek mgr s.crcBytes).2 = true ∧
      ∃ h1, (s.rSeek mgr s.crcBytes).1.txn.fd = some h1 ∧ h1.mode = .openRead := by
    rw [rSeek]
    split
    · have hmoved : s.txn.fd.seekAbsolute (s.chan.world.nextOs mgr) s.crcBytes.toNat =
          (some { h0 with pos := s.crcBytes.toNat }, true) := by
        rw [hfd, File.seekAbsolute]
        exact if_pos (hos _)
      exact ⟨congrArg Prod.snd hmoved, _, congrArg Prod.fst hmoved, hmode⟩
    · exact ⟨rfl, h0, hfd, hmode⟩
  obtain ⟨hok, h1, hfd1, hmode1⟩ := hseek
  rw [crcSlice]
  generalize s.rSeek mgr s.crcBytes = r at hok hfd1
  dsimp only
  have hread : ∃ data, (r.1.fdRead mgr s.readSize.toNat).2 = some data := by
    have hgranted : (r.1.chan.world.nextOs mgr) = true ∧ h1.mode = .openRead := ⟨hos _, hmode1⟩
    simp only [fdRead, hfd1, FileSystem.read, if_pos hgranted]
    exact ⟨_, rfl⟩
  obtain ⟨data, hdata⟩ := hread
  rw [if_neg (not_not.2 hok), hdata]
  exact ⟨_, _, rfl⟩

/-- One of the first `n` slices brings the bytes read to those for the cycle, or the position to the
announced size. Only the end of the file cuts a slice short, and the counts have 32 bits. -/
def LastsFor (perCycle count fsize crc avail n : Nat) : Prop :=
  ∃ j ≤ n, perCycle ≤ (count + min (1024 * j) avail) % 2 ^ 32 ∨
    fsize ≤ (crc + min (1024 * j) avail) % 2 ^ 32

theorem lastsFor_slice {perCycle count fsize crc avail m : Nat} (hcycle : count < perCycle)
    (hcount : count < 2 ^ 32) (hcrc : crc < fsize) (hfsize : fsize < 2 ^ 32)
    (hm : m = min (if fsize < (crc + 1024) % 2 ^ 32 then fsize - crc else 1024) avail) (n : Nat) :
    LastsFor perCycle ((count + m) % 2 ^ 32) fsize ((crc + m) % 2 ^ 32) (avail - m) n ↔
      LastsFor perCycle count fsize crc avail (n + 1) := by
  split at hm
  · -- the size cuts the slice: one more slice reaches it, or the end of the file
    constructor
    · rintro ⟨j, hj, h⟩
      exact ⟨1, by omega, by omega⟩
    · rintro ⟨j, hj, h⟩
      exact ⟨0, by omega, by omega⟩
  · have hsum : ∀ a j, ((a + m) % 2 ^ 32 + min (1024 * j) (avail - m)) % 2 ^ 32 =
        (a + min (1024 * (j + 1)) avail) % 2 ^ 32 := by
      intro a j
      rw [mod_add_mod, Nat.add_assoc]
      congr 2
      omega
    constructor
    · rintro ⟨j, hj, h⟩
      rw [hsum, hsum] at h
      exact ⟨j + 1, by omega, h⟩
    · rintro ⟨j, hj, h⟩
      cases j with
      | zero => omega
      | succ j =>
        rw [← hsum, ← hsum] at h
        exact ⟨j, by omega, h⟩

theorem readSize_toNat {s : Session} (h : s.crcBytes < s.txn.fsize) :
    s.readSize.toNat = if s.txn.fsize.toNat < (s.crcBytes.toNat + 1024) % 2 ^ 32 then
      s.txn.fsize.toNat - s.crcBytes.toNat else 1024 := by
  have hadd : (s.crcBytes + r2CrcChunkSize).toNat = (s.crcBytes.toNat + 1024) % 2 ^ 32 :=
    UInt32.toNat_add _ _
  rw [readSize, apply_ite UInt32.toNat, UInt32.toNat_sub_of_le _ _ (UInt32.le_of_lt h)]
  simp only [UInt32.lt_iff_toNat_lt, hadd]
  rfl

theorem toNat_add_ofNat (a : UInt32) (n : Nat) :
    (a + UInt32.ofNat n).toNat = (a.toNat + n) % 2 ^ 32 := by
  rw [UInt32.toNat_add, UInt32.toNat_ofNat']
  omega

theorem SliceFrame.available {s' : Session} (hframe : SliceFrame s s') (h : Handle) (n : Nat) :
    Session.available s'.chan.world.fs { h with pos := h.pos + n } =
      Session.available s.chan.world.fs h - n := by
  rw [Session.available, Session.available, hframe.fs, sub_add_eq]

/-- A round ends the loop, or reads a slice. -/
theorem crcLoop_cases (mgr : Mgr) (countBytes : UInt32) (s : Session) :
    (∃ r, (∀ fuel, crcLoop mgr (fuel + 1) countBytes s = r) ∧ SliceFrame s r.1 ∧
      r.1.crcBytes = s.crcBytes ∧ (countBytes < mgr.rxCrcCalcBytesPerCycle →
        s.crcBytes < s.txn.fsize → ∃ s', s.crcSlice mgr = (s', none))) ∨
    ∃ s' h n, (∀ fuel, crcLoop mgr (fuel + 1) countBytes s =
        crcLoop mgr fuel (countBytes + ofNat n) s') ∧ SliceFrame s s' ∧ s.crcFile = some h ∧
      s'.crcFile = some { h with pos := h.pos + n } ∧ s'.crcBytes = s.crcBytes + ofNat n ∧
      countBytes.toNat < mgr.rxCrcCalcBytesPerCycle.toNat ∧
      s.crcBytes.toNat < s.txn.fsize.toNat ∧
      n = min (if s.txn.fsize.toNat < (s.crcBytes.toNat + 1024) % 2 ^ 32 then
        s.txn.fsize.toNat - s.crcBytes.toNat else 1024) (available s.chan.world.fs h) := by
  by_cases hgo : countBytes < mgr.rxCrcCalcBytesPerCycle ∧ s.crcBytes < s.txn.fsize
  · rcases s.crcSlice_spec mgr with ⟨s', hslice, hframe, hbytes⟩ |
      ⟨s', h, n, hslice, hframe, hfile, hn, hbytes, hfile'⟩
    · refine .inl ⟨(s', .error), fun fuel => ?_, hframe, hbytes, fun _ _ => ⟨s', hslice⟩⟩
      rw [crcLoop_succ, if_pos hgo, hslice]
    · rw [readSize_toNat hgo.2] at hn
      refine .inr ⟨s', h, n, fun fuel => ?_, hframe, hfile, hfile', hbytes,
        lt_iff_toNat_lt.mp hgo.1, lt_iff_toNat_lt.mp hgo.2, hn⟩
      rw [crcLoop_succ, if_pos hgo, hslice]
  · refine .inl ⟨(s, .success), fun fuel => ?_, ⟨rfl, rfl, rfl⟩, rfl, fun h h' => ?_⟩
    · rw [crcLoop_succ, if_neg hgo]
    · exact absurd ⟨h, h'⟩ hgo

theorem crcLoop_ends (n : Nat) (countBytes : UInt32) (s : Session)
    (hlast : ∀ h, s.crcFile = some h → LastsFor mgr.rxCrcCalcBytesPerCycle.toNat countBytes.toNat
      s.txn.fsize.toNat s.crcBytes.toNat (available s.chan.world.fs h) n) :
    ∃ fuel, (crcLoop mgr fuel countBytes s).1.chan.world.hung = s.chan.world.hung := by
  have hcount := countBytes.toNat_lt
  have hfsize := s.txn.fsize.toNat_lt
  induction n generalizing countBytes s with
  | zero =>
    rcases crcLoop_cases mgr countBytes s with ⟨r, hr, hframe, -⟩ |
      ⟨s', h, n, -, -, hfile, -, -, hcycle, hsize, -⟩
    · exact ⟨1, (hr 0).symm ▸ hframe.hung⟩
    · obtain ⟨j, hj, hend⟩ := hlast h hfile
      omega
  | succ k ih =>
    rcases crcLoop_cases mgr countBytes s with ⟨r, hr, hframe, -⟩ |
      ⟨s', h, n, hround, hframe, hfile, hfile', hbytes, hcycle, hsize, hn⟩
    · exact ⟨1, (hr 0).symm ▸ hframe.hung⟩
    · obtain ⟨fuel, hfuel⟩ := ih (countBytes + ofNat n) s' (fun h' hh' => by
        rw [hfile'] at hh'
        cases hh'
        rw [toNat_add_ofNat, hbytes, toNat_add_ofNat, hframe.fsize, hframe.available]
        exact (lastsFor_slice hcycle hcount hsize hfsize hn k).mpr (hlast h hfile))
        (UInt32.toNat_lt _) (UInt32.toNat_lt _)
      exact ⟨fuel + 1, by rw [hround]; exact hfuel.trans hframe.hung⟩

/-- Where no slice is enough, no number of rounds is. -/
theorem crcLoop_hangs (hos : ∀ n, mgr.osOk n = true) (fuel : Nat) {countBytes : UInt32}
    {s : Session} {h : Handle} (hfile : s.crcFile = some h)
    (hnever : ∀ n, ¬LastsFor mgr.rxCrcCalcBytesPerCycle.toNat countBytes.toNat
      s.txn.fsize.toNat s.crcBytes.toNat (available s.chan.world.fs h) n) :
    (crcLoop mgr fuel countBytes s).1.chan.world.hung = true := by
  have hcount := countBytes.toNat_lt
  have hfsize := s.txn.fsize.toNat_lt
  induction fuel generalizing countBytes s h with
  | zero => rfl
  | succ fuel ih =>
    rcases crcLoop_cases mgr countBytes s with ⟨r, -, -, -, hslice⟩ |
      ⟨s', h', n, hround, hframe, hfile0, hfile', hbytes, hcycle, hsize, hn⟩
    · obtain ⟨s1, n1, hgranted⟩ := crcSlice_granted hos hfile
      have hgoes := fun hor => hnever 0 ⟨0, le_rfl, hor⟩
      obtain ⟨hcycle, hsize⟩ := not_or.mp hgoes
      obtain ⟨s2, hnone⟩ := hslice (lt_iff_toNat_lt.mpr (by have := s.crcBytes.toNat_lt; omega))
        (lt_iff_toNat_lt.mpr (by have := s.crcBytes.toNat_lt; omega))
      rw [hgranted] at hnone
      cases hnone
    · rw [hfile] at hfile0
      cases hfile0
      rw [hround]
      refine ih hfile' (fun k hk => hnever (k + 1) ?_) (UInt32.toNat_lt _) (UInt32.toNat_lt _)
      rw [toNat_add_ofNat, hbytes, toNat_add_ofNat, hframe.fsize, hframe.available] at hk
      exact (lastsFor_slice hcycle hcount hsize hfsize hn k).mp hk

theorem crcLoop_bounded (fuel : Nat) {countBytes : UInt32} {s : Session}
    (hcount : countBytes.toNat ≤ s.crcBytes.toNat)
    (hbudget : countBytes.toNat ≤ mgr.rxCrcCalcBytesPerCycle.toNat + 1024)
    (hwrap : s.txn.fsize ≤ s.crcBytes ∨ ∀ h, s.crcFile = some h →
      s.txn.fsize.toNat + 1024 ≤ 2 ^ 32 ∨
        s.crcBytes.toNat + available s.chan.world.fs h < 2 ^ 32) :
    s.crcBytes.toNat ≤ (crcLoop mgr fuel countBytes s).1.crcBytes.toNat ∧
      (crcLoop mgr fuel countBytes s).1.crcBytes.toNat + countBytes.toNat ≤
        s.crcBytes.toNat + (mgr.rxCrcCalcBytesPerCycle.toNat + 1024) := by
  induction fuel generalizing countBytes s with
  | zero => exact ⟨le_rfl, by rw [crcLoop]; exact Nat.add_le_add_left hbudget _⟩
  | succ fuel ih =>
    rcases crcLoop_cases mgr countBytes s with ⟨r, hr, -, hbytes, -⟩ |
      ⟨s', h, n, hround, hframe, hfile, hfile', hbytes, hcycle, hsize, hn⟩
    · rw [hr, hbytes]
      exact ⟨le_rfl, Nat.add_le_add_left hbudget _⟩
    · have hwrap := (hwrap.resolve_left (by rw [le_iff_toNat_le]; omega)) h hfile
      have hfsize := s.txn.fsize.toNat_lt
      have hbytes' : s'.crcBytes.toNat = s.crcBytes.toNat + n := by
        rw [hbytes, toNat_add_ofNat]
        split at hn <;> omega
      have hcount' : (countBytes + ofNat n).toNat = countBytes.toNat + n := by
        rw [toNat_add_ofNat]
        split at hn <;> omega
      obtain ⟨hle, htotal⟩ := @ih (countBytes + ofNat n) s' (by omega) (by split at hn <;> omega)
        (.inr fun h' hh' => by
          rw [hfile'] at hh'
          cases hh'
          rw [hframe.fsize, hframe.available, hbytes']
          omega)
      rw [hround]
      exact ⟨by omega, by omega⟩

/-- The handle that a call reads through: a new one before the first slice. -/
def passFile (s : Session) : Option Handle :=
  if s.crcBytes = 0 then
    if (s.chan.world.fs s.hist.fnames.dstFilename).isSome then
      some ⟨s.hist.fnames.dstFilename, .openRead, 0⟩
    else none
  else s.crcFile

/-- Some slice of the file that a call reads is enough. -/
def FileLasts (perCycle : UInt32) (s : Session) : Prop :=
  ∀ h, s.passFile = some h → ∃ n, LastsFor perCycle.toNat 0 s.txn.fsize.toNat s.crcBytes.toNat
    (available s.chan.world.fs h) n

/-- The position in the file stays below `2 ^ 32`. -/
def Unwrapped (s : Session) : Prop :=
  s.txn.fsize ≤ s.crcBytes ∨ ∀ h, s.passFile = some h → s.txn.fsize.toNat + 1024 ≤ 2 ^ 32 ∨
    s.crcBytes.toNat + available s.chan.world.fs h < 2 ^ 32

/-- A call ends, not having read more than a cycle's bytes and one slice. -/
def CrcChunkEnds (mgr : Mgr) (s : Session) : Prop :=
  ∃ fuel, (s.r2CalcCrcChunk { mgr with fuel := fuel }).1.chan.world.hung = false ∧
    s.crcBytes ≤ (s.r2CalcCrcChunk { mgr with fuel := fuel }).1.crcBytes ∧
    (s.r2CalcCrcChunk { mgr with fuel := fuel }).1.crcBytes.toNat ≤
      s.crcBytes.toNat + (mgr.rxCrcCalcBytesPerCycle.toNat + r2CrcChunkSize.toNat)

theorem crcLoop_withFuel (mgr : Mgr) (k fuel : Nat) (countBytes : UInt32) (s : Session) :
    crcLoop { mgr with fuel := k } fuel countBytes s = crcLoop mgr fuel countBytes s := by
  induction fuel generalizing countBytes s with
  | zero => rfl
  | succ fuel ih =>
    have hslice : s.crcSlice { mgr with fuel := k } = s.crcSlice mgr := rfl
    rw [crcLoop_succ, crcLoop_succ, hslice]
    simp only [ih]

theorem fdOpenRead_spec (mgr : Mgr) (hfd : s.txn.fd = none) (path : Path) :
    SliceFrame s (s.fdOpenRead mgr path).1 ∧
      (s.fdOpenRead mgr path).1.crcBytes = s.crcBytes ∧
      ((s.fdOpenRead mgr path).2 = true ↔
        s.chan.world.nextOs mgr = true ∧ (s.chan.world.fs path).isSome) ∧
      ((s.fdOpenRead mgr path).2 = true →
        (s.fdOpenRead mgr path).1.txn.fd = some ⟨path, .openRead, 0⟩) := by
  have hclosed : ¬s.txn.fd.isSome = true := by
    rw [hfd]
    exact Bool.false_ne_true
  rw [fdOpenRead, if_neg hclosed]
  refine ⟨⟨rfl, rfl, rfl⟩, rfl, ?_, ?_⟩
  · show (FileSystem.openRead _ _ _).isSome = true ↔ _
    rw [FileSystem.openRead]
    split
    · exact ⟨fun _ => ‹_›, fun _ => rfl⟩
    · exact ⟨fun h => absurd h Bool.false_ne_true, fun h => absurd h ‹_›⟩
  · show (FileSystem.openRead _ _ _).isSome = true → FileSystem.openRead _ _ _ = _
    rw [FileSystem.openRead]
    split
    · exact fun _ => rfl
    · exact fun h => absurd h Bool.false_ne_true

theorem crcStart_spec (mgr : Mgr) (s : Session) :
    SliceFrame s (s.crcStart mgr).1 ∧ (s.crcStart mgr).1.crcBytes = s.crcBytes ∧
      ((s.crcStart mgr).2 = .success → (s.crcStart mgr).1.crcFile = s.passFile) := by
  rw [crcStart, passFile]
  by_cases hzero : s.crcBytes = 0
  · rw [if_pos hzero, if_pos hzero]
    obtain ⟨hframe, hbytes, hopen, hfd⟩ := @fdOpenRead_spec
      (s.modTxn fun x => { x with crc := ⟨0⟩ }).fdClose mgr rfl s.hist.fnames.dstFilename
    dsimp only
    rw [show (s.modTxn fun x => { x with crc := ⟨0⟩ }).fdClose.hist.fnames.dstFilename =
      s.hist.fnames.dstFilename from rfl]
    generalize (s.modTxn fun x => { x with crc := ⟨0⟩ }).fdClose.fdOpenRead mgr
      s.hist.fnames.dstFilename = r at hframe hbytes hopen hfd
    by_cases hok : r.2 = true
    · rw [if_neg (not_not.2 hok)]
      refine ⟨⟨hframe.fsize, hframe.fs, hframe.hung⟩, hbytes, fun _ => ?_⟩
      have hsome : (s.chan.world.fs s.hist.fnames.dstFilename).isSome := (hopen.mp hok).2
      rw [if_pos hsome]
      exact crcFile_of_inPlace (hfd hok) rfl (hzero.symm.trans hbytes.symm)
    · rw [if_pos hok]
      have hframe' : SliceFrame s r.1 := ⟨hframe.fsize, hframe.fs, hframe.hung⟩
      refine ⟨hframe'.setTxnStatus _, ?_, fun h => ?_⟩
      · rw [crcBytes_setTxnStatus]
        exact hbytes
      · cases h
  · rw [if_neg hzero, if_neg hzero]
    exact ⟨⟨rfl, rfl, rfl⟩, rfl, fun _ => rfl⟩

theorem crcStart_granted (hos : ∀ n, mgr.osOk n = true) (hfile : s.passFile = some h) :
    (s.crcStart mgr).2 = .success := by
  rw [crcStart]
  rw [passFile] at hfile
  by_cases hzero : s.crcBytes = 0
  · rw [if_pos hzero] at hfile ⊢
    have hsome : (s.chan.world.fs s.hist.fnames.dstFilename).isSome := by
      split at hfile
      · assumption
      · cases hfile
    have hopen := (@fdOpenRead_spec (s.modTxn fun x => { x with crc := ⟨0⟩ }).fdClose mgr rfl
      s.hist.fnames.dstFilename).2.2.1.mpr ⟨hos _, hsome⟩
    dsimp only
    rw [show (s.modTxn fun x => { x with crc := ⟨0⟩ }).fdClose.hist.fnames.dstFilename =
      s.hist.fnames.dstFilename from rfl, if_neg (not_not.2 hopen)]
  · rw [if_neg hzero]

theorem crcEnd_frame (s : Session) :
    s.crcEnd.1.chan.world.hung = s.chan.world.hung ∧ s.crcEnd.1.crcBytes = s.crcBytes := by
  rw [crcEnd]
  split
  · dsimp only
    split
    · exact ⟨rfl, rfl⟩
    · rw [r2SetFinTxnStatus, setTxnStatus]
      split <;> exact ⟨rfl, rfl⟩
  · exact ⟨rfl, rfl⟩

theorem r2CalcCrcChunk_frame (hok : (s.crcStart mgr).2 = .success) :
    (s.r2CalcCrcChunk mgr).1.chan.world.hung =
        (crcLoop mgr mgr.fuel 0 (s.crcStart mgr).1).1.chan.world.hung ∧
      (s.r2CalcCrcChunk mgr).1.crcBytes =
        (crcLoop mgr mgr.fuel 0 (s.crcStart mgr).1).1.crcBytes := by
  rw [r2CalcCrcChunk, if_pos hok]
  split
  · exact crcEnd_frame _
  · exact ⟨rfl, rfl⟩

theorem r2CalcCrcChunk_ends (hhung : s.chan.world.hung = false)
    (h : FileLasts mgr.rxCrcCalcBytesPerCycle s) :
    ∃ fuel, (s.r2CalcCrcChunk { mgr with fuel := fuel }).1.chan.world.hung = false ∧
      (Unwrapped s → s.crcBytes ≤ (s.r2CalcCrcChunk { mgr with fuel := fuel }).1.crcBytes ∧
        (s.r2CalcCrcChunk { mgr with fuel := fuel }).1.crcBytes.toNat ≤
          s.crcBytes.toNat + (mgr.rxCrcCalcBytesPerCycle.toNat + 1024)) := by
  obtain ⟨hframe, hbytes, hfile⟩ := s.crcStart_spec mgr
  by_cases hok : (s.crcStart mgr).2 = .success
  · obtain ⟨n, hlast⟩ : ∃ n, ∀ h, (s.crcStart mgr).1.crcFile = some h →
        LastsFor mgr.rxCrcCalcBytesPerCycle.toNat 0 (s.crcStart mgr).1.txn.fsize.toNat
          (s.crcStart mgr).1.crcBytes.toNat (available (s.crcStart mgr).1.chan.world.fs h) n := by
      rw [hframe.fsize, hframe.fs, hbytes, hfile hok]
      cases hpass : s.passFile with
      | none => exact ⟨0, nofun⟩
      | some handle =>
        obtain ⟨n, hn⟩ := h handle hpass
        exact ⟨n, fun h' hh' => Option.some.inj hh' ▸ hn⟩
    obtain ⟨fuel, hends⟩ := crcLoop_ends n 0 (s.crcStart mgr).1 hlast
    obtain ⟨hhung', hbytes'⟩ := @r2CalcCrcChunk_frame { mgr with fuel := fuel } s hok
    rw [crcLoop_withFuel] at hhung' hbytes'
    refine ⟨fuel, hhung'.trans (hends.trans (hframe.hung.trans hhung)), fun hwrap => ?_⟩
    obtain ⟨hle, htotal⟩ := @crcLoop_bounded mgr fuel 0 (s.crcStart mgr).1 (zero_le _) (zero_le _)
      (by rw [hframe.fsize, hframe.fs, hbytes, hfile hok]; exact hwrap)
    rw [hbytes', ← hbytes, le_iff_toNat_le]
    exact ⟨hle, htotal⟩
  · have hcall : ∀ fuel, s.r2CalcCrcChunk { mgr with fuel := fuel } = s.crcStart mgr := by
      intro fuel
      rw [r2CalcCrcChunk]
      dsimp only
      rw [show s.crcStart { mgr with fuel := fuel } = s.crcStart mgr from rfl, if_neg hok,
        if_neg hok]
    refine ⟨0, ?_⟩
    rw [hcall, hbytes]
    exact ⟨hframe.hung.trans hhung, fun _ => ⟨UInt32.le_refl _, le_add_right _ _⟩⟩

theorem r2CalcCrcChunk_hangs (hos : ∀ n, mgr.osOk n = true) (hfile : s.passFile = some h)
    (hnever : ∀ n, ¬LastsFor mgr.rxCrcCalcBytesPerCycle.toNat 0 s.txn.fsize.toNat
      s.crcBytes.toNat (available s.chan.world.fs h) n) (fuel : Nat) :
    (s.r2CalcCrcChunk { mgr with fuel := fuel }).1.chan.world.hung = true := by
  have hok := crcStart_granted hos hfile
  obtain ⟨hframe, hbytes, hstart⟩ := s.crcStart_spec mgr
  obtain ⟨hhung, -⟩ := @r2CalcCrcChunk_frame { mgr with fuel := fuel } s hok
  rw [hhung, crcLoop_withFuel, show s.crcStart { mgr with fuel := fuel } = s.crcStart mgr from rfl]
  refine crcLoop_hangs hos fuel ((hstart hok).trans hfile) ?_
  rw [hframe.fs, hframe.fsize, hbytes]
  exact hnever

/-- A run in which undecodable file data does no harm has come to where the pass starts. -/
structure PassStarts (s : Session) : Prop where
  run : ∃ (s₀ : Session) (first : Mgr × Bytes) (events : List (Mgr × RxEvent)), s₀.Fresh ∧
    (s₀.dispatchRecv first.1 first.2).txn.txnClass = .class2 ∧ ¬Undecodable first.2 ∧
    Along rxStep HarmlessReset (s₀.dispatchRecv first.1 first.2) events ∧
    s = s₀.rxRun first events
  queued : s.txn.flags.com.qIndex = .rx
  sendFin : s.txn.flags.rx.sendFin
  noError : ¬s.isError
  notDone : ¬s.txn.flags.com.crcCalc
  zero : s.crcBytes = 0

theorem PassStarts.file (h : PassStarts s) :
    ∃ contents, s.chan.world.fs s.hist.fnames.dstFilename = some contents ∧
      s.txn.fsize.toNat ≤ contents.length := by
  obtain ⟨s₀, first, events, hf, hclass, hfirst, halong, rfl⟩ := h.run
  rcases harmless_invariant (I := fun v => Ordered v ∧ Kept (fun _ _ => True) v)
    (fun _ hv => ⟨.initial hv, .initial hv⟩)
    (fun _ _ hstep hv => ⟨hv.1.step id hstep, hv.2.step (fun _ _ _ _ _ _ => trivial) hstep hv.1⟩)
    hf hclass hfirst halong with hrec | ⟨hord, hkept⟩
  · exact absurd h.queued (of_decide_eq_true hrec.1)
  · -- the FIN is on its way without an error, so all of the file has arrived
    obtain ⟨-, -, hcov⟩ := ((hord.sendFin h.sendFin).resolve_left h.noError).resolve_left h.notDone
    obtain ⟨contents, hfs, hm⟩ := (hkept.file.resolve_left h.noError).resolve_left h.notDone
    exact ⟨contents, hfs, hm.le_length hcov⟩

theorem PassStarts.fileLasts (h : PassStarts s) (hsize : s.txn.fsize.toNat + 1024 ≤ 2 ^ 32)
    (perCycle : UInt32) : FileLasts perCycle s := by
  obtain ⟨contents, hfs, hlen⟩ := h.file
  intro handle hpass
  rw [passFile, if_pos h.zero, hfs] at hpass
  cases hpass
  refine ⟨_, (s.txn.fsize.toNat + 1023) / 1024, le_rfl, .inr ?_⟩
  rw [available, hfs, h.zero]
  show _ ≤ (0 + min _ (contents.length - 0)) % 2 ^ 32
  omega

/-- Whatever the surroundings answer, a call ends, if and only if the file lasts. It does not read
more than a cycle's bytes and one slice, unless the position passes `2 ^ 32`. As long as undecodable
file data does no harm, the pass starts only on a file that lasts. -/
theorem crc_chunk_ends_iff_file_lasts {s : Session} (hhung : s.chan.world.hung = false)
    (perCycle : UInt32) :
    ((∀ mgr : Mgr, mgr.rxCrcCalcBytesPerCycle = perCycle →
      ∃ fuel, (s.r2CalcCrcChunk { mgr with fuel := fuel }).1.chan.world.hung = false) ↔
        FileLasts perCycle s) ∧
    (FileLasts perCycle s → Unwrapped s →
      ∀ mgr : Mgr, mgr.rxCrcCalcBytesPerCycle = perCycle → CrcChunkEnds mgr s) ∧
    (PassStarts s → s.txn.fsize.toNat + 1024 ≤ 2 ^ 32 → FileLasts perCycle s) := by
  refine ⟨⟨fun hends h hpass => ?_, ?_⟩, ?_, fun h hsize => h.fileLasts hsize perCycle⟩
  · by_contra hnever
    obtain ⟨fuel, hended⟩ := hends { Mgr.ample with rxCrcCalcBytesPerCycle := perCycle } rfl
    have hhangs := @r2CalcCrcChunk_hangs { Mgr.ample with rxCrcCalcBytesPerCycle := perCycle }
      s h (fun _ => rfl) hpass (not_exists.mp hnever) fuel
    rw [hhangs] at hended
    cases hended
  · rintro h mgr rfl
    obtain ⟨fuel, hended, -⟩ := r2CalcCrcChunk_ends hhung h
    exact ⟨fuel, hended⟩
  · rintro h hwrap mgr rfl
    obtain ⟨fuel, hended, hbounds⟩ := r2CalcCrcChunk_ends hhung h
    exact ⟨fuel, hended, hbounds hwrap⟩

/-- A reception of two bytes, both of which have arrived. -/
theorem crc_chunk_ends_iff_file_lasts_two_bytes :
    (started.rxRun (.ample, mdBytes)
      [(.ample, .recv fdBytes), (.ample, .recv eofBytes)]).CrcChunkEnds .ample := by
  obtain ⟨-, hends, hlasts⟩ := @crc_chunk_ends_iff_file_lasts (started.rxRun (.ample, mdBytes)
    [(.ample, .recv fdBytes), (.ample, .recv eofBytes)]) rfl 1024
  refine hends (hlasts ⟨⟨started, _, _, started_fresh, ?_, ?_, ?_, rfl⟩, ?_, ?_, ?_, ?_, ?_⟩ ?_)
    (.inr fun _ _ => .inl ?_) .ample rfl
  all_goals decide

/-- A PDU that ends after its header has a FIN requested for an empty file, and the checksum pass
does not end. -/
theorem crc_chunk_hangs_on_empty_file :
    ∃ (first : Mgr × Bytes) (events : List (Mgr × RxEvent)), started.Fresh ∧
      (started.dispatchRecv first.1 first.2).txn.txnClass = .class2 ∧
      (started.rxRun first events).txn.state = .r2 ∧
      (started.rxRun first events).txn.flags.rx.sendFin = true ∧
      (started.rxRun first events).isError = false ∧
      (started.rxRun first events).txn.fsize = 2 ∧
      ∀ fuel, ((started.rxRun first events).r2CalcCrcChunk
        { Mgr.ample with fuel := fuel }).1.chan.world.hung = true := by
  refine ⟨(.ample, mdBytes), [(.ample, .recv [0x30, 0, 0, 0, 1, 7, 2])], started_fresh, by decide,
    by decide, by decide, by decide, by decide, fun fuel => ?_⟩
  refine r2CalcCrcChunk_hangs (h := ⟨[100], .openRead, 0⟩) (fun _ => rfl) rfl ?_ fuel
  -- there is nothing to read
  rintro n ⟨j, -, hend⟩
  rw [show available _ _ = 0 from rfl, Nat.min_zero] at hend
  revert hend
  decide

end Fprime.Cfdp.Session
