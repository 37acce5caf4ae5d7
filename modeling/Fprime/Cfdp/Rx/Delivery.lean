import Fprime.Cfdp.Rx.Completion

/-!
# Delivery agreement

Along a reception of genuine PDUs of one file, in any order, with losses and repetitions, the file
on disk agrees with the source on every range the chunk list records; once delivery is complete the
list covers it.
-/

namespace Fprime.Cfdp

open Fprime.Os Fprime.Fw Lib Lib.Runs Lib.Span List Function

namespace Rx

variable {src : Bytes}

def genuine (src : Bytes) : Inputs where
  data offset data := data = (src.drop offset.toNat).take data.length
  size fsize := fsize.toNat = src.length
  reset := False
  lateNak := True

/-- The file has a byte with the property at every place that the list records. -/
def Matches (P : Nat → UInt8 → Prop) (list : ChunkList) (contents : Bytes) : Prop :=
  ∀ k ∈ covered list.chunks, ∃ b, contents[k]? = some b ∧ P k b

section Kept

variable {P : Nat → UInt8 → Prop} {p : Inputs} {list : ChunkList} {contents data : Bytes}
  {v w : View}

theorem Matches.le_length (h : Matches P list contents) {n : Nat} (hcov : list.Covers n) :
    n ≤ contents.length := by
  by_contra hlt
  obtain ⟨b, hb, -⟩ := h contents.length (hcov _ (by omega))
  rw [getElem?_eq_none le_rfl] at hb
  cases hb

theorem Matches.store {offset : Nat} (h : Matches P list contents)
    (hdata : ∀ k b, data[k]? = some b → P (offset + k) b) :
    Matches P (list.add offset data.length) (overwrite contents offset data) := by
  intro k hk
  by_cases hin : offset ≤ k ∧ k < offset + data.length
  · have hb := getElem?_eq_getElem (show k - offset < data.length by omega)
    refine ⟨_, (getElem?_overwrite_inside hin.1 hin.2).trans hb, ?_⟩
    have hP := hdata (k - offset) _ hb
    rwa [Nat.add_sub_cancel' hin.1] at hP
  · obtain ⟨b, hb, hP⟩ :=
      h k ((list.covered_add_subset offset data.length hk).resolve_right fun h => hin h)
    refine ⟨b, ?_, hP⟩
    rw [getElem?_overwrite_outside (List.getElem?_eq_some_iff.mp hb).1 (by omega), hb]

/-- Until an error or the end of the checksum pass, the file matches, and a handle that writes
stands where it should. -/
structure Kept (P : Nat → UInt8 → Prop) (v : View) : Prop where
  file : v.failed ∨ v.crcCalc ∨
    ∃ contents, v.fs v.dst = some contents ∧ Matches P v.list contents
  handle : v.failed ∨ v.crcCalc ∨ ∀ h, v.fd = some h → h.mode ≠ .openRead →
    h.path = v.dst ∧ h.pos = v.cachedPos.toNat

theorem Kept.initial (h : Initial p v) : Kept P v := by
  cases h with
  | @opened v h dst => exact {
      file := .inr (.inr ⟨[], update_self _ _ _, by
        show ∀ k ∈ covered v.list.chunks, _
        simp [h.list]⟩)
      handle := .inr (.inr (by
        rintro _ ⟨⟩ -
        exact ⟨rfl, by simp [h.cachedPos]⟩)) }
  | refused h => exact ⟨.inl rfl, .inl rfl⟩

theorem Kept.stored (hv : Kept P v) {h : Handle} {offset : UInt32}
    (hdata : ∀ k b, data[k]? = some b → P (offset.toNat + k) b)
    (hfd : v.fd = some h) (hmode : h.mode ≠ .openRead)
    (hbound : offset.toNat + data.length < 2 ^ 32) : Kept P (v.stored h offset data) := by
  -- The handle is where the data goes, whether the receiver seeks or not.
  have hplace : v.failed ∨ v.crcCalc ∨ (h.path = v.dst ∧
      (if v.cachedPos = offset then h.pos else offset.toNat) = offset.toNat) := by
    refine hv.handle.imp_right fun hh => hh.imp_right fun hh => ?_
    obtain ⟨hpath, hpos⟩ := hh h hfd hmode
    refine ⟨hpath, ?_⟩
    split
    · next heq => rw [hpos, heq]
    · rfl
  constructor
  · rcases hplace with h | h | ⟨hpath, hpos⟩
    · exact .inl h
    · exact .inr (.inl h)
    refine hv.file.imp_right fun hf => hf.imp_right fun hf => ?_
    obtain ⟨contents, hfs, hm⟩ := hf
    refine ⟨overwrite contents offset.toNat data, ?_, hm.store hdata⟩
    simp only [View.stored, hpos, hpath, hfs, Option.getD_some]
    exact update_self _ _ _
  · refine hplace.imp_right fun hp => hp.imp_right fun hp => ?_
    obtain ⟨hpath, hpos⟩ := hp
    rintro _ ⟨⟩ -
    refine ⟨hpath, ?_⟩
    simp only [View.stored, hpos, UInt32.toNat_add, UInt32.toNat_ofNat']
    omega

theorem Kept.adopted (hv : Kept P v) (fsize : UInt32) {dst : Path} (hfile : (v.fs v.dst).isSome) :
    Kept P (v.adopted fsize dst (v.fs.moveFile true v.dst dst).1) := by
  have hmove : (v.fs.moveFile true v.dst dst).1 dst = v.fs v.dst := by
    simp only [FileSystem.moveFile, hfile, and_self, if_true]
    split
    · next heq => rw [heq]
    · next hne =>
      rw [FileSystem.update, update_of_ne (Ne.symm hne), FileSystem.update,
        update_self]
  constructor
  · refine hv.file.imp_right fun hf => hf.imp_right fun hf => ?_
    obtain ⟨contents, hfs, hm⟩ := hf
    refine ⟨contents, ?_, hm⟩
    simp only [View.adopted, hmove, hfs, Option.getD_some]
    exact update_self _ _ _
  · refine .inr (.inr ?_)
    rintro _ ⟨⟩ -
    exact ⟨rfl, rfl⟩

theorem Kept.step (hp : ∀ offset data, p.data offset data →
      ∀ k b, data[k]? = some b → P (offset.toNat + k) b)
    (h : Step p v w) (hord : Ordered v) (hv : Kept P v) : Kept P w := by
  cases h with
  | fail fd | metadataFailed => exact ⟨.inl rfl, .inl rfl⟩
  | cancel | requestFin | giveUp | complete | lateComplete | reopen | eof | eofComplete
  | closeout | finSent => exact { hv with }
  | store h offset data hdata hfd hmode _ _ hbound =>
    refine hv.stored (hp offset data hdata) hfd hmode ?_
    split at hbound
    · exact lt_of_le_of_lt hbound v.fsize.toNat_lt
    · exact hbound
  | metadata fsize dst _ _ hfile => exact hv.adopted fsize hfile
  | read h pos bytes hmode => exact { hv with
      handle := .inr (.inr (by
        rintro _ ⟨⟩ hne
        exact absurd hmode hne)) }
  | deliver => exact ⟨.inr (.inl rfl), .inr (.inl rfl)⟩
  | checked h => exact ⟨.inl h, .inl h⟩
  | finish fs h => exact ⟨(hord.ended h).imp_right .inl, (hord.ended h).imp_right .inl⟩

end Kept

def IsAt (src : Bytes) (k : Nat) (b : UInt8) : Prop :=
  src[k]? = some b

theorem Matches.covers {list : ChunkList} {contents : Bytes}
    (h : Matches (IsAt src) list contents) (hcov : list.Covers src.length) :
    contents.take src.length = src := by
  apply ext_getElem?
  intro k
  by_cases hk : k < src.length
  · obtain ⟨b, hb, hsrc⟩ := h k (hcov k hk)
    rw [getElem?_take_of_lt hk, hb, hsrc]
  · rw [getElem?_eq_none (by simp only [length_take]; omega),
      getElem?_eq_none (by omega)]

theorem genuine_data {offset : UInt32} {data : Bytes} (h : (genuine src).data offset data) (k : Nat)
    (b : UInt8) (hb : data[k]? = some b) : IsAt src (offset.toNat + k) b := by
  have hk : k < data.length := (List.getElem?_eq_some_iff.mp hb).1
  have hsrc := congrArg (fun l : Bytes => l[k]?) h
  simp only [getElem?_take_of_lt hk, getElem?_drop] at hsrc
  exact hsrc.symm.trans hb

/-- The size is the source's, and after a delivery the file is the source. -/
structure Agrees (src : Bytes) (v : View) : Prop where
  size : v.mdRecv → v.fsize.toNat = src.length
  delivered : v.delivered → v.keep = .keep ∧ v.crcCalc ∧ v.crcBytes ≠ 0 ∧
    ∃ contents, v.fs v.dst = some contents ∧ contents.take src.length = src

theorem Agrees.initial {v : View} (h : Initial (genuine src) v) : Agrees src v := by
  cases h with
  | opened h | refused h => exact ⟨h.size, by simp [h.delivered]⟩

theorem Agrees.step (hsrc : 0 < src.length) {v w : View} (h : Step (genuine src) v w)
    (hord : Ordered v) (hkept : Kept (IsAt src) v) (hv : Agrees src v) : Agrees src w := by
  cases h with
  | fail | cancel | requestFin | giveUp | complete | lateComplete | reopen | eof | eofComplete
  | closeout | finSent => exact { hv with }
  | store _ _ _ _ _ _ hcrc => exact ⟨hv.size, fun hdel => absurd hcrc (hv.delivered hdel).2.2.1⟩
  | metadataFailed _ _ _ _ hfirst =>
    exact ⟨fun h => absurd h hfirst, fun h => absurd (hord.delivered h).2.2.1 hfirst⟩
  | metadata _ _ hsize hfirst =>
    exact ⟨fun _ => hsize, fun h => absurd (hord.delivered h).2.2.1 hfirst⟩
  | read _ _ _ _ hcrc => exact ⟨hv.size, fun h => absurd (hv.delivered h).2.1 hcrc⟩
  | deliver hfin hok hcrc hall =>
    -- Nothing failed and all has arrived, so the file is the source.
    obtain ⟨-, hmd, hcov⟩ := ((hord.sendFin hfin).resolve_left hok).resolve_left hcrc
    obtain ⟨contents, hfs, hm⟩ := (hkept.file.resolve_left hok).resolve_left hcrc
    have hsize := hv.size hmd
    refine ⟨hv.size, fun _ => ⟨rfl, rfl, fun hzero => ?_, contents, hfs, hm.covers (hsize ▸ hcov)⟩⟩
    rw [hall] at hzero
    rw [hzero] at hsize
    exact absurd hsize.symm (Nat.ne_of_gt hsrc)
  | checked h =>
    exact ⟨hv.size, fun hdel => ⟨(hv.delivered hdel).1, rfl, (hv.delivered hdel).2.2⟩⟩
  | finish fs h hkeep =>
    refine ⟨hv.size, fun hdel => ?_⟩
    obtain ⟨hk, hcrc, hbytes, hfile⟩ := hv.delivered hdel
    refine ⟨hk, hcrc, hbytes, ?_⟩
    rw [hkeep hk]
    exact hfile

end Rx

namespace Session

open Rx

/-- A PDU of a source file: its data is the source's, and its metadata and EOF report the source's
size and checksum. -/
structure Genuine (src data : Bytes) : Prop where
  fileData : peekPduType data = .fileData →
    ∃ fd ∈ decoded (FileDataPdu.deserializeFrom ⟨data⟩),
      fd.getData = (src.drop fd.offset.toNat).take fd.getData.length
  metadata : ∀ md ∈ decoded (MetadataPdu.deserializeFrom ⟨data⟩), md.fileSize.toNat = src.length
  eof : ∀ eof ∈ decoded (EofPdu.deserializeFrom ⟨data⟩),
    eof.conditionCode = .noError ∧ eof.fileSize.toNat = src.length ∧
      eof.checksum = (Utils.Checksum.new.update src 0).value

instance (src data : Bytes) : Decidable (Genuine src data) :=
  decidable_of_iff (_ ∧ _ ∧ _) ⟨fun h => ⟨h.1, h.2.1, h.2.2⟩,
    fun h => ⟨h.fileData, h.metadata, h.eof⟩⟩

theorem Genuine.admits {src data : Bytes} (h : Genuine src data) (s : Session) :
    s.Admits (genuine src) data where
  stored hpeek fd hfd := by
    obtain ⟨fd', hfd', heq⟩ := h.fileData hpeek
    rw [Option.mem_def, hfd] at hfd'
    cases hfd'
    exact heq
  announced := h.metadata
  undecodable _ hpeek hdec := by
    obtain ⟨fd, hfd, -⟩ := h.fileData hpeek
    rw [Option.mem_def, hdec] at hfd
    cases hfd

/-- When a reception of genuine PDUs reports a complete delivery with the file retained, the file
starts with the source, whatever calls of the operating system fail. -/
theorem delivery_agreement {src : Bytes} (hsrc : 0 < src.length) {s : Session} (hf : s.Fresh)
    (first : Mgr × Bytes)
    (hclass : (s.dispatchRecv first.1 first.2).txn.txnClass = .class2)
    (hfirst : Genuine src first.2) (events : List (Mgr × RxEvent))
    (hevents : ∀ mgr data, (mgr, .recv data) ∈ events → Genuine src data)
    (hdc : (s.rxRun first events).txn.stateData.receive.r2.dc = .complete)
    (hfs : (s.rxRun first events).txn.stateData.receive.r2.fs = .retained) :
    ∃ contents, (s.rxRun first events).chan.world.fs
        (s.rxRun first events).hist.fnames.dstFilename = some contents ∧
      contents.take src.length = src := by
  have hperm : ∀ e ∈ events, ∀ s : Session, s.Permits (genuine src) e := by
    rintro ⟨mgr, event⟩ he s
    cases event with
    | recv data => exact (hevents mgr data he).admits s
    | tick => exact fun _ => trivial
    | cancel => exact trivial
  have hdel : (s.rxRun first events).rxView.delivered = true := by
    simp only [rxView, hdc, hfs, decide_true, Bool.and_self]
  have hinv := rxRun_invariant (I := fun v => Ordered v ∧ Kept (IsAt src) v ∧ Agrees src v)
    (fun _ h => ⟨.initial h, .initial h, .initial h⟩)
    (fun _ _ h hv => ⟨hv.1.step id h, hv.2.1.step (fun _ _ => genuine_data) h hv.1,
      hv.2.2.step hsrc h hv.1 hv.2.1⟩) hf hclass hfirst.admits (along_of_forall hperm _)
  rcases hinv with hrec | ⟨-, -, hagr⟩
  · rw [hrec.2.1] at hdel
    cases hdel
  · exact (hagr.delivered hdel).2.2.2

/-- The data first, into a temporary file, then the EOF and the metadata. -/
theorem delivery_agreement_data_first :
    ∃ contents, (started.rxRun (.ample, fdBytes)
        [(.ample, .recv eofBytes), (.ample, .recv mdBytes), (.ample, .tick), (.ample, .tick),
          (.ample, .tick)]).chan.world.fs [100] = some contents ∧ contents.take 2 = [10, 20] := by
  refine @delivery_agreement [10, 20] (by decide) _ started_fresh (.ample, fdBytes) (by decide)
    (by decide) [(.ample, .recv eofBytes), (.ample, .recv mdBytes), (.ample, .tick),
      (.ample, .tick), (.ample, .tick)] ?_ (by decide) (by decide)
  intro mgr data h
  simp only [mem_cons, Prod.mk.injEq, RxEvent.recv.injEq, reduceCtorEq, and_false, or_false,
    not_mem_nil] at h
  rcases h with ⟨-, rfl⟩ | ⟨-, rfl⟩
  · decide
  · decide

end Session

end Fprime.Cfdp
