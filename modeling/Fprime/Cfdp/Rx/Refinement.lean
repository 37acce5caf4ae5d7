import Fprime.Cfdp.Rx.Machine

/-!
# The receive handlers refine the abstract receiver

Every handler of a class-2 reception takes the abstract receiver some number of steps further.
-/

namespace Fprime.Cfdp.Session

open Fprime.Os Fprime.Fw Rx FileDataPdu FileSystem

variable (mgr : Mgr) (s : Session)

def rxView : View where
  gone := decide (s.txn.flags.com.qIndex ≠ .rx)
  state := s.txn.state
  dir := s.hist.dir
  failed := s.isError
  canceled := s.txn.flags.com.canceled
  mdRecv := s.txn.flags.rx.mdRecv
  eofRecv := s.txn.flags.rx.eofRecv
  eofCc := s.txn.stateData.receive.r2.eofCc
  sendFin := s.txn.flags.rx.sendFin
  complete := s.txn.flags.rx.complete
  closeout := decide (s.txn.stateData.receive.subState = .closeoutSync)
  crcCalc := s.txn.flags.com.crcCalc
  crcBytes := s.txn.stateData.receive.r2.rxCrcCalcBytes
  delivered := decide (s.txn.stateData.receive.r2.dc = .complete) &&
    decide (s.txn.stateData.receive.r2.fs = .retained)
  keep := s.txn.keep
  fsize := s.txn.fsize
  list := s.list
  dst := s.hist.fnames.dstFilename
  fd := s.txn.fd
  cachedPos := s.txn.stateData.receive.cachedPos
  fs := s.chan.world.fs

@[simp] theorem rxView_assert (f : Fault) (b : Bool) :
    (s.assert f b).rxView = s.rxView := by
  cases b <;> rfl

@[simp] theorem rxView_assertChunks : s.assertChunks.rxView = s.rxView :=
  rxView_assert _ _ _

@[simp] theorem rxView_armAckTimer :
    (s.armAckTimer mgr).rxView = s.rxView := rfl

@[simp] theorem rxView_armInactTimer :
    (s.armInactTimer mgr).rxView = s.rxView := rfl

@[simp] theorem rxView_runAckTimer : s.runAckTimer.rxView = s.rxView :=
  rxView_assert s _ _

@[simp] theorem rxView_runInactivityTimer :
    s.runInactivityTimer.rxView = s.rxView :=
  rxView_assert s _ _

@[simp] theorem rxView_send (pdu : Pdu) :
    (s.send mgr pdu).1.rxView = s.rxView := by
  have hfs := (s.send_sends mgr pdu).fs
  calc (s.send mgr pdu).1.rxView
      = { s.rxView with fs := (s.send mgr pdu).1.chan.world.fs } := rfl
    _ = s.rxView := by rw [hfs]; rfl

@[simp] theorem rxView_sendAck (ts : AckTxnStatus)
    (dirCode : FileDirective) (cc : ConditionCode) (peerEid tsn : UInt32) :
    (s.sendAck mgr ts dirCode cc peerEid tsn).1.rxView = s.rxView := by
  simp [sendAck]

@[simp] theorem rxView_sendFin (dc : FinDeliveryCode)
    (fs : FinFileStatus) (cc : ConditionCode) : (s.sendFin mgr dc fs cc).1.rxView = s.rxView := by
  simp [sendFin]

@[simp] theorem rxView_sendNak (nak : NakPdu) :
    (s.sendNak mgr nak).1.rxView = s.rxView := by
  simp [sendNak]

theorem rxView_setTxnStatus_error {stat : TxnStatus} (h : txnStatusIsError stat) :
    (s.setTxnStatus stat).rxView = { s.rxView with failed := true } := by
  by_cases herr : s.isError
  · rw [setTxnStatus_of_error herr, ← herr]
    rfl
  · rw [setTxnStatus_of_ok herr, ← h]
    rfl

theorem rxView_setTxnStatus_noError :
    (s.setTxnStatus .noError).rxView = s.rxView := by
  by_cases herr : s.isError
  · rw [setTxnStatus_of_error herr]
  · rw [setTxnStatus_of_ok herr]
    have hok : false = s.isError := by simpa using herr
    show { s.rxView with failed := false } = s.rxView
    rw [hok]
    rfl

theorem rxView_r2SetFinTxnStatus_error {stat : TxnStatus}
    (h : txnStatusIsError stat) :
    (s.r2SetFinTxnStatus stat).rxView = { s.rxView with failed := true, sendFin := true } := by
  calc (s.r2SetFinTxnStatus stat).rxView
      = { (s.setTxnStatus stat).rxView with sendFin := true } := rfl
    _ = _ := by rw [rxView_setTxnStatus_error s h]

@[simp] theorem rxView_decrementCmdTxCounter :
    s.decrementCmdTxCounter.rxView = s.rxView :=
  rxView_assert s .cmdTxCounter _

@[simp] theorem rxView_sendFileComplete (status : SendFileStatus) :
    (s.sendFileComplete status).rxView = s.rxView := rfl

@[simp] theorem rxView_settle (keepHistory : Bool) :
    (s.settle keepHistory).rxView = s.rxView := by
  show Session.rxView (if _ then sendFileComplete _ _ else _) = _
  rw [apply_ite rxView, rxView_sendFileComplete, ite_self, apply_ite rxView,
    rxView_decrementCmdTxCounter, ite_self]

@[simp] theorem rxView_releasePlayback (pb : PbRef) :
    (s.releasePlayback pb).rxView = s.rxView := by
  cases pb <;> exact rxView_assert s .playbackCounter _

@[simp] theorem rxView_clearCurrentIfMatch :
    s.clearCurrentIfMatch.rxView = s.rxView := by
  simp only [clearCurrentIfMatch]
  split <;> rfl

@[simp] theorem rxView_release (keepHistory : Bool) :
    (s.release keepHistory).rxView = s.rxView := by
  simp only [release, rxView_clearCurrentIfMatch]
  split <;> split <;> simp

theorem rxView_finishTransaction (keepHistory : Bool)
    (hq : s.txn.flags.com.qIndex = .rx) :
    ∃ fs, (s.finishTransaction mgr keepHistory).rxView =
        { s.rxView with state := .hold, fd := none, fs := fs } ∧
      (s.txn.keep = .keep → fs = s.chan.world.fs) := by
  obtain ⟨fs, n, hclose, hkeep⟩ := s.closeFile_eq mgr
  refine ⟨fs, ?_, hkeep⟩
  have hfree : ¬ s.txn.flags.com.qIndex = .free := by rw [hq]; decide
  have hactive : s.leaveActive = s := if_neg (by rw [hq]; decide)
  rw [finishTransaction, if_neg hfree, hactive, hclose]
  show { (Session.release _ keepHistory).rxView with state := .hold } = _
  rw [rxView_release]
  rfl

variable {p : Inputs}

theorem steps_finishTransaction (keepHistory : Bool)
    (hq : s.rxView.gone = false)
    (h : s.rxView.failed ∨ s.rxView.closeout ∨ s.rxView.eofCc ≠ 0 ∨ s.rxView.canceled) :
    Steps p s.rxView (s.finishTransaction mgr keepHistory).rxView := by
  have hrx : s.txn.flags.com.qIndex = .rx := by simpa [rxView] using hq
  obtain ⟨fs, heq, hkeep⟩ := s.rxView_finishTransaction mgr keepHistory hrx
  rw [heq]
  exact .one (.finish fs h hkeep)

theorem steps_r2Reset (hq : s.rxView.gone = false)
    (h : ¬ (s.rxView.failed ∨ s.rxView.closeout ∨ s.rxView.eofCc ≠ 0 ∨ s.rxView.canceled) → p.reset ∨ (s.rxView.eofRecv ∧ s.rxView.AllData)) :
    Steps p s.rxView (s.r2Reset mgr).rxView := by
  by_cases hdone : s.rxView.failed ∨ s.rxView.closeout ∨ s.rxView.eofCc ≠ 0 ∨ s.rxView.canceled
  · have hif : s.txn.stateData.receive.subState = .closeoutSync
        ∨ s.txn.stateData.receive.r2.eofCc ≠ ConditionCode.noError.code
        ∨ s.isError ∨ s.txn.flags.com.canceled := by
      rcases hdone with h | h | h | h
      · exact .inr (.inr (.inl h))
      · exact .inl (of_decide_eq_true h)
      · exact .inr (.inl h)
      · exact .inr (.inr (.inr h))
    rw [r2Reset, if_pos hif]
    exact steps_finishTransaction mgr s true hq hdone
  · have hif : ¬ (s.txn.stateData.receive.subState = .closeoutSync
        ∨ s.txn.stateData.receive.r2.eofCc ≠ ConditionCode.noError.code
        ∨ s.isError ∨ s.txn.flags.com.canceled) := by
      rintro (h | h | h | h)
      · exact hdone (.inr (.inl (decide_eq_true h)))
      · exact hdone (.inr (.inr (.inl h)))
      · exact hdone (.inl h)
      · exact hdone (.inr (.inr (.inr h)))
    rw [r2Reset, if_neg hif]
    refine .one (.requestFin (.inr (.inr ?_)))
    exact h hdone

theorem missing_eq_false_iff : s.missing = false ↔ s.rxView.AllData := by
  have hgap : s.hasGap = false ↔ s.rxView.list.Covers s.rxView.fsize.toNat := by
    rw [← ChunkList.computeGaps_eq_nil_iff _ one_pos]
    simp [hasGap, rxView]
  rw [View.AllData, ← hgap, missing, Bool.or_eq_false_iff]
  simp [rxView]

theorem rxView_requestNak :
    ((s.requestNak mgr).2 = true ∧ (s.requestNak mgr).1.rxView = { s.rxView with failed := true })
      ∨ ((s.requestNak mgr).2 = false ∧ (s.requestNak mgr).1.rxView = s.rxView) := by
  simp only [requestNak]
  split
  · refine .inl ⟨rfl, ?_⟩
    exact (s.modR2 _).rxView_setTxnStatus_error (by decide)
  · exact .inr ⟨rfl, rfl⟩

theorem rxView_markComplete :
    (((s.modRx fun f => { f with complete := true }).r2SetFinTxnStatus .noError).modReceive
      fun d => { d with subState := .fileData }).rxView =
      { s.rxView with complete := true, sendFin := true, closeout := false } := by
  have h := (s.modRx fun f => { f with complete := true }).rxView_setTxnStatus_noError
  calc _ = { ((s.modRx fun f => { f with complete := true }).setTxnStatus .noError).rxView with
        sendFin := true, closeout := false } := rfl
    _ = _ := by rw [h]; rfl

/-- Nothing after an error; otherwise the reception is open again, and complete where all has
arrived or too many requests were made. -/
theorem rxView_r2Complete (ok : Bool) :
    (s.rxView.failed ∧ (s.r2Complete mgr ok).rxView = s.rxView) ∨
      (¬ s.rxView.failed ∧ ¬ s.rxView.AllData ∧
        ((s.r2Complete mgr ok).rxView = { s.rxView with closeout := false } ∨
          (s.r2Complete mgr ok).rxView = { s.rxView with
            failed := true, complete := true, sendFin := true, closeout := false })) ∨
      (¬ s.rxView.failed ∧ s.rxView.AllData ∧ s.rxView.eofRecv ∧
        (s.r2Complete mgr ok).rxView =
          { s.rxView with complete := true, sendFin := true, closeout := false }) ∨
      (¬ s.rxView.failed ∧ s.rxView.AllData ∧ ¬ s.rxView.eofRecv ∧
        (s.r2Complete mgr ok).rxView = { s.rxView with closeout := false }) := by
  by_cases herr : s.isError
  · exact .inl ⟨herr, by rw [r2Complete, if_pos herr]⟩
  refine .inr ?_
  simp only [r2Complete, if_neg herr]
  generalize hs' : (if s.txn.flags.rx.mdRecv then s.assertChunks else s) = s'
  have hview : s'.rxView = s.rxView := by
    rw [← hs', apply_ite rxView, rxView_assertChunks, ite_self]
  have hall := missing_eq_false_iff s'
  rw [hview] at hall
  have heof : s'.txn.flags.rx.eofRecv = s.rxView.eofRecv := congrArg View.eofRecv hview
  by_cases hmiss : s'.missing
  · refine .inl ⟨herr, fun h => by simp [hall.2 h] at hmiss, ?_⟩
    cases ok with
    | false =>
      simp only [hmiss, Bool.false_eq_true, and_false, if_false, Bool.not_true, Bool.false_and]
      exact .inl (by rw [← hview]; rfl)
    | true =>
      simp only [hmiss, and_self, if_true]
      rcases s'.rxView_requestNak mgr with ⟨hlimit, hv⟩ | ⟨hlimit, hv⟩
      · rw [if_pos hlimit, rxView_markComplete, hv, hview]
        exact .inr rfl
      · rw [hlimit, if_neg Bool.false_ne_true]
        exact .inl (by rw [← hview, ← hv]; rfl)
  · have hnot : s'.missing = false := by simpa using hmiss
    have hdata := hall.1 hnot
    simp only [hnot, Bool.false_eq_true, false_and, if_false, Bool.not_false, Bool.true_and]
    refine .inr ?_
    by_cases he : s'.txn.flags.rx.eofRecv
    · rw [if_pos he, rxView_markComplete, hview]
      exact .inl ⟨herr, hdata, heof ▸ he, rfl⟩
    · rw [if_neg he]
      exact .inr ⟨herr, hdata, heof ▸ he, by rw [← hview]; rfl⟩

theorem steps_r2Complete (ok : Bool) :
    Steps p s.rxView (s.r2Complete mgr ok).rxView := by
  rcases s.rxView_r2Complete mgr ok with
    ⟨-, h⟩ | ⟨-, hopen, h | h⟩ | ⟨-, hall, heof, h⟩ | ⟨-, -, heof, h⟩
  · exact .of_eq h
  · rw [h]
    exact .one (.reopen (.inr (.inr (.inl hopen))))
  · rw [h]
    refine ((Steps.one (.fail s.rxView.fd)).tail (.giveUp rfl)).tail (.reopen (.inl rfl))
  · rw [h]
    exact (Steps.one (.complete heof hall)).tail (.reopen (.inr (.inr (.inr rfl))))
  · rw [h]
    exact .one (.reopen (.inr (.inl heof)))

theorem isError_fromConditionCode {cc : ConditionCode} (h : cc ≠ .noError) :
    txnStatusIsError (.fromConditionCode cc) := by
  have hpos : 0 < cc.code.toNat := by
    rw [Nat.pos_iff_ne_zero]
    intro hzero
    exact h (congrArg ConditionCode.mk (UInt8.toNat_inj.1 hzero))
  simpa [txnStatusIsError, TxnStatus.fromConditionCode] using hpos

theorem rxView_rSubstateRecvEof (eof : EofPdu) :
    (s.rSubstateRecvEof eof).1.rxView =
      if eof.conditionCode = .noError then s.rxView else { s.rxView with failed := true } := by
  simp only [rSubstateRecvEof]
  by_cases hcc : eof.conditionCode = .noError
  · simp only [hcc, ne_eq, not_true_eq_false, if_false, if_true]
  · simp only [ne_eq, hcc, not_false_eq_true, if_true, if_false]
    exact s.rxView_setTxnStatus_error (isError_fromConditionCode hcc)

theorem steps_acceptEof (s s' : Session) (cc : ConditionCode)
    (hq : s.rxView.gone = false) (hfirst : ¬ s.rxView.eofRecv)
    (hcc : cc ≠ .noError → s.rxView.failed)
    (hs' : s'.rxView = { s.rxView with eofRecv := true, eofCc := cc.code }) :
    Steps p s.rxView (if cc.code = ConditionCode.noError.code then s'.r2Complete mgr true
      else (s'.setTxnStatus (.fromConditionCode cc)).r2Reset mgr).rxView := by
  by_cases hzero : cc.code = ConditionCode.noError.code
  · rw [if_pos hzero]
    by_cases hall : ¬ s.rxView.failed ∧ s.rxView.AllData
    · -- The EOF makes a complete reception known at once.
      rcases s'.rxView_r2Complete mgr true with
        ⟨hf, -⟩ | ⟨-, hopen, -⟩ | ⟨-, -, -, h⟩ | ⟨-, -, heof, -⟩
      · rw [hs'] at hf
        exact absurd hf hall.1
      · rw [hs'] at hopen
        exact absurd hall.2 hopen
      · rw [h, hs', hzero]
        exact (Steps.one (.eofComplete hfirst hall.2)).tail (.reopen (.inr (.inr (.inr rfl))))
      · rw [hs'] at heof
        exact absurd rfl heof
    · have hopen : s.rxView.failed ∨ ¬ s.rxView.AllData := by tauto
      have heof : Steps p s.rxView s'.rxView := by
        rw [hs']
        refine .one (.eof cc.code hfirst (fun hne => absurd hzero hne) hopen)
      exact heof.trans (s'.steps_r2Complete mgr true)
  · rw [if_neg hzero]
    have hne : cc ≠ .noError := fun h => hzero (congrArg ConditionCode.code h)
    have hf := hcc hne
    have heof : Steps p s.rxView s'.rxView := by
      rw [hs']
      exact .one (.eof cc.code hfirst (fun _ => hf) (.inl hf))
    have hf' : s'.rxView.failed := by rw [hs']; exact hf
    rw [setTxnStatus_of_error hf']
    refine heof.trans (s'.steps_r2Reset mgr (by rw [hs']; exact hq) fun h => ?_)
    exact absurd (.inl hf') h

theorem steps_r2SubstateRecvEof (data : Bytes)
    (hq : s.rxView.gone = false) : Steps p s.rxView (s.r2SubstateRecvEof mgr data).rxView := by
  by_cases hfirst : s.txn.flags.rx.eofRecv
  · rw [r2SubstateRecvEof, if_pos hfirst]
  simp only [r2SubstateRecvEof, if_neg hfirst]
  generalize hs0 : s.assert .codec (!panics (EofPdu.deserializeFrom ⟨data⟩)) = s0
  have hv0 : s0.rxView = s.rxView := by rw [← hs0, rxView_assert]
  rw [← hv0] at hq ⊢
  have hfirst' : ¬ s0.rxView.eofRecv := by rw [hv0]; exact hfirst
  cases decoded (EofPdu.deserializeFrom ⟨data⟩) with
  | none => exact .one (.reopen (.inr (.inl hfirst')))
  | some eof =>
    have hview := s0.rxView_rSubstateRecvEof eof
    have hstatus : Steps p s0.rxView (s0.rSubstateRecvEof eof).1.rxView := by
      rw [hview]
      split
      · exact .refl
      · exact .one (.fail s0.rxView.fd)
    refine hstatus.trans ?_
    simp only
    split
    · refine steps_acceptEof mgr _ _ eof.conditionCode ?_ ?_ ?_ rfl
      · rw [hview]; split <;> exact hq
      · rw [hview]; split <;> exact hfirst'
      · intro hcc
        rw [hview, if_neg hcc]
    · rw [rxView_r2SetFinTxnStatus_error _ (by decide)]
      exact (Steps.one (.fail _)).tail (.requestFin (.inl rfl))

theorem dataSize_le_of_decoded {data : Bytes} {fd : FileDataPdu}
    (h : decoded (deserializeFrom ⟨data⟩) = some fd) :
    fd.dataSize.toNat ≤ fd.data.length := by
  rw [decoded_eq_some, deserializeFrom] at h
  obtain ⟨⟨header, r⟩, -, h⟩ := Codec.bind_eq_ok.1 h
  obtain ⟨-, -, h⟩ := Codec.bind_eq_ok.1 h
  obtain ⟨⟨offset, r⟩, -, h⟩ := Codec.bind_eq_ok.1 h
  simp only [Codec.throw_bind] at h
  split at h
  · cases h
  split at h
  · cases h
  · next hroom =>
    cases h
    exact not_lt.1 hroom

theorem getData_length_of_decoded {data : Bytes} {fd : FileDataPdu}
    (h : decoded (deserializeFrom ⟨data⟩) = some fd) :
    fd.getData.length = fd.dataSize.toNat := by
  rw [getData, List.length_take, min_eq_left (dataSize_le_of_decoded h)]

/-! Opening a file from a session whose file is closed. -/

section Opening

variable {s : Session} (mgr : Mgr) (path : Path) (hclosed : s.rxView.fd = none)
include hclosed

theorem rxView_fdOpenRead :
    ((s.fdOpenRead mgr path).2 = true ∧
        (s.fdOpenRead mgr path).1.rxView = { s.rxView with fd := some ⟨path, .openRead, 0⟩ }) ∨
      ((s.fdOpenRead mgr path).2 = false ∧ (s.fdOpenRead mgr path).1.rxView = s.rxView) := by
  have hfd : s.txn.fd = none := hclosed
  rw [fdOpenRead, if_neg (by simp [hfd])]
  by_cases hok : s.chan.world.nextOs mgr ∧ (s.chan.world.fs path).isSome
  · simp only [openRead, if_pos hok]
    exact .inl ⟨rfl, rfl⟩
  · simp only [openRead, if_neg hok, ← hfd]
    exact .inr ⟨by simp [hfd], rfl⟩

theorem rxView_fdOpenWrite :
    ((s.fdOpenWrite mgr path).2 = true ∧ (s.fdOpenWrite mgr path).1.rxView = { s.rxView with
        fd := some ⟨path, .openWrite, 0⟩
        fs := s.rxView.fs.update path (some ((s.rxView.fs path).getD [])) }) ∨
      ((s.fdOpenWrite mgr path).2 = false ∧ (s.fdOpenWrite mgr path).1.rxView = s.rxView) := by
  have hfd : s.txn.fd = none := hclosed
  rw [fdOpenWrite, if_neg (by simp [hfd])]
  by_cases hok : s.chan.world.nextOs mgr
  · simp only [openWrite, if_pos hok]
    exact .inl ⟨rfl, rfl⟩
  · simp only [openWrite, if_neg hok, ← hfd]
    exact .inr ⟨by simp [hfd], rfl⟩

theorem rxView_fdOpenCreate :
    ((s.fdOpenCreate mgr path).2 = true ∧ (s.fdOpenCreate mgr path).1.rxView = { s.rxView with
        fd := some ⟨path, .openCreate, 0⟩, fs := s.rxView.fs.update path (some []) }) ∨
      ((s.fdOpenCreate mgr path).2 = false ∧ (s.fdOpenCreate mgr path).1.rxView = s.rxView) := by
  have hfd : s.txn.fd = none := hclosed
  rw [fdOpenCreate, if_neg (by simp [hfd])]
  by_cases hok : s.chan.world.nextOs mgr
  · simp only [openCreate, if_pos hok]
    exact .inl ⟨rfl, rfl⟩
  · simp only [openCreate, if_neg hok, ← hfd]
    exact .inr ⟨by simp [hfd], rfl⟩

end Opening

theorem rxView_rSeek (pos : UInt32) :
    ((s.rSeek mgr pos).2 = false ∧ (s.rSeek mgr pos).1.rxView = s.rxView) ∨
      ((s.rSeek mgr pos).2 = true ∧ (s.rSeek mgr pos).1.rxView = { s.rxView with
        fd := s.rxView.fd.map fun h =>
          { h with pos := if s.rxView.cachedPos = pos then h.pos else pos.toNat } }) := by
  by_cases hpos : s.txn.stateData.receive.cachedPos = pos
  · have hstay : s.rSeek mgr pos = (s, true) := if_neg (not_not.2 hpos)
    have hpos' : s.rxView.cachedPos = pos := hpos
    refine .inr ⟨by rw [hstay], ?_⟩
    simp only [hstay, if_pos hpos', Option.map_id']
  · have hseek : s.rSeek mgr pos = s.fdSeekAbsolute mgr pos.toNat := if_pos hpos
    have hview : (s.rSeek mgr pos).1.rxView = { s.rxView with
      fd := (File.seekAbsolute s.txn.fd (s.chan.world.nextOs mgr) pos.toNat).1 } := by
        rw [hseek]; rfl
    have hok : (s.rSeek mgr pos).2 =
        (File.seekAbsolute s.txn.fd (s.chan.world.nextOs mgr) pos.toNat).2 := by
      rw [hseek]; rfl
    have hpos' : ¬ s.rxView.cachedPos = pos := hpos
    rw [hview, hok]
    rcases File.seekAbsolute_cases s.txn.fd (s.chan.world.nextOs mgr) pos.toNat with
      ⟨h, hfd, heq⟩ | heq
    · have hfd' : s.rxView.fd = some h := hfd
      refine .inr ⟨by rw [heq], ?_⟩
      simp only [heq, hfd', Option.map_some, if_neg hpos']
    · exact .inl ⟨by rw [heq], by rw [heq]; rfl⟩

theorem rxView_fdWrite (data : Bytes) :
    (∃ h, s.rxView.fd = some h ∧ h.mode ≠ .openRead ∧ (s.fdWrite mgr data).2 = true ∧
        (s.fdWrite mgr data).1.rxView = { s.rxView with
          fs := s.rxView.fs.update h.path
            (some (overwrite ((s.rxView.fs h.path).getD []) h.pos data))
          fd := some { h with pos := h.pos + data.length } }) ∨
      ((s.fdWrite mgr data).2 = false ∧ (s.fdWrite mgr data).1.rxView = s.rxView) := by
  have hview : (s.fdWrite mgr data).1.rxView = { s.rxView with
    fs := (s.chan.world.fs.write (s.chan.world.nextOs mgr) s.txn.fd data).1
    fd := (s.chan.world.fs.write (s.chan.world.nextOs mgr) s.txn.fd data).2.1 } := rfl
  have hok : (s.fdWrite mgr data).2 =
    (s.chan.world.fs.write (s.chan.world.nextOs mgr) s.txn.fd data).2.2 := rfl
  rw [hview, hok]
  rcases write_cases s.chan.world.fs (s.chan.world.nextOs mgr) s.txn.fd data with
    ⟨h, hfd, hmode, heq⟩ | heq
  · exact .inl ⟨h, hfd, hmode, by rw [heq], by rw [heq]; rfl⟩
  · exact .inr ⟨by rw [heq], by rw [heq]; rfl⟩

/-- Storing a PDU's data ends with an error and the handle anywhere, without data, or with the data
in the file. -/
theorem rxView_rProcessFd (fd : FileDataPdu)
    (hlen : fd.getData.length = fd.dataSize.toNat) :
    ((s.rProcessFd mgr fd).2 = .error ∧
        ∃ file, (s.rProcessFd mgr fd).1.rxView = { s.rxView with failed := true, fd := file }) ∨
      ((s.rProcessFd mgr fd).2 = .success ∧ fd.dataSize = 0 ∧ (s.rProcessFd mgr fd).1 = s) ∨
      ((s.rProcessFd mgr fd).2 = .success ∧
        (if s.rxView.mdRecv then fd.offset.toNat + fd.getData.length ≤ s.rxView.fsize.toNat
          else fd.offset.toNat + fd.getData.length < 2 ^ 32) ∧
        ∃ h, s.rxView.fd = some h ∧ h.mode ≠ .openRead ∧
          (s.rProcessFd mgr fd).1.rxView =
            { s.rxView.stored h fd.offset fd.getData with list := s.rxView.list }) := by
  simp only [rProcessFd]
  generalize hbound : (if s.txn.flags.rx.mdRecv then s.txn.fsize.toNat else 2 ^ 32 - 1) = bound
  by_cases hout : bound < fd.offset.toNat ∨ bound - fd.offset.toNat < fd.dataSize.toNat
  · rw [if_pos hout]
    exact .inl ⟨rfl, s.rxView.fd, s.rxView_setTxnStatus_error (by decide)⟩
  rw [if_neg hout]
  by_cases hempty : fd.dataSize = 0
  · rw [if_pos hempty]
    exact .inr (.inl ⟨rfl, hempty, rfl⟩)
  rw [if_neg hempty]
  have hfits : if s.rxView.mdRecv then fd.offset.toNat + fd.getData.length ≤ s.rxView.fsize.toNat
      else fd.offset.toNat + fd.getData.length < 2 ^ 32 := by
    rw [hlen]
    simp only [rxView]
    split at hbound <;> rename_i hmd <;> simp only [hmd, if_true, Bool.false_eq_true, if_false] <;>
      omega
  have hcached : UInt32.ofNat fd.getData.length = fd.dataSize.toUInt32 := by
    rw [hlen, UInt32.ofNat_uInt16ToNat]
  generalize hr : s.rSeek mgr fd.offset = r
  have hseek := s.rxView_rSeek mgr fd.offset
  rw [hr] at hseek
  rcases hseek with ⟨hbad, hv⟩ | ⟨hgood, hv⟩
  · rw [hbad, if_pos Bool.false_ne_true]
    refine .inl ⟨rfl, s.rxView.fd, ?_⟩
    rw [r.1.rxView_setTxnStatus_error (by decide), hv]
  rw [hgood, if_neg (not_not.2 rfl)]
  rcases r.1.rxView_fdWrite mgr fd.getData with ⟨h, hfd, hmode, hok, hw⟩ | ⟨hok, hw⟩
  · rw [hv] at hfd
    obtain ⟨h0, hfd0, rfl⟩ := Option.map_eq_some_iff.1 hfd
    rw [hok, if_neg (not_not.2 rfl)]
    refine .inr (.inr ⟨rfl, hfits, h0, hfd0, hmode, ?_⟩)
    calc _ = { (r.1.fdWrite mgr fd.getData).1.rxView with
          cachedPos := fd.dataSize.toUInt32 + fd.offset } := rfl
      _ = _ := by rw [hw, hv, View.stored, hcached]
  · rw [hok, if_pos Bool.false_ne_true]
    refine .inl ⟨rfl, r.1.rxView.fd, ?_⟩
    rw [rxView_setTxnStatus_error _ (by decide), hw, hv]

theorem steps_r2RecordFd (fd : FileDataPdu) :
    Steps p { s.rxView with list := s.rxView.list.add fd.offset.toNat fd.dataSize.toNat }
      (s.r2RecordFd mgr fd).rxView := by
  unfold r2RecordFd
  lift_lets
  intro _ s1 s2 s3 s4
  have hv1 : s1.rxView = s.rxView := by rw [rxView_assert, rxView_assertChunks]
  have hv2 : s2.rxView =
      { s.rxView with list := s.rxView.list.add fd.offset.toNat fd.dataSize.toNat } := by
    rw [← hv1]
    rfl
  have h3 : Steps p s2.rxView s3.rxView := by
    by_cases hnak : s2.txn.flags.rx.fdNakSent
    · rw [show s3 = s2.r2Complete mgr false from if_pos hnak]
      exact s2.steps_r2Complete mgr false
    · rw [show s3 = s2 from if_neg hnak]
  have hv4 : s4.rxView = s3.rxView := by
    rw [apply_ite rxView, rxView_armAckTimer, ite_self]
  rw [← hv2]
  exact h3.trans (Steps.of_eq hv4)

theorem rxView_recvFd (fd : FileDataPdu) :
    ((s.recvFd fd).2 = .error ∧ (s.recvFd fd).1.rxView = { s.rxView with failed := true }) ∨
      s.recvFd fd = (s, .success) := by
  simp only [recvFd]
  split
  · exact .inl ⟨rfl, s.rxView_setTxnStatus_error (by decide)⟩
  · exact .inr rfl

theorem steps_r2SubstateRecvFileData (mgr : Mgr) (s : Session) (data : Bytes)
    (hq : s.rxView.gone = false)
    (hdata : ∀ fd, decoded (deserializeFrom ⟨data⟩) = some fd → p.data fd.offset fd.getData)
    (hreset : decoded (deserializeFrom ⟨data⟩) = none → s.rxView.crcBytes = 0 → ¬ (s.rxView.failed ∨ s.rxView.closeout ∨ s.rxView.eofCc ≠ 0 ∨ s.rxView.canceled) → p.reset ∨ (s.rxView.eofRecv ∧ s.rxView.AllData)) :
    Steps p s.rxView (s.r2SubstateRecvFileData mgr data).rxView := by
  by_cases hcrc : 0 < s.txn.stateData.receive.r2.rxCrcCalcBytes
  · rw [r2SubstateRecvFileData, if_pos hcrc]
  have hzero : s.rxView.crcBytes = 0 := by
    have := UInt32.not_lt.1 hcrc
    exact UInt32.le_zero_iff.1 this
  simp only [r2SubstateRecvFileData, if_neg hcrc]
  generalize hs0 : s.assert .codec (!panics (deserializeFrom ⟨data⟩)) = s0
  have hv0 : s0.rxView = s.rxView := by rw [← hs0, rxView_assert]
  rw [← hv0] at hq hreset hzero ⊢
  cases hdec : decoded (deserializeFrom ⟨data⟩) with
  | none => exact s0.steps_r2Reset mgr hq (hreset hdec hzero)
  | some fd =>
    simp only
    rcases s0.rxView_recvFd fd with ⟨herr, hv⟩ | hok
    · -- Unsupported segment metadata ends the reception.
      simp only [herr, reduceCtorEq, if_false]
      have hfail : Steps p s0.rxView (s0.recvFd fd).1.rxView := by
        rw [hv]
        exact .one (.fail s0.rxView.fd)
      refine hfail.trans (steps_r2Reset mgr _ (by rw [hv]; exact hq) fun h => ?_)
      exact absurd (.inl (by rw [hv])) h
    simp only [hok, if_true]
    have hlen := getData_length_of_decoded hdec
    rcases s0.rxView_rProcessFd mgr fd hlen with
      ⟨herr, file, hv⟩ | ⟨hsucc, hempty, hsame⟩ | ⟨hsucc, hfits, h, hfd, hmode, hv⟩
    · simp only [herr, reduceCtorEq, if_false]
      have hfail : Steps p s0.rxView (s0.rProcessFd mgr fd).1.rxView := by
        rw [hv]
        exact .one (.fail file)
      refine hfail.trans (steps_r2Reset mgr _ (by rw [hv]; exact hq) fun h => ?_)
      exact absurd (.inl (by rw [hv])) h
    · rw [hsucc, if_pos rfl, hsame]
      have hadd : { s0.rxView with
          list := s0.rxView.list.add fd.offset.toNat fd.dataSize.toNat } = s0.rxView := by
        simp [ChunkList.add, hempty]
      have hrec := @steps_r2RecordFd mgr s0 p fd
      rwa [hadd] at hrec
    · rw [hsucc, if_pos rfl]
      have hstore : Step p s0.rxView (s0.rxView.stored h fd.offset fd.getData) :=
        .store h fd.offset fd.getData (hdata fd hdec) hfd hmode hzero
          (by rw [hlen]; exact fd.dataSize.toNat_lt) hfits
      refine (Steps.one hstore).trans ?_
      have hrec := @steps_r2RecordFd mgr (s0.rProcessFd mgr fd).1 p fd
      rw [hv, ← hlen] at hrec
      exact hrec

theorem steps_r2AdoptFile (v : View)
    (hv : s.rxView = { v with fsize := s.rxView.fsize, dst := s.rxView.dst })
    (hsize : p.size s.rxView.fsize) (hfirst : ¬ v.mdRecv) :
    Steps p v (s.r2AdoptFile mgr v.dst).rxView := by
  have hfs : s.chan.world.fs = v.fs := congrArg View.fs hv
  simp only [r2AdoptFile]
  generalize hr : s.fdClose.moveFile mgr v.dst s.fdClose.hist.fnames.dstFilename = r
  have hmoved : (r.2 = false ∨ (v.fs v.dst).isSome ∧
        r.1.rxView.fs = (v.fs.moveFile true v.dst s.rxView.dst).1) ∧
      r.1.rxView = { s.rxView with fd := none, fs := r.1.rxView.fs } := by
    rw [← hr]
    refine ⟨?_, rfl⟩
    by_cases hok : s.chan.world.nextOs mgr ∧ (v.fs v.dst).isSome
    · refine .inr ⟨hok.2, ?_⟩
      show (s.chan.world.fs.moveFile (s.chan.world.nextOs mgr) v.dst s.rxView.dst).1 = _
      rw [hfs, hok.1]
    · refine .inl ?_
      show (s.chan.world.fs.moveFile (s.chan.world.nextOs mgr) v.dst s.rxView.dst).2 = _
      rw [hfs, FileSystem.moveFile, if_neg hok]
  obtain ⟨hcase, hrv⟩ := hmoved
  have hfailed : ∀ s' : Session, (∃ fd fs, s'.rxView = { s.rxView with fd := fd, fs := fs }) →
      Steps p v (s'.r2SetFinTxnStatus .filestoreRejection).rxView := by
    rintro s' ⟨fd, fs, hs'⟩
    rw [rxView_r2SetFinTxnStatus_error _ (by decide), hs', hv]
    exact .one (.metadataFailed _ _ fd fs hfirst)
  by_cases hmove : r.2
  · rw [if_neg (not_not.2 hmove)]
    obtain ⟨hfile, hrfs⟩ := hcase.resolve_left (by simp [hmove])
    generalize hw : r.1.fdOpenWrite mgr s.fdClose.hist.fnames.dstFilename = w
    have hopen := rxView_fdOpenWrite mgr s.rxView.dst (congrArg View.fd hrv)
    rw [show r.1.fdOpenWrite mgr s.rxView.dst = w from hw] at hopen
    rcases hopen with ⟨hok, hwv⟩ | ⟨hok, hwv⟩
    · rw [hok, if_neg (not_not.2 rfl)]
      refine Relation.ReflTransGen.trans ?_ (steps_r2Complete mgr _ true)
      show Steps p v { w.1.rxView with cachedPos := 0, mdRecv := true }
      rw [hwv, hrv, hrfs, hv]
      exact .one (.metadata _ _ hsize hfirst hfile)
    · rw [hok, if_pos Bool.false_ne_true]
      exact hfailed _ ⟨none, r.1.rxView.fs, by rw [hwv, hrv]⟩
  · rw [if_pos hmove]
    exact hfailed _ ⟨none, r.1.rxView.fs, hrv⟩

theorem steps_r2RecvMd (data : Bytes)
    (hsize : ∀ md, decoded (MetadataPdu.deserializeFrom ⟨data⟩) = some md → p.size md.fileSize) :
    Steps p s.rxView (s.r2RecvMd mgr data).rxView := by
  by_cases hfirst : s.txn.flags.rx.mdRecv
  · rw [r2RecvMd, if_pos hfirst]
  simp only [r2RecvMd, if_neg hfirst]
  have hv0 := s.rxView_assert .codec (!panics (MetadataPdu.deserializeFrom ⟨data⟩))
  generalize s.assert .codec (!panics (MetadataPdu.deserializeFrom ⟨data⟩)) = s0 at hv0
  cases hdec : decoded (MetadataPdu.deserializeFrom ⟨data⟩) with
  | none => exact .of_eq hv0
  | some md =>
    have hmd : (s0.recvMd md).rxView = { s.rxView with
        fsize := (s0.recvMd md).rxView.fsize, dst := (s0.recvMd md).rxView.dst } := by
      rw [← hv0]
      rfl
    simp only
    split
    · rw [rxView_r2SetFinTxnStatus_error _ (by decide), hmd]
      exact .one (.metadataFailed _ _ s.rxView.fd s.rxView.fs hfirst)
    · exact steps_r2AdoptFile mgr _ s.rxView hmd (hsize md hdec) hfirst

theorem steps_r2RecvFinAck (data : Bytes)
    (hq : s.rxView.gone = false) (hclose : s.rxView.closeout) :
    Steps p s.rxView (s.r2RecvFinAck mgr data).rxView := by
  simp only [r2RecvFinAck]
  have hv0 := s.rxView_assert .codec (!panics (AckPdu.deserializeFrom ⟨data⟩))
  generalize s.assert .codec (!panics (AckPdu.deserializeFrom ⟨data⟩)) = s0 at hv0
  cases decoded (AckPdu.deserializeFrom ⟨data⟩) with
  | none => exact .of_eq hv0
  | some ack =>
    rw [← hv0] at hq hclose ⊢
    exact s0.steps_r2Reset mgr hq fun h => absurd (.inr (.inl hclose)) h

end Fprime.Cfdp.Session
