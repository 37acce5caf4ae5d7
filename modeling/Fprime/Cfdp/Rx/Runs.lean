import Fprime.Cfdp.Rx.Ticks

/-!
# Runs of a class-2 reception

A reception starts with a PDU for which there is no transaction yet, and goes on with PDUs,
ticks and perhaps a cancellation, until a tick recycles it.
-/

namespace Fprime.Cfdp

open Fprime.Os Fprime.Fw Rx Lib.Runs Option MetadataPdu PduHeader

namespace Session

section Recv

variable {p : Inputs} (mgr : Mgr) {s : Session} (data : Bytes)

/-- What a received PDU brings is permitted: its data, its size, and a FIN for file data that cannot
be decoded. -/
structure Admits (p : Inputs) (s : Session) (data : Bytes) : Prop where
  stored : peekPduType data = .fileData →
    ∀ fd, decoded (FileDataPdu.deserializeFrom ⟨data⟩) = some fd → p.data fd.offset fd.getData
  announced : ∀ md, decoded (deserializeFrom ⟨data⟩) = some md → p.size md.fileSize
  undecodable : s.rxView.state = .r2 → peekPduType data = .fileData →
    decoded (FileDataPdu.deserializeFrom ⟨data⟩) = none → s.rxView.crcBytes = 0 →
    ¬ (s.rxView.failed ∨ s.rxView.closeout ∨ s.rxView.eofCc ≠ 0 ∨ s.rxView.canceled) →
    p.reset ∨ (s.rxView.eofRecv ∧ s.rxView.AllData)

/-- A class-2 reception handles an ACK only while it waits for the one of its FIN. -/
theorem r2Table_eq_some {subState : RxSubState} {directive : FileDirective} {f : RRecv}
    (h : r2Table subState directive = some f) :
    f = .r2Eof ∨ f = .r2Md ∨ (f = .r2FinAck ∧ subState = .closeoutSync) := by
  unfold r2Table at h
  split at h
  · exact .inl (some.inj h).symm
  · split at h
    · exact .inr (.inl (some.inj h).symm)
    · split at h
      · next hclose => exact .inr (.inr ⟨(some.inj h).symm, hclose.1⟩)
      · cases h

theorem steps_r2Recv (hst : s.rxView.state = .r2) (hq : s.rxView.gone = false)
    (h : s.Admits p data) :
    Steps p s.rxView (s.r2Recv mgr data).rxView := by
  simp only [r2Recv, rDispatchRecv]
  have hv := s.rxView_assert .subState (s.txn.stateData.receive.subState != .numStates)
  generalize s.assert .subState (s.txn.stateData.receive.subState != .numStates) = s1 at hv
  by_cases hpeek : peekPduType data = .fileData
  · rw [if_pos hpeek]
    by_cases herr : s1.isError
    · rw [if_pos herr]
      exact .of_eq hv
    · rw [if_neg herr, if_neg Bool.false_ne_true, ← hv]
      refine steps_r2SubstateRecvFileData mgr s1 data (by rw [hv]; exact hq)
        (h.stored hpeek) ?_
      rw [hv]
      exact h.undecodable hst hpeek
  · rw [if_neg hpeek]
    have hv2 := s1.rxView_assert .codec (!panics (fromSerialBuffer ⟨data⟩))
    generalize s1.assert .codec (!panics (fromSerialBuffer ⟨data⟩)) = s2 at hv2
    rw [hv] at hv2
    rw [← hv2] at hq ⊢
    cases hrecv : (directiveOf data).bind (r2Table s.txn.stateData.receive.subState) with
    | none => exact .refl
    | some f =>
      obtain ⟨directive, -, htable⟩ := bind_eq_some_iff.1 hrecv
      rcases r2Table_eq_some htable with rfl | rfl | ⟨rfl, hclose⟩
      · exact s2.steps_r2SubstateRecvEof mgr data hq
      · exact s2.steps_r2RecvMd mgr data h.announced
      · refine s2.steps_r2RecvFinAck mgr data hq ?_
        rw [hv2]
        exact decide_eq_true hclose

theorem rxView_recvHold : (s.recvHold mgr data).rxView = s.rxView := by
  simp only [recvHold]
  split
  · have hv := s.rxView_assert .codec (!panics (FinPdu.deserializeFrom ⟨data⟩))
    generalize s.assert .codec (!panics (FinPdu.deserializeFrom ⟨data⟩)) = s1 at hv
    cases decoded (FinPdu.deserializeFrom ⟨data⟩) with
    | none => exact hv
    | some fin => simp only [rxView_sendAck, hv]
  · rfl

theorem steps_dispatchOnce (hr : Receiving s.rxView) (hq : s.rxView.gone = false)
    (h : s.Admits p data) : Steps p s.rxView (s.dispatchOnce mgr data).1.rxView ∧
      (s.dispatchOnce mgr data).2 = false := by
  rcases hr.state with hst | hst
  · have hst' : s.txn.state = .r2 := hst
    rw [dispatchOnce, hst']
    exact ⟨steps_r2Recv mgr data hst hq h, rfl⟩
  · have hst' : s.txn.state = .hold := hst
    rw [dispatchOnce, hst']
    exact ⟨.of_eq (rxView_recvHold mgr data), rfl⟩

theorem steps_dispatchRecv (hr : Receiving s.rxView) (hq : s.rxView.gone = false)
    (h : s.Admits p data) : Steps p s.rxView (s.dispatchRecv mgr data).rxView := by
  obtain ⟨hsteps, honce⟩ := steps_dispatchOnce mgr data hr hq h
  rw [dispatchRecv, honce]
  exact hsteps

end Recv

theorem steps_cancelTransaction {p : Inputs} (mgr : Mgr) (s : Session) (hr : Receiving s.rxView)
    (hq : s.rxView.gone = false) : Steps p s.rxView (s.cancelTransaction mgr).rxView := by
  by_cases hcan : s.txn.flags.com.canceled
  · rw [cancelTransaction, if_pos hcan]
  · rw [cancelTransaction, if_neg hcan]
    lift_lets
    intro s1
    have hv : s1.rxView = { s.rxView with failed := true, canceled := true } := by
      rw [rxView_setTxnStatus_error _ (by decide)]
      rfl
    have hsteps : Steps p s.rxView s1.rxView := by
      rw [hv]
      exact (Steps.one (.fail s.rxView.fd)).tail (.cancel rfl)
    have hfailed : s1.rxView.failed := by rw [hv]
    have hdir : s1.hist.dir = .rx := (congrArg View.dir hv).trans hr.dir
    simp only [hdir]
    refine hsteps.trans ?_
    simp only [rCancel]
    split
    · exact Steps.one (.requestFin (.inl hfailed))
    · exact steps_finishTransaction mgr s1 true (by rw [hv]; exact hq) (.inl hfailed)

/-- A session as `start_rx_transaction` leaves it, with empty chunk lists in the pool. -/
structure Fresh (s : Session) : Prop where
  txn : ∃ (t : Transaction) (h : Nat), s.txn = { t.reset with
    history := some h
    chunks := none
    state := .init
    stateData := { StateData.default with receive :=
      { StateData.default.receive with r2 := { StateData.default.receive.r2 with
        dc := .incomplete, fs := .discarded } } }
    flags := { StateFlags.default with com := { StateFlags.default.com with qIndex := .rx } } }
  hist : s.hist = .default
  chunks : ∀ c, s.chan.cs .rx = some c →
    (s.chan.chunks c).chunks = [] ∧ (s.chan.chunks c).maxChunks = numChunksPerTransaction

end Session

namespace Rx

/-- A reception before anything but its first announcement has arrived, its file closed. -/
structure Blank (p : Inputs) (v : View) : Prop where
  gone : v.gone = false
  receiving : Receiving v
  failed : v.failed = false
  sendFin : v.sendFin = false
  canceled : v.canceled = false
  eofRecv : v.eofRecv = false
  eofCc : v.eofCc = 0
  complete : v.complete = false
  closeout : v.closeout = false
  crcCalc : v.crcCalc = false
  crcBytes : v.crcBytes = 0
  delivered : v.delivered = false
  size : v.mdRecv → p.size v.fsize
  list : v.list.chunks = []
  fd : v.fd = none
  cachedPos : v.cachedPos = 0

/-- How a reception starts: with an empty file open, or with an error to report. -/
inductive Initial (p : Inputs) : View → Prop
  | opened {v : View} (h : Blank p v) (dst : Path) : Initial p { v with
      dst := dst, fd := some ⟨dst, .openCreate, 0⟩, fs := v.fs.update dst (some []) }
  | refused {v : View} (h : Blank p v) (dst : Path) :
      Initial p { v with dst := dst, failed := true, sendFin := true }

theorem Initial.receiving {p : Inputs} {v : View} (h : Initial p v) : Receiving v := by
  cases h with
  | opened h | refused h => exact ⟨h.receiving.dir, h.receiving.state, h.receiving.room⟩

theorem Initial.gone {p : Inputs} {v : View} (h : Initial p v) : v.gone = false := by
  cases h with
  | opened h | refused h => exact h.gone

end Rx

namespace Session

variable {p : Inputs} {s : Session}

variable (mgr : Mgr) (data : Bytes)

theorem initial_rInit (hst : s.txn.state = .r2) (h : Blank p s.rxView) :
    Initial p (s.rInit mgr).rxView := by
  simp only [rInit, if_pos hst]
  generalize hs1 : Session.armAckTimer mgr (if ¬ s.txn.flags.rx.mdRecv then
    { s with hist := { s.hist with fnames := { s.hist.fnames with
      dstFilename := tmpFilename (s.params mgr).tmpDir s.hist.srcEid s.hist.seqNum } } }
    else s) = s1
  have hv1 : s1.rxView = { s.rxView with dst := s1.hist.fnames.dstFilename } := by
    rw [← hs1]
    split <;> rfl
  have hopen := rxView_fdOpenCreate mgr s1.hist.fnames.dstFilename
    ((congrArg View.fd hv1).trans h.fd)
  generalize s1.fdOpenCreate mgr s1.hist.fnames.dstFilename = r at hopen
  rcases hopen with ⟨hok, hv⟩ | ⟨hok, hv⟩
  · rw [hok, if_neg (not_not.2 rfl)]
    have hview : Session.rxView (r.1.modReceive fun d => { d with subState := .fileData }) =
        { s.rxView with
          dst := s1.hist.fnames.dstFilename
          fd := some ⟨s1.hist.fnames.dstFilename, .openCreate, 0⟩
          fs := s.rxView.fs.update s1.hist.fnames.dstFilename (some []) } := by
      calc _ = { r.1.rxView with closeout := false } := rfl
        _ = _ := by rw [hv, hv1, ← h.closeout]
    rw [hview]
    exact .opened h _
  · have hst' : r.1.txn.state = .r2 := by
      show r.1.rxView.state = .r2
      rw [hv, hv1]
      exact hst
    rw [hok, if_pos Bool.false_ne_true, if_pos hst', rxView_r2SetFinTxnStatus_error _ (by decide),
      hv, hv1]
    exact .refused h _

theorem Fresh.acquireChunks (hf : s.Fresh) (hist : History) :
    (Session.acquireChunks { s with hist := hist } .rx).txn.chunks = none ∨
      ∃ c chan list, Session.acquireChunks { s with hist := hist } .rx =
          { s with hist := hist, txn := { s.txn with chunks := some c }, chan := chan, list := list } ∧
        chan.world.fs = s.chan.world.fs ∧ list.chunks = [] ∧
        list.maxChunks = numChunksPerTransaction := by
  obtain ⟨t, h, htxn⟩ := hf.txn
  have hnone : s.txn.chunks = none := by rw [htxn]
  simp only [Session.acquireChunks, hnone, isNone_none, if_true, Channel.findUnusedChunks]
  cases hcs : s.chan.cs .rx with
  | none => exact .inl rfl
  | some c =>
    refine .inr ⟨c, _, _, rfl, World.assert_fs _ _ _, ?_⟩
    exact hf.chunks c hcs

theorem finishTransaction_txnClass (s : Session) (keepHistory : Bool) :
    (s.finishTransaction mgr keepHistory).txn.txnClass = s.txn.txnClass := by
  by_cases hfree : s.txn.flags.com.qIndex = .free
  · rw [finishTransaction, if_pos hfree]
  · rw [s.finishTransaction_txn mgr keepHistory hfree]

theorem rInit_txnClass (s : Session) :
    (s.rInit mgr).txn.txnClass = s.txn.txnClass := by
  have hopen : ∀ (s : Session) (path : Path),
      (s.fdOpenCreate mgr path).1.txn.txnClass = s.txn.txnClass := by
    intro s path
    simp only [fdOpenCreate]
    split <;> rfl
  have hstatus : ∀ (s : Session) (stat : TxnStatus),
      (s.r2SetFinTxnStatus stat).txn.txnClass = s.txn.txnClass := by
    intro s stat
    simp only [r2SetFinTxnStatus, setTxnStatus]
    split <;> rfl
  simp only [rInit]
  generalize hs1 : (if s.txn.state = .r2 then Session.armAckTimer mgr (if ¬ s.txn.flags.rx.mdRecv then
    { s with hist := { s.hist with fnames := { s.hist.fnames with
      dstFilename := tmpFilename (s.params mgr).tmpDir s.hist.srcEid s.hist.seqNum } } }
    else s) else s) = s1
  have hs₁class : s1.txn.txnClass = s.txn.txnClass := by
    rw [← hs1]
    split
    · split <;> rfl
    · rfl
  rw [← hs₁class, ← hopen s1 s1.hist.fnames.dstFilename]
  split
  · split
    · exact hstatus _ _
    · exact finishTransaction_txnClass _ _ _
  · rfl

theorem recvFirst_cases (txmMode : Class)
    (hclass : s.txn.txnClass = .class1) (hblank : Blank p { s.rxView with state := .r2 })
    (hsize : ∀ md, decoded (deserializeFrom ⟨data⟩) = some md → p.size md.fileSize) :
    ((s.recvFirst mgr data txmMode).1.txn.txnClass = .class1 ∧
        (s.recvFirst mgr data txmMode).2 = false) ∨
      Initial p (s.recvFirst mgr data txmMode).1.rxView := by
  by_cases hchunks : s.txn.chunks.isNone
  · rw [recvFirst, if_pos hchunks]
    exact .inl ⟨hclass, rfl⟩
  by_cases hfd : peekPduType data = .fileData
  · rw [recvFirst, if_neg hchunks, if_pos hfd]
    by_cases hmode : txmMode = .class1
    · rw [if_pos hmode]
      exact .inl ⟨hclass, rfl⟩
    · rw [if_neg hmode]
      exact .inr (initial_rInit mgr rfl hblank)
  by_cases hmeta : peekPduType data = .metadata
  · rw [recvFirst, if_neg hchunks, if_neg hfd, if_pos hmeta]
    have hv := s.rxView_assert .codec (!panics (deserializeFrom ⟨data⟩))
    have htxn : (s.assert .codec (!panics (deserializeFrom ⟨data⟩))).txn = s.txn := rfl
    simp only
    generalize s.assert .codec (!panics (deserializeFrom ⟨data⟩)) = s1 at hv htxn
    cases hdec : decoded (deserializeFrom ⟨data⟩) with
    | none => exact .inl ⟨by rw [htxn]; exact hclass, rfl⟩
    | some md =>
      cases txmMode with
      | class1 => exact .inl ⟨rInit_txnClass _ _, rfl⟩
      | class2 =>
        refine .inr (initial_rInit mgr rfl ?_)
        show Blank p { s1.rxView with
          state := .r2
          fsize := md.fileSize
          dst := setBytes defaultStringSize md.destFilename
          mdRecv := true }
        rw [hv]
        have hr := hblank.receiving
        exact { hblank with receiving := ⟨hr.dir, hr.state, hr.room⟩, size := fun _ => hsize md hdec }
  · rw [recvFirst, if_neg hchunks, if_neg hfd, if_neg hmeta]
    exact .inl ⟨hclass, rfl⟩

theorem acquireChunks_txnClass (s : Session) (dir : Direction) :
    (s.acquireChunks dir).txn.txnClass = s.txn.txnClass := by
  simp only [acquireChunks]
  split <;> rfl

theorem recvInit_cases (hf : s.Fresh)
    (hsize : ∀ md, decoded (deserializeFrom ⟨data⟩) = some md → p.size md.fileSize) :
    ((s.recvInit mgr data).1.txn.txnClass = .class1 ∧ (s.recvInit mgr data).2 = false) ∨
      Initial p (s.recvInit mgr data).1.rxView := by
  have hf' : Fresh (s.assert .codec (!panics (fromSerialBuffer ⟨data⟩))) :=
    ⟨hf.txn, hf.hist, hf.chunks⟩
  simp only [recvInit]
  generalize s.assert .codec (!panics (fromSerialBuffer ⟨data⟩)) = s1 at hf'
  obtain ⟨t, n, htxn⟩ := hf'.txn
  have hclass : s1.txn.txnClass = .class1 := by rw [htxn]; rfl
  cases decoded (fromSerialBuffer ⟨data⟩) with
  | none => exact .inl ⟨hclass, rfl⟩
  | some found =>
    obtain ⟨header, rest⟩ := found
    simp only
    generalize hhist : { s1.hist with
      seqNum := header.transactionSeq
      peerEid := header.sourceEid
      srcEid := header.sourceEid } = hist
    generalize hs2 : Session.acquireChunks { s1 with hist := hist } .rx = s2
    have hclass2 : s2.txn.txnClass = .class1 := by
      rw [← hs2, acquireChunks_txnClass]
      exact hclass
    generalize hr : s2.recvFirst mgr data header.class_ = r
    have hcases : (r.1.txn.txnClass = .class1 ∧ r.2 = false) ∨ Initial p r.1.rxView := by
      rw [← hr]
      rcases hf'.acquireChunks hist with hnone | ⟨c, chan, list, heq, hfs, hlist, hmax⟩
      · rw [hs2] at hnone
        rw [recvFirst, if_pos (by rw [hnone]; rfl)]
        exact .inl ⟨hclass2, rfl⟩
      · refine recvFirst_cases mgr data _ hclass2 ?_ hsize
        rw [← hs2, heq, htxn, ← hhist, hf'.hist]
        have hroom : 1 < list.maxChunks := by rw [hmax]; decide
        exact ⟨rfl, ⟨rfl, .inl rfl, hroom⟩, rfl, rfl, rfl, rfl, rfl, rfl, rfl, rfl, rfl, rfl, nofun,
          hlist, rfl, rfl⟩
    rcases hcases with ⟨hc, hno⟩ | hinit
    · split
      · exact .inl ⟨by rw [finishTransaction_txnClass]; exact hc, hno⟩
      · exact .inl ⟨hc, hno⟩
    · have hst : ¬ r.1.txn.state = .init := by
        intro hinit'
        have hstate := hinit.receiving.state
        rw [show r.1.rxView.state = .init from hinit'] at hstate
        rcases hstate with h | h <;> cases h
      rw [if_neg hst]
      exact .inr hinit

theorem start_dispatchRecv (hf : s.Fresh)
    (hclass : (s.dispatchRecv mgr data).txn.txnClass = .class2)
    (h : ∀ s : Session, s.Admits p data) :
    ∃ v, Initial p v ∧ Steps p v (s.dispatchRecv mgr data).rxView := by
  obtain ⟨t, n, htxn⟩ := hf.txn
  have hst : s.txn.state = .init := by rw [htxn]
  have harm : ∀ s' : Session, (s'.armInactTimer mgr).txn.txnClass = s'.txn.txnClass :=
    fun _ => rfl
  simp only [dispatchRecv, dispatchOnce, hst, harm, rxView_armInactTimer] at hclass ⊢
  have hcases := recvInit_cases mgr data hf (h s).announced
  generalize s.recvInit mgr data = r at hclass hcases
  rcases hcases with ⟨hc, hno⟩ | hinit
  · rw [hno, if_neg Bool.false_ne_true, hc] at hclass
    cases hclass
  · refine ⟨r.1.rxView, hinit, ?_⟩
    split
    · exact (steps_dispatchOnce mgr data hinit.receiving hinit.gone (h r.1)).1
    · exact .refl

end Session

inductive RxEvent where
  | recv (data : Bytes)
  | tick
  | cancel

namespace Session

variable (p : Inputs) (s : Session)

/-- One event, with the parameters and surroundings it meets. A recycled transaction gets
none. -/
def rxStep (e : Mgr × RxEvent) : Session :=
  if s.txn.flags.com.qIndex ≠ .rx then s
  else
    match e.2 with
    | .recv data => s.dispatchRecv e.1 data
    | .tick => s.rTick e.1
    | .cancel => s.cancelTransaction e.1

def rxRun (first : Mgr × Bytes) (events : List (Mgr × RxEvent)) : Session :=
  events.foldl rxStep (s.dispatchRecv first.1 first.2)

def Permits : Mgr × RxEvent → Prop
  | (_, .recv data) => s.Admits p data
  | (_, .tick) => s.LateNak → p.lateNak
  | (_, .cancel) => True

def Recycled : Prop :=
  s.rxView.gone ∧ s.rxView.delivered = false ∧ s.rxView.complete = false

theorem steps_rxStep {p : Inputs} {s : Session} {e : Mgr × RxEvent} (hq : s.rxView.gone = false)
    (hr : Receiving s.rxView) (h : s.Permits p e) :
    Steps p s.rxView (s.rxStep e).rxView ∨ (s.rxStep e).Recycled := by
  have hrx : ¬ s.txn.flags.com.qIndex ≠ .rx := by simpa [rxView] using hq
  rw [rxStep, if_neg hrx]
  obtain ⟨mgr, event⟩ := e
  cases event with
  | recv data => exact .inl (steps_dispatchRecv mgr data hr hq h)
  | tick => exact steps_rTick mgr s hq hr.room h
  | cancel => exact .inl (steps_cancelTransaction mgr s hr hq)

/-- What every step keeps holds along every class-2 reception, until the transaction is recycled. -/
theorem rxRun_invariant {p : Inputs} {I : View → Prop} (hinit : ∀ v, Initial p v → I v)
    (hstep : ∀ v w, Step p v w → I v → I w) {s : Session} (hf : s.Fresh)
    {first : Mgr × Bytes}
    (hclass : (s.dispatchRecv first.1 first.2).txn.txnClass = .class2)
    (hfirst : ∀ s : Session, s.Admits p first.2) {events : List (Mgr × RxEvent)}
    (h : Along rxStep (Permits p) (s.dispatchRecv first.1 first.2) events) :
    (s.rxRun first events).Recycled ∨ I (s.rxRun first events).rxView := by
  have hstart : ∃ v, Initial p v ∧ Steps p v (s.dispatchRecv first.1 first.2).rxView :=
    start_dispatchRecv first.1 first.2 hf hclass hfirst
  obtain ⟨v, hv, hsteps⟩ := hstart
  have hrun := invariant (I := fun s : Session => s.Recycled ∨
    (s.rxView.gone = false ∧ Receiving s.rxView ∧ I s.rxView)) ?_ ?_ h
  · exact hrun.imp_right fun h => h.2.2
  · rintro s e (hgone | ⟨hq, hr, hI⟩) hperm
    · left
      have hout : s.txn.flags.com.qIndex ≠ .rx := of_decide_eq_true hgone.1
      rwa [rxStep, if_pos hout]
    · rcases steps_rxStep hq hr hperm with hs | hrec
      · exact .inr ⟨hs.gone_eq.trans hq, hr.steps hs, kept_by_steps hstep hs hI⟩
      · exact .inl hrec
  · exact .inr ⟨hsteps.gone_eq.trans hv.gone, hv.receiving.steps hsteps,
      kept_by_steps hstep hsteps (hinit v hv)⟩

def started : Session where
  t := 0
  txn := { (Transaction.new 0).reset with
    history := some 0
    chunks := none
    state := .init
    stateData := { StateData.default with receive :=
      { StateData.default.receive with r2 := { StateData.default.receive.r2 with
        dc := .incomplete, fs := .discarded } } }
    flags := { StateFlags.default with com := { StateFlags.default.com with qIndex := .rx } } }
  hist := .default
  list := .new numChunksPerTransaction numChunksPerTransaction_pos
  chan := .bare

theorem started_fresh : started.Fresh :=
  ⟨⟨_, _, rfl⟩, rfl, fun _ _ => ⟨rfl, rfl⟩⟩

def mdBytes : Bytes :=
  [0x20, 0, 10, 0, 1, 7, 2, 7, 0, 0, 0, 0, 2, 1, 115, 1, 100]

def fdBytes : Bytes :=
  [0x30, 0, 6, 0, 1, 7, 2, 0, 0, 0, 0, 10, 20]

def eofBytes : Bytes :=
  [0x20, 0, 10, 0, 1, 7, 2, 4, 0, 10, 20, 0, 0, 0, 0, 0, 2]

end Session

end Fprime.Cfdp
