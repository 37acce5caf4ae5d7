import Fprime.Cfdp.Rx.Refinement

/-!
# Ticks of the receiver

The checksum pass, the FIN, pending requests and the timers, as steps of the abstract receiver.
-/

namespace Fprime.Cfdp.Session

open Fprime.Os Fprime.Fw Rx UInt32

structure Reads (p : Inputs) (v : View) (r : Session × Status) : Prop where
  steps : Steps p v r.1.rxView
  success : r.2 = .success → ∃ fd pos bytes,
    r.1.rxView = { v with fd := fd, cachedPos := pos, crcBytes := bytes }

variable {p : Inputs} {s : Session} {v : View}

theorem Reads.refl {st : Status} : Reads p s.rxView (s, st) :=
  ⟨.refl, fun _ => ⟨_, _, _, rfl⟩⟩

theorem Reads.failed {fd : File} (h : s.rxView = { v with fd := fd }) {stat : TxnStatus}
    (herr : txnStatusIsError stat) :
    Reads p v (s.setTxnStatus stat, .error) := by
  refine ⟨?_, nofun⟩
  show Steps p v (s.setTxnStatus stat).rxView
  rw [rxView_setTxnStatus_error s herr, h]
  exact .one (.fail fd)

theorem Reads.trans {r : Session × Status} (h : Reads p v (s, .success)) (hr : Reads p s.rxView r) :
    Reads p v r := by
  refine ⟨h.steps.trans hr.steps, fun hsucc => ?_⟩
  obtain ⟨_, _, _, hv⟩ := h.success rfl
  obtain ⟨fd, pos, bytes, hrv⟩ := hr.success hsucc
  exact ⟨fd, pos, bytes, by rw [hrv, show s.rxView = _ from hv]⟩

theorem Reads.crcCalc (h : Reads p v (s, .success)) :
    s.rxView.crcCalc = v.crcCalc := by
  obtain ⟨_, _, _, hv⟩ := h.success rfl
  rw [show s.rxView = _ from hv]

variable (mgr : Mgr)

theorem reads_crcStart (s : Session) (hcrc : ¬ s.rxView.crcCalc) :
    Reads p s.rxView (s.crcStart mgr) := by
  by_cases hzero : s.txn.stateData.receive.r2.rxCrcCalcBytes = 0
  · simp only [crcStart, if_pos hzero]
    generalize hs' : (s.modTxn fun x => { x with crc := ⟨0⟩ }).fdClose = s'
    have hv : s'.rxView = { s.rxView with fd := none } := by rw [← hs']; rfl
    generalize hr : s'.fdOpenRead mgr s'.hist.fnames.dstFilename = r
    have hopen := rxView_fdOpenRead mgr s'.hist.fnames.dstFilename (congrArg View.fd hv)
    rw [hr] at hopen
    rcases hopen with ⟨hok, hrv⟩ | ⟨hok, hrv⟩
    · rw [hok, if_neg (not_not.2 rfl)]
      have hstep : Session.rxView (r.1.modReceive fun d => { d with cachedPos := 0 }) =
          { s.rxView with
            fd := some ⟨s'.hist.fnames.dstFilename, .openRead, 0⟩, cachedPos := 0 } := by
        calc _ = { r.1.rxView with cachedPos := 0 } := rfl
          _ = _ := by rw [hrv, hv]
      refine ⟨?_, fun _ => ⟨_, _, _, hstep⟩⟩
      rw [hstep]
      exact .one (.read _ 0 s.rxView.crcBytes rfl hcrc)
    · rw [hok, if_pos Bool.false_ne_true]
      exact Reads.failed (hrv.trans hv) (by decide)
  · rw [crcStart, if_neg hzero]
    exact .refl

theorem rxView_fdRead (s : Session) (count : Nat) :
    (∃ h data, h.mode = .openRead ∧ (s.fdRead mgr count).2 = some data ∧
        (s.fdRead mgr count).1.rxView = { s.rxView with fd := some h }) ∨
      ((s.fdRead mgr count).2 = none ∧ (s.fdRead mgr count).1.rxView = s.rxView) := by
  have hview : (s.fdRead mgr count).1.rxView = { s.rxView with
    fd := (s.chan.world.fs.read (s.chan.world.nextOs mgr) s.txn.fd count).1 } := rfl
  have hdata : (s.fdRead mgr count).2 =
    (s.chan.world.fs.read (s.chan.world.nextOs mgr) s.txn.fd count).2 := rfl
  rw [hview, hdata]
  rcases FileSystem.read_cases s.chan.world.fs (s.chan.world.nextOs mgr) s.txn.fd count with
    ⟨h, -, hmode, heq⟩ | heq
  · rw [heq]
    refine .inl ⟨_, _, ?_, rfl, rfl⟩
    exact hmode
  · exact .inr ⟨by rw [heq], by rw [heq]; rfl⟩

theorem reads_crcLoop (fuel : Nat) (countBytes : UInt32) (s : Session)
    (hcrc : ¬ s.rxView.crcCalc) : Reads p s.rxView (crcLoop mgr fuel countBytes s) := by
  induction fuel generalizing countBytes s with
  | zero => exact ⟨.refl, nofun⟩
  | succ fuel ih =>
    simp only [crcLoop]
    generalize s.txn.stateData.receive.r2.rxCrcCalcBytes = done
    split
    · generalize hr : s.rSeek mgr done = r
      have hseek := s.rxView_rSeek mgr done
      rw [hr] at hseek
      rcases hseek with ⟨hbad, hv⟩ | ⟨hgood, hv⟩
      · rw [hbad, if_pos Bool.false_ne_true]
        exact ⟨.of_eq hv, nofun⟩
      · rw [hgood, if_neg (not_not.2 rfl)]
        generalize (if s.txn.fsize < done + r2CrcChunkSize then s.txn.fsize - done
          else r2CrcChunkSize).toNat = count
        rcases r.1.rxView_fdRead mgr count with ⟨h, data, hmode, hread, hrv⟩ | ⟨hread, hrv⟩
        · simp only [hread]
          generalize hs' : ((((r.1.fdRead mgr count).1.modTxn fun x => { x with
              crc := x.crc.update data done.toNat }).modReceive fun d => { d with
              r2 := { d.r2 with rxCrcCalcBytes := done + ofNat data.length }
              cachedPos := done + ofNat data.length }).armInactTimer mgr) = s'
          have hs'v : s'.rxView = { s.rxView with
              fd := some h
              cachedPos := done + ofNat data.length
              crcBytes := done + ofNat data.length } := by
            rw [← hs']
            calc _ = { (r.1.fdRead mgr count).1.rxView with
                  cachedPos := done + ofNat data.length
                  crcBytes := done + ofNat data.length } := rfl
              _ = _ := by rw [hrv, hv]
          have hstep : Reads p s.rxView (s', .success) := by
            refine ⟨?_, fun _ => ⟨_, _, _, hs'v⟩⟩
            show Steps p s.rxView s'.rxView
            rw [hs'v]
            exact .one (.read h _ _ hmode hcrc)
          exact hstep.trans (ih _ s' (by rw [hstep.crcCalc]; exact hcrc))
        · simp only [hread]
          exact Reads.failed (hrv.trans hv) (by decide)
    · exact .refl

theorem rxView_crcEnd (s : Session) :
    ((s.crcEnd).2 = .error ∧ s.crcEnd.1 = s) ∨
      ((s.crcEnd).2 = .success ∧ s.rxView.crcBytes = s.rxView.fsize ∧
        (s.crcEnd.1.rxView = { s.rxView with delivered := true, keep := .keep, crcCalc := true } ∨
          s.crcEnd.1.rxView =
            { s.rxView with failed := true, sendFin := true, crcCalc := true })) := by
  by_cases hall : s.txn.stateData.receive.r2.rxCrcCalcBytes = s.txn.fsize
  · simp only [crcEnd, if_pos hall]
    refine .inr ⟨trivial, hall, ?_⟩
    split
    · exact .inl rfl
    · refine .inr ?_
      calc _ = { (s.r2SetFinTxnStatus .fileChecksumFailure).rxView with crcCalc := true } := rfl
        _ = _ := by rw [rxView_r2SetFinTxnStatus_error _ (by decide)]
  · rw [crcEnd, if_neg hall]
    exact .inl ⟨rfl, rfl⟩

theorem steps_r2CalcCrcChunk (s : Session) (hfin : s.rxView.sendFin)
    (hok : ¬ s.rxView.failed) (hcrc : ¬ s.rxView.crcCalc) :
    Steps p s.rxView (s.r2CalcCrcChunk mgr).1.rxView ∧
      ((s.r2CalcCrcChunk mgr).2 = .success → (s.r2CalcCrcChunk mgr).1.rxView.crcCalc) := by
  simp only [r2CalcCrcChunk]
  generalize hr : (if (s.crcStart mgr).2 = .success then crcLoop mgr mgr.fuel 0 (s.crcStart mgr).1
    else s.crcStart mgr) = r
  have hreads : Reads p s.rxView r := by
    have hstart := @reads_crcStart p mgr s hcrc
    rw [← hr]
    split
    · next hsucc =>
      have hstart' : Reads p s.rxView ((s.crcStart mgr).1, .success) := by rwa [← hsucc]
      refine hstart'.trans (reads_crcLoop mgr _ _ _ ?_)
      rw [hstart'.crcCalc]
      exact hcrc
    · exact hstart
  by_cases hsucc : r.2 = .success
  · rw [if_pos hsucc]
    obtain ⟨fd, pos, bytes, hv⟩ := hreads.success hsucc
    rcases r.1.rxView_crcEnd with ⟨herr, hsame⟩ | ⟨-, hall, hend | hend⟩
    · refine ⟨by rw [hsame]; exact hreads.steps, fun h => ?_⟩
      rw [herr] at h
      cases h
    · rw [hend]
      refine ⟨hreads.steps.tail (.deliver ?_ ?_ ?_ hall), fun _ => rfl⟩
      · rw [hv]; exact hfin
      · rw [hv]; exact hok
      · rw [hv]; exact hcrc
    · rw [hend]
      refine ⟨?_, fun _ => rfl⟩
      exact ((hreads.steps.tail (.fail r.1.rxView.fd)).tail (.requestFin (.inl rfl))).tail
        (.checked rfl)
  · rw [if_neg hsucc]
    exact ⟨hreads.steps, fun h => absurd h hsucc⟩

theorem steps_r2SubstateSendFin (s : Session) (hfin : s.rxView.sendFin) :
    Steps p s.rxView (s.r2SubstateSendFin mgr).1.rxView ∧
      ((s.r2SubstateSendFin mgr).2 = .success →
        (s.r2SubstateSendFin mgr).1.rxView.closeout) := by
  simp only [r2SubstateSendFin]
  generalize hr : (if ¬ s.isError ∧ ¬ s.txn.flags.com.crcCalc then s.r2CalcCrcChunk mgr
    else (s, .success)) = r
  have hcrc : Steps p s.rxView r.1.rxView ∧
      (r.2 = .success → r.1.rxView.failed ∨ r.1.rxView.crcCalc) := by
    rw [← hr]
    split
    · next h =>
      obtain ⟨hsteps, hdone⟩ := @steps_r2CalcCrcChunk p mgr s hfin h.1 h.2
      exact ⟨hsteps, fun hsucc => .inr (hdone hsucc)⟩
    · next h =>
      refine ⟨.refl, fun _ => ?_⟩
      by_cases herr : s.isError
      · exact .inl herr
      · refine .inr ?_
        show s.txn.flags.com.crcCalc
        simpa [herr] using h
  by_cases hsucc : r.2 = .success
  · rw [if_neg (not_not.2 hsucc)]
    have hclose : ∀ s' : Session, s'.rxView = { r.1.rxView with closeout := true } →
        Steps p s.rxView s'.rxView ∧ s'.rxView.closeout := by
      intro s' hs'
      rw [hs']
      exact ⟨hcrc.1.tail (.closeout (hcrc.2 hsucc)), rfl⟩
    have hsent := r.1.rxView_sendFin mgr r.1.txn.stateData.receive.r2.dc
      r.1.txn.stateData.receive.r2.fs (txnStatusToConditionCode r.1.hist.txnStat)
    split
    · exact ⟨(hclose _ (by rw [← hsent]; rfl)).1, nofun⟩
    · exact ⟨(hclose _ (by rw [← hsent]; rfl)).1, fun _ => rfl⟩
  · rw [if_pos hsucc]
    exact ⟨hcrc.1, nofun⟩

/-- A NAK is serviced although nothing is missing any more, and only this will mark the
reception as complete. -/
def LateNak (s : Session) : Prop :=
  s.txn.flags.rx.sendNak ∧ ¬ s.txn.flags.rx.sendEofAck ∧ ¬ s.missing ∧ s.txn.flags.rx.eofRecv ∧
    ¬ s.txn.flags.rx.sendFin ∧ ¬ s.isError ∧
    s.txn.stateData.receive.subState ≠ .closeoutSync ∧ s.txn.state ≠ .hold
  deriving Decidable

theorem nakGaps_eq_nil_iff (hmax : 1 < s.rxView.list.maxChunks) :
    s.nakGaps = [] ↔ s.rxView.list.Covers s.rxView.fsize.toNat := by
  refine s.list.computeGaps_eq_nil_iff ?_ _
  have : 1 < s.list.maxChunks := hmax
  split <;> omega

theorem steps_rSubstateSendNak (s : Session) (hmax : 1 < s.rxView.list.maxChunks)
    (hlate : s.rxView.AllData → p.lateNak ∨ s.rxView.failed ∨ ¬ s.rxView.eofRecv ∨ s.rxView.sendFin ∨ s.rxView.closeout ∨ s.rxView.state = .hold) :
    Steps p s.rxView (s.rSubstateSendNak mgr).1.rxView := by
  by_cases hmd : s.txn.flags.rx.mdRecv
  · rw [rSubstateSendNak, if_pos hmd]
    lift_lets
    intro s1 gaps s2 r
    have hv2 : s2.rxView = s.rxView := by rw [rxView_assert, rxView_assertChunks]
    have hmax1 : 1 < s1.rxView.list.maxChunks := by rwa [rxView_assertChunks]
    by_cases hgaps : gaps = []
    · rw [if_pos hgaps]
      have hcov := (nakGaps_eq_nil_iff hmax1).1 hgaps
      rw [rxView_assertChunks] at hcov
      show Steps p s.rxView { s2.rxView with complete := true }
      rw [hv2]
      exact .one (.lateComplete ⟨hmd, hcov⟩ (hlate ⟨hmd, hcov⟩))
    · rw [if_neg hgaps]
      have hr : r.1.rxView = s.rxView := by rw [rxView_sendNak, hv2]
      split <;> exact .of_eq hr
  · rw [rSubstateSendNak, if_neg hmd]
    exact .of_eq (rxView_sendNak _ _ _)

theorem steps_rTickSend (s : Session) (hmax : 1 < s.rxView.list.maxChunks)
    (hlate : s.LateNak → p.lateNak) : Steps p s.rxView (s.rTickSend mgr).1.rxView := by
  by_cases hack : s.txn.flags.rx.sendEofAck
  · rw [rTickSend, if_pos hack]
    lift_lets
    intro r
    have hr : r.1.rxView = s.rxView := rxView_sendAck _ _ _ _ _ _ _
    split
    · exact .of_eq hr
    · split <;> exact .of_eq hr
  by_cases hnak : s.txn.flags.rx.sendNak
  · rw [rTickSend, if_neg hack, if_pos hnak]
    have hsteps : Steps p s.rxView (s.rSubstateSendNak mgr).1.rxView := by
      refine steps_rSubstateSendNak mgr s hmax fun hall => ?_
      by_cases hlate' : s.LateNak
      · exact .inl (hlate hlate')
      · refine .inr ?_
        have hmiss : ¬ s.missing := by simp [(missing_eq_false_iff s).2 hall]
        simp only [LateNak, hnak, hack, hmiss, rxView] at hlate' ⊢
        simp only [decide_eq_true_eq]
        tauto
    show Steps p s.rxView (if _ then _ else _ : Session).rxView
    split <;> exact hsteps
  by_cases hfin : s.txn.flags.rx.sendFin
  · rw [rTickSend, if_neg hack, if_neg hnak, if_pos hfin]
    obtain ⟨hsteps, hclose⟩ := @steps_r2SubstateSendFin p mgr s hfin
    show Steps p s.rxView (if _ then _ else _ : Session).rxView
    split
    · next hsucc => exact hsteps.tail (.finSent (hclose hsucc))
    · exact hsteps
  · rw [rTickSend, if_neg hack, if_neg hnak, if_neg hfin]

theorem rxView_countRetry (s : Session) (pendingSend : Bool) :
    (s.countRetry mgr pendingSend).1.rxView = s.rxView := by
  simp only [countRetry]
  split
  · split
    · rfl
    · exact rxView_assert s _ _
  · rfl

theorem rxView_rInactivity (s : Session) :
    s.rInactivity.rxView = s.rxView ∧ (s.rInactivity.LateNak → s.LateNak) ∨
      s.rInactivity.rxView = { s.rxView with failed := true, sendFin := true } := by
  by_cases hrun : ¬ s.txn.flags.com.inactivityFired ∧ s.txn.inactivityTimer.timerStatus = .running
  · simp only [rInactivity, if_pos hrun]
    generalize hs' : s.runInactivityTimer = s'
    have hv : s'.rxView = s.rxView := by rw [← hs', rxView_runInactivityTimer]
    have hnak : s'.LateNak → s.LateNak := by
      rw [← hs']
      exact id
    split
    · split
      · refine .inr ?_
        rw [rxView_r2SetFinTxnStatus_error _ (by decide)]
        show { s'.rxView with failed := true, sendFin := true } = _
        rw [hv]
      · exact .inl ⟨hv, hnak⟩
    · exact .inl ⟨hv, hnak⟩
  · rw [rInactivity, if_neg hrun]
    exact .inl ⟨rfl, id⟩

theorem steps_rAckTimerExpired (s : Session) (hq : s.rxView.gone = false) :
    Steps p s.rxView (s.rAckTimerExpired mgr).rxView := by
  by_cases hcomp : s.txn.flags.rx.complete
  · simp only [rAckTimerExpired, if_neg (not_not.2 hcomp)]
    by_cases hclose : s.txn.stateData.receive.subState = .closeoutSync
    · rw [if_pos hclose]
      have hclose' : s.rxView.closeout := decide_eq_true hclose
      split
      · generalize hs' : Session.setTxnStatus _ .ackLimitNoFin = s'
        have hv : s'.rxView = { s.rxView with failed := true } := by
          rw [← hs', rxView_setTxnStatus_error _ (by decide)]
          rfl
        have hfail : Steps p s.rxView s'.rxView := by
          rw [hv]
          exact .one (.fail s.rxView.fd)
        exact hfail.trans (s'.steps_finishTransaction mgr true (by rw [hv]; exact hq)
          (.inl (by rw [hv])))
      · exact .one (.requestFin (.inr (.inl ⟨hcomp, hclose'⟩)))
    · rw [if_neg hclose]
  · rw [rAckTimerExpired, if_pos hcomp]
    exact s.steps_r2Complete mgr true

theorem steps_rAckTimerTick (s : Session) (hq : s.rxView.gone = false) :
    Steps p s.rxView (s.rAckTimerTick mgr).rxView := by
  by_cases hidle : s.txn.state ≠ .r2 ∨ ¬ s.txn.flags.com.ackTimerArmed
  · rw [rAckTimerTick, if_pos hidle]
  by_cases hrun : s.txn.ackTimer.timerStatus = .running
  · rw [rAckTimerTick, if_neg hidle, if_pos hrun, rxView_runAckTimer]
  · rw [rAckTimerTick, if_neg hidle, if_neg hrun]
    have hsteps := @steps_rAckTimerExpired p mgr s hq
    show Steps p s.rxView (if _ then _ else _ : Session).rxView
    split <;> exact hsteps

theorem recycleTransaction_rxView (s : Session) :
    s.recycleTransaction.rxView.gone ∧ s.recycleTransaction.rxView.delivered = false ∧
      s.recycleTransaction.rxView.complete = false :=
  ⟨rfl, rfl, rfl⟩

theorem steps_rTick (s : Session) (hq : s.rxView.gone = false)
    (hmax : 1 < s.rxView.list.maxChunks) (hlate : s.LateNak → p.lateNak) :
    Steps p s.rxView (s.rTick mgr).rxView ∨
      ((s.rTick mgr).rxView.gone ∧ (s.rTick mgr).rxView.delivered = false ∧
        (s.rTick mgr).rxView.complete = false) := by
  have hidle : Steps p s.rxView s.rInactivity.rxView ∧
      1 < s.rInactivity.rxView.list.maxChunks ∧ (s.rInactivity.LateNak → p.lateNak) := by
    rcases s.rxView_rInactivity with ⟨hv, hnak⟩ | hv
    · exact ⟨.of_eq hv, by rwa [hv], fun h => hlate (hnak h)⟩
    · refine ⟨?_, by rwa [hv], fun h => ?_⟩
      · rw [hv]
        exact (Steps.one (.fail s.rxView.fd)).tail (.requestFin (.inl rfl))
      · have hfailed : s.rInactivity.isError := congrArg View.failed hv
        exact absurd hfailed h.2.2.2.2.2.1
  obtain ⟨hsteps, hmax', hlate'⟩ := hidle
  have hsend := hsteps.trans (steps_rTickSend mgr _ hmax' hlate')
  rw [rTick]
  have he := rxView_countRetry mgr (s.rInactivity.rTickSend mgr).1 (s.rInactivity.rTickSend mgr).2
  generalize Session.countRetry mgr (s.rInactivity.rTickSend mgr).1
    (s.rInactivity.rTickSend mgr).2 = e at he
  split
  · exact .inr e.1.recycleTransaction_rxView
  · refine .inl (Relation.ReflTransGen.trans ?_ (e.1.steps_rAckTimerTick mgr ?_))
    · rw [he]
      exact hsend
    · rw [he, Steps.gone_eq hsend]
      exact hq

end Fprime.Cfdp.Session
