import Fprime.Cfdp.Tx.Refinement

/-!
# What a sender sends

The sender seeks only when `cached_pos` differs from the offset it wants. After a seek `cached_pos`
goes on counting from where it was, so that later a seek may be left out that is needed.
-/

namespace Fprime.Cfdp

open Fprime.Os Fprime.Fw Lib.Runs

/-- A turn on the active queue, a received PDU, the two kinds of tick, and the two commands that end
the transaction. -/
inductive TxEvent where
  | turn
  | recv (data : Bytes)
  | tick
  | tickNak
  | cancel
  | abandon

namespace Session

open Tx

def txStep (s : Session) (e : Mgr × TxEvent) : Session :=
  if s.txn.flags.com.qIndex = .free then s
  else
    match e.2 with
    | .turn => s.dispatchTx e.1
    | .recv data => s.dispatchRecv e.1 data
    | .tick => s.sTick e.1
    | .tickNak => (s.sTickNak e.1).1
    | .cancel => s.cancelTransaction e.1
    | .abandon => s.finishTransaction e.1 false

structure Queued (src : Bytes) (s : Session) : Prop where
  queue : s.txn.flags.com.qIndex ≠ .free
  state : s.txn.state = .s2
  dir : s.hist.dir = .tx
  file : s.chan.world.fs s.hist.fnames.srcFilename = some src
  fd : s.txn.fd = none
  fsize : s.txn.fsize = 0
  list : s.list.chunks = []

/-- Data goes out next only at an offset at which the file is, where no seek takes it there. -/
def InStep (s : Session) : Mgr × TxEvent → Prop
  | (_, .turn) => s.txn.state = .s2 → s.txn.stateData.send.subState = .fileData →
      ¬ s.txn.flags.tx.mdNeedSend → s.Positioned s.nextOffset
  | (_, .tickNak) => ¬ s.txn.flags.tx.mdNeedSend →
      ∀ c ∈ s.list.getFirstChunk, s.Positioned (UInt32.ofNat c.offset)
  | (_, .recv _) => True
  | (_, .tick) => True
  | (_, .cancel) => True
  | (_, .abandon) => True

instance (s : Session) (e : Mgr × TxEvent) : Decidable (s.InStep e) := by
  rcases e with ⟨_, _ | _⟩ <;> unfold InStep <;> infer_instance

def Sends (src : Bytes) (old : List FileDataPdu) (s : Session) : Prop :=
  (∀ pdu ∈ s.txView.data, pdu ∈ old ∨ Carries src pdu) ∧
    (s.txn.flags.com.qIndex ≠ .free → Sending src old s.txView ∧ s.hist.dir = .tx ∧
      (s.txn.state = .s2 ∨ s.txn.state = .hold))

variable {src : Bytes} {old : List FileDataPdu}

theorem Sends.of_steps {s s' : Session}
    (hv : Sending src old s.txView) (hdir : s.hist.dir = .tx)
    (hst : s.txn.state = .s2 ∨ s.txn.state = .hold) (h : Tx.Steps s.txView s'.txView) :
    Sends src old s' := by
  have hv' := hv.steps h
  obtain ⟨-, hdir', hst'⟩ := h.frame
  refine ⟨hv'.data, fun _ => ⟨hv', hdir'.trans hdir, ?_⟩⟩
  rcases hst' with h | h
  · rcases hst with hs | hs
    · exact .inl (h.trans hs)
    · exact .inr (h.trans hs)
  · exact .inr h

theorem Sends.step (s : Session) (e : Mgr × TxEvent)
    (hs : Sends src old s) (h : s.InStep e) : Sends src old (s.txStep e) := by
  by_cases hq : s.txn.flags.com.qIndex = .free
  · rwa [txStep, if_pos hq]
  obtain ⟨hv, hdir, hst⟩ := hs.2 hq
  rw [txStep, if_neg hq]
  obtain ⟨mgr, event⟩ := e
  cases event with
  | turn => exact .of_steps hv hdir hst (steps_dispatchTx mgr s hv hst hq h)
  | recv data => exact .of_steps hv hdir hst (steps_dispatchRecv_tx mgr s data hst)
  | tick =>
    rcases s.steps_sTick mgr with hsteps | ⟨s', hv', heq⟩
    · exact .of_steps hv hdir hst hsteps
    · have hdata : (s.sTick mgr).txView.data = s.txView.data := by
        rw [heq, ← hv']
        show sentData s'.recycleTransaction.chan.world.sent = _
        rw [s'.recycleTransaction_world]
        rfl
      refine ⟨by rw [hdata]; exact hs.1, fun hfree => absurd ?_ hfree⟩
      simp only [heq]
      rfl
  | tickNak =>
    refine .of_steps hv hdir hst ?_
    simp only [sTickNak]
    split
    · exact (steps_sCheckAndRespondNak mgr s hv h).1
    · exact .refl
  | cancel => exact .of_steps hv hdir hst (s.steps_cancelTransaction_tx mgr hdir)
  | abandon => exact .of_steps hv hdir hst (steps_then_finish mgr false .refl)

/-- Every file-data PDU of a class-2 sender carries the source's bytes at its offset, where no seek
is left out that is needed. -/
theorem sent_data_of_in_step {s : Session} (hs : s.Queued src)
    (events : List (Mgr × TxEvent)) (h : Along txStep InStep s events) (pdu : FileDataPdu)
    (hpdu : .fileData pdu ∈ (events.foldl txStep s).chan.world.sent) :
    .fileData pdu ∈ s.chan.world.sent ∨ (pdu.getData.length = pdu.dataSize.toNat ∧
      pdu.getData = (src.drop pdu.offset.toNat).take pdu.dataSize.toNat) := by
  have hmem : ∀ sent : List Pdu, .fileData pdu ∈ sent ↔ pdu ∈ sentData sent := by
    intro sent
    simp only [sentData, List.mem_filterMap]
    constructor
    · exact fun h => ⟨_, h, rfl⟩
    · rintro ⟨p, hp, heq⟩
      cases p <;> cases heq
      exact hp
  have hstart : Sends src (sentData s.chan.world.sent) s := by
    refine ⟨fun _ h => .inl h, fun _ => ⟨?_, hs.dir, .inl hs.state⟩⟩
    have hclosed : ∀ h, s.txn.fd ≠ some h := by
      intro h heq
      cases hs.fd.symm.trans heq
    exact ⟨fun _ => hs.file, fun h heq => absurd heq (hclosed h),
      by simp [txView, hs.fsize], by simp [txView, hs.list], fun _ h => .inl h⟩
  have hrun := invariant Sends.step hstart h
  rw [hmem] at hpdu ⊢
  exact hrun.1 pdu hpdu

def queued : Session where
  t := 0
  txn := { (Transaction.new 0).reset.initTxFile .class2 .keep 0 0 with
    history := some 0
    chunks := some 0 }
  hist := { History.default with dir := .tx, fnames := ⟨[115], [100]⟩ }
  list := .new numChunksPerTransaction numChunksPerTransaction_pos
  chan := { Channel.bare with world := { Channel.bare.world with
    fs := fun path => if path = [115] then some [1, 2, 3, 4, 5, 6, 7, 8] else none } }

theorem queued_queued : queued.Queued [1, 2, 3, 4, 5, 6, 7, 8] :=
  ⟨by decide, rfl, rfl, rfl, rfl, rfl, rfl⟩

def pairs : Mgr := { Mgr.ample with outgoingFileChunkSize := 2 }

def nakBytes (offset : UInt8) : Bytes :=
  [0x28, 0, 17, 0, 2, 7, 1, 8, 0, 0, 0, 0, 0, 0, 0, 8, 0, 0, 0, offset, 0, 0, 0, offset + 1]

theorem sent_data_of_in_step_resend :
    queued.Queued [1, 2, 3, 4, 5, 6, 7, 8] ∧ ∀ pdu, .fileData pdu ∈ ([(pairs, TxEvent.turn), (pairs, .turn),
        (pairs, .recv (nakBytes 0)), (pairs, .turn), (pairs, .turn)].foldl txStep
        queued).chan.world.sent →
      pdu.getData = ([1, 2, 3, 4, 5, 6, 7, 8].drop pdu.offset.toNat).take pdu.dataSize.toNat :=
  ⟨queued_queued, fun pdu hpdu => ((sent_data_of_in_step queued_queued [(pairs, .turn),
    (pairs, .turn), (pairs, .recv (nakBytes 0)), (pairs, .turn), (pairs, .turn)]
    (by decide +kernel) pdu hpdu).resolve_left nofun).2⟩

/-- The byte at 3 is asked for when `cached_pos` is 3 and the file at 1: the byte at 1 goes out. -/
theorem stale_position_sends_wrong_byte :
    ∃ (events : List (Mgr × TxEvent)) (pdu : FileDataPdu),
      queued.Queued [1, 2, 3, 4, 5, 6, 7, 8] ∧
      .fileData pdu ∈ (events.foldl txStep queued).chan.world.sent ∧
      pdu.offset = 3 ∧ pdu.getData = [2] :=
  ⟨[(pairs, .turn), (pairs, .turn), (pairs, .recv (nakBytes 0)), (pairs, .turn),
      (pairs, .recv (nakBytes 3)), (pairs, .turn)],
    FileDataPdu.initialized .towardReceiver .class2 2 0 0 3 1 ([2] ++ List.replicate 1023 0),
    queued_queued, by decide +kernel, rfl, by decide⟩

end Session

end Fprime.Cfdp
