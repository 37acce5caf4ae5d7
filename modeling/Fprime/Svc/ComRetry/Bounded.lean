import Fprime.Svc.ComRetry

/-!
# Retries are bounded

Every call of a neighbour leads from one place where the component and its neighbours can be to
another.
-/

namespace Fprime.Svc.ComRetry

open Fw List World State
open ComQueue (Success)

structure State.Idle (n : UInt32) (s : State) : Prop where
  numRetries : s.numRetries = n
  retryState : s.retryState = .waitingForSend
  buffer : s.buffer = none
  bufferState : s.bufferState = .owned

structure State.InFlight (n : UInt32) (k : Nat) (s : State) : Prop where
  numRetries : s.numRetries = n
  retryCount : s.retryCount.toNat = k
  retryState : s.retryState = .waitingForStatus

/-- The buffer has gone out a number of times, and each attempt that was reported has failed. -/
structure Tried (sent reported : Nat) (e : Entry) : Prop where
  nonempty : e.buffer ≠ []
  outs : e.outs = replicate sent e.buffer
  reports : e.reports = replicate reported .failure
  returned : e.returned = []
  statuses : e.statuses = []

/-- The last attempt has been reported, and upstream has to get the status. -/
structure Over (n : UInt32) (condition : Success) (e : Entry) : Prop where
  attempts : ∃ k ≤ n.toNat, e.outs = replicate (k + 1) e.buffer ∧
    e.reports = replicate k .failure ++ [condition]
  statuses : e.statuses = []

/-- The buffer sent last is lost, and the adapter is not known to be ready. -/
def LastFailed (ledger : List Entry) : Prop :=
  ∀ e, ledger.head? = some e → e.statuses = [.failure]

inductive Inv (n : UInt32) : World → Prop
  | idle {s ledger} (hs : State.Idle n s) (hl : ∀ e ∈ ledger, Settled n e) :
      Inv n ⟨s, [], true, .quiet, ledger⟩
  | down {s ledger} (hs : State.Idle n s) (hl : ∀ e ∈ ledger, Settled n e)
      (hf : LastFailed ledger) : Inv n ⟨s, [], false, .recovering, ledger⟩
  | passing {s ledger} (hs : State.Idle n s) (hl : ∀ e ∈ ledger, Settled n e)
      (hf : LastFailed ledger) : Inv n ⟨s, [.comStatusOut .success], false, .quiet, ledger⟩
  | sending {s k context e ledger} (hs : State.InFlight n k s) (ho : s.bufferState = .notOwned)
      (hk : k ≤ n.toNat) (he : Tried k k e) (hl : ∀ e ∈ ledger, Settled n e) :
      Inv n ⟨s, [.dataOut e.buffer context], false, .quiet, e :: ledger⟩
  | holding {s k e ledger} (hs : State.InFlight n k s) (ho : s.bufferState = .notOwned)
      (hk : k ≤ n.toNat) (he : Tried (k + 1) k e) (hl : ∀ e ∈ ledger, Settled n e) :
      Inv n ⟨s, [], false, .holds e.buffer, e :: ledger⟩
  | owing {s k e ledger} (hs : State.InFlight n k s) (ho : s.bufferState = .owned)
      (hb : s.buffer = some e.buffer) (hk : k ≤ n.toNat) (he : Tried (k + 1) k e)
      (hl : ∀ e ∈ ledger, Settled n e) : Inv n ⟨s, [], false, .owes, e :: ledger⟩
  | retrying {s k e ledger} (hs : State.InFlight n k { s with retryState := .waitingForStatus })
      (hr : s.retryState = .retrying) (ho : s.bufferState = .owned)
      (hb : s.buffer = some e.buffer) (hk : k < n.toNat) (he : Tried (k + 1) (k + 1) e)
      (hl : ∀ e ∈ ledger, Settled n e) : Inv n ⟨s, [], false, .recovering, e :: ledger⟩
  | returning {s condition context e ledger} (hs : State.Idle n s) (he : Over n condition e)
      (hr : e.returned = []) (hl : ∀ e ∈ ledger, Settled n e) :
      Inv n ⟨s, [.dataReturnOut e.buffer context, .comStatusOut condition], false,
        afterStatus .owes condition, e :: ledger⟩
  | reporting {s condition e ledger} (hs : State.Idle n s) (he : Over n condition e)
      (hr : e.returned = [e.buffer]) (hl : ∀ e ∈ ledger, Settled n e) :
      Inv n ⟨s, [.comStatusOut condition], false, afterStatus .owes condition, e :: ledger⟩

theorem inv_start (n : UInt32) (ready : Bool) : Inv n (.start n ready) := by
  have hidle : State.Idle n (new.configure n) := ⟨rfl, rfl, rfl, rfl⟩
  cases ready with
  | true => exact .idle hidle (by simp)
  | false => exact .down hidle (by simp) fun e he => by cases he

variable {e : Entry} {n : UInt32} {ledger : List Entry} {s : State} {w : World}

theorem Over.settled {condition : Success} (h : Over n condition e) (hr : e.returned = [e.buffer]) :
    Settled n { e with statuses := e.statuses ++ [condition] } := by
  obtain ⟨k, hk, houts, hreports⟩ := h.attempts
  have hfail : Success.success ∉ replicate k Success.failure := fun hm =>
    absurd (eq_of_mem_replicate hm) (by decide)
  refine ⟨?_, ?_, ?_, ?_, ?_, hr, ?_⟩
  · show e.outs ≠ []
    simp [houts]
  · show e.outs.length ≤ _
    simp [houts, hk]
  · show ∀ b ∈ e.outs, b = e.buffer
    rw [houts]
    exact fun b hb => eq_of_mem_replicate hb
  · show e.reports.length = e.outs.length
    simp [houts, hreports]
  · show _ ∉ e.reports.dropLast
    rw [hreports, dropLast_concat]
    exact hfail
  · show (_ ∈ e.reports ∧ e.statuses ++ [condition] = _) ∨ (_ ∉ e.reports ∧ _)
    rw [hreports, h.statuses]
    cases condition with
    | success => exact .inl ⟨by simp, rfl⟩
    | failure => exact .inr ⟨by simp, .inl rfl⟩

theorem settled_passed (hl : ∀ e ∈ ledger, Settled n e) (hf : LastFailed ledger) :
    ∀ e ∈ note (fun e => { e with statuses := e.statuses ++ [.success] }) ledger, Settled n e := by
  cases ledger with
  | nil => exact hl
  | cons e ledger =>
    obtain ⟨he, hrest⟩ := forall_mem_cons.mp hl
    have hlast := hf e rfl
    refine forall_mem_cons.mpr ⟨⟨he.out, he.bound, he.unchanged, he.attempts,
      he.untilSuccess, he.returned, ?_⟩, hrest⟩
    rcases he.status with ⟨-, hs⟩ | ⟨hno, -⟩
    · rw [hlast] at hs
      cases hs
    · refine .inr ⟨hno, .inr ?_⟩
      show e.statuses ++ [.success] = _
      rw [hlast]
      rfl

theorem State.Idle.comStatusIn (h : s.Idle n) (condition : Success) :
    s.comStatusIn condition = .ok (s, [.comStatusOut condition]) := by
  simp [State.comStatusIn, h.bufferState, h.retryState, State.bufferValid, h.buffer]

theorem Inv.deliver (h : Inv n w) (hp : w.pending ≠ []) :
    Inv n w.deliver := by
  cases h with
  | idle _ _ | down _ _ _ | holding _ _ _ _ _ | owing _ _ _ _ _ _ | retrying _ _ _ _ _ _ _ =>
    exact absurd rfl hp
  | passing hs hl hf => exact .idle hs (settled_passed hl hf)
  | @sending s k context e ledger hs ho hk he hl =>
    refine @Inv.holding n s k { e with outs := e.outs ++ [e.buffer] } ledger hs ho hk
      ⟨he.nonempty, ?_, he.reports, he.returned, he.statuses⟩ hl
    show e.outs ++ [e.buffer] = _
    rw [he.outs, replicate_succ']
  | @returning s condition context e ledger hs he hr hl =>
    refine @Inv.reporting n s condition { e with returned := e.returned ++ [e.buffer] } ledger hs
      ⟨he.attempts, he.statuses⟩ ?_ hl
    show e.returned ++ [e.buffer] = _
    rw [hr]
    rfl
  | @reporting s condition e ledger hs he hr hl =>
    have hsettled := forall_mem_cons.mpr ⟨he.settled hr, hl⟩
    cases condition with
    | success => exact .idle hs hsettled
    | failure =>
      refine .down hs hsettled fun e' he' => ?_
      have heq := Option.some.inj he'
      rw [← heq]
      show e.statuses ++ [.failure] = _
      rw [he.statuses]
      rfl

theorem Inv.dataIn (h : Inv n w) (hready : w.ready = true) {buffer : Bytes} (hb : buffer ≠ [])
    (context : FrameContext) :
    ∃ w', w.step (.dataIn buffer context) = .ok w' ∧ Inv n w' := by
  cases h with
  | @idle s ledger hs hl =>
    refine ⟨_, ?_, @Inv.sending n { s with
      bufferState := .notOwned
      retryState := .waitingForStatus
      retryCount := 0 } 0 context { buffer } ledger ⟨hs.numRetries, rfl, rfl⟩ rfl (Nat.zero_le _)
      ⟨hb, rfl, rfl, rfl, rfl⟩ hl⟩
    simp only [step, dataIn, hs.bufferState, hs.retryState]
    rfl
  | down _ _ _ | passing _ _ _ | sending _ _ _ _ _ | holding _ _ _ _ _ | owing _ _ _ _ _ _
  | retrying _ _ _ _ _ _ _ | returning _ _ _ _ | reporting _ _ _ _ => cases hready

theorem Inv.dataReturnIn (h : Inv n w) (hw : w.adapter.held.isSome) (context : FrameContext) :
    ∃ w', w.step (.dataReturnIn context) = .ok w' ∧ Inv n w' := by
  cases h with
  | @holding s k e ledger hs ho hk he hl =>
    refine ⟨_, ?_, @Inv.owing n { s with
      bufferState := .owned
      buffer := some e.buffer
      context } k e ledger ⟨hs.numRetries, hs.retryCount, hs.retryState⟩ rfl rfl hk he hl⟩
    simp only [step, dataReturnIn, ho, hs.retryState]
    rfl
  | @returning s condition _ _ _ _ _ _ _ | @reporting s condition _ _ _ _ _ _ =>
    cases condition <;> cases hw
  | idle _ _ | down _ _ _ | passing _ _ _ | sending _ _ _ _ _ | owing _ _ _ _ _ _
  | retrying _ _ _ _ _ _ _ => cases hw

theorem inv_reported {k : Nat} (hs : State.InFlight n k s) (ho : s.bufferState = .owned)
    (hb : s.buffer = some e.buffer) (hk : k ≤ n.toNat) (he : Tried (k + 1) k e)
    (hl : ∀ e ∈ ledger, Settled n e) (condition : Success) :
    ∃ w', step ⟨s, [], false, .owes, e :: ledger⟩ (.comStatusIn condition) = .ok w' ∧
      Inv n w' := by
  have hidle : State.Idle n { s with retryState := .waitingForSend, buffer := none } :=
    ⟨hs.numRetries, rfl, rfl, ho⟩
  have hvalid : s.bufferValid = true := by
    simpa [bufferValid, hb] using he.nonempty
  have hover : Over n condition { e with reports := e.reports ++ [condition] } :=
    ⟨⟨k, hk, he.outs, by rw [he.reports]⟩, he.statuses⟩
  cases condition with
  | success =>
    refine ⟨_, ?_, @Inv.returning n _ .success s.context _ ledger hidle hover he.returned hl⟩
    simp only [step, comStatusIn, ho, hs.retryState, hvalid, returnThenStatus,
      takeBuffer, hb]
    rfl
  | failure =>
    by_cases hleft : s.retryCount < s.numRetries
    · have hlt : k < n.toNat := by
        rw [← hs.retryCount, ← hs.numRetries]
        exact UInt32.lt_iff_toNat_lt.mp hleft
      refine ⟨_, ?_, @Inv.retrying n { s with retryState := .retrying } k
        { e with reports := e.reports ++ [.failure] } ledger
        ⟨hs.numRetries, hs.retryCount, rfl⟩ rfl ho hb hlt
        ⟨he.nonempty, he.outs, ?_, he.returned, he.statuses⟩ hl⟩
      · simp only [step, comStatusIn, ho, hs.retryState, hleft]
        rfl
      · show e.reports ++ [.failure] = _
        rw [he.reports, replicate_succ']
    · refine ⟨_, ?_, @Inv.returning n _ .failure s.context _ ledger hidle hover he.returned hl⟩
      simp only [step, comStatusIn, ho, hs.retryState, hleft, returnThenStatus,
        takeBuffer, hb]
      rfl

theorem inv_resent {k : Nat} (hs : State.InFlight n k { s with retryState := .waitingForStatus })
    (hr : s.retryState = .retrying) (ho : s.bufferState = .owned) (hb : s.buffer = some e.buffer)
    (hk : k < n.toNat) (he : Tried (k + 1) (k + 1) e) (hl : ∀ e ∈ ledger, Settled n e) :
    ∃ w', step ⟨s, [], false, .recovering, e :: ledger⟩ (.comStatusIn .success) = .ok w' ∧
      Inv n w' := by
  have hvalid : s.bufferValid = true := by
    simpa [bufferValid, hb] using he.nonempty
  have hcount : s.retryCount.toNat = k := hs.retryCount
  have hlt : s.retryCount.toNat + 1 < 2 ^ 32 := by
    have := n.toNat_lt
    omega
  refine ⟨_, ?_, @Inv.sending n { s with
    retryCount := s.retryCount + 1
    retryState := .waitingForStatus
    bufferState := .notOwned
    buffer := none } (k + 1) s.context e ledger ⟨hs.numRetries, ?_, rfl⟩ rfl hk he hl⟩
  · simp only [step, comStatusIn, ho, hr, hvalid, resend, if_pos hlt,
      takeBuffer, hb]
    rfl
  · show (s.retryCount + 1).toNat = k + 1
    rw [UInt32.toNat_add, hcount]
    have : (1 : UInt32).toNat = 1 := rfl
    omega

theorem Inv.step (h : Inv n w) (e : Event) (ha : w.Allowed e) :
    ∃ w', w.step e = .ok w' ∧ Inv n w' := by
  cases e with
  | deliver => exact ⟨_, rfl, h.deliver ha⟩
  | dataIn buffer context => exact h.dataIn ha.1 ha.2 context
  | dataReturnIn context => exact h.dataReturnIn ha.2 context
  | comStatusIn condition =>
    obtain ⟨hp, hw⟩ := ha
    cases h with
    | owing hs ho hb hk he hl => exact inv_reported hs ho hb hk he hl condition
    | retrying hs hr ho hb hk he hl =>
      rcases hw with hw | ⟨-, rfl⟩
      · cases hw
      · exact inv_resent hs hr ho hb hk he hl
    | @down s ledger hs hl hf =>
      rcases hw with hw | ⟨-, rfl⟩
      · cases hw
      · refine ⟨_, ?_, Inv.passing hs hl hf⟩
        simp only [step, hs.comStatusIn]
        rfl
    | idle _ _ | holding _ _ _ _ _ => rcases hw with hw | ⟨hw, -⟩ <;> cases hw
    | passing _ _ _ | sending _ _ _ _ _ | returning _ _ _ _ | reporting _ _ _ _ => cases hp

/-- All buffers but the last are done with; and so is that one, or a call is to be made or the
adapter to do something. -/
structure Bounded (n : UInt32) (w : World) : Prop where
  older : ∀ e ∈ w.ledger.tail, Settled n e
  newest : ∀ e, w.ledger.head? = some e →
    Settled n e ∨ (Underway n e ∧ (w.pending ≠ [] ∨ w.adapter ≠ .quiet))

theorem Bounded.of_settled (h : ∀ e ∈ w.ledger, Settled n e) :
    Bounded n w where
  older e he := h e (mem_of_mem_tail he)
  newest e he := .inl (h e (mem_of_head? he))

theorem Bounded.of_underway (hw : w.ledger = e :: ledger) (h : Underway n e)
    (hb : w.pending ≠ [] ∨ w.adapter ≠ .quiet) (hl : ∀ e ∈ ledger, Settled n e) : Bounded n w where
  older e' he' := by
    rw [hw] at he'
    exact hl e' he'
  newest e' he' := by
    rw [hw] at he'
    exact .inr (Option.some.inj he' ▸ ⟨h, hb⟩)

theorem Tried.underway {sent reported : Nat} (h : Tried sent reported e) (hs : sent ≤ n.toNat + 1)
    (hr : reported ≤ sent) : Underway n e where
  bound := by rw [h.outs, length_replicate]; exact hs
  unchanged := by
    rw [h.outs]
    exact fun b hb => eq_of_mem_replicate hb
  attempts := by rw [h.outs, h.reports, length_replicate, length_replicate]; exact hr
  untilSuccess hm := by
    have hmem := dropLast_subset _ hm
    rw [h.reports] at hmem
    exact absurd (eq_of_mem_replicate hmem) (by decide)
  returned := .inl h.returned
  status := h.statuses

theorem Over.underway {condition : Success} (h : Over n condition e)
    (hr : e.returned = [] ∨ e.returned = [e.buffer]) : Underway n e := by
  obtain ⟨k, hk, houts, hreports⟩ := h.attempts
  refine ⟨?_, ?_, ?_, ?_, hr, h.statuses⟩
  · rw [houts, length_replicate]
    omega
  · rw [houts]
    exact fun b hb => eq_of_mem_replicate hb
  · simp [houts, hreports]
  · rw [hreports, dropLast_concat]
    exact fun hm => absurd (eq_of_mem_replicate hm) (by decide)

theorem Inv.bounded (h : Inv n w) : Bounded n w := by
  cases h with
  | idle _ hl | down _ hl _ | passing _ hl _ => exact .of_settled hl
  | sending _ _ hk he hl =>
    exact .of_underway rfl (he.underway (by omega) le_rfl) (.inl (cons_ne_nil _ _)) hl
  | holding _ _ hk he hl | owing _ _ _ hk he hl =>
    exact .of_underway rfl (he.underway (by omega) (by omega)) (.inr Adapter.noConfusion) hl
  | retrying _ _ _ _ hk he hl =>
    exact .of_underway rfl (he.underway (by omega) le_rfl) (.inr Adapter.noConfusion) hl
  | returning _ he hr hl =>
    exact .of_underway rfl (he.underway (.inl hr)) (.inl (cons_ne_nil _ _)) hl
  | reporting _ he hr hl =>
    exact .of_underway rfl (he.underway (.inr hr)) (.inl (cons_ne_nil _ _)) hl

/-- While the neighbours keep to the protocol every buffer is sent within the bound, comes back once
and gets one status. -/
theorem retries_bounded (numRetries : UInt32) (ready : Bool) (events : List Event)
    (h : Lib.Runs.AlongM step World.Allowed (.start numRetries ready) events) :
    ∃ w, events.foldlM step (.start numRetries ready) = .ok w ∧ Bounded numRetries w := by
  obtain ⟨w, hrun, hinv⟩ := Lib.Runs.total_run (I := Inv numRetries)
    (fun w e hinv ha => hinv.step e ha) (inv_start numRetries ready) h
  exact ⟨w, hrun, hinv.bounded⟩

def twoAttempts : List Event :=
  [.comStatusIn .success, .deliver, .dataIn [7] {}, .deliver, .dataReturnIn {},
    .comStatusIn .failure, .comStatusIn .success, .deliver, .dataReturnIn {},
    .comStatusIn .success, .deliver, .deliver]

theorem retries_bounded_two :
    Lib.Runs.AlongM World.step World.Allowed (.start 1 false) twoAttempts ∧
      ∃ w, twoAttempts.foldlM World.step (.start 1 false) = .ok w ∧ Bounded 1 w :=
  have h : Lib.Runs.AlongM World.step World.Allowed (.start 1 false) twoAttempts := by decide
  ⟨h, retries_bounded 1 false twoAttempts h⟩

example : (twoAttempts.foldlM World.step (.start 1 false)).map World.ledger =
    .ok [⟨[7], [[7], [7]], [.failure, .success], [[7]], [.success]⟩] := by decide

end Fprime.Svc.ComRetry
