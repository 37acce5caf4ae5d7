import Fprime.Svc.ComQueue.Handlers

/-!
# Every buffer is in one place

A buffer that is handed to `bufferQueueIn` is in the message queue, in its queue, out on `dataOut`
or returned.
-/

namespace Fprime.Svc.ComQueue

open Fprime.Comp Fw Utils Lib List Option Prod

/-- The component, its message queue, the buffers out on `dataOut`, and those ever handed in and
given back. -/
structure World where
  s : State
  msgs : List Msg
  air : List (Buffer × FrameContext)
  handed : List (Fin bufferPorts × Buffer)
  returned : List (Fin bufferPorts × Buffer)

/-- Calls on the input ports, the thread taking its next message, and the return of a buffer that is
out. -/
inductive Call where
  | comStatusIn (condition : Success)
  | comPacketQueueIn (port : Fin comPorts) (data : ComBuffer)
  | bufferQueueIn (port : Fin bufferPorts) (buffer : Buffer)
  | run
  | cmdIn (opCode cmdSeq : UInt32) (args : Bytes)
  | dispatch
  | dataReturnIn (k : Nat)

def returnedOf (out : List Out) : List (Fin bufferPorts × Buffer) :=
  out.filterMap fun
    | .bufferReturnOut port buffer => some (port, buffer)
    | _ => none

variable (w : World)

def World.after (s : State) : World :=
  { w with
    s := { s with out := [] }
    air := w.air ++ sentOf s.out
    returned := w.returned ++ returnedOf s.out }

/-- A message that is dropped, or fails an assertion, when the queue is full. -/
def World.send (depth : Nat) (msg : Msg) (full : Except Assertion World) :
    Except Assertion World :=
  if w.msgs.length < depth then .ok { w with msgs := w.msgs ++ [msg] } else full

/-- The buffer goes into escrow first, and is reclaimed when the queue is full. -/
def World.bufferQueueIn (depth : Nat) (port : Fin bufferPorts) (buffer : Buffer) :
    Except Assertion World :=
  let (token, escrow) := w.s.escrow.deposit buffer
  let w := { w with
    s := { w.s with escrow := escrow }
    handed := w.handed ++ [(port, buffer)] }
  if w.msgs.length < depth then .ok { w with msgs := w.msgs ++ [.bufferQueueIn port token] }
  else do
    let (buffer, s) ← w.s.claimRecord (.buffer token)
    return w.after (s.emit (.bufferReturnOut port buffer))

def World.step (depth : Nat) (idBase : UInt32) (w : World) : Call → Except Assertion World
  | .comStatusIn condition => w.send depth (.comStatusIn condition) (.error .messageQueue)
  | .comPacketQueueIn port data => w.send depth (.comPacketQueueIn port data) (.ok w)
  | .bufferQueueIn port buffer => w.bufferQueueIn depth port buffer
  | .run => w.send depth .run (.ok w)
  | .cmdIn opCode cmdSeq args => w.send depth (.cmdIn opCode cmdSeq args) (.error .messageQueue)
  | .dispatch =>
    match w.msgs with
    | [] => .ok w
    | msg :: msgs => do
      let s ← w.s.dispatch idBase msg
      return { w with msgs := msgs }.after s
  | .dataReturnIn k =>
    match w.air[k]? with
    | none => .ok w
    | some (buffer, context) => do
      let s ← w.s.dataReturnIn buffer context
      return { w with air := w.air.eraseIdx k }.after s

def World.run (config : QueueConfigurationTable) (depth : Nat) (idBase : UInt32)
    (calls : List Call) : Except Assertion World := do
  let s ← configure config
  calls.foldlM (World.step depth idBase) ⟨s, [], [], [], []⟩

def World.inMessages : List (Fin bufferPorts × Buffer) :=
  w.msgs.filterMap fun
    | .bufferQueueIn port token => (w.s.escrow.lookup token).map (port, ·)
    | _ => none

def World.inQueues : List (Fin bufferPorts × Buffer) :=
  (finRange bufferPorts).flatMap fun n =>
    (w.s.queues (bufferQueueNum n)).messages.filterMap fun
      | .buffer token => (w.s.escrow.lookup token).map (n, ·)
      | .com _ => none

def inAir (air : List (Buffer × FrameContext)) : List (Fin bufferPorts × Buffer) :=
  air.filterMap fun x => (contextPort x.2).map (·, x.1)

theorem released_perm (out : List Out) :
    (released out).Perm (inAir (sentOf out) ++ returnedOf out) := by
  induction out with
  | nil => rfl
  | cons o out ih =>
    cases o with
    | dataOut data context =>
      simp only [released, sentOf, returnedOf, inAir, filterMap_cons] at ih ⊢
      cases contextPort context with
      | none => exact ih
      | some port => exact ih.cons _
    | bufferReturnOut port buffer => exact (ih.cons _).trans perm_middle.symm
    | cmdResponse opCode cmdSeq response | log event => exact ih

/-- The message that carries a token, for the tokens in the message queue. -/
def msgToken : Msg → Option (Fin bufferPorts × Token)
  | .bufferQueueIn port token => some (port, token)
  | _ => none

/-- The tokens in the message queue stand for the buffers in `pend`, and no buffer is lost. -/
structure Owned (config : QueueConfigurationTable)
    (pend : List (Fin bufferPorts × Token × Buffer))
    (held : Fin bufferPorts → Tokens) (w : World) : Prop where
  tokens : w.msgs.filterMap msgToken = pend.map fun x => (x.1, x.2.1)
  sound : Sound config 0 (pend.map snd) held w.s
  quiet : w.s.out = []
  places : w.handed.Perm
    (pend.map (fun x => (x.1, x.2.2)) ++ queued held ++ inAir w.air ++ w.returned)

variable {config : QueueConfigurationTable} {pend pend' : List (Fin bufferPorts × Token × Buffer)}
  {held : Fin bufferPorts → Tokens} {w w' : World} {depth : Nat} {idBase : UInt32}

theorem inMessages_eq (h : Owned config pend held w) :
    w.inMessages = pend.map fun x => (x.1, x.2.2) := by
  have hlookup : ∀ x ∈ pend, w.s.escrow.lookup x.2.1 = some x.2.2 := fun x hx =>
    h.sound.holds.lookup x.2 (mem_append_left _ (mem_map_of_mem hx))
  have hsplit : w.inMessages = (w.msgs.filterMap msgToken).filterMap fun x =>
      (w.s.escrow.lookup x.2).map (x.1, ·) := by
    unfold World.inMessages
    rw [filterMap_filterMap]
    congr 1
    funext msg
    cases msg <;> rfl
  rw [hsplit, h.tokens, filterMap_map, ← filterMap_eq_map]
  refine filterMap_congr fun x hx => ?_
  simp [hlookup x hx]

theorem inQueues_eq (h : Owned config pend held w) : w.inQueues = queued held := by
  unfold World.inQueues queued
  refine flatMap_congr fun n hn => ?_
  rw [h.sound.buffer n, filterMap_map, ← filterMap_eq_map]
  refine filterMap_congr fun x hx => ?_
  have hmem : x ∈ pend.map snd ++ (finRange bufferPorts).flatMap held :=
    mem_append_right _ (mem_flatMap.mpr ⟨n, hn, hx⟩)
  simp [h.sound.holds.lookup x hmem]

theorem Accounts.quiet {new : List (Fin bufferPorts × Buffer)} {s s' : State}
    {pending : Tokens} (h : Accounts config 0 pending held s s' new)
    (hs : s.out = []) :
    ∃ held', Sound config 0 pending held' s' ∧
      (queued held' ++ released s'.out).Perm (new ++ queued held) := by
  obtain ⟨held', hsound, hledger⟩ := h
  refine ⟨held', hsound, hledger.trans ?_⟩
  rw [ledger, hs]
  simp [released]

theorem owned_after {s : State} (held : Fin bufferPorts → Tokens)
    (new : List (Fin bufferPorts × Buffer))
    (htokens : w.msgs.filterMap msgToken = pend.map fun x => (x.1, x.2.1))
    (hs : ∃ held', Sound config 0 (pend.map snd) held' s ∧
      (queued held' ++ released s.out).Perm (new ++ queued held))
    (hplaces : w.handed.Perm (pend.map (fun x => (x.1, x.2.2)) ++ new ++ queued held ++
      inAir w.air ++ w.returned)) :
    ∃ held', Owned config pend held' (w.after s) := by
  obtain ⟨held', hsound, hout⟩ := hs
  refine ⟨held', htokens, hsound.of_eq rfl rfl rfl, rfl, hplaces.trans ?_⟩
  have hsplit := released_perm s.out
  simp only [World.after, inAir, filterMap_append] at hsplit ⊢
  rw [perm_iff_count] at hout hsplit ⊢
  intro x
  have := hout x
  have := hsplit x
  simp only [count_append] at *
  omega

theorem Owned.send (h : Owned config pend held w) {msg : Msg} (hmsg : msgToken msg = none)
    {full : Except Assertion World}
    (hfull : ∀ w', full = .ok w' → w' = w) (hw : w.send depth msg full = .ok w') :
    Owned config pend held w' := by
  unfold World.send at hw
  split at hw
  · cases hw
    refine ⟨?_, h.sound, h.quiet, h.places⟩
    rw [filterMap_append, h.tokens]
    simp [hmsg]
  · rw [hfull w' hw]
    exact h

theorem Owned.bufferQueueIn (h : Owned config pend held w) {port : Fin bufferPorts} {b : Buffer}
    (hw : w.bufferQueueIn depth port b = .ok w') :
    ∃ pend' held', Owned config pend' held' w' := by
  have hstocked := h.sound.toStocked.deposit b (Nat.zero_le _)
  unfold World.bufferQueueIn at hw
  simp only at hw
  split at hw
  · -- the token goes behind those in the message queue
    cases hw
    refine ⟨pend ++ [(port, (w.s.escrow.deposit b).1, b)], held, ?_, ⟨?_, ?_⟩, h.quiet, ?_⟩
    · rw [filterMap_append, h.tokens]
      simp [msgToken]
    · exact h.sound.toWf.of_eq rfl fun _ => ⟨rfl, rfl, rfl⟩
    · refine ⟨hstocked.com, hstocked.buffer, hstocked.holds.perm ?_, fun _ _ => Nat.zero_le _⟩
      refine List.Perm.append_right _ ?_
      rw [map_append]
      exact (perm_append_singleton _ _).symm
    · have hplaces := h.places
      rw [perm_iff_count] at hplaces ⊢
      intro x
      have := hplaces x
      simp only [map_append, map_cons, map_nil, count_append] at *
      omega
  · -- the escrow gives back what was just put in
    obtain ⟨escrow, hclaim, hdone⟩ := hstocked.claimRecord
    rw [hclaim] at hw
    cases hw
    refine ⟨pend, owned_after held [(port, b)] h.tokens ⟨held, ⟨?_, ?_⟩, ?_⟩ ?_⟩
    · exact h.sound.toWf.of_eq rfl fun _ => ⟨rfl, rfl, rfl⟩
    · exact hdone.of_eq rfl rfl
    · simp only [State.emit, h.quiet]
      exact perm_append_comm
    · have hplaces := h.places
      rw [perm_iff_count] at hplaces ⊢
      intro x
      have := hplaces x
      simp only [count_append] at *
      omega

theorem Owned.dispatch {msg : Msg} {msgs : List Msg} {s : State} (h : Owned config pend held w)
    (hmsgs : w.msgs = msg :: msgs) (hs : w.s.dispatch idBase msg = .ok s) :
    ∃ pend' held', Owned config pend' held' ({ w with msgs := msgs }.after s) := by
  -- a message without a token leaves those in the message queue alone
  have hrest : msgToken msg = none → Accounts config 0 (pend.map snd) held w.s s [] →
      ∃ pend' held', Owned config pend' held' ({ w with msgs := msgs }.after s) := by
    intro hnone haccounts
    refine ⟨pend, owned_after held [] ?_ (haccounts.quiet h.quiet) (by simpa using h.places)⟩
    rw [← h.tokens, hmsgs, filterMap_cons_none hnone]
  cases msg with
  | comStatusIn condition => exact hrest rfl (h.sound.comStatusIn hs)
  | comPacketQueueIn port data => exact hrest rfl (h.sound.comPacketQueueIn (Nat.zero_le _) hs)
  | run =>
    cases hs
    exact hrest rfl h.sound.run
  | cmdIn opCode cmdSeq args => exact hrest rfl (h.sound.handleCommand hs)
  | bufferQueueIn port token =>
    have htokens := h.tokens
    rw [hmsgs] at htokens
    obtain ⟨⟨_, _, b⟩, pend', rfl, hx, htail⟩ := map_eq_cons_iff.mp htokens.symm
    obtain ⟨rfl, rfl⟩ := mk.inj hx
    obtain ⟨escrow, hclaim, hdone⟩ := h.sound.toStocked.claimRecord
    have hsound : Sound config 0 (pend'.map snd) held { w.s with escrow := escrow } :=
      ⟨h.sound.toWf.of_eq rfl fun _ => ⟨rfl, rfl, rfl⟩, hdone⟩
    simp only [State.dispatch, hclaim] at hs
    have haccounts := hsound.bufferQueueIn (Nat.zero_le _) hs
    refine ⟨pend', owned_after held [(_, b)] htail.symm (haccounts.quiet h.quiet) ?_⟩
    refine h.places.trans ?_
    rw [perm_iff_count]
    intro x
    simp only [map_cons, count_append, count_cons, count_nil]
    omega

theorem Owned.dataReturnIn {k : Nat} {b : Buffer} {context : FrameContext} {s : State}
    (h : Owned config pend held w) (hk : w.air[k]? = some (b, context))
    (hs : w.s.dataReturnIn b context = .ok s) :
    ∃ held', Owned config pend held' ({ w with air := w.air.eraseIdx k }.after s) := by
  refine owned_after held _ h.tokens ((h.sound.dataReturnIn hs).quiet h.quiet) (h.places.trans ?_)
  obtain ⟨hlt, hget⟩ := List.getElem?_eq_some_iff.mp hk
  have hperm := (getElem_cons_eraseIdx_perm hlt).filterMap
    fun x : Buffer × FrameContext => (contextPort x.2).map (·, x.1)
  rw [hget, filterMap_cons] at hperm
  rw [perm_iff_count] at hperm ⊢
  intro x
  have := hperm x
  cases hport : contextPort context <;>
    simp only [hport, inAir, map_none, map_some, toList_none,
      toList_some, count_append, count_cons, count_nil] at * <;>
    omega

theorem Owned.step (h : Owned config pend held w) {call : Call}
    (hw : w.step depth idBase call = .ok w') : ∃ pend' held', Owned config pend' held' w' := by
  cases call with
  | comStatusIn condition | cmdIn opCode cmdSeq args => exact ⟨pend, held, h.send rfl (by simp) hw⟩
  | comPacketQueueIn port data =>
    exact ⟨pend, held, h.send rfl (fun _ heq => (Except.ok.inj heq).symm) hw⟩
  | bufferQueueIn port b => exact h.bufferQueueIn hw
  | run => exact ⟨pend, held, h.send rfl (fun _ heq => (Except.ok.inj heq).symm) hw⟩
  | dispatch =>
    unfold World.step at hw
    simp only at hw
    split at hw
    · cases hw
      exact ⟨pend, held, h⟩
    · rename_i msg msgs hmsgs
      obtain ⟨s, hs, hw⟩ := Runs.bind_eq_ok.mp hw
      cases hw
      exact h.dispatch hmsgs hs
  | dataReturnIn k =>
    unfold World.step at hw
    simp only at hw
    split at hw
    · cases hw
      exact ⟨pend, held, h⟩
    · rename_i b context hk
      obtain ⟨s, hs, hw⟩ := Runs.bind_eq_ok.mp hw
      cases hw
      exact ⟨pend, h.dataReturnIn hk hs⟩

theorem owned_of_run {calls : List Call} (h : World.run config depth idBase calls = .ok w) :
    ∃ pend held, Owned config pend held w := by
  unfold World.run at h
  obtain ⟨s, hs, h⟩ := Runs.bind_eq_ok.mp h
  obtain ⟨hsound, -, -, -, hout⟩ := configure_sound hs
  have hnew : Owned config [] (fun _ => []) ⟨s, [], [], [], []⟩ := by
    refine ⟨rfl, hsound, hout, ?_⟩
    simp [queued, inAir]
  refine Runs.invariantM (I := fun w => ∃ pend held, Owned config pend held w) ?_
    ⟨_, _, hnew⟩ h
  rintro call - v v' ⟨pend, held, hv⟩ hstep
  exact hv.step hstep

/-- A buffer that was handed in is in one place, it is given back to its port, no more often than it
was handed in, and the escrow holds the buffers that wait. -/
theorem buffer_ownership (config : QueueConfigurationTable) (depth : Nat) (idBase : UInt32)
    (calls : List Call) (w : World) (h : World.run config depth idBase calls = .ok w) :
    w.handed.Perm (w.inMessages ++ w.inQueues ++ inAir w.air ++ w.returned) ∧
      (∀ x, w.returned.count x ≤ w.handed.count x) ∧
      w.s.escrow.held.Perm ((w.inMessages ++ w.inQueues).map snd) := by
  obtain ⟨pend, held, howned⟩ := owned_of_run h
  rw [inMessages_eq howned, inQueues_eq howned]
  refine ⟨howned.places, fun x => ?_, ?_⟩
  · rw [howned.places.count_eq x, count_append]
    exact Nat.le_add_left _ _
  · refine howned.sound.holds.held.trans (.of_eq ?_)
    simp [queued, map_flatMap, Function.comp_def]

def shallowTable : QueueConfigurationTable := fun _ => ⟨1, 0, .fifo, .dropOldest⟩

/-- The second drives out the first and is sent, the third and the fourth wait, and the fifth finds
the message queue full. -/
def fiveBuffers : List Call :=
  let give := fun n : Nat => Call.bufferQueueIn 0 ⟨some n, [0, 3]⟩
  [give 0, .dispatch, give 1, .dispatch, .comStatusIn .success, .dispatch, give 2, .dispatch,
    give 3, give 4]

theorem buffer_ownership_five_buffers :
    ∃ w, World.run shallowTable 1 0 fiveBuffers = .ok w ∧
      w.handed.map (·.2.owner) = [some 0, some 1, some 2, some 3, some 4] ∧
      w.returned.map (·.2.owner) = [some 0, some 4] ∧
      w.air.map (·.1.owner) = [some 1] ∧
      w.handed.Perm (w.inMessages ++ w.inQueues ++ inAir w.air ++ w.returned) := by
  have hends : (World.run shallowTable 1 0 fiveBuffers).toOption.map (fun w =>
      (w.handed.map (·.2.owner), w.returned.map (·.2.owner), w.air.map (·.1.owner))) =
        some ([some 0, some 1, some 2, some 3, some 4], [some 0, some 4], [some 1]) := by
    decide +kernel
  cases hrun : World.run shallowTable 1 0 fiveBuffers with
  | error e =>
    rw [hrun] at hends
    cases hends
  | ok w =>
    rw [hrun] at hends
    simp only [Except.toOption, map_some, some.injEq, mk.injEq] at hends
    exact ⟨w, rfl, hends.1, hends.2.1, hends.2.2, (buffer_ownership _ _ _ _ w hrun).1⟩

end Fprime.Svc.ComQueue
