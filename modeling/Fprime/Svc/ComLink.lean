import Fprime.Svc.ComQueue.Effects
import Fprime.Svc.ComQueue.Ownership
import Fprime.Svc.Framers

/-!
# Com queue, framer and com adapter

The com queue sends to a framer, which sends frames to an adapter. The adapter gives one status for
each frame, which lets the com queue send again.
-/

namespace Fprime.Svc

open Fw ComQueue Framers Lib World Runs

/-- The com queue with its messages, the framer, and the frames at the adapter. -/
structure ComLink where
  w : World
  framer : Framer
  inFlight : List (Bytes × FrameContext)

namespace ComLink

inductive Assertion where
  | queue (assertion : ComQueue.Assertion)
  | framer (assertion : Framers.Assertion)

/-- Calls from outside, the com queue's thread with the framer's allocator, and the adapter's status
for a frame. -/
inductive Move where
  | comPacketQueueIn (port : Fin comPorts) (data : ComBuffer)
  | bufferQueueIn (port : Fin bufferPorts) (buffer : ComQueue.Buffer)
  | run
  | cmdIn (opCode cmdSeq : UInt32) (args : Bytes)
  | dispatch (alloc : Allocator)
  | report (k : Nat) (condition : Success)

section Steps

variable (depth : Nat) (idBase : UInt32)

def call (l : ComLink) (c : Call) : Except Assertion ComLink :=
  ((l.w.step depth idBase c).mapError .queue).map fun w => { l with w := w }

def route (l : ComLink) : Framers.Out → Except Assertion ComLink
  | .bufferDeallocate _ => .ok l
  | .dataOut frame context => .ok { l with inFlight := l.inFlight ++ [(frame, context)] }
  | .dataReturnOut _ _ => l.call depth idBase (.dataReturnIn 0)
  | .comStatusOut condition => l.call depth idBase (.comStatusIn condition)
  | .noBufferAvailable => .ok l

def frame (alloc : Allocator) (l : ComLink) (x : ComQueue.Buffer × FrameContext) :
    Except Assertion ComLink := do
  let (framer, outs) ← (l.framer.dataIn alloc x.1 x.2).mapError .framer
  outs.foldlM (route depth idBase) { l with framer := framer }

def step (l : ComLink) : Move → Except Assertion ComLink
  | .comPacketQueueIn port data => l.call depth idBase (.comPacketQueueIn port data)
  | .bufferQueueIn port buffer => l.call depth idBase (.bufferQueueIn port buffer)
  | .run => l.call depth idBase .run
  | .cmdIn opCode cmdSeq args => l.call depth idBase (.cmdIn opCode cmdSeq args)
  | .dispatch alloc => do
    let l ← l.call depth idBase .dispatch
    l.w.air.foldlM (frame depth idBase alloc) l
  | .report k condition =>
    match l.inFlight[k]? with
    | none => .ok l
    | some _ =>
      (l.framer.comStatusIn condition).foldlM (route depth idBase)
        { l with inFlight := l.inFlight.eraseIdx k }

/-- The status that the adapter gives when it comes up is the first message. -/
def start (s : State) (framer : Framer) : ComLink :=
  ⟨⟨s, [.comStatusIn .success], [], [], []⟩, framer, []⟩

def runs (config : QueueConfigurationTable) (framer : Framer) (moves : List Move) :
    Except Assertion ComLink := do
  let s ← (configure config).mapError .queue
  moves.foldlM (step depth idBase) (start s framer)

/-- The request for what is sent, if anything is, is served, and the status is a good one. -/
def Served (l : ComLink) : Move → Prop
  | .dispatch alloc => ∀ l', l.call depth idBase .dispatch = .ok l' →
    ∀ x ∈ l'.w.air, l'.framer.Served alloc x.1
  | .report _ condition => condition = .success
  | _ => True

end Steps

def Credited (l : ComLink) : Prop :=
  l.w.s.sendState = .waiting →
    l.inFlight ≠ [] ∨ ∃ condition, Msg.comStatusIn condition ∈ l.w.msgs

section World

variable {w w' : World} {depth : Nat} {idBase : UInt32}

/-- What a call on an input port does: it may add messages, and nothing is sent. -/
structure Added (w w' : World) (new : List Msg) : Prop where
  out : w'.s.out = []
  air : w'.air = w.air
  send : w'.s.sendState = w.s.sendState
  msgs : w'.msgs = w.msgs ++ new

theorem added_of_send (hout : w.s.out = []) {msg : Msg} {full : Except ComQueue.Assertion World}
    (hfull : ∀ v, full = .ok v → v = w) (h : w.send depth msg full = .ok w') :
    ∃ new, Added w w' new ∧ ∀ m ∈ new, m = msg := by
  unfold send at h
  split at h
  · cases h
    exact ⟨[msg], ⟨hout, rfl, rfl, rfl⟩, by simp⟩
  · rw [hfull w' h]
    exact ⟨[], ⟨hout, rfl, rfl, by simp⟩, by simp⟩

theorem added_of_bufferQueueIn (hout : w.s.out = []) {port : Fin bufferPorts} {b : ComQueue.Buffer}
    (h : w.bufferQueueIn depth port b = .ok w') :
    ∃ new, Added w w' new ∧ ∀ m ∈ new, ∀ c, m ≠ .comStatusIn c := by
  unfold bufferQueueIn at h
  simp only at h
  split at h
  · cases h
    exact ⟨[_], ⟨hout, rfl, rfl, rfl⟩, by simp⟩
  · obtain ⟨⟨b', s⟩, hclaim, hw'⟩ := bind_eq_ok.mp h
    obtain ⟨escrow, rfl⟩ := claimRecord_eq_ok hclaim
    cases hw'
    refine ⟨[], ⟨rfl, ?_, rfl, by simp [after]⟩, by simp⟩
    simp [after, State.emit, hout, sentOf]

theorem added_of_comStatusIn (hout : w.s.out = []) {condition : Success}
    (h : w.step depth idBase (.comStatusIn condition) = .ok w') :
    Added w w' [.comStatusIn condition] := by
  unfold World.step World.send at h
  simp only at h
  split at h
  · cases h
    exact ⟨hout, rfl, rfl, rfl⟩
  · cases h

theorem dispatch_cases {s s' : State} {msg : Msg} (hout : s.out = [])
    (h : s.dispatch idBase msg = .ok s') :
    (∃ x, sentOf s'.out = [x]) ∨ sentOf s'.out = [] ∧
      (s'.sendState = .waiting → s.sendState = .waiting ∧ msg ≠ .comStatusIn .success) := by
  have hserved : ∀ s0 : State, s0.out = [] → (s0.sendState = .waiting →
      s.sendState = .waiting ∧ msg ≠ .comStatusIn .success) → ComQueue.Served s0 s' →
      (∃ x, sentOf s'.out = [x]) ∨ sentOf s'.out = [] ∧
        (s'.sendState = .waiting → s.sendState = .waiting ∧ msg ≠ .comStatusIn .success) := by
    rintro s0 hout0 hwait (hquiet | ⟨-, ⟨x, hx⟩, -, -, -, -⟩)
    · refine .inr ⟨by rw [hquiet.sent, hout0]; rfl, fun hw => hwait (hquiet.send ▸ hw)⟩
    · rw [hout0] at hx
      exact .inl ⟨x, hx⟩
  cases msg with
  | comStatusIn condition =>
    have heffect := (@comStatusIn_eq_ok s s' idBase condition h).2
    cases condition with
    | failure =>
      refine hserved s hout (fun hw => ⟨hw, by simp⟩) (.inl heffect)
    | success =>
      exact hserved { s with sendState := .ready } hout (fun hw => nomatch hw) heffect
  | comPacketQueueIn port data =>
    exact hserved s hout (fun hw => ⟨hw, by simp⟩) (comPacketQueueIn_served h)
  | bufferQueueIn port token =>
    obtain ⟨⟨b, s1⟩, hclaim, h⟩ := bind_eq_ok.mp h
    obtain ⟨escrow, rfl⟩ := claimRecord_eq_ok hclaim
    exact hserved { s with escrow := escrow } hout (fun hw => ⟨hw, by simp⟩)
      (bufferQueueIn_served h)
  | run =>
    cases h
    exact hserved s hout (fun hw => ⟨hw, by simp⟩) (.inl ⟨rfl, rfl, rfl, rfl⟩)
  | cmdIn opCode cmdSeq args =>
    have hquiet := (handleCommand_drains h).1
    exact hserved { s with
        prioritized := resort s.prioritized (prioritySet idBase opCode args) } hout
      (fun hw => ⟨hw, by simp⟩) (.inl hquiet)

end World

variable {l l' : ComLink} {depth : Nat} {idBase : UInt32}

/-- What holds between the steps: nothing is on its way to the framer, and every status that is
queued is a good one. -/
structure Live (l : ComLink) : Prop where
  out : l.w.s.out = []
  air : l.w.air = []
  good : ∀ c, Msg.comStatusIn c ∈ l.w.msgs → c = .success
  credited : l.Credited

theorem call_eq_ok {c : Call} (h : l.call depth idBase c = .ok l') :
    ∃ w, l.w.step depth idBase c = .ok w ∧ l' = { l with w := w } := by
  unfold call at h
  obtain ⟨w, hw, rfl⟩ := map_eq_ok.mp h
  exact ⟨w, mapError_eq_ok.mp hw, rfl⟩

theorem Live.added (h : Live l) {w : World} {new : List Msg} (hadded : Added l.w w new)
    (hnew : ∀ m ∈ new, ∀ c, m ≠ .comStatusIn c) : Live { l with w := w } := by
  refine ⟨hadded.out, hadded.air.trans h.air, fun c hc => ?_, fun hwaiting => ?_⟩
  · rw [hadded.msgs] at hc
    rcases List.mem_append.mp hc with hc | hc
    · exact h.good c hc
    · exact absurd rfl (hnew _ hc c)
  · rcases h.credited (hadded.send ▸ hwaiting) with hflight | ⟨c, hc⟩
    · exact .inl hflight
    · exact .inr ⟨c, by rw [hadded.msgs]; exact List.mem_append_left _ hc⟩

theorem Live.report (h : Live l) (k : Nat)
    (hl : ({ l with inFlight := l.inFlight.eraseIdx k }.call depth idBase
      (.comStatusIn .success)) = .ok l') : Live l' := by
  obtain ⟨w, hw, rfl⟩ := call_eq_ok hl
  have hadded := added_of_comStatusIn h.out hw
  refine ⟨hadded.out, hadded.air.trans h.air, fun c hc => ?_, fun _ => .inr ⟨.success, ?_⟩⟩
  · rw [hadded.msgs] at hc
    rcases List.mem_append.mp hc with hc | hc
    · exact h.good c hc
    · simpa using hc
  · rw [hadded.msgs]
    exact List.mem_append_right _ List.mem_cons_self

theorem live_of_frame {alloc : Allocator} {x : ComQueue.Buffer × FrameContext}
    (hout : l.w.s.out = []) (hair : l.w.air = [x])
    (hgood : ∀ c, Msg.comStatusIn c ∈ l.w.msgs → c = .success)
    (hserved : l.framer.Served alloc x.1)
    (h : frame depth idBase alloc l x = .ok l') : Live l' := by
  unfold frame at h
  obtain ⟨⟨framer, outs⟩, hdata, hroute⟩ := bind_eq_ok.mp h
  obtain ⟨fr, rfl⟩ := Framer.dataIn_of_served hserved (mapError_eq_ok.mp hdata)
  obtain ⟨l1, hl1, hroute⟩ := bind_eq_ok.mp hroute
  cases hl1
  obtain ⟨l2, hl2, hroute⟩ := bind_eq_ok.mp hroute
  cases hroute
  obtain ⟨w, hw, rfl⟩ := call_eq_ok hl2
  unfold World.step at hw
  simp only [hair, List.getElem?_cons_zero] at hw
  obtain ⟨s, hs, hw'⟩ := bind_eq_ok.mp hw
  obtain ⟨-, hquiet⟩ := dataReturnIn_quiet hs
  have hsent : sentOf s.out = [] := by
    rw [hquiet.sent, hout]
    rfl
  cases hw'
  exact ⟨rfl, by simp [after, hsent], hgood, fun _ => .inl (by simp)⟩

theorem Live.dispatch (h : Live l) {alloc : Allocator}
    (hserved : l.Served depth idBase (.dispatch alloc))
    (hl : l.step depth idBase (.dispatch alloc) = .ok l') : Live l' := by
  obtain ⟨l1, hcall, hframe⟩ := bind_eq_ok.mp hl
  have hserved := hserved l1 hcall
  obtain ⟨w, hw, rfl⟩ := call_eq_ok hcall
  unfold World.step at hw
  simp only at hw
  cases hmsgs : l.w.msgs with
  | nil =>
    rw [hmsgs] at hw
    cases hw
    rw [h.air] at hframe
    cases hframe
    exact h
  | cons msg msgs =>
    rw [hmsgs] at hw
    obtain ⟨s, hs, hw'⟩ := bind_eq_ok.mp hw
    cases hw'
    have hgood : ∀ c, Msg.comStatusIn c ∈ msgs → c = .success := fun c hc =>
      h.good c (by rw [hmsgs]; exact List.mem_cons_of_mem _ hc)
    rcases dispatch_cases h.out hs with ⟨x, hx⟩ | ⟨hnone, hwait⟩
    · -- what was sent goes through the framer
      have hair : ({ l.w with msgs := msgs }.after s).air = [x] := by
        simp [after, h.air, hx]
      rw [hair] at hframe hserved
      obtain ⟨l2, hl2, hret⟩ := bind_eq_ok.mp hframe
      cases hret
      exact live_of_frame rfl hair hgood (hserved x List.mem_cons_self) hl2
    · have hair : ({ l.w with msgs := msgs }.after s).air = [] := by
        simp [after, h.air, hnone]
      rw [hair] at hframe
      cases hframe
      refine ⟨rfl, hair, hgood, fun hwaiting => ?_⟩
      obtain ⟨hbefore, hmsg⟩ := hwait hwaiting
      rcases h.credited hbefore with hflight | ⟨c, hc⟩
      · exact .inl hflight
      · rw [hmsgs] at hc
        rcases List.mem_cons.mp hc with rfl | hc
        · -- the message was a good status, after which nothing is awaited
          rw [h.good c (by rw [hmsgs]; exact List.mem_cons_self)] at hmsg
          exact absurd rfl hmsg
        · exact .inr ⟨c, hc⟩

theorem Live.step (h : Live l) {move : Move} (hmove : l.Served depth idBase move)
    (hl : l.step depth idBase move = .ok l') : Live l' := by
  cases move with
  | comPacketQueueIn port data | run =>
    obtain ⟨w, hw, rfl⟩ := call_eq_ok hl
    obtain ⟨new, hadded, hnew⟩ := added_of_send h.out (fun _ hv => (Except.ok.inj hv).symm) hw
    exact h.added hadded fun m hm c hc => by simp [hnew m hm] at hc
  | bufferQueueIn port b =>
    obtain ⟨w, hw, rfl⟩ := call_eq_ok hl
    obtain ⟨new, hadded, hnew⟩ := added_of_bufferQueueIn h.out hw
    exact h.added hadded hnew
  | cmdIn opCode cmdSeq args =>
    obtain ⟨w, hw, rfl⟩ := call_eq_ok hl
    obtain ⟨new, hadded, hnew⟩ := added_of_send h.out (by simp) hw
    exact h.added hadded fun m hm c hc => by simp [hnew m hm] at hc
  | dispatch alloc => exact h.dispatch hmove hl
  | report k condition =>
    obtain rfl : condition = .success := hmove
    unfold ComLink.step at hl
    simp only at hl
    split at hl
    · cases hl
      exact h
    · obtain ⟨l1, hl1, hret⟩ := bind_eq_ok.mp hl
      cases hret
      exact h.report k hl1

/-- As long as the requests are served and the statuses good, a com queue that waits has a frame at
the adapter or a status in its messages. -/
theorem credited_of_served (config : QueueConfigurationTable) (depth : Nat) (idBase : UInt32)
    (framer : Framer) (moves : List Move)
    (hmoves : ∀ s, configure config = .ok s →
      AlongM (step depth idBase) (Served depth idBase) (start s framer) moves)
    (l : ComLink) (h : runs depth idBase config framer moves = .ok l) : l.Credited := by
  unfold runs at h
  obtain ⟨s, hs, hfold⟩ := bind_eq_ok.mp h
  have hconfig : configure config = .ok s := mapError_eq_ok.mp hs
  obtain ⟨-, -, -, -, hout⟩ := @configure_sound config 0 s hconfig
  have hnew : Live (start s framer) := by
    refine ⟨hout, rfl, ?_, fun _ => .inr ⟨.success, List.mem_cons_self⟩⟩
    intro c hc
    simpa [start] using hc
  exact (invariant_run (I := Live) (fun _ _ _ hl hmove hstep => hl.step hmove hstep) hnew
    (hmoves s hconfig) hfold).credited

theorem comPorts_pos : 0 < comPorts := by decide

theorem twoBytes_fit : ([0, 1] : Bytes).length ≤ comBufferMaxSize := by decide

def onePacket (alloc : Allocator) : List Move :=
  [.dispatch alloc, .comPacketQueueIn ⟨0, comPorts_pos⟩ ⟨[0, 1], twoBytes_fit⟩, .dispatch alloc]

theorem credited_one_packet :
    ∃ l, runs 4 0 shallowTable (.fprime 0) (onePacket some) = .ok l ∧
      l.w.s.sendState = .waiting ∧ l.Credited := by
  -- the allocator gives what it is asked for
  have hserved : ∀ s, configure shallowTable = .ok s →
      AlongM (step 4 0) (Served 4 0) (start s (.fprime 0)) (onePacket some) := fun s _ =>
    ⟨fun _ _ _ _ => ⟨_, rfl, le_rfl⟩, fun _ _ => ⟨trivial, fun _ _ =>
      ⟨fun _ _ _ _ => ⟨_, rfl, le_rfl⟩, fun _ _ => trivial⟩⟩⟩
  exact ⟨_, rfl, rfl,
    credited_of_served shallowTable 4 0 (.fprime 0) (onePacket some) hserved _ rfl⟩

/-- A framer drops a packet for want of a buffer: the com queue waits for a status that nothing can
give. -/
theorem stranded_after_drop :
    (∃ l, runs 4 0 shallowTable (.fprime 0) (onePacket fun _ => none) = .ok l ∧
      l.w.s.sendState = .waiting ∧ l.inFlight = [] ∧ l.w.msgs = []) ∧
    ∃ l, runs 4 0 shallowTable (.spacePacket 0 .new) (onePacket fun _ => none) = .ok l ∧
      l.w.s.sendState = .waiting ∧ l.inFlight = [] ∧ l.w.msgs = [] :=
  ⟨⟨_, rfl, rfl, rfl, rfl⟩, ⟨_, rfl, rfl, rfl, rfl⟩⟩

end ComLink

end Fprime.Svc
