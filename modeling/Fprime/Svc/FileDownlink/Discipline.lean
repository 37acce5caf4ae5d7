import Fprime.Svc.FileDownlink.Transfer

/-!
# The request discipline

Port calls run on their callers' threads and take the lock twice; a tick that takes a request out of
the queue gives the lock up before it opens the file, so that port calls may come in between.
-/

namespace Fprime.Svc.FileDownlink

open Fw Lib.Runs List

/-- What is seen of the work on the requests: a request is taken out of the queue, a packet is
sent, an answer is given. -/
inductive Record where
  | begun (entry : FileEntry)
  | sent (packet : Bytes)
  | completed (answer : Out)

def recordOf (outs : List Out) : List Record :=
  outs.filterMap fun
    | .bufferSendOut buffer => some (.sent buffer.bytes)
    | .cmdResponse opCode cmdSeq response => some (.completed (.cmdResponse opCode cmdSeq response))
    | .fileComplete response => some (.completed (.fileComplete response))
    | .event _ => none

/-- What a command or port call got into the queue, what was put out for it, and what a port call
returned. -/
inductive Handled where
  | command (opCode cmdSeq : UInt32) (accepted : Option FileEntry) (outs : List Out)
  | port (accepted : Option FileEntry) (outs : List Out) (response : SendFileResponse)

def Handled.accepted : Handled → Option FileEntry
  | command _ _ accepted _ | port accepted _ _ => accepted

structure World where
  comp : FileDownlink
  callers : List (UInt32 × PortRequest)
  /-- The request that a tick has taken out and not yet begun to send. -/
  taken : Option FileEntry
  outstanding : List Buffer
  handled : List Handled
  log : List Record

def World.start (comp : FileDownlink) : World :=
  ⟨comp, [], none, [], [], []⟩

def World.accepted (w : World) : List FileEntry :=
  w.handled.filterMap Handled.accepted

inductive Input where
  | run
  | sendFile (disk : Disk)
  | bufferReturn (disk : Disk) (i : Nat)
  | cmdIn (opCode cmdSeq : UInt32) (args : Bytes)
  | portCall (request : PortRequest)
  | portEnqueue (i : Nat)

def acceptedBy (before after : FileDownlink) : Option FileEntry :=
  (after.fileQueue.drop before.fileQueue.length).head?

def World.emit (w : World) (comp : FileDownlink) (outs : List Out) : World :=
  { w with
    comp := comp
    outstanding := w.outstanding ++ sends outs
    log := w.log ++ recordOf outs }

/-- One step of one of the threads. No other message is handled between the two halves of a tick; a
step that is not possible changes nothing. -/
def World.step (w : World) : Input → Except Assertion World
  | .run =>
    if w.taken.isSome then .ok w
    else
      let (comp, taken) := w.comp.runHandler
      .ok { w with comp := comp, taken := taken, log := w.log ++ taken.toList.map .begun }
  | .sendFile disk =>
    match w.taken with
    | none => .ok w
    | some entry => do
      let (comp, outs) ← w.comp.sendFile disk entry.srcFilename entry.destFilename entry.offset
        entry.length
      return { w with taken := none }.emit comp outs
  | .bufferReturn disk i =>
    if w.taken.isSome then .ok w
    else
      match w.outstanding[i]? with
      | none => .ok w
      | some buffer => do
        let (comp, outs) ← w.comp.bufferReturnHandler disk buffer
        return { w with outstanding := w.outstanding.eraseIdx i }.emit comp outs
  | .cmdIn opCode cmdSeq args =>
    if w.taken.isSome then .ok w
    else
      let (comp, outs) := w.comp.cmdIn opCode cmdSeq args
      .ok { w with
        comp := comp
        handled := w.handled ++ [.command opCode cmdSeq (acceptedBy w.comp comp) outs] }
  | .portCall request =>
    let (context, comp) := w.comp.drawContext
    .ok { w with comp := comp, callers := w.callers ++ [(context, request)] }
  | .portEnqueue i =>
    match w.callers[i]? with
    | none => .ok w
    | some (context, request) =>
      let (comp, outs, response) := w.comp.sendFilePortHandler context request
      .ok { w with
        comp := comp
        callers := w.callers.eraseIdx i
        handled := w.handled ++ [.port (acceptedBy w.comp comp) outs response] }

def World.run (w : World) (inputs : List Input) : Except Assertion World :=
  inputs.foldlM World.step w

structure Transfer where
  entry : FileEntry
  packets : List FilePacket
  status : Option SendFileStatus

def Transfer.records (t : Transfer) : List Record :=
  .begun t.entry :: (t.packets.map fun packet => .sent (comPacket packet)) ++
    t.status.toList.map fun status => .completed (t.entry.completion status)

/-- A whole transfer of the requested range or the first few packets of one, or such in front of a
cancel packet. -/
def Follows (entry : FileEntry) (packets : List FilePacket) : Prop :=
  packets = [] ∨ ∃ size data, entry.offset.toNat + data.length = rangeEnd entry size ∧
    (packets <+: transfer entry size data ∨
      ∃ sent index, sent <+: body entry size data ∧ packets = sent ++ [.cancel index])

/-- An accepted request is answered later, with its own numbers; one that is refused is answered
at once. -/
def Handled.Proper : Handled → Prop
  | command opCode cmdSeq (some entry) outs =>
    outs = [] ∧ entry.source = .command ∧ entry.opCode = opCode ∧ entry.cmdSeq = cmdSeq
  | command opCode cmdSeq none outs =>
    sends outs = [] ∧ ∃ response, responses outs = [.cmdResponse opCode cmdSeq response]
  | port (some entry) outs response =>
    outs = [] ∧ entry.source = .port ∧ response = ⟨.statusOk, entry.context⟩
  | port none outs response =>
    sends outs = [] ∧ responses outs = [] ∧ response = ⟨.statusError, 0xFFFFFFFF⟩

/-- The requests are worked on in the order of their acceptance. All are answered once, except for
one that has a buffer out or is just begun. -/
def OneByOne (w : World) (finished : List Transfer) (current : Option Transfer) : Prop :=
  w.log = (finished ++ current.toList).flatMap Transfer.records ∧
    (finished ++ current.toList).map Transfer.entry ++ w.comp.fileQueue = w.accepted ∧
    (∀ t ∈ finished, t.status.isSome) ∧
    (∀ t ∈ current, t.status = none ∧ (w.taken = some t.entry ∨ w.outstanding ≠ [])) ∧
    ∀ t ∈ finished ++ current.toList, Follows t.entry t.packets

structure Disciplined (w : World) : Prop where
  oneBuffer : w.outstanding.length ≤ 1
  proper : ∀ h ∈ w.handled, h.Proper
  oneByOne : ∃ finished current, OneByOne w finished current

/-- What a handler of requests may change: it adds to the queue and may cancel. -/
structure Requested (s s' : FileDownlink) (accepted : Option FileEntry) : Prop where
  queue : s'.fileQueue = s.fileQueue ++ accepted.toList
  rest : Resting s → s'.mode = s.mode
  sending : ∀ entry data packets, Sending s entry data packets → Sending s' entry data packets
  request : s'.curEntry = s.curEntry
  lastType : s'.lastCompletedType = s.lastCompletedType
  file : s'.file = s.file
  bufferId : s'.lastBufferId = s.lastBufferId
  stock : s'.freeStorage = s.freeStorage
  timing : s'.timing = s.timing
  timer : s'.curTimer = s.curTimer

section Requests

variable {s : FileDownlink} {entry : FileEntry}

theorem requested_self (s : FileDownlink) : Requested s s none :=
  ⟨(append_nil _).symm, fun _ => rfl, fun _ _ _ h => h, rfl, rfl, rfl, rfl, rfl, rfl, rfl⟩

theorem requested_push (s : FileDownlink) (entry : FileEntry) :
    Requested s { s with fileQueue := s.fileQueue ++ [entry] } (some entry) :=
  ⟨rfl, fun _ => rfl, fun _ _ _ h => ⟨h.mode, h.request, h.isOpen, h.range,
    h.offset, h.index, h.checksum, h.context, h.stage⟩, rfl, rfl, rfl, rfl, rfl, rfl, rfl⟩

theorem Requested.acceptedBy_eq {s' : FileDownlink} {accepted : Option FileEntry}
    (h : Requested s s' accepted) : acceptedBy s s' = accepted := by
  rw [acceptedBy, h.queue, drop_left]
  cases accepted <;> rfl

theorem Requested.resting {s' : FileDownlink} {accepted : Option FileEntry}
    (h : Requested s s' accepted) (hrest : Resting s) : Resting s' :=
  ⟨h.rest hrest ▸ hrest.mode, h.file ▸ hrest.closed⟩

/-- The component behind a command, and the record of it. -/
def Commands (s : FileDownlink) (opCode cmdSeq : UInt32) (result : FileDownlink × List Out) : Prop :=
  ∃ accepted, Requested s result.1 accepted ∧
    (opCode - s.idBase ≠ opcodeCancel → result.1.mode = s.mode) ∧
    (Handled.command opCode cmdSeq accepted result.2).Proper

variable {opCode cmdSeq : UInt32}

theorem commands_refused {outs : List Out} {response : CmdResponse} (hsends : sends outs = [])
    (hresponses : responses outs = [.cmdResponse opCode cmdSeq response]) :
    Commands s opCode cmdSeq (s, outs) :=
  ⟨none, requested_self s, fun _ => rfl, hsends, response, hresponses⟩

theorem commands_queueCommandRequest (source dest : CmdStringArg) (offset length : UInt32) :
    Commands s opCode cmdSeq (s.queueCommandRequest opCode cmdSeq source dest offset length) := by
  unfold queueCommandRequest
  split
  · exact commands_refused rfl rfl
  split
  · exact commands_refused rfl rfl
  unfold enqueue
  split
  · next s' h =>
    split_ifs at h
    cases h
    exact ⟨_, requested_push s _, fun _ => rfl, rfl, rfl, rfl, rfl⟩
  · exact commands_refused rfl rfl

theorem commands_cancelCmdHandler (hopCode : opCode - s.idBase = opcodeCancel) (args : Bytes) :
    Commands s opCode cmdSeq (s.cancelCmdHandler opCode cmdSeq args) := by
  unfold cancelCmdHandler
  split
  · exact commands_refused rfl rfl
  split
  · next hmode =>
    refine ⟨none, ⟨(append_nil _).symm, fun h => ?_, fun _ _ _ h => h.cancel, rfl, rfl, rfl,
      rfl, rfl, rfl, rfl⟩, fun hne => absurd hopCode hne, rfl, .ok, rfl⟩
    rcases h.mode with hm | hm <;> simp [hm] at hmode
  · exact commands_refused rfl rfl

theorem commands_cmdIn (s : FileDownlink) (opCode cmdSeq : UInt32) (args : Bytes) :
    Commands s opCode cmdSeq (s.cmdIn opCode cmdSeq args) := by
  unfold cmdIn
  split
  · unfold sendFileCmdHandler
    split
    · exact commands_queueCommandRequest _ _ _ _
    · exact commands_refused rfl rfl
  split
  · next hopCode => exact commands_cancelCmdHandler hopCode args
  split
  · unfold sendPartialCmdHandler
    split
    · exact commands_queueCommandRequest _ _ _ _
    · exact commands_refused rfl rfl
  · exact commands_refused rfl rfl

theorem sendFilePortHandler_spec (s : FileDownlink) (context : UInt32) (request : PortRequest) :
    ∃ accepted, Requested s (s.sendFilePortHandler context request).1 accepted ∧
      (s.sendFilePortHandler context request).1.mode = s.mode ∧
      (Handled.port accepted (s.sendFilePortHandler context request).2.1
        (s.sendFilePortHandler context request).2.2).Proper := by
  unfold sendFilePortHandler
  split
  · exact ⟨none, requested_self s, rfl, rfl, rfl, rfl⟩
  split
  · exact ⟨none, requested_self s, rfl, rfl, rfl, rfl⟩
  unfold enqueue
  split
  · next s' h =>
    split_ifs at h
    cases h
    exact ⟨_, requested_push s _, rfl, rfl, rfl, rfl⟩
  · exact ⟨none, requested_self s, rfl, rfl, rfl, rfl⟩

end Requests

theorem Stage.follows {entry : FileEntry} {size stop : UInt32} {data : Bytes}
    {lastType : FilePacketType} {packets : List FilePacket} (hstop : stop.toNat = rangeEnd entry size)
    (h : Stage entry size stop data lastType packets) : Follows entry packets := by
  -- bytes that are not read yet may be any
  have hbegin : entry.offset.toNat + data.length < stop.toNat → maxDataSize ∣ data.length →
      ∃ more, entry.offset.toNat + (data ++ more).length = rangeEnd entry size ∧
        body entry size data <+: body entry size (data ++ more) := by
    intro hlt hfull
    refine ⟨replicate (stop.toNat - (entry.offset.toNat + data.length)) 0, ?_, ?_⟩
    · rw [length_append, length_replicate]
      omega
    · rw [body_append hfull]
      exact prefix_append _ _
  cases h with
  | more hlt hfull =>
    obtain ⟨more, hlen, hpre⟩ := hbegin hlt hfull
    exact .inr ⟨size, data ++ more, hlen, .inl (hpre.trans (prefix_append _ _))⟩
  | last hall => exact .inr ⟨size, data, hall.trans hstop, .inl (prefix_append _ _)⟩
  | ended hall => exact .inr ⟨size, data, hall.trans hstop, .inl (prefix_refl _)⟩
  | cancelled hlt hfull =>
    obtain ⟨more, hlen, hpre⟩ := hbegin hlt hfull
    exact .inr ⟨size, data ++ more, hlen, .inr ⟨_, _, hpre, rfl⟩⟩

theorem Sending.follows {s : FileDownlink} {entry : FileEntry} {data : Bytes}
    {packets : List FilePacket} (h : Sending s entry data packets) : Follows entry packets :=
  h.stage.follows h.range

/-- What the component is doing, and the transfer that goes with it. -/
inductive Phase (w : World) : Option Transfer → Prop
  | resting : w.taken = none → w.outstanding = [] → Resting w.comp → Phase w none
  | taken (entry : FileEntry) : w.taken = some entry → w.outstanding = [] → Resting w.comp →
      w.comp.curEntry = entry → Phase w (some ⟨entry, [], none⟩)
  | sending (entry : FileEntry) (data : Bytes) (packets : List FilePacket) (buffer : Buffer) :
      w.taken = none → w.outstanding = [buffer] → buffer.context + 1 = w.comp.lastBufferId →
      Sending w.comp entry data packets → Phase w (some ⟨entry, packets, none⟩)

structure Sound (w : World) (finished : List Transfer) (current : Option Transfer) : Prop where
  stock : Stocked w.comp
  proper : ∀ h ∈ w.handled, h.Proper
  log : w.log = (finished ++ current.toList).flatMap Transfer.records
  queue : (finished ++ current.toList).map Transfer.entry ++ w.comp.fileQueue = w.accepted
  answered : ∀ t ∈ finished, t.status.isSome ∧ Follows t.entry t.packets
  phase : Phase w current

section Steps

variable {w : World} {finished : List Transfer} {current : Option Transfer}

theorem Sound.oneByOne (h : Sound w finished current) : OneByOne w finished current := by
  have hcurrent : ∀ t ∈ current, (t.status = none ∧ (w.taken = some t.entry ∨ w.outstanding ≠ []))
      ∧ Follows t.entry t.packets := by
    rintro t ht
    cases h.phase with
    | resting => cases ht
    | taken entry htaken =>
      cases ht
      exact ⟨⟨rfl, .inl htaken⟩, .inl rfl⟩
    | sending entry data packets buffer htaken hout hbuffer hsending =>
      cases ht
      exact ⟨⟨rfl, .inr (by rw [hout]; exact cons_ne_nil _ _)⟩, hsending.follows⟩
  refine ⟨h.log, h.queue, fun t ht => (h.answered t ht).1, fun t ht => (hcurrent t ht).1,
    fun t ht => ?_⟩
  rcases mem_append.mp ht with hmem | hmem
  · exact (h.answered t hmem).2
  · exact (hcurrent t (Option.mem_toList.mp hmem)).2

theorem Sound.disciplined (h : Sound w finished current) : Disciplined w := by
  refine ⟨?_, h.proper, finished, current, h.oneByOne⟩
  cases h.phase with
  | resting _ hout | taken _ _ hout => rw [hout]; exact Nat.zero_le _
  | sending _ _ _ _ _ hout => rw [hout]; exact Nat.le_refl _

theorem recordOf_of_sends {outs : List Out} (h : responses outs = []) :
    recordOf outs = (sends outs).map fun buffer => .sent buffer.bytes := by
  induction outs with
  | nil => rfl
  | cons out outs ih =>
    cases out with
    | bufferSendOut buffer => exact congrArg (Record.sent buffer.bytes :: ·) (ih h)
    | cmdResponse | fileComplete => cases h
    | event => exact ih h

theorem recordOf_of_responses {outs : List Out} (h : sends outs = []) :
    recordOf outs = (responses outs).map .completed := by
  induction outs with
  | nil => rfl
  | cons out outs ih =>
    cases out with
    | bufferSendOut => cases h
    | cmdResponse | fileComplete => exact congrArg (Record.completed _ :: ·) (ih h)
    | event => exact ih h

theorem Sound.requested {comp : FileDownlink} {accepted : Option FileEntry}
    {handled : List Handled} {callers : List (UInt32 × PortRequest)}
    (h : Sound w finished current) (hreq : Requested w.comp comp accepted)
    (hproper : ∀ h ∈ handled, h.Proper)
    (haccepted : handled.filterMap Handled.accepted = accepted.toList) :
    Sound { w with comp := comp, callers := callers, handled := w.handled ++ handled } finished
      current := by
  refine ⟨fun x hx => h.stock x (hreq.stock ▸ hx), fun x hx => ?_, h.log, ?_, h.answered, ?_⟩
  · exact (mem_append.mp hx).elim (h.proper x) (hproper x)
  · dsimp only [World.accepted]
    rw [filterMap_append, ← World.accepted, ← h.queue, hreq.queue, ← append_assoc,
      haccepted]
  · cases h.phase with
    | resting htaken hout hrest => exact .resting htaken hout (hreq.resting hrest)
    | taken entry htaken hout hrest hcur =>
      exact .taken entry htaken hout (hreq.resting hrest) (hreq.request.trans hcur)
    | sending entry data packets buffer htaken hout hbuffer hsending =>
      exact .sending entry data packets buffer htaken hout (hreq.bufferId ▸ hbuffer)
        (hreq.sending _ _ _ hsending)

variable {entry : FileEntry} {packets : List FilePacket}

theorem Sound.advance {data : Bytes} {last : FilePacketType} {size : UInt32}
    {result : Result}
    (h : Sound w finished (some ⟨entry, packets, none⟩))
    (hadv : Advances w.comp entry data packets last size result) :
    ∃ comp outs packet, result = .ok (comp, outs) ∧
      Sound ({ w with taken := none, outstanding := [] }.emit comp outs) finished
        (some ⟨entry, packets ++ [packet], none⟩) ∧
      Sending comp entry data (packets ++ [packet]) ∧ comp.mode = .wait ∧
      comp.lastCompletedType = last ∧ comp.file.size = size ∧ comp.timing = w.comp.timing := by
  obtain ⟨comp, outs, packet, context, hresult, hsends, hresponses, hid, hsending, hmode, hlast,
    hsize, hstock, hqueue, htiming⟩ := hadv
  refine ⟨comp, outs, packet, hresult, ⟨hstock, h.proper, ?_, ?_, h.answered, ?_⟩, hsending, hmode,
    hlast, hsize, htiming⟩
  · dsimp only [World.emit]
    rw [h.log, recordOf_of_sends hresponses, hsends]
    simp [Transfer.records, flatMap_append]
  · refine Eq.trans ?_ h.queue
    dsimp only [World.emit]
    rw [hqueue, map_append, map_append]
    rfl
  · refine .sending entry data _ ⟨internalBufferSize, context, comPacket packet⟩ rfl ?_ hid hsending
    dsimp only [World.emit]
    rw [hsends]
    rfl

theorem Sound.conclude {result : Result}
    (hfollows : Follows entry packets) (h : Sound w finished (some ⟨entry, packets, none⟩))
    (hend : Concludes w.comp entry result) :
    ∃ comp outs status, result = .ok (comp, outs) ∧
      Sound ({ w with taken := none, outstanding := [] }.emit comp outs)
        (finished ++ [⟨entry, packets, some status⟩]) none ∧ Resting comp ∧
      comp.timing = w.comp.timing ∧ (comp.mode = .cooldown → comp.curTimer = 0) := by
  obtain ⟨comp, outs, status, hresult, hsends, hresponses, hrest, hstock, hqueue, hcooled⟩ := hend
  refine ⟨comp, outs, status, hresult, ⟨hstock, h.proper, ?_, ?_, ?_, ?_⟩, hrest, hcooled⟩
  · dsimp only [World.emit]
    rw [h.log, recordOf_of_responses hsends, hresponses]
    simp [Transfer.records, flatMap_append]
  · refine Eq.trans ?_ h.queue
    dsimp only [World.emit]
    rw [hqueue, Option.toList_none, append_nil, map_append, map_append]
    rfl
  · intro t ht
    rcases mem_append.mp ht with ht | ht
    · exact h.answered t ht
    · rw [mem_singleton.mp ht]
      exact ⟨rfl, hfollows⟩
  · refine .resting rfl ?_ hrest
    dsimp only [World.emit]
    rw [hsends]
    rfl

/-- The timer and the mode after a tick that takes no request out of the queue. -/
inductive Ticked (s : FileDownlink) : UInt32 → Mode → Prop
  | cooled : s.mode = .cooldown → s.cooldown ≤ s.curTimer → Ticked s 0 .idle
  | cooling : s.mode = .cooldown → ¬s.cooldown ≤ s.curTimer →
      Ticked s (s.curTimer + s.cycleTime) s.mode
  | counted (timer : UInt32) : s.mode ≠ .cooldown → (s.mode = .idle → s.fileQueue = []) →
      Ticked s timer s.mode

theorem Ticked.mode {s : FileDownlink} {timer : UInt32} {mode : Mode} (h : Ticked s timer mode) :
    mode = s.mode ∨ s.mode = .cooldown ∧ mode = .idle := by
  cases h with
  | cooled hmode => exact .inr ⟨hmode, rfl⟩
  | cooling | counted => exact .inl rfl

theorem runHandler_cases (s : FileDownlink) :
    (∃ timer mode, s.runHandler = ({ s with curTimer := timer, mode := mode }, none) ∧
      Ticked s timer mode) ∨
    ∃ entry rest, s.mode = .idle ∧ s.fileQueue = entry :: rest ∧
      s.runHandler = ({ s with fileQueue := rest, curEntry := entry }, some entry) := by
  unfold runHandler
  split
  · next hmode =>
    split
    · next hqueue =>
      exact .inl ⟨s.curTimer, s.mode, rfl, .counted _ (by simp [hmode]) fun _ => hqueue⟩
    · next entry rest hqueue => exact .inr ⟨entry, rest, hmode, hqueue, rfl⟩
  · next hmode =>
    split
    · next hover => exact .inl ⟨0, .idle, rfl, .cooled hmode hover⟩
    · next hover => exact .inl ⟨_, s.mode, rfl, .cooling hmode hover⟩
  all_goals
    next hmode => exact .inl ⟨_, s.mode, rfl, .counted _ (by simp [hmode]) (by simp [hmode])⟩

theorem step_run (htaken : w.taken = none) :
    (∃ timer mode, w.step .run = .ok { w with comp := { w.comp with curTimer := timer, mode := mode } } ∧
      Ticked w.comp timer mode) ∨
    ∃ entry rest, w.comp.mode = .idle ∧ w.comp.fileQueue = entry :: rest ∧
      w.step .run = .ok { w with
        comp := { w.comp with fileQueue := rest, curEntry := entry }
        taken := some entry
        log := w.log ++ [.begun entry] } := by
  have hstep : w.step .run = .ok { w with
      comp := w.comp.runHandler.1
      taken := w.comp.runHandler.2
      log := w.log ++ w.comp.runHandler.2.toList.map .begun } := if_neg (by simp [htaken])
  rw [hstep]
  rcases runHandler_cases w.comp with ⟨timer, mode, hrun, htick⟩ | ⟨entry, rest, hidle, hqueue, hrun⟩
  · refine .inl ⟨timer, mode, ?_, htick⟩
    rw [hrun, Option.toList_none, map_nil, append_nil, ← htaken]
  · refine .inr ⟨entry, rest, hidle, hqueue, ?_⟩
    rw [hrun]
    rfl

theorem Sending.tick {s : FileDownlink} {data : Bytes} (h : Sending s entry data packets)
    {timer : UInt32} {mode : Mode} (htick : Ticked s timer mode) :
    mode = s.mode ∧ Sending { s with curTimer := timer, mode := mode } entry data packets := by
  have hsame : mode = s.mode := by
    refine htick.mode.resolve_right fun hcool => ?_
    rcases h.mode with hm | hm <;> simp [hm] at hcool
  exact ⟨hsame, hsame ▸ h.mode, h.request, h.isOpen, h.range, h.offset, h.index, h.checksum,
    h.context, h.stage⟩

theorem Sound.tick (h : Sound w finished current) (htaken : w.taken = none) {timer : UInt32}
    {mode : Mode} (htick : Ticked w.comp timer mode) :
    Sound { w with comp := { w.comp with curTimer := timer, mode := mode } } finished current := by
  refine ⟨h.stock, h.proper, h.log, h.queue, h.answered, ?_⟩
  cases h.phase with
  | taken entry htaken' => exact absurd (htaken.symm.trans htaken') (by simp)
  | resting _ hout hrest =>
    refine .resting htaken hout ⟨?_, hrest.closed⟩
    rcases htick.mode with rfl | ⟨-, rfl⟩
    · exact hrest.mode
    · exact .inl rfl
  | sending entry data packets buffer _ hout hbuffer hsending =>
    exact .sending entry data packets buffer htaken hout hbuffer (hsending.tick htick).2

theorem Sound.take (h : Sound w finished current) (htaken : w.taken = none) {rest : List FileEntry}
    (hidle : w.comp.mode = .idle) (hqueue : w.comp.fileQueue = entry :: rest) :
    Sound { w with
      comp := { w.comp with fileQueue := rest, curEntry := entry }
      taken := some entry
      log := w.log ++ [.begun entry] } finished (some ⟨entry, [], none⟩) := by
  cases hphase : h.phase with
  | taken entry htaken' => exact absurd (htaken.symm.trans htaken') (by simp)
  | sending _ _ _ _ _ _ _ hsending =>
    rcases hsending.mode with hm | hm <;> simp [hm] at hidle
  | resting _ hout hrest =>
    refine ⟨h.stock, h.proper, ?_, ?_, h.answered, ?_⟩
    · dsimp only
      rw [h.log]
      simp [Transfer.records, flatMap_append]
    · refine Eq.trans ?_ h.queue
      rw [hqueue]
      simp
    · exact .taken entry rfl hout ⟨.inl hidle, hrest.closed⟩ rfl

/-- The steps that the work on the requests waits for. -/
def World.Awaits (w : World) : Input → Prop
  | .run => w.taken = none ∧ w.outstanding = []
  | .sendFile _ => w.taken.isSome
  | .bufferReturn _ i => w.taken = none ∧ w.outstanding[i]?.isSome
  | _ => False

/-- All that a step can do, in a world with the transfer under way. -/
inductive Effect (w : World) (current : Option Transfer) : Input → Except Assertion World → Prop
  | nothing (input : Input) : ¬w.Awaits input → Effect w current input (.ok w)
  | tick (timer : UInt32) (mode : Mode) : w.taken = none → Ticked w.comp timer mode →
      Effect w current .run (.ok { w with comp := { w.comp with curTimer := timer, mode := mode } })
  | take (entry : FileEntry) (rest : List FileEntry) : w.taken = none → w.comp.mode = .idle →
      w.comp.fileQueue = entry :: rest →
      Effect w current .run (.ok { w with
        comp := { w.comp with fileQueue := rest, curEntry := entry }
        taken := some entry
        log := w.log ++ [.begun entry] })
  | sendFile (disk : Disk) (entry : FileEntry) : w.taken = some entry → Resting w.comp →
      w.comp.curEntry = entry → current = some ⟨entry, [], none⟩ →
      Effect w current (.sendFile disk) ((w.comp.sendFile disk entry.srcFilename entry.destFilename
        entry.offset entry.length).map fun r =>
          { w with taken := none, outstanding := [] }.emit r.1 r.2)
  | bufferReturn (disk : Disk) (i : Nat) (entry : FileEntry) (data : Bytes)
      (packets : List FilePacket) (buffer : Buffer) : w.taken = none →
      buffer.context + 1 = w.comp.lastBufferId → Sending w.comp entry data packets →
      current = some ⟨entry, packets, none⟩ →
      Effect w current (.bufferReturn disk i) ((w.comp.bufferReturnHandler disk buffer).map
        fun r => { w with taken := none, outstanding := [] }.emit r.1 r.2)
  | requested (input : Input) (comp : FileDownlink) (accepted : Option FileEntry)
      (handled : List Handled) (callers : List (UInt32 × PortRequest)) : ¬w.Awaits input →
      Requested w.comp comp accepted →
      (∃ opCode cmdSeq args, input = .cmdIn opCode cmdSeq args ∧
        opCode - w.comp.idBase = opcodeCancel) ∨ comp.mode = w.comp.mode →
      (∀ h ∈ handled, h.Proper) → handled.filterMap Handled.accepted = accepted.toList →
      Effect w current input
        (.ok { w with comp := comp, callers := callers, handled := w.handled ++ handled })

theorem filterMap_accepted (handled : Handled) :
    [handled].filterMap Handled.accepted = handled.accepted.toList := by
  rw [filterMap_cons, filterMap_nil]
  cases handled.accepted <;> rfl

theorem Sound.effect (h : Sound w finished current) (input : Input) :
    Effect w current input (w.step input) := by
  cases input with
  | run =>
    by_cases htaken : w.taken = none
    · rcases step_run htaken with ⟨timer, mode, hstep, htick⟩ | ⟨entry, rest, hidle, hqueue, hstep⟩
      · exact hstep ▸ .tick timer mode htaken htick
      · exact hstep ▸ .take entry rest htaken hidle hqueue
    · rw [World.step, if_pos (Option.isSome_iff_ne_none.mpr htaken)]
      exact .nothing _ fun h => htaken h.1
  | sendFile disk =>
    rw [World.step]
    cases h.phase with
    | resting htaken | sending _ _ _ _ htaken =>
      rw [htaken]; exact .nothing _ (by simp [World.Awaits, htaken])
    | taken entry htaken hout hrest hcur =>
      rw [htaken]
      have heffect := Effect.sendFile disk entry htaken hrest hcur rfl
      rw [← hout] at heffect
      exact heffect
  | bufferReturn disk i =>
    rw [World.step]
    cases h.phase with
    | resting htaken hout => rw [htaken, hout]; exact .nothing _ (by simp [World.Awaits, hout])
    | taken _ htaken => rw [htaken]; exact .nothing _ (by simp [World.Awaits, htaken])
    | sending entry data packets buffer htaken hout hbuffer hsending =>
      rw [if_neg (by simp [htaken]), hout]
      cases i with
      | succ i => exact .nothing _ (by simp [World.Awaits, hout])
      | zero =>
        have heffect := Effect.bufferReturn disk 0 entry data packets buffer htaken hbuffer hsending
          rfl
        rw [← htaken] at heffect
        exact heffect
  | cmdIn opCode cmdSeq args =>
    rw [World.step]
    split
    · exact .nothing _ id
    · obtain ⟨accepted, hreq, hmode, hproper⟩ := commands_cmdIn w.comp opCode cmdSeq args
      obtain rfl := hreq.acceptedBy_eq
      refine .requested _ _ _ [_] w.callers id hreq ?_ (fun h hh => mem_singleton.mp hh ▸ hproper)
        (filterMap_accepted _)
      by_cases hcancel : opCode - w.comp.idBase = opcodeCancel
      · exact .inl ⟨opCode, cmdSeq, args, rfl, hcancel⟩
      · exact .inr (hmode hcancel)
  | portCall request =>
    have hreq : Requested w.comp w.comp.drawContext.2 none :=
      ⟨(append_nil _).symm, fun _ => rfl, fun _ _ _ h => ⟨h.mode, h.request, h.isOpen, h.range,
        h.offset, h.index, h.checksum, h.context, h.stage⟩, rfl, rfl, rfl, rfl, rfl, rfl, rfl⟩
    have heffect := @Effect.requested w current (.portCall request) _ none []
      (w.callers ++ [(w.comp.cntxId, request)]) id hreq (.inr rfl)
      (fun _ h => absurd h not_mem_nil) rfl
    rw [append_nil] at heffect
    exact heffect
  | portEnqueue i =>
    rw [World.step]
    split
    · exact .nothing _ id
    · next context request _ =>
      obtain ⟨accepted, hreq, hmode, hproper⟩ := sendFilePortHandler_spec w.comp context request
      obtain rfl := hreq.acceptedBy_eq
      exact .requested _ _ _ [_] _ id hreq (.inr hmode)
        (fun h hh => mem_singleton.mp hh ▸ hproper) (filterMap_accepted _)

end Steps

theorem sound_start (idBase cooldown cycleTime : UInt32) (depth : Nat) :
    Sound (.start (new idBase cooldown cycleTime depth)) [] none := by
  refine ⟨?_, fun _ h => absurd h (not_mem_nil), rfl, rfl,
    fun _ h => absurd h (not_mem_nil), .resting rfl rfl ⟨.inl rfl, rfl⟩⟩
  intro storage hstorage
  exact eq_of_mem_replicate hstorage

end Fprime.Svc.FileDownlink
