import Fprime.Svc.ComQueue.Protocol

/-!
# The order in which the com queue sends

Along runs that keep to the protocol the queues stay sorted by priority, one message is out at most,
a good status sends from a queue of best priority, and queues of one priority take turns.
-/

namespace Fprime.Svc.ComQueue

open Fprime.Comp Fw Utils Lib List Function Option QueueMetadata RoundRobin

def Input.isReturn : Input → Bool
  | .dataReturnIn .. => true
  | _ => false

def Input.prioritySet (idBase : UInt32) : Input → Option (Fin totalPorts × Int16)
  | .cmdIn opCode _ args => ComQueue.prioritySet idBase opCode args
  | _ => none

def BufferState.outstanding : BufferState → Nat
  | .owned => 0
  | .unowned => 1

def updatePriority (current : Fin totalPorts → Int16) :
    Option (Fin totalPorts × Int16) → Fin totalPorts → Int16
  | none => current
  | some (i, p) => update current i p

/-- The configured priorities, and those that commands have set since. -/
def currentPriority (config : QueueConfigurationTable) (idBase : UInt32) (inputs : List Input) :
    Fin totalPorts → Int16 :=
  inputs.foldl (fun current input => updatePriority current (input.prioritySet idBase))
    fun i => (config i).priority

def State.priority (s : State) (i : Fin totalPorts) : Option Int16 :=
  (s.prioritized.find? fun e => e.index = i).map QueueMetadata.priority

def sentFrom (i : Fin totalPorts) (s : State) : Nat :=
  (sentOf s.out).countP fun x => x.2.comQueueIndex = (i.val : Int)

def takenFrom : QueueMode → List Record → Record → List Record → Prop
  | .fifo, before, record, after => before = record :: after
  | .lifo, before, record, after => before = after ++ [record]

def Carries (s : State) : Record → Buffer → Prop
  | .com bytes, b => b = ⟨none, bytes⟩
  | .buffer token, b => s.escrow.lookup token = some b

/-- One message leaves queue `i`, from the end that its mode says, and goes out. -/
structure Releases (config : QueueConfigurationTable) (s s' : State) (i : Fin totalPorts) :
    Prop where
  message : ∃ record b apid, Carries s record b ∧
    takenFrom (config i).mode (s.queues i).messages record (s'.queues i).messages ∧
    s'.out = s.out ++ [.dataOut b (queueContext apid i)]
  others : ∀ j, j ≠ i → s'.queues j = s.queues j
  best : ∀ e ∈ s.prioritized, e.index = i → ∀ e' ∈ s.prioritized,
    (s.queues e'.index).messages ≠ [] → e.priority.toInt ≤ e'.priority.toInt

/-- A step in which a queue that has messages is not served, while no priority changes. -/
structure Passes (idBase : UInt32) (x : Fin totalPorts) (s s' : State) : Prop where
  step : ∃ input : Input, input.Fair s ∧ s.input idBase input = .ok s'
  stays : (s.queues x).messages ≠ [] ∧ (s'.queues x).messages ≠ []
  same : ∀ i, s'.priority i = s.priority i
  unserved : sentFrom x s' = sentFrom x s

variable {config : QueueConfigurationTable} {s s' : State} {idBase : UInt32} {input : Input}

theorem Served.balance (h : Served s s') :
    (sentOf s'.out).length + s.bufferState.outstanding =
      (sentOf s.out).length + s'.bufferState.outstanding := by
  rcases h with h | ⟨-, ⟨x, hsent⟩, hbefore, hafter, -, -⟩
  · rw [h.sent, h.buffer]
  · rw [hsent, hbefore, hafter, length_append]
    rfl

theorem Served.perm (h : Served s s') : s'.prioritized.Perm s.prioritized := by
  rcases h with h | ⟨-, h⟩
  · exact .of_eq h.list
  · exact h.perm

theorem Effect.balance (h : Effect idBase s s' input) :
    (sentOf s'.out).length + s.bufferState.outstanding =
      (sentOf s.out).length + s'.bufferState.outstanding + [input].countP Input.isReturn := by
  cases input with
  | comStatusIn condition =>
    cases condition with
    | failure => exact Served.balance (.inl h)
    | success => exact @Served.balance { s with sendState := .ready } s' h
  | comPacketQueueIn port data | bufferQueueIn port b => exact Served.balance h
  | run => exact Served.balance (.inl h)
  | cmdIn opCode cmdSeq args =>
    have hsent := h.sent
    have hbuffer := h.buffer
    rw [hsent, hbuffer]
    rfl
  | dataReturnIn b context =>
    obtain ⟨hunowned, hquiet⟩ := h
    rw [hquiet.sent, hquiet.buffer, hunowned]
    rfl

theorem Effect.perm (h : Effect idBase s s' input) :
    s'.prioritized.Perm (resort s.prioritized (input.prioritySet idBase)) := by
  cases input with
  | comStatusIn condition =>
    cases condition with
    | failure => exact .of_eq h.list
    | success => exact @Served.perm { s with sendState := .ready } s' h
  | comPacketQueueIn port data | bufferQueueIn port b => exact Served.perm h
  | run | cmdIn opCode cmdSeq args => exact .of_eq h.list
  | dataReturnIn b context => exact .of_eq h.2.list

variable {i : Fin totalPorts} {p : Int16} {l : List QueueMetadata}

theorem priority_of_mem_setPriority {current : Fin totalPorts → Int16}
    (hnodup : (l.map index).Nodup) (hl : ∀ e ∈ l, e.priority = current e.index) :
    ∀ e ∈ State.setPriority i p l, e.priority = update current i p e.index := by
  induction l with
  | nil => simp [State.setPriority]
  | cons a l ih =>
    obtain ⟨hnotin, hnodup⟩ := nodup_cons.mp hnodup
    obtain ⟨ha, hl⟩ := forall_mem_cons.mp hl
    unfold State.setPriority
    split
    · rename_i hi
      refine forall_mem_cons.mpr ⟨by simp [hi], fun e he => ?_⟩
      have hne : e.index ≠ i := by
        rw [← hi]
        exact fun heq => hnotin (heq ▸ mem_map_of_mem he)
      rw [hl e he, update_of_ne hne]
    · rename_i hi
      exact forall_mem_cons.mpr ⟨by rw [ha, update_of_ne hi], ih hnodup hl⟩

theorem priority_of_mem_resort {current : Fin totalPorts → Int16}
    (hnodup : (l.map index).Nodup) (hl : ∀ e ∈ l, e.priority = current e.index)
    (change : Option (Fin totalPorts × Int16)) :
    ∀ e ∈ resort l change, e.priority = updatePriority current change e.index := by
  cases change with
  | none => exact hl
  | some change =>
    intro e he
    exact priority_of_mem_setPriority hnodup hl e ((bubbleSort_perm _).mem_iff.mp he)

theorem Wf.priority_eq_some (h : Wf config s) :
    s.priority i = some p ↔ ∃ e ∈ s.prioritized, e.index = i ∧ e.priority = p := by
  unfold State.priority
  constructor
  · intro hp
    obtain ⟨e, hfind, hp⟩ := map_eq_some_iff.mp hp
    exact ⟨e, mem_of_find?_eq_some hfind, by simpa using find?_some hfind, hp⟩
  · rintro ⟨e, he, hi, hp⟩
    cases hfind : s.prioritized.find? (fun e => e.index = i) with
    | none => exact absurd (by simpa using hi) (find?_eq_none.mp hfind e he)
    | some e' =>
      have hi' : e'.index = i := by simpa using find?_some hfind
      have heq : e' = e := inj_on_of_nodup_map h.nodup (mem_of_find?_eq_some hfind) he
        (hi'.trans hi.symm)
      rw [heq, map_some, hp]

structure Reached (config : QueueConfigurationTable) (idBase : UInt32) (past : List Input)
    (s : State) : Prop extends Sched config s where
  balance : (sentOf s.out).length = past.countP Input.isReturn + s.bufferState.outstanding
  current : ∀ e ∈ s.prioritized, e.priority = currentPriority config idBase past e.index

theorem configure_priority (h : configure config = .ok s) :
    ∀ e ∈ s.prioritized, e.priority = (config e.index).priority := by
  unfold configure at h
  split at h
  · split at h
    · cases h
      intro e he
      obtain ⟨current, -, he⟩ := mem_flatMap.mp he
      obtain ⟨i, -, rfl⟩ := mem_map.mp he
      rfl
    · cases h
  · cases h

theorem reached_configure (h : configure config = .ok s) : Reached config idBase [] s := by
  obtain ⟨hsound, -, hwaiting, howned, hout⟩ := @configure_sound config 2 s h
  refine ⟨⟨⟨_, hsound⟩, fun hready => ?_⟩, by rw [hout, howned]; rfl, fun e he => ?_⟩
  · rw [hwaiting] at hready
    cases hready
  · exact configure_priority h e he

theorem Reached.step {past : List Input} (h : Reached config idBase past s)
    (hfair : input.Fair s) :
    ∃ s', s.input idBase input = .ok s' ∧ Reached config idBase (past ++ [input]) s' := by
  obtain ⟨s', hs, hsched⟩ := h.toSched.input hfair
  have heffect := input_effect hs
  obtain ⟨held, hsound⟩ := h.sound
  refine ⟨s', hs, hsched, ?_, fun e he => ?_⟩
  · have hbalance := heffect.balance
    have hpast := h.balance
    rw [countP_append]
    omega
  · have hmem := heffect.perm.mem_iff.mp he
    rw [priority_of_mem_resort hsound.nodup h.current _ e hmem]
    simp [currentPriority]

theorem Sched.releases (h : Sched config s) (hwaiting : s.sendState = .waiting)
    (howned : s.bufferState = .owned) (hne : ∃ j, (s.queues j).messages ≠ []) :
    ∃ s' i, s.comStatusIn .success = .ok s' ∧ Releases config s s' i := by
  obtain ⟨held, hsound⟩ := h.sound
  obtain ⟨j, hj⟩ := hne
  have hready : Sound config 2 [] held { s with sendState := .ready } := hsound.of_eq rfl rfl rfl
  obtain ⟨s', hprocess⟩ := processQueue_total hready rfl howned
  have hstatus := (comStatusIn_success hwaiting).trans hprocess
  obtain ⟨-, ⟨hnone, rfl⟩ | ⟨entry, l, record, queue, s1, hserve, hdequeue, hsend, rfl⟩⟩ :=
    processQueue_eq_ok hprocess
  · -- the queue that has messages would have been served
    obtain ⟨e, he, rfl⟩ := hsound.exists_entry j
    have := serve_eq_none_iff.mp hnone e he
    simp [Queue.getQueueSize, hj] at this
  · refine ⟨_, entry.index, hstatus, ?_, ?_, ?_⟩
    · obtain ⟨-, b, apid, escrow, htaken, rfl⟩ := sendRecord_eq_ok hsend
      refine ⟨record, b, apid, ?_, ?_, rfl⟩
      · cases record with
        | com bytes => exact htaken.1
        | buffer token => exact (BufferEscrow.claim_eq_some htaken.1).1
      · have htook := (Queue.dequeue_eq_some hdequeue).1
        simp only [(hsound.queue entry.index).2.1] at htook
        simp only [State.emit, State.setQueue_self]
        cases hmode : (config entry.index).mode with
        | fifo | lifo =>
          rw [hmode] at htook
          exact htook
    · intro j hj
      obtain ⟨-, b, apid, escrow, -, rfl⟩ := sendRecord_eq_ok hsend
      exact State.setQueue_of_ne _ hj queue
    · intro e he hi e' he' hne'
      have hle : entry.rank ≤ e'.rank := serve_le hserve hsound.sorted he'
        (by simpa [Queue.getQueueSize] using hne')
      rw [inj_on_of_nodup_map hsound.nodup he (mem_of_serve hserve) hi]
      exact hle

theorem setPriority_eq_self (h : ∀ e ∈ l, e.index = i → e.priority = p) :
    State.setPriority i p l = l := by
  induction l with
  | nil => rfl
  | cons a l ih =>
    unfold State.setPriority
    split
    · rename_i hi
      rw [← h a mem_cons_self hi]
    · rw [ih fun e he => h e (mem_cons_of_mem a he)]

theorem resort_eq_self (h : Wf config s) (h' : Wf config s')
    {change : Option (Fin totalPorts × Int16)} (hlist : s'.prioritized = resort s.prioritized change)
    (hsame : ∀ i, s'.priority i = s.priority i) : s'.prioritized = s.prioritized := by
  cases change with
  | none => exact hlist
  | some change =>
    obtain ⟨i, p⟩ := change
    have hp : ∀ e ∈ s.prioritized, e.index = i → e.priority = p := by
      intro e he hi
      have hprio := hsame i
      rw [h.priority_eq_some.mpr ⟨e, he, hi, rfl⟩] at hprio
      obtain ⟨e', he', hi', hp'⟩ := h'.priority_eq_some.mp hprio
      rw [hlist] at he'
      have hset : ∀ e ∈ State.setPriority i p s.prioritized,
          e.priority = update (fun j => (s.priority j).getD 0) i p e.index :=
        priority_of_mem_setPriority h.nodup fun e he => by
          rw [h.priority_eq_some.mpr ⟨e, he, rfl, rfl⟩]
          rfl
      rw [← hp', hset e' ((bubbleSort_perm _).mem_iff.mp he'), hi',
        update_self]
    rw [hlist, resort, setPriority_eq_self hp, bubbleSort_eq_self h.sorted]

theorem Passes.cases {x : Fin totalPorts} (h : Sched config s) (hp : Passes idBase x s s') :
    (sentOf s'.out = sentOf s.out ∧ s'.prioritized = s.prioritized) ∨
    ∃ entry b apid,
      serve rank (fun e => (s.queues e.index).getQueueSize ≠ 0)
        s.prioritized = some (entry, s'.prioritized) ∧
      sentOf s'.out = sentOf s.out ++ [(b, queueContext apid entry.index)] := by
  obtain ⟨input, hfair, hs⟩ := hp.step
  obtain ⟨s1, hs1, hsched⟩ := @Sched.input _ _ idBase h input hfair
  obtain rfl : s1 = s' := Except.ok.inj (hs1.symm.trans hs)
  have heffect := input_effect hs
  obtain ⟨held, hsound⟩ := h.sound
  obtain ⟨held', hsound'⟩ := hsched.sound
  have hwaiting : s.sendState ≠ .ready := fun hready => hp.stays.1 ((h.idle hready).2 x)
  have hquiet : Served s s1 → sentOf s1.out = sentOf s.out ∧ s1.prioritized = s.prioritized := by
    rintro (hq | ⟨hready, -⟩)
    · exact ⟨hq.sent, hq.list⟩
    · exact absurd hready hwaiting
  cases input with
  | comStatusIn condition =>
    cases condition with
    | failure => exact .inl (hquiet (.inl heffect))
    | success =>
      replace hs := (comStatusIn_success hfair.1).symm.trans hs
      obtain ⟨-, ⟨-, rfl⟩ | ⟨entry, l, record, queue, s2, hserve, -, hsend, rfl⟩⟩ :=
        processQueue_eq_ok hs
      · exact .inl ⟨rfl, rfl⟩
      · obtain ⟨-, b, apid, escrow, -, rfl⟩ := sendRecord_eq_ok hsend
        refine .inr ⟨entry, b, apid, hserve, ?_⟩
        simp only [State.emit, State.setQueue, sentOf, filterMap_append]
        rfl
  | comPacketQueueIn port data | bufferQueueIn port b => exact .inl (hquiet heffect)
  | run => exact .inl (hquiet (.inl heffect))
  | cmdIn opCode cmdSeq args =>
    have hsent := heffect.sent
    have hlist := heffect.list
    exact .inl ⟨hsent, resort_eq_self hsound.toWf hsound'.toWf hlist hp.same⟩
  | dataReturnIn b context =>
    have hsent := heffect.2.sent
    have hlist := heffect.2.list
    exact .inl ⟨hsent, hlist⟩

theorem sentFrom_of_sent {j : Fin totalPorts} {b : Buffer} {apid : Apid}
    (h : sentOf s'.out = sentOf s.out ++ [(b, queueContext apid i)]) :
    sentFrom j s' = sentFrom j s + if i = j then 1 else 0 := by
  unfold sentFrom
  rw [h, countP_append]
  by_cases hij : i = j
  · simp [hij, queueContext]
  · have hne : ¬ (i.val : Int) = j.val := fun heq => hij (Fin.ext (Int.ofNat.inj heq))
    simp [hij, hne, queueContext]

/-- The second queue has been served once at most since the first has waited, and then stands behind
it. -/
structure Turns (config : QueueConfigurationTable) (ex ey : QueueMetadata) (sent : Nat)
    (s : State) : Prop extends Sched config s where
  mem : ex ∈ s.prioritized ∧ ey ∈ s.prioritized
  served : sentFrom ey.index s = sent ∨
    sentFrom ey.index s = sent + 1 ∧ RoundRobin.Before s.prioritized ex ey

theorem Turns.pass {ex ey : QueueMetadata} {sent : Nat} (h : Turns config ex ey sent s)
    (hne : ex ≠ ey) (hrank : ex.rank = ey.rank) (hp : Passes idBase ex.index s s') :
    Turns config ex ey sent s' := by
  obtain ⟨held, hsound⟩ := h.sound
  have hsched : Sched config s' := by
    obtain ⟨input, hfair, hs⟩ := hp.step
    obtain ⟨s1, hs1, hsched⟩ := @Sched.input _ _ idBase h.toSched input hfair
    obtain rfl : s1 = s' := Except.ok.inj (hs1.symm.trans hs)
    exact hsched
  rcases hp.cases h.toSched with ⟨hsent, hlist⟩ | ⟨entry, b, apid, hserve, hsent⟩
  · refine ⟨hsched, hlist ▸ h.mem, ?_⟩
    rw [sentFrom, hsent, hlist]
    exact h.served
  · have hperm := serve_perm hserve
    have hnodup : s.prioritized.Nodup := hsound.nodup.of_map _
    have hinj := inj_on_of_nodup_map hsound.nodup
    have hentry := mem_of_serve hserve
    have hready : ((s.queues ex.index).getQueueSize ≠ 0 : Bool) := by
      simpa [Queue.getQueueSize] using hp.stays.1
    have hx : ex ≠ entry := by
      rintro rfl
      have hunserved := hp.unserved
      rw [sentFrom_of_sent hsent, if_pos rfl] at hunserved
      omega
    refine ⟨hsched, ⟨hperm.mem_iff.mpr h.mem.1, hperm.mem_iff.mpr h.mem.2⟩, ?_⟩
    rw [sentFrom_of_sent hsent]
    by_cases hy : entry = ey
    · subst hy
      rw [if_pos rfl]
      right
      refine ⟨?_, serve_behind hserve hsound.sorted h.mem.1 hrank hne⟩
      rcases h.served with hbase | ⟨-, hbefore⟩
      · rw [hbase]
      · -- the first queue stands in front and has messages
        have hfirst := serve_before hserve h.mem.1 hready hx
        exact absurd hfirst (not_before_of_before hnodup hbefore)
    · rw [if_neg fun hi => hy (hinj hentry h.mem.2 hi), Nat.add_zero]
      rcases h.served with hbase | ⟨hone, hbefore⟩
      · exact .inl hbase
      · exact .inr ⟨hone, serve_keeps hserve hx (Ne.symm hy) hbefore⟩

/-- In every run that keeps to the protocol no assertion fails, the list is in the order of the
priorities last set, one message is out at most, a good status sends one of best priority, and a
waiting queue sees every other of its priority served once. -/
theorem scheduling (config : QueueConfigurationTable) (idBase : UInt32) (inputs : List Input)
    (s₀ : State) (hconfig : configure config = .ok s₀)
    (hfair : Runs.AlongM (State.input idBase) (fun s input => input.Fair s) s₀ inputs) :
    ∃ s, inputs.foldlM (State.input idBase) s₀ = .ok s ∧
      (s.prioritized.map index).Perm (finRange totalPorts) ∧
      s.prioritized.Pairwise (fun e e' => e.priority.toInt ≤ e'.priority.toInt) ∧
      (∀ i, s.priority i = some (currentPriority config idBase inputs i)) ∧
      (sentOf s.out).length = inputs.countP Input.isReturn + s.bufferState.outstanding ∧
      (s.sendState = .waiting → s.bufferState = .owned → (∃ j, (s.queues j).messages ≠ []) →
        ∃ s' i, s.comStatusIn .success = .ok s' ∧ Releases config s s' i) ∧
      (∀ x y s', Relation.ReflTransGen (Passes idBase x) s s' → y ≠ x →
        s.priority y = s.priority x → sentFrom y s' ≤ sentFrom y s + 1) := by
  obtain ⟨s, hrun, hreached⟩ := Runs.total_runM (I := Reached config idBase)
    (fun _ _ _ hI hC => hI.step hC) (reached_configure hconfig) hfair
  rw [nil_append] at hreached
  obtain ⟨held, hsound⟩ := hreached.sound
  refine ⟨s, hrun, hsound.order, hsound.sorted, fun i => ?_, hreached.balance,
    hreached.toSched.releases, fun x y s' hpasses hyx hprio => ?_⟩
  · obtain ⟨e, he, rfl⟩ := hsound.exists_entry i
    exact hsound.priority_eq_some.mpr ⟨e, he, rfl, hreached.current e he⟩
  · obtain ⟨ex, hex, rfl⟩ := hsound.exists_entry x
    obtain ⟨ey, hey, rfl⟩ := hsound.exists_entry y
    have hrank : ex.rank = ey.rank := by
      rw [hsound.priority_eq_some.mpr ⟨ex, hex, rfl, rfl⟩] at hprio
      obtain ⟨e, he, hi, hp⟩ := hsound.priority_eq_some.mp hprio
      rw [inj_on_of_nodup_map hsound.nodup he hey hi] at hp
      exact congrArg Int16.toInt hp.symm
    have hne : ex ≠ ey := by
      rintro rfl
      exact hyx rfl
    have hturns := Runs.kept_by_steps (fun _ _ hp ht => Turns.pass ht hne hrank hp) hpasses
      (⟨hreached.toSched, ⟨hex, hey⟩, .inl rfl⟩ :
        Turns config ex ey (sentFrom ey.index s) s)
    rcases hturns.served with hbase | ⟨hone, -⟩ <;> omega

def evenTable : QueueConfigurationTable := fun _ => ⟨2, 0, .fifo, .dropNewest⟩

def twoPackets : List Input :=
  let packet : ComBuffer := ⟨[0, 1], by decide⟩
  [.comPacketQueueIn 0 packet, .comPacketQueueIn 0 packet, .comPacketQueueIn 1 packet,
    .comPacketQueueIn 1 packet, .comStatusIn .success, .dataReturnIn ⟨none, [0, 1]⟩ (queueContext .fwPacketTelem 0)]

theorem scheduling_two_packets :
    ∃ s₀ s s' i, configure evenTable = .ok s₀ ∧
      twoPackets.foldlM (State.input 0) s₀ = .ok s ∧ s.comStatusIn .success = .ok s' ∧
      Releases evenTable s s' i := by
  obtain ⟨s₀, hconfig, hfair, hstate⟩ : ∃ s₀, configure evenTable = .ok s₀ ∧
      Runs.AlongM (State.input 0) (fun s input => input.Fair s) s₀ twoPackets ∧
      (twoPackets.foldlM (State.input 0) s₀).toOption.map (fun s =>
        (s.sendState, s.bufferState, (s.queues 0).messages)) =
        some (.waiting, .owned, [.com [0, 1]]) :=
    ⟨_, rfl, by decide +kernel, by decide +kernel⟩
  obtain ⟨s, hrun, -, -, -, -, hreleases, -⟩ := scheduling evenTable 0 twoPackets s₀ hconfig hfair
  rw [hrun] at hstate
  simp only [Except.toOption, map_some, some.injEq, Prod.mk.injEq] at hstate
  obtain ⟨hwaiting, howned, hmsgs⟩ := hstate
  obtain ⟨s', i, hstatus, hrel⟩ := hreleases hwaiting howned ⟨0, by simp [hmsgs]⟩
  exact ⟨s₀, s, s', i, hconfig, hrun, hstatus, hrel⟩

/-- A packet too short for a descriptor stops the deployment, and so does a good status while what
was sent is not back. -/
theorem unsent_messages :
    (∃ s₀ s, configure evenTable = .ok s₀ ∧
      [Input.comPacketQueueIn 0 ⟨[7], by decide⟩].foldlM (State.input 0) s₀ = .ok s ∧
      s.sendState = .waiting ∧ (s.queues 0).messages ≠ [] ∧
      (s.comStatusIn .success).isOk = false) ∧
    ∃ s₀ s, configure evenTable = .ok s₀ ∧
      [Input.comPacketQueueIn 0 ⟨[0, 1], by decide⟩, .comPacketQueueIn 0 ⟨[0, 1], by decide⟩,
        .comStatusIn .success].foldlM (State.input 0) s₀ = .ok s ∧
      s.sendState = .waiting ∧ (s.queues 0).messages ≠ [] ∧
      (s.comStatusIn .success).isOk = false :=
  ⟨⟨_, _, rfl, rfl, rfl, by decide +kernel, by decide +kernel⟩,
    ⟨_, _, rfl, rfl, rfl, by decide +kernel, by decide +kernel⟩⟩

end Fprime.Svc.ComQueue
