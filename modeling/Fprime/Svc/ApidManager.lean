import Fprime.Svc.SpacePacketDeframer.Packets

/-!
# Both directions on one table

The component that numbers the packets of the downlink and checks the numbers of the uplink, with
every interleaving of the calls to its two ports.
-/

namespace Fprime.Svc.ApidManager

open Fw Lib Framers Framers.ApidState List Function

inductive Call where
  | getApidSeqCountIn (apid : Apid)
  | validateApidSeqCountIn (apid : Apid) (receivedSeqCount : UInt16)

def Call.apid : Call → Apid
  | getApidSeqCountIn apid => apid
  | validateApidSeqCountIn apid _ => apid

/-- A call, the count that it returned, and the count expected where `UnexpectedSequenceCount` was
raised. -/
structure Served where
  call : Call
  count : UInt16
  unexpected : Option UInt16 := none

structure World where
  state : ApidState := .new
  log : List Served := []

namespace World

/-- The check of a count returns the count, whatever was expected. -/
def step (w : World) (call : Call) : Except Framers.Assertion World :=
  match call with
  | .getApidSeqCountIn apid => do
    let (count, state) ← w.state.getAndIncrement apid
    return { state, log := w.log ++ [{ call, count }] }
  | .validateApidSeqCountIn apid receivedSeqCount => do
    let (state, unexpected) ←
      SpacePacketDeframer.validateApidSeqCount w.state apid receivedSeqCount
    return { state, log := w.log ++ [{ call, count := receivedSeqCount, unexpected }] }

def run (calls : List Call) : Except Framers.Assertion World :=
  calls.foldlM step {}

end World

def counts (log : List Served) (apid : Apid) : List UInt16 :=
  (log.filter fun served => served.call.apid = apid).map Served.count

def successor (counts : List UInt16) : UInt16 :=
  (counts.getLast?.map calculateNextSeqCount).getD 0

def Served.Follows (past : List Served) (served : Served) : Prop :=
  match served.call with
  | .getApidSeqCountIn apid =>
    served.count = successor (counts past apid) ∧ served.unexpected = none
  | .validateApidSeqCountIn apid received =>
    served.count = received ∧ served.unexpected =
      if received = successor (counts past apid) then none else some (successor (counts past apid))

variable {log : List Served} {state : ApidState} {next : Apid → UInt16}

theorem successor_concat (log : List Served) (served : Served) :
    (fun apid => successor (counts (log ++ [served]) apid)) =
      update (fun apid => successor (counts log apid)) served.call.apid
        (calculateNextSeqCount served.count) := by
  funext apid
  by_cases h : apid = served.call.apid
  · subst h
    simp [counts, successor]
  · rw [update_of_ne h]
    simp [counts, Ne.symm h]

theorem successor_range (n : Nat) : successor ((range n).map wrap) = wrap n := by
  cases n with
  | zero => rfl
  | succ n =>
    rw [range_succ, map_append, successor, map_singleton, getLast?_concat,
      Option.map_some, Option.getD_some, calculateNextSeqCount_wrap]

structure Tracks (state : ApidState) (next : Apid → UInt16) : Prop where
  packed : ∃ live, state.Packed live
  find : ∀ apid, (state.find apid).getD 0 = next apid

theorem Tracks.insert (h : Tracks state next) (apid : Apid) (seqCount : UInt16) :
    ∃ state', state.insert apid seqCount = some state' ∧
      Tracks state' (update next apid seqCount) := by
  obtain ⟨live, hp⟩ := h.packed
  obtain ⟨state', live', hins, hp', hfind⟩ := hp.insert apid seqCount
  refine ⟨state', hins, ⟨live', hp'⟩, fun a => ?_⟩
  rw [hfind]
  by_cases ha : a = apid
  · rw [if_pos ha, ha, update_self]
    rfl
  · rw [if_neg ha, update_of_ne ha]
    exact h.find a

theorem Tracks.getAndIncrement (h : Tracks state next) (apid : Apid) :
    ∃ state', state.getAndIncrement apid = .ok (next apid, state') ∧
      Tracks state' (update next apid (calculateNextSeqCount (next apid))) := by
  obtain ⟨state', hins, ht⟩ := h.insert apid (calculateNextSeqCount (next apid))
  exact ⟨state', by rw [ApidState.getAndIncrement, h.find, hins], ht⟩

theorem Tracks.validate (h : Tracks state next) (apid : Apid) (received : UInt16) :
    ∃ state', SpacePacketDeframer.validateApidSeqCount state apid received =
      .ok (state', if received = next apid then none else some (next apid)) ∧
      Tracks state' (update next apid (calculateNextSeqCount received)) := by
  obtain ⟨state1, hget, ht⟩ := h.getAndIncrement apid
  rw [SpacePacketDeframer.validateApidSeqCount, hget]
  dsimp only [bind, Except.bind]
  by_cases heq : received = next apid
  · rw [if_pos heq, if_pos heq, heq]
    exact ⟨state1, rfl, ht⟩
  · obtain ⟨state', hins, ht'⟩ := ht.insert apid (calculateNextSeqCount received)
    rw [if_neg heq, if_neg heq, hins]
    rw [update_idem] at ht'
    exact ⟨state', rfl, ht'⟩

structure Numbered (past : List Call) (w : World) : Prop where
  tracks : Tracks w.state fun apid => successor (counts w.log apid)
  calls : w.log.map Served.call = past
  follows : ∀ i (served : Served), w.log[i]? = some served → served.Follows (w.log.take i)
  downlink : ∀ apid, (∀ received, .validateApidSeqCountIn apid received ∉ past) →
    ∃ n, counts w.log apid = (range n).map wrap

theorem Numbered.snoc {past : List Call} {w : World} (h : Numbered past w) (served : Served)
    (hfollows : served.Follows w.log)
    (htracks : Tracks state (update (fun apid => successor (counts w.log apid))
      served.call.apid (calculateNextSeqCount served.count))) :
    Numbered (past ++ [served.call]) { state, log := w.log ++ [served] } := by
  refine ⟨by rwa [successor_concat], by simp [h.calls], fun i s hs => ?_, fun apid hnone => ?_⟩
  · rcases Lists.getElem?_concat_eq_some.mp hs with hs | ⟨rfl, rfl⟩
    · have hlt := (List.getElem?_eq_some_iff.mp hs).1
      rw [take_append_of_le_length hlt.le]
      exact h.follows i s hs
    · rwa [take_left]
  · obtain ⟨n, hn⟩ := h.downlink apid fun received hmem =>
      hnone received (mem_append_left _ hmem)
    by_cases hapid : served.call.apid = apid
    · -- a count handed out is the next number
      have hcount : served.count = wrap n := by
        cases hcall : served.call with
        | getApidSeqCountIn a =>
          rw [hcall] at hapid
          rw [Served.Follows, hcall] at hfollows
          rw [hfollows.1, show a = apid from hapid, hn, successor_range]
        | validateApidSeqCountIn a received =>
          rw [hcall] at hapid
          refine absurd (mem_append_right _ ?_) (hnone received)
          rw [hcall, ← show a = apid from hapid]
          exact mem_singleton_self _
      refine ⟨n + 1, ?_⟩
      rw [range_succ, map_append, ← hn, map_singleton, ← hcount]
      simp [counts, hapid]
    · exact ⟨n, by rw [← hn]; simp [counts, hapid]⟩

theorem Numbered.step {past : List Call} {w : World} (h : Numbered past w) (call : Call) :
    ∃ w', w.step call = .ok w' ∧ Numbered (past ++ [call]) w' := by
  cases call with
  | getApidSeqCountIn apid =>
    obtain ⟨state, hget, htracks⟩ := h.tracks.getAndIncrement apid
    exact ⟨_, by rw [World.step, hget]; rfl,
      h.snoc ⟨.getApidSeqCountIn apid, _, none⟩ ⟨rfl, rfl⟩ htracks⟩
  | validateApidSeqCountIn apid received =>
    obtain ⟨state, hvalidate, htracks⟩ := h.tracks.validate apid received
    exact ⟨_, by rw [World.step, hvalidate]; rfl,
      h.snoc ⟨.validateApidSeqCountIn apid received, received, _⟩ ⟨rfl, rfl⟩ htracks⟩

/-- No call fails, and each is served as the successor of the one before it for its identifier, in
either direction. -/
theorem counts_follow_both_directions (calls : List Call) :
    ∃ w, World.run calls = .ok w ∧ w.log.map Served.call = calls ∧
      (∀ i (served : Served), w.log[i]? = some served → served.Follows (w.log.take i)) ∧
      ∀ apid, (∀ received, .validateApidSeqCountIn apid received ∉ calls) →
        ∃ n, counts w.log apid = (range n).map wrap := by
  have hstart : Numbered [] {} :=
    ⟨⟨counts_new.packed, counts_new.find⟩, rfl, nofun, fun _ _ => ⟨0, rfl⟩⟩
  obtain ⟨w, hrun, h⟩ := Runs.total_runM (I := Numbered) (C := fun _ _ => True)
    (fun past w call hw _ => hw.step call) hstart
    (Runs.alongM_of_forall (fun _ (_ : _ ∈ calls) _ => trivial) _)
  exact ⟨w, hrun, h.calls, h.follows, h.downlink⟩

def telemetryAndCommands : List Call :=
  [.getApidSeqCountIn .fwPacketTelem, .validateApidSeqCountIn .fwPacketCommand 5,
    .getApidSeqCountIn .fwPacketTelem]

theorem counts_follow_telemetry :
    (∀ received, .validateApidSeqCountIn .fwPacketTelem received ∉ telemetryAndCommands) ∧
      ∃ w, World.run telemetryAndCommands = .ok w ∧
        ∃ n, counts w.log .fwPacketTelem = (range n).map wrap := by
  have hnone : ∀ received,
      .validateApidSeqCountIn .fwPacketTelem received ∉ telemetryAndCommands := by
    simp [telemetryAndCommands]
  obtain ⟨w, hrun, -, -, hdown⟩ := counts_follow_both_directions telemetryAndCommands
  exact ⟨hnone, w, hrun, hdown .fwPacketTelem hnone⟩

/-- The count after a packet of the uplink is not zero, and a first packet of the uplink is reported
after one was sent. -/
theorem uplink_shifts_downlink :
    ((World.run [.validateApidSeqCountIn .fwPacketFile 0, .getApidSeqCountIn .fwPacketFile]).map
      fun w => w.log.map Served.count) = .ok [0, 1] ∧
    ((World.run [.getApidSeqCountIn .fwPacketFile, .validateApidSeqCountIn .fwPacketFile 0]).map
      fun w => w.log.map Served.unexpected) = .ok [none, some 1] :=
  ⟨rfl, rfl⟩

end Fprime.Svc.ApidManager
