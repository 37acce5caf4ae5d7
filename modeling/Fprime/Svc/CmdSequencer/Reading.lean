import Fprime.Svc.CmdSequencer.Execution

/-!
# Reading a sequence that has been accepted

What comes after a load takes the records that validation has walked, pass after pass, and no
assertion fails; only the sum of a relative time and the current one may overflow.
-/

namespace Fprime.Svc.CmdSequencer

open Fw Lib.Runs

/-- The start of the sequence by the run that has loaded it, or a message. -/
inductive Follow where
  | start (env : Env)
  | message (env : Env) (call : Call)

def Call.LoadsNothing (w : Wiring) : Call → Prop
  | .cmdIn opCode _ _ => ∀ op ∈ Opcode.ofOffset (opCode - w.idBase), op ≠ .csRun ∧ op ≠ .csValidate
  | .seqRunIn _ | .seqDispatchIn _ => False
  | _ => True

instance (w : Wiring) (call : Call) : Decidable (call.LoadsNothing w) := by
  cases call <;> unfold Call.LoadsNothing <;> infer_instance

def Follow.LoadsNothing (w : Wiring) : Follow → Prop
  | start _ => True
  | message _ call => call.LoadsNothing w

instance (w : Wiring) (follow : Follow) : Decidable (follow.LoadsNothing w) := by
  cases follow <;> unfold Follow.LoadsNothing <;> infer_instance

def State.follow (w : Wiring) (s : State) : Follow → Result
  | .start env =>
    if s.runMode = .stopped ∧ s.sequence.hasMoreRecords then s.startAuto w env else .ok (s, [])
  | .message env call => s.handle w env call

/-- The component, and the records read, with the times, in each pass over the sequence, the latest
pass first. -/
structure Trail where
  s : State
  passes : List (List (Entry × Time))

namespace Trail

def passesAfter (l : Trail) (reads : List (Entry × Time)) : List (List (Entry × Time)) :=
  match l.s.runMode, l.passes with
  | .running, pass :: rest => (pass ++ reads) :: rest
  | .running, [] => [reads]
  | .stopped, passes => if reads = [] then passes else reads :: passes

def step (w : Wiring) (l : Trail) (follow : Follow) : Except Assertion Trail := do
  let (s, outs) ← l.s.follow w follow
  return ⟨s, l.passesAfter (readsOf outs)⟩

def run (w : Wiring) (s : State) (follows : List Follow) : Except Assertion Trail :=
  follows.foldlM (step w) ⟨s, []⟩

end Trail

/-- Neither the seconds nor the microseconds of `add_duration` overflow, nor does its assertion
fail. -/
def Entry.AddsUp (now : Time) : Entry → Prop
  | .command relative tag _ => relative = true →
    tag.useconds.toNat + now.useconds.toNat < 1999999 ∧
      tag.seconds.toNat + now.seconds.toNat +
        (tag.useconds.toNat + now.useconds.toNat) / 1000000 < 2 ^ 32
  | .endOfSequence => True

theorem addsUp_iff_fits (entry : Entry) (now : Time) : entry.AddsUp now ↔ entry.Fits now := by
  cases entry with
  | endOfSequence => exact Iff.rfl
  | command relative tag _ =>
    have htag : tag.useconds.toNat < 1000000 := UInt32.lt_iff_toNat_lt.mp tag.valid
    have hnow := now.useconds_toNat_lt
    simp only [Entry.AddsUp, Entry.Fits, Tag.micros, Time.micros]
    refine imp_congr_right fun _ => ?_
    omega

section Total

variable {w : Wiring} {s : State} {env : Env} {entries : List Entry}

theorem performCmdStep_total (h : Reads s.sequence.left entries)
    (hmore : s.sequence.hasMoreRecords) (now : Time) : ∃ r, s.performCmdStep w now = .ok r := by
  obtain ⟨entry, rest, later, hentry, -⟩ := h.exists_cons (of_decide_eq_true hmore)
  cases entry with
  | command relative tag packet => exact ⟨_, State.performCmdStep_command hentry w now⟩
  | endOfSequence =>
    obtain ⟨record, hstep⟩ := State.performCmdStep_endOfSequence hentry w now
    exact ⟨_, hstep⟩

theorem startAuto_total (h : Reads s.sequence.left entries) (hmore : s.sequence.hasMoreRecords)
    (env : Env) : ∃ r, s.startAuto w env = .ok r := by
  obtain ⟨r, hstep⟩ := @performCmdStep_total w { s with runMode := .running } _ h hmore env.second
  exact ⟨_, by rw [State.startAuto, hstep]; rfl⟩

theorem withoutArgs_total {handler : Result} (opCode cmdSeq : UInt32)
    (args : Bytes) (h : ∃ r, handler = .ok r) :
    ∃ r, s.withoutArgs opCode cmdSeq args handler = .ok r := by
  unfold State.withoutArgs
  split
  · exact ⟨_, rfl⟩
  · exact h

theorem cmdIn_total (h : Reads s.sequence.left entries) {opCode cmdSeq : UInt32} {args : Bytes}
    (hload : (Call.cmdIn opCode cmdSeq args).LoadsNothing w) :
    ∃ r, s.cmdIn w env opCode cmdSeq args = .ok r := by
  unfold State.cmdIn
  cases hop : Opcode.ofOffset (opCode - w.idBase) with
  | none => exact ⟨_, rfl⟩
  | some op =>
    obtain ⟨hrun, hvalidate⟩ := hload op hop
    cases op with
    | csRun => exact absurd rfl hrun
    | csValidate => exact absurd rfl hvalidate
    | csStart =>
      refine withoutArgs_total _ _ _ ?_
      unfold State.csStart
      dsimp only
      split
      · exact ⟨_, rfl⟩
      next hmore =>
      split
      · exact ⟨_, rfl⟩
      obtain ⟨r, hstep⟩ := @performCmdStep_total w
        { s with blockState := .noBlock, runMode := .running } _ h (not_not.mp hmore) env.second
      exact ⟨_, by rw [hstep]; rfl⟩
    | csStep =>
      refine withoutArgs_total _ _ _ ?_
      unfold State.csStep
      dsimp only
      split
      · exact ⟨_, rfl⟩
      split
      · exact ⟨_, rfl⟩
      split
      · exact ⟨_, rfl⟩
      next hmore =>
      obtain ⟨r, hstep⟩ := @performCmdStep_total w s _ h (not_not.mp hmore) env.second
      exact ⟨_, by rw [hstep]; rfl⟩
    | csCancel | csAuto | csManual | csJoinWait => exact withoutArgs_total _ _ _ ⟨_, rfl⟩

theorem cmdResponseIn_total (h : Reads s.sequence.left entries) (response : CmdResponse) :
    ∃ r, s.cmdResponseIn w env response = .ok r := by
  unfold State.cmdResponseIn
  split
  · exact ⟨_, rfl⟩
  dsimp only
  split
  · exact ⟨_, rfl⟩
  split
  · split
    · next hmore =>
      exact @performCmdStep_total w { s with cmdTimeoutTimer := s.cmdTimeoutTimer.clear } _ h hmore
        env.second
    · exact ⟨_, rfl⟩
  split <;> exact ⟨_, rfl⟩

theorem follow_total (h : Reads s.sequence.left entries) {follow : Follow}
    (hload : follow.LoadsNothing w) : ∃ r, s.follow w follow = .ok r := by
  cases follow with
  | start env =>
    rw [State.follow]
    split
    · next hmore => exact startAuto_total h hmore.2 env
    · exact ⟨_, rfl⟩
  | message env call =>
    cases call with
    | cmdIn => exact cmdIn_total h hload
    | seqRunIn | seqDispatchIn => exact hload.elim
    | cmdResponseIn => exact cmdResponseIn_total h _
    | seqCancelIn | schedIn | pingIn => exact ⟨_, rfl⟩

end Total

def Env.bare (env : Env) : Env :=
  { env with files := fun _ => .doesntExist }

theorem handle_bare {w : Wiring} {call : Call} (h : call.LoadsNothing w) (s : State) (env : Env) :
    s.handle w env call = s.handle w env.bare call := by
  cases call with
  | cmdIn opCode cmdSeq args =>
    simp only [State.handle, State.cmdIn]
    cases hop : Opcode.ofOffset (opCode - w.idBase) with
    | none => rfl
    | some op =>
      obtain ⟨hrun, hvalidate⟩ := h op hop
      cases op with
      | csRun => exact absurd rfl hrun
      | csValidate => exact absurd rfl hvalidate
      | _ => rfl
  | seqRunIn | seqDispatchIn => exact h.elim
  | _ => rfl

theorem follow_moves {w : Wiring} {s s' : State} {follow : Follow} {outs : List Out}
    (hload : follow.LoadsNothing w) (h : s.follow w follow = .ok (s', outs)) :
    ∃ (env : Env) (call : Call), Move w env.bare s s' call (readsOf outs) (sendsOf outs) := by
  cases follow with
  | start env =>
    rw [State.follow] at h
    split at h
    · next hstart =>
      exact ⟨env, .schedIn, @startAuto_moves w env.bare s .schedIn s hstart.1 (.kept rfl) rfl rfl _ _ h⟩
    · cases h
      exact ⟨env, .schedIn, .still rfl rfl rfl rfl rfl⟩
  | message env call => exact ⟨env, call, handle_moves call s' outs (handle_bare hload s env ▸ h)⟩

/-- Every pass has read the sequence from its first record on, and the one under way goes on with
the records left. -/
structure Trail.Inv (data : Bytes) (l : Trail) : Prop where
  seq : l.s.sequence.data = data ∨ l.s.sequence.data = []
  stopped : l.s.runMode = .stopped → l.s.sequence.left = l.s.sequence.data
  running : l.s.runMode = .running → ∃ pass rest entries, l.passes = pass :: rest ∧
    Reads l.s.sequence.left entries ∧ pass.map Prod.fst ++ entries = entriesOf data
  passes : ∀ pass ∈ l.passes, pass.map Prod.fst <+: entriesOf data

section Step

variable {data : Bytes} {l : Trail} {s s' : State} {now : Time} {reads : List (Entry × Time)}
  {sends : List (ComBuffer × Time)} {pass : List (Entry × Time)} {rest : List (List (Entry × Time))}
  {entries : List Entry}

theorem Trail.Inv.steps (s : State) (pass : List (Entry × Time))
    (hseq : s.sequence.data = data ∨ s.sequence.data = []) (hrun : s.runMode = .running) (hreads : Reads s.sequence.left entries)
    (hpass : pass.map Prod.fst ++ entries = entriesOf data)
    (hrest : ∀ pass ∈ rest, pass.map Prod.fst <+: entriesOf data)
    (h : Steps now s s' reads sends) : Trail.Inv data ⟨s', (pass ++ reads) :: rest⟩ := by
  have hnext : ∀ {entry : Entry} {left : Bytes}, readEntry s.sequence.left = .ok (entry, left) →
      ∃ later, Reads left later ∧
        (pass ++ [(entry, now)]).map Prod.fst ++ later = entriesOf data := by
    intro entry left hread
    obtain ⟨later, rfl, hlater⟩ := hreads.of_readEntry hread
    exact ⟨later, hlater, by simpa using hpass⟩
  cases h with
  | ended hread hstop hclear _ _ =>
    obtain ⟨later, -, hall⟩ := hnext hread
    refine ⟨.inr (by rw [hclear]; rfl), fun _ => by rw [hclear]; rfl, fun hrun' => ?_, ?_⟩
    · cases hstop.symm.trans hrun'
    · exact List.forall_mem_cons.mpr ⟨⟨later, hall⟩, hrest⟩
  | sent hread _ hmode hleft _ _ | deferred hread hmode hleft _ _ _ =>
    obtain ⟨later, hlater, hall⟩ := hnext hread
    refine ⟨by rw [hleft]; exact hseq, fun hstop => ?_,
      fun _ => ⟨_, rest, later, rfl, by rw [hleft]; exact hlater, hall⟩, ?_⟩
    · cases (hmode.trans hrun).symm.trans hstop
    · exact List.forall_mem_cons.mpr ⟨⟨later, hall⟩, hrest⟩

theorem Trail.Inv.readable (h : l.Inv data) (hdata : Reads data (entriesOf data)) :
    ∃ entries, Reads l.s.sequence.left entries := by
  cases hmode : l.s.runMode with
  | running =>
    obtain ⟨_, _, entries, -, hreads, -⟩ := h.running hmode
    exact ⟨entries, hreads⟩
  | stopped =>
    rw [h.stopped hmode]
    rcases h.seq with hseq | hseq
    · exact ⟨_, hseq ▸ hdata⟩
    · exact ⟨[], hseq ▸ .nil⟩

theorem Trail.Inv.quiet (h : l.Inv data)
    (hs : s'.runMode = l.s.runMode ∧ s'.sequence = l.s.sequence ∨ s'.runMode = .stopped ∧
      s'.sequence.left = s'.sequence.data ∧
      (s'.sequence.data = l.s.sequence.data ∨ s'.sequence.data = [])) :
    Trail.Inv data ⟨s', l.passesAfter []⟩ := by
  have hsame : l.passesAfter [] = l.passes := by
    unfold passesAfter
    cases hmode : l.s.runMode with
    | stopped => rfl
    | running =>
      obtain ⟨pass, rest, entries, hpasses, -⟩ := h.running hmode
      rw [hpasses]
      simp
  rw [hsame]
  rcases hs with ⟨hmode, hseq⟩ | ⟨hstop, hleft, hdata⟩
  · refine ⟨by rw [hseq]; exact h.seq, fun hstop => ?_, fun hrun => ?_, h.passes⟩
    · rw [hseq]
      exact h.stopped (hmode.symm.trans hstop)
    · rw [hseq]
      exact h.running (hmode.symm.trans hrun)
  · refine ⟨?_, fun _ => hleft, fun hrun => ?_, h.passes⟩
    · rcases hdata with hdata | hdata
      · rw [hdata]
        exact h.seq
      · exact .inr hdata
    · cases hstop.symm.trans hrun

theorem Loads.bare {env : Env} {seq seq' : FPrimeSequence} (h : Loads env.bare seq seq') :
    seq' = seq ∨ seq'.data = [] ∧ seq'.left = [] := by
  cases h with
  | kept heq => exact .inl heq
  | loaded hload =>
    obtain ⟨⟨file, hopen, -⟩, -⟩ := FPrimeSequence.loadFile_eq_ok hload
    cases hopen
  | cleared hdata hleft => exact .inr ⟨hdata, hleft⟩

theorem Trail.Inv.step {w : Wiring} {follow : Follow} (h : l.Inv data)
    (hdata : Reads data (entriesOf data)) (hload : follow.LoadsNothing w) :
    ∃ l', l.step w follow = .ok l' ∧ l'.Inv data := by
  obtain ⟨_, hleft⟩ := h.readable hdata
  obtain ⟨⟨s', outs⟩, hfollow⟩ := follow_total hleft hload
  refine ⟨⟨s', l.passesAfter (readsOf outs)⟩, by rw [Trail.step, hfollow]; rfl, ?_⟩
  obtain ⟨env, call, hmove⟩ := follow_moves hload hfollow
  generalize readsOf outs = reads, sendsOf outs = sends at hmove ⊢
  cases hmove with
  | still hmode _ hseq _ _ | tick _ hmode _ hseq _ => exact h.quiet (.inl ⟨hmode, hseq⟩)
  | idle hstop hstop' hloads _ =>
    rcases hloads.bare with hsame | ⟨hnil, hleft⟩
    · exact h.quiet (.inl ⟨hstop'.trans hstop.symm, hsame⟩)
    · exact h.quiet (.inr ⟨hstop', hleft.trans hnil.symm, .inr hnil⟩)
  | cancel hstop hseq _ => exact h.quiet (.inr ⟨hstop, by rw [hseq]; rfl, .inl (by rw [hseq]; rfl)⟩)
  | finish _ _ hstop hseq _ =>
    exact h.quiet (.inr ⟨hstop, by rw [hseq]; rfl, .inr (by rw [hseq]; rfl)⟩)
  | step hrun _ hs =>
    obtain ⟨pass, rest, entries, hpasses, hreads, hpass⟩ := h.running hrun
    have hold := h.passes
    rw [hpasses] at hold
    simp only [passesAfter, hrun, hpasses]
    exact .steps _ _ h.seq hrun hreads hpass (fun p hp => hold p (List.mem_cons_of_mem _ hp)) hs
  | @start _ seq _ _ hstop hloads hs =>
    -- only the sequence that was loaded, at its first record, has a record to take
    have hne : seq.left ≠ [] := hs.nonempty.1
    obtain rfl : seq = l.s.sequence := hloads.bare.resolve_right fun hnil => hne hnil.2
    have hleft := h.stopped hstop
    have hseq : l.s.sequence.data = data := h.seq.resolve_right fun hnil => hne (hleft.trans hnil)
    have hreads' : reads ≠ [] := by
      cases hs <;> exact List.cons_ne_nil _ _
    simp only [passesAfter, hstop, if_neg hreads']
    have hreads : Reads l.s.sequence.left (entriesOf data) := by
      rw [hleft, hseq]
      exact hdata
    exact .steps { l.s with runMode := .running } [] h.seq rfl hreads rfl h.passes hs

end Step

/-- After an accepted load no assertion fails, every pass reads the validated records in order, and
the time of a record overflows exactly if it is beyond the seconds of a time. -/
theorem accepted_sequence_read {fileName : Bytes} {opened : OpenResult} {now : Time}
    {before : FPrimeSequence} {s : State} (w : Wiring)
    (haccepted : before.loadFile fileName opened now = .ok s.sequence)
    (hstopped : s.runMode = .stopped) {follows : List Follow}
    (hfollows : ∀ follow ∈ follows, follow.LoadsNothing w) :
    Reads s.sequence.data (entriesOf s.sequence.data) ∧ ∃ l, Trail.run w s follows = .ok l ∧
      ∀ pass ∈ l.passes, pass.map Prod.fst <+: entriesOf s.sequence.data ∧
        ((∀ read ∈ pass, read.1.AddsUp read.2) ↔ ∀ read ∈ pass, read.1.Fits read.2) := by
  obtain ⟨-, ⟨entry, entries, hreads⟩, hleft, -⟩ := FPrimeSequence.loadFile_eq_ok haccepted
  have hdata : Reads s.sequence.data (entriesOf s.sequence.data) := by
    rw [hreads.entriesOf_eq]
    exact hreads
  have hnew : Trail.Inv s.sequence.data ⟨s, []⟩ :=
    ⟨.inl rfl, fun _ => hleft, (fun hrun => by cases hstopped.symm.trans hrun), by simp⟩
  obtain ⟨l, hrun, hinv⟩ := total_run (I := Trail.Inv s.sequence.data)
    (fun l follow h hload => h.step hdata hload) hnew
    (alongM_of_forall (C := fun _ follow => follow.LoadsNothing w)
      (fun follow hmem _ => hfollows follow hmem) _)
  exact ⟨hdata, l, hrun, fun pass hpass => ⟨hinv.passes pass hpass, by simp only [addsUp_iff_fits]⟩⟩

def firstLoad (contents : Bytes) : Load FPrimeSequence :=
  (State.new 128 0).sequence.loadFile [0x61] (.opened { contents }) (onlyFile contents 1).first

def readAgain : List Follow :=
  let env := onlyFile [] 1
  [.start env, .message env (.cmdResponseIn 1 0 .ok), .message env .seqCancelIn, .start env]

theorem accepted_sequence_read_again :
    ∃ seq l, firstLoad threeCommands = .ok seq ∧
      Trail.run connected { State.new 128 0 with sequence := seq } readAgain = .ok l ∧
      l.passes.map List.length = [1, 2] ∧
      ∀ pass ∈ l.passes, pass.map Prod.fst <+: entriesOf seq.data ∧
        ((∀ read ∈ pass, read.1.AddsUp read.2) ↔ ∀ read ∈ pass, read.1.Fits read.2) := by
  obtain ⟨seq, hload, heval⟩ := exists_ok (r := firstLoad threeCommands)
    (P := fun seq => (Trail.run connected { State.new 128 0 with sequence := seq }
      readAgain).toOption.map (fun l => l.passes.map List.length) = some [1, 2]) (by decide +kernel)
  obtain ⟨-, l, hrun, hpasses⟩ := @accepted_sequence_read _ _ _ _
    { State.new 128 0 with sequence := seq } connected hload rfl readAgain (by decide)
  rw [hrun] at heval
  exact ⟨seq, l, hload, hrun, Option.some.inj heval, hpasses⟩

/-- A record due 2 ^ 32 - 1 seconds from now is accepted, and its time overflows when it is read. -/
theorem relative_time_overflows :
    ∃ seq l, firstLoad (sequenceFile 1 (commandRecord 1 0xFFFFFFFF 0 5)) = .ok seq ∧
      Trail.run connected { State.new 128 0 with sequence := seq } [.start (onlyFile [] 1)] = .ok l ∧
      ∃ pass ∈ l.passes, ∃ read ∈ pass, ¬read.1.AddsUp read.2 := by
  simp only [addsUp_iff_fits]
  obtain ⟨seq, hload, heval⟩ := exists_ok
    (r := firstLoad (sequenceFile 1 (commandRecord 1 0xFFFFFFFF 0 5)))
    (P := fun seq => (Trail.run connected { State.new 128 0 with sequence := seq }
      [.start (onlyFile [] 1)]).toOption.any (fun l => decide
        (∃ pass ∈ l.passes, ∃ read ∈ pass, ¬read.1.Fits read.2)) = true) (by decide +kernel)
  obtain ⟨l, hrun, hover⟩ := exists_ok heval
  exact ⟨seq, l, hload, hrun, hover⟩

end Fprime.Svc.CmdSequencer
