import Fprime.Svc.CmdSequencer

/-!
# Every command is answered once

A command is answered by its handler, but for a blocking run and a join, which are answered when the
sequence ends.
-/

namespace Fprime.Svc.CmdSequencer

open Fw Lib.Bytes Lib.Runs List

def responses (outs : List Out) : List Response :=
  outs.filterMap fun
    | .cmdResponse r => some r
    | _ => none

@[simp] theorem responses_append (xs ys : List Out) :
    responses (xs ++ ys) = responses xs ++ responses ys :=
  filterMap_append

@[simp] theorem responses_nil : responses [] = [] :=
  rfl

@[simp] theorem responses_cmdResponse (r : Response) (outs : List Out) :
    responses (.cmdResponse r :: outs) = r :: responses outs :=
  rfl

@[simp] theorem responses_comCmdOut (time : Time) (command : ComBuffer) (outs : List Out) :
    responses (.comCmdOut time command :: outs) = responses outs :=
  rfl

@[simp] theorem responses_nextRecord (time : Time) (entry : Entry) (outs : List Out) :
    responses (.nextRecord time entry :: outs) = responses outs :=
  rfl

@[simp] theorem responses_loadEvent (event : SequenceLoadEvent) (outs : List Out) :
    responses (.loadEvent event :: outs) = responses outs :=
  rfl

@[simp] theorem responses_pingOut (key : UInt32) (outs : List Out) :
    responses (.pingOut key :: outs) = responses outs :=
  rfl

@[simp] theorem responses_emitSeqStart (w : Wiring) (s : State) :
    responses (s.emitSeqStart w) = [] := by
  unfold State.emitSeqStart
  split <;> rfl

@[simp] theorem responses_seqDoneGuarded (w : Wiring) (r : CmdResponse) :
    responses (State.seqDoneGuarded w r) = [] := by
  unfold State.seqDoneGuarded
  split <;> rfl

def State.owed (s : State) : Option (UInt32 × UInt32) :=
  if s.owes then some (s.opCode, s.cmdSeq) else none

def reply (r : CmdResponse) (command : UInt32 × UInt32) : Response :=
  ⟨command.1, command.2, r⟩

theorem responses_answer (s : State) (r : CmdResponse) :
    responses (s.answer r) = s.owed.toList.map (reply r) := by
  unfold State.answer State.owed
  split <;> rfl

/-- The buffer has room for a header and holds whole records, before and behind the cursor. -/
structure SeqSound (seq : FPrimeSequence) : Prop where
  capacity : sequenceHeaderSize ≤ seq.capacity
  data : ∃ entries, Reads seq.data entries
  left : ∃ entries, Reads seq.left entries

theorem SeqSound.reset {seq : FPrimeSequence} (h : SeqSound seq) : SeqSound seq.reset :=
  ⟨h.capacity, h.data, h.data⟩

theorem SeqSound.clear {seq : FPrimeSequence} (h : SeqSound seq) : SeqSound seq.clear :=
  ⟨h.capacity, ⟨[], .nil⟩, ⟨[], .nil⟩⟩

/-- Between messages no answer is owed unless a sequence runs. -/
structure Sound (s : State) : Prop where
  seq : SeqSound s.sequence
  idle : s.runMode = .stopped → s.owed = none

/-- What becomes of the answer that is owed: it is given if the sequence is no longer running,
and owed on if it is. -/
structure Settled (s s' : State) (given : List Response) : Prop where
  sound : Sound s'
  ended : s'.runMode = .stopped → ∃ r, given = s.owed.toList.map (reply r)
  going : s'.runMode = .running → given = [] ∧ s'.owed = s.owed

variable {s s' : State} {given : List Response} {env : Env} {w : Wiring}

theorem Settled.of_same (h : Sound s) (hseq : SeqSound s'.sequence) (howed : s'.owed = s.owed)
    (hmode : s'.runMode = s.runMode) : Settled s s' [] where
  sound := ⟨hseq, by rw [howed, hmode]; exact h.idle⟩
  ended hstop := ⟨.ok, by rw [h.idle (hmode ▸ hstop)]; rfl⟩
  going _ := ⟨rfl, howed⟩

theorem Sound.settled (h : Sound s) : Settled s s [] :=
  .of_same h h.seq rfl rfl

theorem Settled.of_owed {s1 : State} (h : Settled s1 s' given) (howed : s1.owed = s.owed) :
    Settled s s' given where
  sound := h.sound
  ended hstop := howed ▸ h.ended hstop
  going hrun := howed ▸ h.going hrun

theorem performCmdCancel_settled (w : Wiring) (h : Sound s) :
    Settled s (s.performCmdCancel w).1 (responses (s.performCmdCancel w).2) := by
  have howes : (s.performCmdCancel w).1.owes = false := by
    unfold State.performCmdCancel State.owes
    cases hb : s.blockState <;> cases hj : s.joinWaiting <;> simp
  refine ⟨⟨h.seq.reset, fun _ => ?_⟩, fun _ => ⟨.executionError, ?_⟩, nofun⟩
  · rw [State.owed, howes]
    rfl
  · simp [State.performCmdCancel, responses_answer]

theorem sequenceComplete_settled (w : Wiring) (h : SeqSound s.sequence)
    (hstop : s.runMode = .stopped) :
    Settled s (s.sequenceComplete w).1 (responses (s.sequenceComplete w).2) where
  sound := ⟨h.clear, fun _ => rfl⟩
  ended _ := ⟨.ok, by simp [State.sequenceComplete, responses_answer]⟩
  going hrun := by
    change s.runMode = .running at hrun
    rw [hstop] at hrun
    cases hrun

theorem performCmdStepAbsolute_settled (h : Sound s) (now : Time) :
    Settled s (s.performCmdStepAbsolute now).1 (responses (s.performCmdStepAbsolute now).2) := by
  unfold State.performCmdStepAbsolute
  dsimp only
  split
  · obtain ⟨timer, htimer⟩ := s.setCmdTimeout_eq now
    rw [htimer]
    exact .of_same h h.seq rfl rfl
  · exact .of_same h h.seq rfl rfl

theorem performCmdStep_settled (w : Wiring) (h : Sound s) (hmore : s.sequence.hasMoreRecords)
    (now : Time) :
    ∃ s' outs, s.performCmdStep w now = .ok (s', outs) ∧ Settled s s' (responses outs) := by
  obtain ⟨entries, hreads⟩ := h.seq.left
  obtain ⟨entry, rest, later, hentry, -, hrest⟩ := hreads.exists_cons (of_decide_eq_true hmore)
  have hseq : SeqSound { s.sequence with left := rest } := ⟨h.seq.capacity, h.seq.data, later, hrest⟩
  cases entry with
  | command relative tag packet =>
    rw [State.performCmdStep_command hentry]
    refine ⟨_, _, rfl, ?_⟩
    rw [responses_nextRecord]
    refine (performCmdStepAbsolute_settled ?_ now).of_owed rfl
    exact ⟨hseq, h.idle⟩
  | endOfSequence =>
    obtain ⟨record, hstep⟩ := State.performCmdStep_endOfSequence hentry w now
    rw [hstep]
    refine ⟨_, _, rfl, ?_⟩
    rw [responses_nextRecord]
    exact (sequenceComplete_settled w hseq rfl).of_owed rfl

/-- The files that can be opened and have the right CRC have time tags in range. -/
def Env.WellTagged (env : Env) : Prop :=
  ∀ fileName file, env.files fileName = .opened file → CrcOk file.contents →
    CmdSequencer.WellTagged file.contents

theorem loadFile_total (h : SeqSound s.sequence) (henv : env.WellTagged) (fileName : Bytes) :
    ∃ sequence events loaded,
      s.loadFile env fileName = .ok ({ s with sequence }, events, loaded) ∧
        responses events = [] ∧ SeqSound sequence ∧
        (loaded = true → sequence.hasMoreRecords = true) := by
  unfold State.loadFile
  cases hload : s.sequence.loadFile fileName (env.files fileName) env.first with
  | ok sequence =>
    obtain ⟨-, ⟨entry, entries, hreads⟩, hleft, -, hcap⟩ := FPrimeSequence.loadFile_eq_ok hload
    refine ⟨sequence, [], true, rfl, rfl, ⟨hcap ▸ h.capacity, ⟨_, hreads⟩, ⟨_, hleft ▸ hreads⟩⟩, ?_⟩
    intro _
    rw [FPrimeSequence.hasMoreRecords, hleft]
    exact decide_eq_true hreads.pos
  | error e =>
    cases e with
    | event event => exact ⟨s.sequence.clear, _, false, rfl, rfl, h.clear, nofun⟩
    | assertion a =>
      exact absurd hload (FPrimeSequence.loadFile_ne_assertion h.capacity (henv fileName) a)

theorem startAuto_settled (w : Wiring) (h : SeqSound s.sequence)
    (hmore : s.sequence.hasMoreRecords) (env : Env) :
    ∃ s' outs, s.startAuto w env = .ok (s', outs) ∧ Settled s s' (responses outs) := by
  obtain ⟨s', outs, hstep, hsettled⟩ :=
    performCmdStep_settled w (s := { s with runMode := .running }) ⟨h, nofun⟩ hmore env.second
  refine ⟨s', s.emitSeqStart w ++ outs, ?_, ?_⟩
  · simp only [State.startAuto, hstep]
    rfl
  · rw [responses_append, responses_emitSeqStart, nil_append]
    exact hsettled.of_owed rfl

/-- A result that answers the command, after whatever has been settled. -/
def Prompt (s : State) (opCode cmdSeq : UInt32) (result : Result) :
    Prop :=
  ∃ s' outs given r, result = .ok (s', outs) ∧ responses outs = given ++ [⟨opCode, cmdSeq, r⟩] ∧
    Settled s s' given

section Commands

variable (w : Wiring) {s : State} (h : Sound s) (opCode cmdSeq : UInt32)

include h

theorem refused_prompt (r : CmdResponse) :
    Prompt s opCode cmdSeq (.ok (s, [.cmdResponse ⟨opCode, cmdSeq, r⟩])) :=
  ⟨_, _, [], r, rfl, rfl, h.settled⟩

theorem withoutArgs_prompt (args : Bytes) {handler : Result}
    (hhandler : Prompt s opCode cmdSeq handler) :
    Prompt s opCode cmdSeq (s.withoutArgs opCode cmdSeq args handler) := by
  unfold State.withoutArgs
  split
  · exact refused_prompt h opCode cmdSeq .formatError
  · exact hhandler

theorem csValidate_prompt {env : Env} (henv : env.WellTagged) (fileName : Bytes) :
    Prompt s opCode cmdSeq (s.csValidate env opCode cmdSeq fileName) := by
  unfold State.csValidate
  dsimp only
  split
  · exact refused_prompt h opCode cmdSeq .executionError
  obtain ⟨sequence, events, loaded, hload, hevents, hseq, -⟩ := loadFile_total h.seq henv fileName
  rw [hload]
  cases loaded with
  | true =>
    exact ⟨_, _, [], .ok, rfl, by simp [hevents], .of_same h hseq.clear rfl rfl⟩
  | false => exact ⟨_, _, [], .executionError, rfl, by simp [hevents], .of_same h hseq rfl rfl⟩

theorem cancelSequence_settled :
    Settled s (s.cancelSequence w).1 (responses (s.cancelSequence w).2) := by
  unfold State.cancelSequence
  split
  · exact performCmdCancel_settled w h
  · exact h.settled

theorem csCancel_prompt : Prompt s opCode cmdSeq (.ok (s.csCancel w opCode cmdSeq)) :=
  ⟨_, _, _, .ok, rfl, responses_append _ _, cancelSequence_settled w h⟩

theorem csStart_prompt (env : Env) :
    Prompt s opCode cmdSeq (s.csStart w env opCode cmdSeq) := by
  unfold State.csStart
  dsimp only
  split
  · exact refused_prompt h opCode cmdSeq .executionError
  rename_i hmore
  split
  · exact refused_prompt h opCode cmdSeq .executionError
  rename_i hstop
  obtain ⟨s', outs, hstep, hsettled⟩ := performCmdStep_settled w
    (s := { s with blockState := .noBlock, runMode := .running }) ⟨h.seq, nofun⟩ (by simpa using hmore)
    env.second
  rw [hstep]
  refine ⟨_, _, responses outs, .ok, rfl, by simp, hsettled.of_owed ?_⟩
  -- a sequence starts only where nothing is owed
  have hnone := h.idle (not_not.mp hstop)
  rw [hnone]
  unfold State.owed State.owes at hnone ⊢
  cases hj : s.joinWaiting with
  | false => rfl
  | true => simp [hj] at hnone

theorem csStep_prompt (env : Env) :
    Prompt s opCode cmdSeq (s.csStep w env opCode cmdSeq) := by
  unfold State.csStep
  dsimp only
  split
  · exact refused_prompt h opCode cmdSeq .executionError
  split
  · exact refused_prompt h opCode cmdSeq .executionError
  split
  · exact refused_prompt h opCode cmdSeq .executionError
  rename_i hmore
  obtain ⟨s', outs, hstep, hsettled⟩ :=
    performCmdStep_settled w h (by simpa using hmore) env.second
  rw [hstep]
  exact ⟨_, _, responses outs, .ok, rfl, by simp, hsettled⟩

theorem setStepMode_prompt (mode : StepMode) :
    Prompt s opCode cmdSeq (.ok (s.setStepMode mode opCode cmdSeq)) := by
  unfold State.setStepMode
  split
  · exact ⟨_, _, [], .ok, rfl, rfl, .of_same h h.seq rfl rfl⟩
  · exact refused_prompt h opCode cmdSeq .executionError

/-- A run that does not block is answered at once; a blocking one is refused, or answered when the
sequence ends. -/
theorem csRun_answers {env : Env} (henv : env.WellTagged) (fileName : Bytes)
    (b : BlockState) :
    Prompt s opCode cmdSeq (s.csRun w env opCode cmdSeq fileName b) ∨
      b = .block ∧ s.owed = none ∧ ∃ s' outs,
        s.csRun w env opCode cmdSeq fileName b = .ok (s', outs) ∧ responses outs = [] ∧
          Sound s' ∧ s'.runMode = .running ∧ s'.owed = some (opCode, cmdSeq) := by
  unfold State.csRun
  dsimp only
  split
  · exact .inl (refused_prompt h opCode cmdSeq .executionError)
  rename_i hstop
  have hnone := h.idle (not_not.mp hstop)
  split
  · exact .inl (refused_prompt h opCode cmdSeq .executionError)
  rename_i hauto
  have hjoin : s.joinWaiting = false := by
    unfold State.owed State.owes at hnone
    cases hj : s.joinWaiting with
    | false => rfl
    | true => simp [hj] at hnone
  obtain ⟨sequence, events, loaded, hload, hevents, hseq, hmore⟩ :=
    loadFile_total (s := { s with blockState := b, cmdSeq, opCode }) h.seq henv fileName
  rw [hload]
  have hidle : ∀ op seq,
      ({ s with sequence, blockState := .noBlock, opCode := op, cmdSeq := seq } : State).owed =
        s.owed := by
    intro op seq
    rw [hnone]
    simp [State.owed, State.owes, hjoin]
  cases loaded with
  | false =>
    exact .inl ⟨_, _, [], .executionError, rfl, by simp [hevents], .of_same h hseq (hidle 0 0) rfl⟩
  | true =>
    cases hmode : s.stepMode with
    | manual =>
      cases b with
      | block => exact absurd ⟨rfl, hmode⟩ hauto
      | noBlock =>
        exact .inl ⟨_, _, [], .ok, rfl, by simp [hevents],
          .of_same h hseq (hidle opCode cmdSeq) rfl⟩
    | auto =>
      obtain ⟨s', outs, hstart, hsettled⟩ := startAuto_settled w
        (s := { s with blockState := b, cmdSeq, opCode, sequence }) hseq (hmore rfl) env
      simp only [bind, Except.bind, pure, Except.pure, hmode, if_true] at hstart ⊢
      rw [hstart]
      cases b with
      | noBlock =>
        refine .inl ⟨s', _, responses outs, .ok, rfl, by simp [hevents], ?_⟩
        exact hsettled.of_owed (hidle opCode cmdSeq)
      | block =>
        cases hmode' : s'.runMode with
        | running =>
          obtain ⟨hgiven, howed⟩ := hsettled.going hmode'
          exact .inr ⟨rfl, hnone, s', _, rfl, by simp [hevents, hgiven], hsettled.sound, hmode', howed⟩
        | stopped =>
          obtain ⟨r, hgiven⟩ := hsettled.ended hmode'
          refine .inl ⟨s', _, [], r, rfl, by simp [hevents, hgiven, State.owed, State.owes, reply],
            hsettled.sound, fun _ => ⟨.ok, by rw [hnone]; rfl⟩, fun hrun => ?_⟩
          rw [hmode'] at hrun
          cases hrun

theorem csJoinWait_answers :
    Prompt s opCode cmdSeq (.ok (s.csJoinWait opCode cmdSeq)) ∨
      s.runMode = .running ∧ s.owed = none ∧ ∃ s',
        s.csJoinWait opCode cmdSeq = (s', []) ∧ Sound s' ∧ s'.runMode = .running ∧
          s'.owed = some (opCode, cmdSeq) := by
  unfold State.csJoinWait
  split
  · exact .inl (refused_prompt h opCode cmdSeq .ok)
  rename_i hrun
  have hrun := not_not.mp hrun
  split
  · exact .inl (refused_prompt h opCode cmdSeq .executionError)
  rename_i howes
  refine .inr ⟨hrun, if_neg howes, _, rfl, ⟨h.seq, fun hstop => ?_⟩, hrun, ?_⟩
  · change s.runMode = .stopped at hstop
    rw [hrun] at hstop
    cases hstop
  · simp [State.owed, State.owes]

end Commands

section Ports

variable {w : Wiring} (hw : w.seqDone = true) {s : State} (h : Sound s)

include hw h

theorem doSequenceRun_settled {env : Env} (henv : env.WellTagged) (fileName : Bytes) :
    ∃ s' outs, s.doSequenceRun w env fileName = .ok (s', outs) ∧ Settled s s' (responses outs) := by
  have hdone : State.seqDoneUnguarded w .executionError = .ok [.seqDone .executionError] :=
    if_pos hw
  unfold State.doSequenceRun
  simp only [hdone]
  split
  · exact ⟨_, _, rfl, h.settled⟩
  rename_i hmode
  split
  · exact ⟨_, _, rfl, h.settled⟩
  split
  · obtain ⟨sequence, events, loaded, hload, hevents, hseq, hmore⟩ :=
      loadFile_total h.seq henv (setBytes cmdStringMaxSize fileName)
    rw [hload]
    cases loaded with
    | false =>
      refine ⟨_, _, rfl, ?_⟩
      rw [responses_append, hevents]
      exact .of_same h hseq rfl rfl
    | true =>
      obtain ⟨s', outs, hstart, hsettled⟩ :=
        startAuto_settled w (s := { s with sequence }) hseq (hmore rfl) env
      have hauto : s.stepMode = .auto := by
        cases hm : s.stepMode with
        | auto => rfl
        | manual => exact absurd hm hmode
      simp only [bind, Except.bind, pure, Except.pure, hauto, if_true] at hstart ⊢
      rw [hstart]
      refine ⟨s', _, rfl, ?_⟩
      rw [responses_append, hevents]
      exact hsettled.of_owed rfl
  split
  · exact ⟨_, _, rfl, h.settled⟩
  rename_i hmore
  split
  · exact startAuto_settled w h.seq (by simpa using hmore) env
  · exact ⟨_, _, rfl, h.settled⟩

omit hw

theorem cmdResponseIn_settled (env : Env) (response : CmdResponse) :
    ∃ s' outs, s.cmdResponseIn w env response = .ok (s', outs) ∧ Settled s s' (responses outs) := by
  have hclear : Sound { s with cmdTimeoutTimer := s.cmdTimeoutTimer.clear } := ⟨h.seq, h.idle⟩
  unfold State.cmdResponseIn
  dsimp only
  split
  · exact ⟨_, _, rfl, h.settled⟩
  split
  · exact ⟨_, _, rfl, (performCmdCancel_settled w hclear).of_owed rfl⟩
  split
  · split
    · rename_i hmore
      obtain ⟨s', outs, hstep, hsettled⟩ := performCmdStep_settled w hclear hmore env.second
      exact ⟨s', outs, hstep, hsettled.of_owed rfl⟩
    · refine ⟨_, _, rfl, (sequenceComplete_settled w ?_ rfl).of_owed rfl⟩
      exact h.seq
  split
  · refine ⟨_, _, rfl, (sequenceComplete_settled w ?_ rfl).of_owed rfl⟩
    exact h.seq
  · exact ⟨_, _, rfl, .of_same h h.seq rfl rfl⟩

theorem schedIn_settled (env : Env) :
    Settled s (s.schedIn w env).1 (responses (s.schedIn w env).2) := by
  unfold State.schedIn
  split
  · obtain ⟨timer, htimer⟩ :=
      ({ s with cmdTimer := s.cmdTimer.clear } : State).setCmdTimeout_eq env.first
    rw [htimer]
    exact .of_same h h.seq rfl rfl
  split
  · exact performCmdCancel_settled w h
  · exact h.settled

end Ports

/-- The commands whose answer may be put off: a blocking run, and a join of a sequence that
runs. -/
def Waits (w : Wiring) (s : State) (opCode : UInt32) (args : Bytes) : Prop :=
  Opcode.ofOffset (opCode - w.idBase) = some .csRun ∧
      (∃ fileName, csRunArgs args = .ok (fileName, .block)) ∨
    Opcode.ofOffset (opCode - w.idBase) = some .csJoinWait ∧ s.runMode = .running

def Call.command : Call → Option (UInt32 × UInt32)
  | .cmdIn opCode cmdSeq _ => some (opCode, cmdSeq)
  | _ => none

/-- What is settled, and then the answer to the command that is handled, unless it waits for the end
of the sequence. -/
inductive Answers (w : Wiring) (s s' : State) : Call → List Response → Prop where
  | now {opCode cmdSeq : UInt32} {args : Bytes} {given : List Response} {r : CmdResponse} :
      Settled s s' given →
      Answers w s s' (.cmdIn opCode cmdSeq args) (given ++ [⟨opCode, cmdSeq, r⟩])
  | later {opCode cmdSeq : UInt32} {args : Bytes} :
      Waits w s opCode args → s.owed = none → Sound s' → s'.runMode = .running →
      s'.owed = some (opCode, cmdSeq) → Answers w s s' (.cmdIn opCode cmdSeq args) []
  | port {call : Call} {given : List Response} :
      call.command = none → Settled s s' given → Answers w s s' call given

theorem Prompt.answers {opCode cmdSeq : UInt32} {result : Result}
    (h : Prompt s opCode cmdSeq result) (args : Bytes) :
    ∃ s' outs, result = .ok (s', outs) ∧
      Answers w s s' (.cmdIn opCode cmdSeq args) (responses outs) := by
  obtain ⟨s', outs, given, r, hresult, houts, hsettled⟩ := h
  refine ⟨s', outs, hresult, ?_⟩
  rw [houts]
  exact .now hsettled

theorem cmdIn_answers (w : Wiring) (h : Sound s) (henv : env.WellTagged) (opCode cmdSeq : UInt32)
    (args : Bytes) :
    ∃ s' outs, s.cmdIn w env opCode cmdSeq args = .ok (s', outs) ∧
      Answers w s s' (.cmdIn opCode cmdSeq args) (responses outs) := by
  unfold State.cmdIn
  cases hop : Opcode.ofOffset (opCode - w.idBase) with
  | none => exact (refused_prompt h opCode cmdSeq .invalidOpcode).answers args
  | some op =>
    cases op with
    | csRun =>
      cases hargs : csRunArgs args with
      | error r => exact (refused_prompt h opCode cmdSeq r).answers args
      | ok parsed =>
        obtain ⟨fileName, b⟩ := parsed
        rcases csRun_answers w h opCode cmdSeq henv fileName b with
          hprompt | ⟨rfl, hnone, s', outs, hrun, houts, hsound, hmode, howed⟩
        · exact hprompt.answers args
        · refine ⟨s', outs, hrun, ?_⟩
          rw [houts]
          exact .later (.inl ⟨hop, fileName, hargs⟩) hnone hsound hmode howed
    | csValidate =>
      cases csValidateArgs args with
      | error r => exact (refused_prompt h opCode cmdSeq r).answers args
      | ok fileName => exact (csValidate_prompt h opCode cmdSeq henv fileName).answers args
    | csCancel =>
      exact (withoutArgs_prompt h opCode cmdSeq args (csCancel_prompt w h opCode cmdSeq)).answers args
    | csStart =>
      exact (withoutArgs_prompt h opCode cmdSeq args
        (csStart_prompt w h opCode cmdSeq env)).answers args
    | csStep =>
      exact (withoutArgs_prompt h opCode cmdSeq args
        (csStep_prompt w h opCode cmdSeq env)).answers args
    | csAuto =>
      exact (withoutArgs_prompt h opCode cmdSeq args
        (setStepMode_prompt h opCode cmdSeq .auto)).answers args
    | csManual =>
      exact (withoutArgs_prompt h opCode cmdSeq args
        (setStepMode_prompt h opCode cmdSeq .manual)).answers args
    | csJoinWait =>
      rcases csJoinWait_answers h opCode cmdSeq with
        hprompt | ⟨hrun, hnone, s', hjoin, hsound, hmode, howed⟩
      · exact (withoutArgs_prompt h opCode cmdSeq args hprompt).answers args
      · dsimp only [State.withoutArgs]
        split
        · exact (refused_prompt h opCode cmdSeq .formatError).answers args
        · exact ⟨s', [], by rw [hjoin], .later (.inr ⟨hop, hrun⟩) hnone hsound hmode howed⟩

theorem handle_answers (hw : w.seqDone = true) (h : Sound s) {call : Call}
    (henv : (env.loadedBy w call).WellTagged) :
    ∃ s' outs, s.handle w env call = .ok (s', outs) ∧ Answers w s s' call (responses outs) := by
  rw [← handle_loadedBy]
  generalize env.loadedBy w call = env at henv
  cases call with
  | cmdIn opCode cmdSeq args => exact cmdIn_answers w h henv opCode cmdSeq args
  | seqRunIn fileName | seqDispatchIn fileName =>
    obtain ⟨s', outs, hrun, hsettled⟩ := doSequenceRun_settled hw h henv fileName
    exact ⟨s', outs, hrun, .port rfl hsettled⟩
  | seqCancelIn => exact ⟨_, _, rfl, .port rfl (cancelSequence_settled w h)⟩
  | cmdResponseIn opCode cmdSeq response =>
    obtain ⟨s', outs, hrun, hsettled⟩ := cmdResponseIn_settled (w := w) h env response
    exact ⟨s', outs, hrun, .port rfl hsettled⟩
  | schedIn => exact ⟨_, _, rfl, .port rfl (schedIn_settled h env)⟩
  | pingIn key => exact ⟨_, _, rfl, .port rfl h.settled⟩

theorem Answers.sound {call : Call} (h : Answers w s s' call given) : Sound s' := by
  cases h with
  | now hsettled | port _ hsettled => exact hsettled.sound
  | later _ _ hsound _ _ => exact hsound

structure History where
  s : State
  given : List Response

def History.step (w : Wiring) (h : History) (input : Env × Call) : Except Assertion History := do
  let (s, outs) ← h.s.handle w input.1 input.2
  return ⟨s, h.given ++ responses outs⟩

def History.run (w : Wiring) (capacity : Nat) (timeout : UInt32) (inputs : List (Env × Call)) :
    Except Assertion History :=
  inputs.foldlM (History.step w) ⟨.new capacity timeout, []⟩

def Response.command (r : Response) : UInt32 × UInt32 :=
  (r.opCode, r.cmdSeq)

def commands (inputs : List (Env × Call)) : List (UInt32 × UInt32) :=
  inputs.filterMap fun input => input.2.command

/-- Answers given and answers owed make up the commands so far. -/
def Balanced (inputs : List (Env × Call)) (h : History) : Prop :=
  Sound h.s ∧ (h.given.map Response.command ++ h.s.owed.toList).Perm (commands inputs)

theorem Settled.accounts (h : Settled s s' given) :
    given.map Response.command ++ s'.owed.toList = s.owed.toList := by
  cases hmode : s'.runMode with
  | stopped =>
    obtain ⟨r, rfl⟩ := h.ended hmode
    rw [h.sound.idle hmode, map_map]
    cases s.owed <;> rfl
  | running =>
    obtain ⟨rfl, howed⟩ := h.going hmode
    rw [howed]
    rfl

theorem Answers.accounts {call : Call} (h : Answers w s s' call given) :
    (given.map Response.command ++ s'.owed.toList).Perm (s.owed.toList ++ call.command.toList) := by
  cases h with
  | now hsettled =>
    rw [← hsettled.accounts, map_append, append_assoc, append_assoc]
    exact perm_append_comm.append_left _
  | later _ hnone _ _ howed =>
    rw [hnone, howed]
    exact .refl _
  | port hcommand hsettled =>
    rw [hcommand, hsettled.accounts]
    simp

theorem Balanced.step (hw : w.seqDone = true) {past : List (Env × Call)} {h : History}
    (hb : Balanced past h) {input : Env × Call}
    (henv : (input.1.loadedBy w input.2).WellTagged) :
    ∃ h', h.step w input = .ok h' ∧ Balanced (past ++ [input]) h' := by
  obtain ⟨hsound, hperm⟩ := hb
  obtain ⟨s', outs, hhandle, hanswers⟩ := handle_answers hw hsound henv
  refine ⟨⟨s', h.given ++ responses outs⟩, ?_, hanswers.sound, ?_⟩
  · simp only [History.step, hhandle]
    rfl
  · have hsplit : commands (past ++ [input]) = commands past ++ input.2.command.toList := by
      rw [commands, filterMap_append]
      cases hc : input.2.command <;> simp [commands, hc]
    rw [hsplit, map_append, append_assoc]
    refine (hanswers.accounts.append_left _).trans ?_
    rw [← append_assoc]
    exact hperm.append_right _

/-- As long as the files that are loaded have time tags in range, every command is answered once or
is the one whose answer is owed, and none is owed while no sequence runs. -/
theorem every_command_answered_once {w : Wiring} (hw : w.seqDone = true) {capacity : Nat}
    (hcap : sequenceHeaderSize ≤ capacity) (timeout : UInt32) (inputs : List (Env × Call))
    (hfiles : ∀ input ∈ inputs, (input.1.loadedBy w input.2).WellTagged) :
    ∃ h, History.run w capacity timeout inputs = .ok h ∧
      (h.given.map Response.command ++ h.s.owed.toList).Perm (commands inputs) ∧
      (h.s.runMode = .stopped → h.s.owed = none) ∧
      ∀ (env : Env) (call : Call), (env.loadedBy w call).WellTagged → ∃ s' outs,
        h.s.handle w env call = .ok (s', outs) ∧ Answers w h.s s' call (responses outs) := by
  have hnew : Balanced [] ⟨.new capacity timeout, []⟩ :=
    ⟨⟨⟨hcap, ⟨[], .nil⟩, ⟨[], .nil⟩⟩, fun _ => rfl⟩, .refl _⟩
  obtain ⟨h, hrun, hsound, hperm⟩ := total_runM (I := Balanced)
    (fun past h input hb henv => hb.step hw henv) hnew (alongM_of_forall
      (C := fun _ input => (input.1.loadedBy w input.2).WellTagged)
      (fun input hinput _ => hfiles input hinput) _)
  exact ⟨h, hrun, hperm, hsound.idle, fun _ _ henv => handle_answers hw hsound henv⟩

def sequenceFile (numRecords : Nat) (records : Bytes) : Bytes :=
  let header := encodeBE 4 (records.length + sequenceCrcSize) ++ encodeBE 4 numRecords ++
    [0xFF, 0xFF, 0xFF]
  header ++ records ++ encodeBE 4 (Utils.Hash.hashU32 (header ++ records)).toNat

def commandRecord (descEntry : UInt8) (seconds useconds : Nat) (opCode : Nat) : Bytes :=
  descEntry :: encodeBE 4 seconds ++ encodeBE 4 useconds ++ encodeBE 4 6 ++ [0, 0] ++
    encodeBE 4 opCode

def onlyFile (contents : Bytes) (seconds : UInt32) : Env where
  first := ⟨.tbNone, 0, seconds, 0, Time.zero_valid⟩
  second := ⟨.tbNone, 0, seconds, 0, Time.zero_valid⟩
  files _ := .opened { contents }

def connected : Wiring :=
  ⟨0, true, true⟩

def runArgs (blockState : UInt8) : Bytes :=
  [0, 1, 0x61, blockState]

def blockingRun : List (Env × Call) :=
  let env := onlyFile (sequenceFile 1 (commandRecord 0 0 0 5)) 1
  [(env, .cmdIn 0 7 (runArgs 0)), (env, .cmdIn 7 8 []), (env, .cmdResponseIn 5 0 .ok)]

theorem wellTagged_blockingRun :
    ∀ input ∈ blockingRun, (input.1.loadedBy connected input.2).WellTagged := by
  have hfile : WellTagged (sequenceFile 1 (commandRecord 0 0 0 5)) := by decide +kernel
  intro input hinput fileName file hopen _
  obtain ⟨-, hopen⟩ := Env.opened_of_loadedBy hopen
  have hcontents : file.contents = sequenceFile 1 (commandRecord 0 0 0 5) := by
    simp only [blockingRun, mem_cons, not_mem_nil, or_false] at hinput
    rcases hinput with rfl | rfl | rfl <;> cases hopen <;> rfl
  rw [hcontents]
  exact hfile

theorem every_command_answered_once_blocking_run :
    ∃ h, History.run connected 64 0 blockingRun = .ok h ∧
      (h.given.map Response.command ++ h.s.owed.toList).Perm [(0, 7), (7, 8)] ∧
      (h.s.runMode = .stopped → h.s.owed = none) := by
  obtain ⟨h, hrun, hperm, hidle, -⟩ := @every_command_answered_once connected rfl 64 (by decide) 0
    blockingRun wellTagged_blockingRun
  exact ⟨h, hrun, hperm, hidle⟩

/-- A record with a million microseconds stops the component while the run is handled: the command
is never answered. -/
theorem ill_tagged_run_unanswered :
    History.run connected 64 0
      [(onlyFile (sequenceFile 1 (commandRecord 0 0 1000000 5)) 1, .cmdIn 0 7 (runArgs 1))] =
        .error (.timeTag 1000000) := by
  have hfails : failure (History.run connected 64 0
      [(onlyFile (sequenceFile 1 (commandRecord 0 0 1000000 5)) 1, .cmdIn 0 7 (runArgs 1))]) =
        some (.timeTag 1000000) := by decide +kernel
  exact failure_eq_some.mp hfails

end Fprime.Svc.CmdSequencer
