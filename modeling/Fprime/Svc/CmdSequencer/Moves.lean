import Fprime.Svc.CmdSequencer

/-!
# What a message does to the sequence

Every handler does one of a few things to the sequence, the record slot and its timer.
-/

namespace Fprime.Svc.CmdSequencer

open Fw Lib.Runs List State

def readsOf (outs : List Out) : List (Entry × Time) :=
  outs.filterMap fun
    | .nextRecord time entry => some (entry, time)
    | _ => none

def sendsOf (outs : List Out) : List (ComBuffer × Time) :=
  outs.filterMap fun
    | .comCmdOut time command => some (command, time)
    | _ => none

@[simp] theorem readsOf_append (xs ys : List Out) : readsOf (xs ++ ys) = readsOf xs ++ readsOf ys :=
  filterMap_append

@[simp] theorem sendsOf_append (xs ys : List Out) : sendsOf (xs ++ ys) = sendsOf xs ++ sendsOf ys :=
  filterMap_append

@[simp] theorem readsOf_nextRecord (time : Time) (entry : Entry) (outs : List Out) :
    readsOf (.nextRecord time entry :: outs) = (entry, time) :: readsOf outs :=
  rfl

@[simp] theorem sendsOf_nextRecord (time : Time) (entry : Entry) (outs : List Out) :
    sendsOf (.nextRecord time entry :: outs) = sendsOf outs :=
  rfl

def Silent (outs : List Out) : Prop :=
  readsOf outs = [] ∧ sendsOf outs = []

theorem Silent.append {xs ys : List Out} (hx : Silent xs) (hy : Silent ys) : Silent (xs ++ ys) := by
  constructor
  · rw [readsOf_append, hx.1, hy.1, nil_append]
  · rw [sendsOf_append, hx.2, hy.2, nil_append]

theorem silent_emitSeqStart (w : Wiring) (s : State) : Silent (s.emitSeqStart w) := by
  unfold emitSeqStart
  split <;> exact ⟨rfl, rfl⟩

theorem silent_seqDoneGuarded (w : Wiring) (r : CmdResponse) : Silent (seqDoneGuarded w r) := by
  unfold seqDoneGuarded
  split <;> exact ⟨rfl, rfl⟩

theorem silent_seqDoneUnguarded {w : Wiring} {r : CmdResponse} {outs : List Out}
    (h : seqDoneUnguarded w r = .ok outs) : Silent outs := by
  unfold seqDoneUnguarded at h
  split at h
  · cases h
    exact ⟨rfl, rfl⟩
  · cases h

theorem silent_answer (s : State) (r : CmdResponse) : Silent (s.answer r) := by
  unfold answer
  split <;> exact ⟨rfl, rfl⟩

/-- A step at some time: the sequence ends, or a command is sent, or it waits for its time. -/
inductive Steps (now : Time) (s s' : State) : List (Entry × Time) → List (ComBuffer × Time) → Prop
    where
  | ended {rest : Bytes} : readEntry s.sequence.left = .ok (.endOfSequence, rest) →
      s'.runMode = .stopped → s'.sequence = s.sequence.clear → s'.stepMode = s.stepMode →
      s'.cmdTimer = s.cmdTimer → Steps now s s' [(.endOfSequence, now)] []
  | sent {relative : Bool} {tag : Tag} {packet : ComBuffer} {rest : Bytes} :
      readEntry s.sequence.left = .ok (.command relative tag packet, rest) →
      Time.compare now (dueTime s.sequence.header relative tag now) = .gt ∨
        Time.compare now (dueTime s.sequence.header relative tag now) = .eq →
      s'.runMode = s.runMode → s'.sequence = { s.sequence with left := rest } →
      s'.stepMode = s.stepMode → s'.cmdTimer = s.cmdTimer →
      Steps now s s' [(.command relative tag packet, now)] [(packet, now)]
  | deferred {relative : Bool} {tag : Tag} {packet : ComBuffer} {rest : Bytes} :
      readEntry s.sequence.left = .ok (.command relative tag packet, rest) →
      s'.runMode = s.runMode → s'.sequence = { s.sequence with left := rest } →
      s'.stepMode = s.stepMode →
      s'.cmdTimer = ⟨true, dueTime s.sequence.header relative tag now⟩ →
      s'.record.command = packet →
      Steps now s s' [(.command relative tag packet, now)] []

theorem performCmdStep_steps {w : Wiring} {s s' : State} {now : Time} {outs : List Out}
    (h : s.performCmdStep w now = .ok (s', outs)) :
    Steps now s s' (readsOf outs) (sendsOf outs) := by
  cases hread : readEntry s.sequence.left with
  | error e =>
    unfold performCmdStep FPrimeSequence.nextRecord at h
    cases e <;> simp [deserializeRecord, hread, Except.map, bind, Except.bind] at h
  | ok r =>
    obtain ⟨entry, rest⟩ := r
    cases entry with
    | endOfSequence =>
      obtain ⟨record, hstep⟩ := performCmdStep_endOfSequence hread w now
      rw [hstep] at h
      cases h
      have hsilent := (silent_seqDoneGuarded w .ok).append (silent_answer { s with
        sequence := { s.sequence with left := rest }, record := record, runMode := .stopped } .ok)
      simp only [readsOf_nextRecord, sendsOf_nextRecord, sequenceComplete, hsilent.1, hsilent.2]
      exact .ended hread rfl rfl rfl rfl
    | command relative tag packet =>
      rw [performCmdStep_command hread] at h
      dsimp only [performCmdStepAbsolute] at h
      split at h
      · rename_i hdue
        obtain ⟨timer, htimer⟩ := setCmdTimeout_eq _ now
        rw [htimer] at h
        cases h
        exact .sent hread hdue rfl rfl rfl rfl
      · cases h
        exact .deferred hread rfl rfl rfl rfl rfl

theorem Steps.nonempty {now : Time} {s s' : State} {reads : List (Entry × Time)}
    {sends : List (ComBuffer × Time)} (h : Steps now s s' reads sends) :
    s.sequence.left ≠ [] ∧ (s.runMode = .running → s'.runMode = .stopped → sends = []) := by
  have hne : ∀ {r : Entry × Bytes}, readEntry s.sequence.left = .ok r → s.sequence.left ≠ [] := by
    intro r hread hnil
    have hlt := length_of_readEntry hread
    rw [hnil] at hlt
    exact Nat.not_lt_zero _ hlt
  cases h with
  | ended hread _ _ _ _ | deferred hread _ _ _ _ _ => exact ⟨hne hread, fun _ _ => rfl⟩
  | sent hread _ hmode _ _ _ =>
    refine ⟨hne hread, fun hrun hstop => ?_⟩
    rw [hmode, hrun] at hstop
    cases hstop

theorem Steps.of_frame {now : Time} {s1 s s' : State} {reads : List (Entry × Time)}
    {sends : List (ComBuffer × Time)} (h : Steps now s1 s' reads sends)
    (hseq : s1.sequence = s.sequence) (hrun : s1.runMode = s.runMode)
    (hstep : s1.stepMode = s.stepMode) (htimer : s1.cmdTimer = s.cmdTimer) :
    Steps now s s' reads sends := by
  cases h with
  | ended hread h1 h2 h3 h4 =>
    rw [hseq] at hread h2
    exact .ended hread h1 h2 (h3.trans hstep) (h4.trans htimer)
  | sent hread hdue h1 h2 h3 h4 =>
    rw [hseq] at hread hdue h2
    exact .sent hread hdue (h1.trans hrun) h2 (h3.trans hstep) (h4.trans htimer)
  | deferred hread h1 h2 h3 h4 h5 =>
    rw [hseq] at hread h2 h4
    exact .deferred hread (h1.trans hrun) h2 (h3.trans hstep) h4 h5

/-- What a handler may make of the sequence before it starts: it keeps it, loads another one, or
is left with none. -/
inductive Loads (env : Env) (seq seq' : FPrimeSequence) : Prop where
  | kept : seq' = seq → Loads env seq seq'
  | loaded {fileName : Bytes} :
      seq.loadFile fileName (env.files fileName) env.first = .ok seq' → Loads env seq seq'
  | cleared : seq'.data = [] → seq'.left = [] → Loads env seq seq'

/-- The messages upon which a running sequence goes on: a step in the manual mode, an answer in the
automatic one. -/
inductive Triggers (w : Wiring) (s : State) : Call → Prop where
  | step {opCode cmdSeq : UInt32} {args : Bytes} :
      Opcode.ofOffset (opCode - w.idBase) = some .csStep → s.stepMode = .manual →
      Triggers w s (.cmdIn opCode cmdSeq args)
  | answer {opCode cmdSeq : UInt32} {response : CmdResponse} :
      s.stepMode = .auto → Triggers w s (.cmdResponseIn opCode cmdSeq response)

inductive Move (w : Wiring) (env : Env) (s s' : State) :
    Call → List (Entry × Time) → List (ComBuffer × Time) → Prop where
  | still {call : Call} : s'.runMode = s.runMode → s'.stepMode = s.stepMode →
      s'.sequence = s.sequence → s'.record = s.record → s'.cmdTimer = s.cmdTimer →
      Move w env s s' call [] []
  | idle {call : Call} : s.runMode = .stopped → s'.runMode = .stopped →
      Loads env s.sequence s'.sequence → s'.cmdTimer = s.cmdTimer → Move w env s s' call [] []
  | cancel {call : Call} : s'.runMode = .stopped → s'.sequence = s.sequence.reset →
      s'.cmdTimer.armed = false → Move w env s s' call [] []
  | finish {opCode cmdSeq : UInt32} {response : CmdResponse} : s.runMode = .running →
      s.sequence.hasMoreRecords = false → s'.runMode = .stopped →
      s'.sequence = s.sequence.clear → s'.cmdTimer = s.cmdTimer →
      Move w env s s' (.cmdResponseIn opCode cmdSeq response) [] []
  | step {call : Call} {reads : List (Entry × Time)} {sends : List (ComBuffer × Time)} :
      s.runMode = .running → Triggers w s call → Steps env.second s s' reads sends →
      Move w env s s' call reads sends
  | start {call : Call} {seq : FPrimeSequence} {reads : List (Entry × Time)}
      {sends : List (ComBuffer × Time)} : s.runMode = .stopped → Loads env s.sequence seq →
      Steps env.second { s with sequence := seq, runMode := .running } s' reads sends →
      Move w env s s' call reads sends
  | tick : s.cmdTimer.isExpiredAt env.first = true → s'.runMode = s.runMode →
      s'.stepMode = s.stepMode → s'.sequence = s.sequence → s'.cmdTimer.armed = false →
      Move w env s s' .schedIn [] [(s.record.command, env.first)]

def Moves (w : Wiring) (env : Env) (s : State) (call : Call)
    (result : Result) : Prop :=
  ∀ s' outs, result = .ok (s', outs) → Move w env s s' call (readsOf outs) (sendsOf outs)

section

variable {w : Wiring} {env : Env} {s : State} {call : Call}

theorem Moves.of_silent {s' : State} {outs : List Out} (houts : Silent outs)
    (h : Move w env s s' call [] []) : Moves w env s call (.ok (s', outs)) := by
  intro t touts ht
  cases ht
  rw [houts.1, houts.2]
  exact h

variable (opCode cmdSeq : UInt32) (fileName : Bytes)

theorem Moves.refused (r : CmdResponse) :
    Moves w env s call (.ok (s, [.cmdResponse ⟨opCode, cmdSeq, r⟩])) :=
  .of_silent ⟨rfl, rfl⟩ (.still rfl rfl rfl rfl rfl)

theorem loadFile_loads {s' : State} {fileName : Bytes} {events : List Out} {loaded : Bool}
    (h : s.loadFile env fileName = .ok (s', events, loaded)) :
    ∃ seq, s' = { s with sequence := seq } ∧ Loads env s.sequence seq ∧ Silent events := by
  unfold loadFile at h
  split at h
  · rename_i seq hload
    cases h
    exact ⟨seq, rfl, .loaded hload, rfl, rfl⟩
  · cases h
    exact ⟨_, rfl, .cleared rfl rfl, rfl, rfl⟩
  · cases h

theorem startAuto_moves {s1 : State} (hstop : s.runMode = .stopped)
    (hloads : Loads env s.sequence s1.sequence) (hstep : s1.stepMode = s.stepMode)
    (htimer : s1.cmdTimer = s.cmdTimer) : Moves w env s call (s1.startAuto w env) := by
  intro s' outs h
  unfold startAuto at h
  obtain ⟨⟨s2, outs2⟩, hrun, h⟩ := bind_eq_ok.mp h
  cases h
  rw [readsOf_append, sendsOf_append, (silent_emitSeqStart w _).1, (silent_emitSeqStart w _).2,
    nil_append, nil_append]
  exact .start hstop hloads ((performCmdStep_steps hrun).of_frame rfl rfl hstep htimer)

theorem performCmdCancel_moves : Moves w env s call (.ok (s.performCmdCancel w)) :=
  .of_silent ((silent_seqDoneGuarded w _).append (silent_answer s _)) (.cancel rfl rfl rfl)

theorem csRun_moves (b : BlockState) :
    Moves w env s call (s.csRun w env opCode cmdSeq fileName b) := by
  unfold csRun
  dsimp only
  split
  · exact Moves.refused opCode cmdSeq .executionError
  rename_i hstop
  split
  · exact Moves.refused opCode cmdSeq .executionError
  intro s' outs h
  obtain ⟨⟨s1, events, loaded⟩, hload, h⟩ := bind_eq_ok.mp h
  obtain ⟨seq, rfl, hloads, hevents⟩ := loadFile_loads hload
  dsimp only at h hloads
  have hrespond : Silent (if b = .noBlock then [Out.cmdResponse ⟨opCode, cmdSeq, .ok⟩] else []) := by
    split <;> exact ⟨rfl, rfl⟩
  split at h
  · split at h
    · obtain ⟨⟨s2, outs2⟩, hstart, h⟩ := bind_eq_ok.mp h
      cases h
      rw [readsOf_append, readsOf_append, sendsOf_append, sendsOf_append, hevents.1, hevents.2,
        hrespond.1, hrespond.2, nil_append, nil_append, append_nil, append_nil]
      refine startAuto_moves (not_not.mp hstop) ?_ ?_ ?_ _ _ hstart
      · exact hloads
      · rfl
      · rfl
    · cases h
      rw [((hevents.append ⟨rfl, rfl⟩).append hrespond).1,
        ((hevents.append ⟨rfl, rfl⟩).append hrespond).2]
      exact .idle (not_not.mp hstop) (not_not.mp hstop) hloads rfl
  · cases h
    rw [readsOf_append, sendsOf_append, hevents.1, hevents.2]
    exact .idle (not_not.mp hstop) (not_not.mp hstop) hloads rfl

theorem csValidate_moves :
    Moves w env s call (s.csValidate env opCode cmdSeq fileName) := by
  unfold csValidate
  dsimp only
  split
  · exact Moves.refused opCode cmdSeq .executionError
  rename_i hstop
  intro s' outs h
  obtain ⟨⟨s1, events, loaded⟩, hload, h⟩ := bind_eq_ok.mp h
  obtain ⟨seq, rfl, hloads, hevents⟩ := loadFile_loads hload
  dsimp only at h
  split at h
  · cases h
    rw [readsOf_append, sendsOf_append, hevents.1, hevents.2]
    exact .idle (not_not.mp hstop) (not_not.mp hstop) (.cleared rfl rfl) rfl
  · cases h
    rw [readsOf_append, sendsOf_append, hevents.1, hevents.2]
    exact .idle (not_not.mp hstop) (not_not.mp hstop) hloads rfl

theorem cancelSequence_moves : Moves w env s call (.ok (s.cancelSequence w)) := by
  unfold cancelSequence
  split
  · exact performCmdCancel_moves
  · exact .of_silent ⟨rfl, rfl⟩ (.still rfl rfl rfl rfl rfl)

theorem csStart_moves :
    Moves w env s call (s.csStart w env opCode cmdSeq) := by
  unfold csStart
  dsimp only
  split
  · exact Moves.refused opCode cmdSeq .executionError
  split
  · exact Moves.refused opCode cmdSeq .executionError
  rename_i hstop
  intro s' outs h
  obtain ⟨⟨s1, outs1⟩, hrun, h⟩ := bind_eq_ok.mp h
  cases h
  have hend : Silent (s1.emitSeqStart w ++ [Out.cmdResponse ⟨opCode, cmdSeq, .ok⟩]) :=
    (silent_emitSeqStart w s1).append ⟨rfl, rfl⟩
  dsimp only
  rw [append_assoc, readsOf_append, sendsOf_append, hend.1, hend.2, append_nil,
    append_nil]
  exact .start (not_not.mp hstop) (.kept rfl) ((performCmdStep_steps hrun).of_frame rfl rfl rfl rfl)

theorem csStep_moves {opCode cmdSeq : UInt32} {args : Bytes}
    (hop : Opcode.ofOffset (opCode - w.idBase) = some .csStep) :
    Moves w env s (.cmdIn opCode cmdSeq args) (s.csStep w env opCode cmdSeq) := by
  unfold csStep
  dsimp only
  split
  · exact Moves.refused opCode cmdSeq .executionError
  rename_i hrunning
  split
  · exact Moves.refused opCode cmdSeq .executionError
  rename_i hmanual
  split
  · exact Moves.refused opCode cmdSeq .executionError
  intro s' outs h
  obtain ⟨⟨s1, outs1⟩, hrun, h⟩ := bind_eq_ok.mp h
  cases h
  dsimp only
  rw [readsOf_append, sendsOf_append, show readsOf [Out.cmdResponse ⟨opCode, cmdSeq, .ok⟩] = [] from rfl,
    show sendsOf [Out.cmdResponse ⟨opCode, cmdSeq, .ok⟩] = [] from rfl, append_nil,
    append_nil]
  exact .step (not_not.mp hrunning) (.step hop (not_not.mp hmanual)) (performCmdStep_steps hrun)

theorem setStepMode_moves (mode : StepMode) (opCode cmdSeq : UInt32) :
    Moves w env s call (.ok (s.setStepMode mode opCode cmdSeq)) := by
  unfold setStepMode
  split
  · rename_i hstop
    exact .of_silent ⟨rfl, rfl⟩ (.idle hstop hstop (.kept rfl) rfl)
  · exact Moves.refused opCode cmdSeq .executionError

theorem csJoinWait_moves :
    Moves w env s call (.ok (s.csJoinWait opCode cmdSeq)) := by
  unfold csJoinWait
  split
  · exact Moves.refused opCode cmdSeq .ok
  split
  · exact Moves.refused opCode cmdSeq .executionError
  · exact .of_silent ⟨rfl, rfl⟩ (.still rfl rfl rfl rfl rfl)

theorem withoutArgs_moves (args : Bytes)
    {handler : Result} (h : Moves w env s call handler) :
    Moves w env s call (s.withoutArgs opCode cmdSeq args handler) := by
  unfold withoutArgs
  split
  · exact Moves.refused opCode cmdSeq .formatError
  · exact h

theorem cmdIn_moves (args : Bytes) :
    Moves w env s (.cmdIn opCode cmdSeq args) (s.cmdIn w env opCode cmdSeq args) := by
  unfold cmdIn
  cases hop : Opcode.ofOffset (opCode - w.idBase) with
  | none => exact Moves.refused opCode cmdSeq .invalidOpcode
  | some op =>
    cases op with
    | csRun =>
      cases hargs : csRunArgs args with
      | error r => exact Moves.refused opCode cmdSeq r
      | ok parsed => exact csRun_moves opCode cmdSeq parsed.1 parsed.2
    | csValidate =>
      cases csValidateArgs args with
      | error r => exact Moves.refused opCode cmdSeq r
      | ok fileName => exact csValidate_moves opCode cmdSeq fileName
    | csCancel =>
      refine withoutArgs_moves opCode cmdSeq args ?_
      intro s' outs h
      cases h
      have hmove := @cancelSequence_moves w env s (.cmdIn opCode cmdSeq args) _ _ rfl
      simpa [csCancel, readsOf, sendsOf] using hmove
    | csStart => exact withoutArgs_moves opCode cmdSeq args (csStart_moves opCode cmdSeq)
    | csStep => exact withoutArgs_moves opCode cmdSeq args (csStep_moves hop)
    | csAuto => exact withoutArgs_moves opCode cmdSeq args (setStepMode_moves .auto opCode cmdSeq)
    | csManual => exact withoutArgs_moves opCode cmdSeq args (setStepMode_moves .manual opCode cmdSeq)
    | csJoinWait => exact withoutArgs_moves opCode cmdSeq args (csJoinWait_moves opCode cmdSeq)

theorem doSequenceRun_moves :
    Moves w env s call (s.doSequenceRun w env fileName) := by
  have hrefused : Moves w env s call (do
      let done ← seqDoneUnguarded w .executionError
      return (s, done)) := by
    intro s' outs h
    obtain ⟨done, hdone, h⟩ := bind_eq_ok.mp h
    cases h
    rw [(silent_seqDoneUnguarded hdone).1, (silent_seqDoneUnguarded hdone).2]
    exact .still rfl rfl rfl rfl rfl
  unfold doSequenceRun
  split
  · exact hrefused
  split
  · exact hrefused
  rename_i hstop
  have hstop := not_not.mp hstop
  split
  · intro s' outs h
    obtain ⟨⟨s1, events, loaded⟩, hload, h⟩ := bind_eq_ok.mp h
    obtain ⟨seq, rfl, hloads, hevents⟩ := loadFile_loads hload
    dsimp only at h
    split at h
    · split at h
      · obtain ⟨⟨s2, outs2⟩, hstart, h⟩ := bind_eq_ok.mp h
        cases h
        rw [readsOf_append, sendsOf_append, hevents.1, hevents.2, nil_append, nil_append]
        refine startAuto_moves hstop ?_ ?_ ?_ _ _ hstart
        · exact hloads
        · rfl
        · rfl
      · cases h
        rw [readsOf_append, sendsOf_append, hevents.1, hevents.2]
        exact .idle hstop hstop hloads rfl
    · obtain ⟨done, hdone, h⟩ := bind_eq_ok.mp h
      cases h
      rw [(hevents.append (silent_seqDoneUnguarded hdone)).1,
        (hevents.append (silent_seqDoneUnguarded hdone)).2]
      exact .idle hstop hstop hloads rfl
  split
  · exact hrefused
  split
  · exact startAuto_moves hstop (.kept rfl) rfl rfl
  · exact .of_silent ⟨rfl, rfl⟩ (.still rfl rfl rfl rfl rfl)

theorem cmdResponseIn_moves (response : CmdResponse) :
    Moves w env s (.cmdResponseIn opCode cmdSeq response) (s.cmdResponseIn w env response) := by
  unfold cmdResponseIn
  dsimp only
  split
  · exact .of_silent ⟨rfl, rfl⟩ (.still rfl rfl rfl rfl rfl)
  rename_i hrun
  have hrun : s.runMode = .running := by
    cases hm : s.runMode with
    | running => rfl
    | stopped => exact absurd hm hrun
  have hfinish : s.sequence.hasMoreRecords = false → Moves w env s
      (.cmdResponseIn opCode cmdSeq response) (.ok (sequenceComplete w { s with
        cmdTimeoutTimer := s.cmdTimeoutTimer.clear, runMode := .stopped })) := by
    intro hmore
    exact .of_silent ((silent_seqDoneGuarded w _).append (silent_answer _ _))
      (.finish hrun hmore rfl rfl rfl)
  split
  · exact .of_silent ((silent_seqDoneGuarded w _).append (silent_answer _ _)) (.cancel rfl rfl rfl)
  split
  · rename_i hauto
    split
    · intro s' outs h
      exact .step hrun (.answer hauto) ((performCmdStep_steps h).of_frame rfl rfl rfl rfl)
    · rename_i hmore
      exact hfinish (by simpa using hmore)
  split
  · rename_i hmore
    exact hfinish (by simpa using hmore)
  · exact .of_silent ⟨rfl, rfl⟩ (.still rfl rfl rfl rfl rfl)

theorem schedIn_moves : Moves w env s .schedIn (.ok (s.schedIn w env)) := by
  unfold schedIn
  split
  · rename_i hexpired
    obtain ⟨timer, htimer⟩ :=
      ({ s with cmdTimer := s.cmdTimer.clear } : State).setCmdTimeout_eq env.first
    rw [htimer]
    intro s' outs h
    cases h
    exact .tick hexpired rfl rfl rfl rfl
  split
  · exact performCmdCancel_moves
  · exact .of_silent ⟨rfl, rfl⟩ (.still rfl rfl rfl rfl rfl)

theorem handle_moves (call : Call) : Moves w env s call (s.handle w env call) := by
  cases call with
  | cmdIn opCode cmdSeq args => exact cmdIn_moves opCode cmdSeq args
  | seqRunIn fileName | seqDispatchIn fileName => exact doSequenceRun_moves fileName
  | seqCancelIn => exact cancelSequence_moves
  | cmdResponseIn opCode cmdSeq response => exact cmdResponseIn_moves opCode cmdSeq response
  | schedIn => exact schedIn_moves
  | pingIn key => exact .of_silent ⟨rfl, rfl⟩ (.still rfl rfl rfl rfl rfl)

end

end Fprime.Svc.CmdSequencer
