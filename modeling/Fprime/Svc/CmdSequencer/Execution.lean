import Fprime.Svc.CmdSequencer.Moves
import Fprime.Svc.CmdSequencer.Responses
import Fprime.Lib.Lists

/-!
# Executions

The commands of a sequence go out in the order of the file, each once and not before its time, as
long as the sequencer takes no record while another one waits for its time: it takes any answer for
the answer to the command it sent last.
-/

namespace Fprime.Svc.CmdSequencer

open Fw Lib.Runs List Prod

def Entry.packet : Entry → Option ComBuffer
  | .command _ _ packet => some packet
  | .endOfSequence => none

def Tag.micros (tag : Tag) : Nat :=
  tag.seconds.toNat * 1000000 + tag.useconds.toNat

/-- The time, in microseconds, before which a record that is taken at some time is not due. -/
def Entry.due (readAt : Time) : Entry → Nat
  | .command relative tag _ => tag.micros + if relative then readAt.micros else 0
  | .endOfSequence => 0

/-- The records of an execution, its first command, and the records taken and commands sent, with
their times. -/
structure Execution where
  mode : StepMode
  data : Bytes
  first : Nat
  reads : List (Entry × Time)
  sends : List (ComBuffer × Time)

namespace Execution

def extend (e : Execution) (reads : List (Entry × Time)) (sends : List (ComBuffer × Time)) :
    Execution :=
  { e with reads := e.reads ++ reads, sends := e.sends ++ sends }

@[simp] theorem extend_nil (e : Execution) : e.extend [] [] = e := by
  simp [extend]

/-- Every command that has been sent is that of the record taken in its turn, and was due. -/
def Timely (e : Execution) : Prop :=
  ∀ (j : Nat) (send : ComBuffer × Time), e.sends[j]? = some send →
    ∃ read : Entry × Time, e.reads[j]? = some read ∧ read.1.packet = some send.1 ∧
      read.1.due read.2 ≤ send.2.micros

variable {e : Execution}

theorem Timely.extend_reads (h : e.Timely) (reads : List (Entry × Time)) :
    (e.extend reads []).Timely := by
  intro j send hsend
  simp only [extend, append_nil] at hsend ⊢
  obtain ⟨read, hread, hpacket, hdue⟩ := h j send hsend
  obtain ⟨hlt, -⟩ := List.getElem?_eq_some_iff.mp hread
  exact ⟨read, by rw [getElem?_append_left hlt, hread], hpacket, hdue⟩

theorem Timely.extend_send (h : e.Timely) {read : Entry × Time}
    (hread : e.reads[e.sends.length]? = some read) {send : ComBuffer × Time}
    (hpacket : read.1.packet = some send.1) (hdue : read.1.due read.2 ≤ send.2.micros) :
    (e.extend [] [send]).Timely := by
  intro j send' hsend
  simp only [extend, append_nil] at hsend ⊢
  rcases Lib.Lists.getElem?_concat_eq_some.mp hsend with hold | ⟨rfl, rfl⟩
  · exact h j send' hold
  · exact ⟨read, hread, hpacket, hdue⟩

/-- The commands are sent in order, none skipped, none twice and none too early, and in the
automatic mode one after the other's answer. -/
structure Faithful (answered : List Nat) (e : Execution) : Prop where
  reads_in_order : e.reads.map fst <+: entriesOf e.data
  sends_in_order : e.sends.map fst <+: (entriesOf e.data).filterMap Entry.packet
  timely : e.Timely
  after_answer : e.mode = .auto → ∀ j, j + 1 < e.reads.length →
    j < e.sends.length ∧ e.first + j ∈ answered

theorem Faithful.mono {answered answered' : List Nat} (h : e.Faithful answered)
    (hsub : answered ⊆ answered') : e.Faithful answered' where
  reads_in_order := h.reads_in_order
  sends_in_order := h.sends_in_order
  timely := h.timely
  after_answer hauto j hj := ⟨(h.after_answer hauto j hj).1, hsub (h.after_answer hauto j hj).2⟩

theorem sends_in_file_order (hreads : e.reads.map fst <+: entriesOf e.data)
    (htimely : e.Timely) :
    e.sends.map fst <+: (entriesOf e.data).filterMap Entry.packet := by
  have hsends : e.sends.map fst =
      (e.reads.take e.sends.length).filterMap fun read => read.1.packet := by
    refine Lib.Lists.map_eq_filterMap_take fun j send hsend => ?_
    obtain ⟨read, hread, hpacket, -⟩ := htimely j send hsend
    exact ⟨read, hread, hpacket⟩
  have hmap : ((e.reads.take e.sends.length).filterMap fun read => read.1.packet) =
      ((e.reads.take e.sends.length).map fst).filterMap Entry.packet := by
    rw [filterMap_map]
    rfl
  rw [hsends, hmap]
  have hfront : (e.reads.take e.sends.length).map fst <+: e.reads.map fst :=
    ( take_prefix _ _).map _
  exact (hfront.trans hreads).filterMap _

end Execution

/-- A message. An answer goes with the number of the command it answers, which the sequencer does
not see. -/
structure Input where
  env : Env
  call : Call
  command : Nat

/-- The component, the commands sent and answered, its executions, the latest first, and the
commands outside of any. -/
structure Log where
  s : State
  sent : Nat
  answered : List Nat
  executions : List Execution
  strays : List (ComBuffer × Time)

namespace Log

def new (capacity : Nat) (timeout : UInt32) : Log :=
  ⟨.new capacity timeout, 0, [], [], []⟩

def answeredAfter (l : Log) (i : Input) : List Nat :=
  match i.call with
  | .cmdResponseIn _ _ _ => i.command :: l.answered
  | _ => l.answered

def observe (l : Log) (i : Input) (s : State) (reads : List (Entry × Time))
    (sends : List (ComBuffer × Time)) : Log where
  s := s
  sent := l.sent + sends.length
  answered := l.answeredAfter i
  executions :=
    match l.s.runMode, s.runMode, l.executions with
    | .running, _, e :: rest => e.extend reads sends :: rest
    | .running, _, [] => []
    | .stopped, .running, rest => ⟨s.stepMode, s.sequence.data, l.sent, reads, sends⟩ :: rest
    | .stopped, .stopped, rest => rest
  strays :=
    match l.s.runMode, s.runMode with
    | .stopped, .stopped => l.strays ++ sends
    | _, _ => l.strays

def step (w : Wiring) (l : Log) (i : Input) : Except Assertion Log := do
  let (s, outs) ← l.s.handle w i.env i.call
  return l.observe i s (readsOf outs) (sendsOf outs)

def run (w : Wiring) (capacity : Nat) (timeout : UInt32) (inputs : List Input) :
    Except Assertion Log :=
  inputs.foldlM (step w) (new capacity timeout)

end Log

def Call.isAnswer : Call → Bool
  | .cmdResponseIn _ _ _ => true
  | _ => false

def Call.isStep (w : Wiring) : Call → Bool
  | .cmdIn opCode _ _ => Opcode.ofOffset (opCode - w.idBase) = some .csStep
  | _ => false

/-- The times are on one base, and every command is answered at most once. -/
def Legal (base : TimeBase) (l : Log) (i : Input) : Prop :=
  i.env.first.timeBase = base ∧ i.env.second.timeBase = base ∧
    (i.call.isAnswer = true → i.command < l.sent ∧ i.command ∉ l.answered)
  deriving Decidable

/-- A relative time, counted from now, stays within the seconds of a time. -/
def Entry.Fits (now : Time) : Entry → Prop
  | .command relative tag _ => relative = true → tag.micros + now.micros < 2 ^ 32 * 1000000
  | .endOfSequence => True

instance (now : Time) (entry : Entry) : Decidable (entry.Fits now) := by
  cases entry <;> unfold Entry.Fits <;> infer_instance

/-- An answer that comes while a sequence runs is to a command of this execution; in the manual mode
nothing comes while a record waits for its time; and no relative time overflows. -/
def InTurn (w : Wiring) (l : Log) (i : Input) : Prop :=
  (i.call.isAnswer = true → l.s.runMode = .running →
    (∀ e ∈ l.executions.take 1, e.first ≤ i.command) ∧
      (l.s.stepMode = .manual → l.s.cmdTimer.armed = false)) ∧
  (i.call.isStep w = true → l.s.cmdTimer.armed = false) ∧
  ∀ entry ∈ entriesOf l.s.sequence.data, entry.Fits i.env.second
  deriving Decidable

/-- Nor does a relative time of the sequence that the message loads. -/
def FilesFit (w : Wiring) (l : Log) (i : Input) : Prop :=
  ∀ fileName ∈ i.call.fileName w, ∀ seq,
    l.s.sequence.loadFile fileName (i.env.files fileName) i.env.first = .ok seq →
      ∀ entry ∈ entriesOf seq.data, entry.Fits i.env.second

/-- The records left are those not taken yet, and each command has been sent and, in the automatic
mode, answered. -/
structure Ready (answered : List Nat) (seq : FPrimeSequence) (e : Execution) : Prop where
  data : e.data = seq.data
  left : ∃ entries, Reads seq.left entries ∧ e.reads.map fst ++ entries = entriesOf e.data
  count : e.sends.length = e.reads.length
  timely : e.Timely
  after_answer : e.mode = .auto → ∀ j, j < e.sends.length → e.first + j ∈ answered

/-- The execution that runs. If the timer is armed, the record taken last is in the slot and waits
for its time. -/
structure Current (base : TimeBase) (s : State) (e : Execution) : Prop where
  mode : e.mode = s.stepMode
  data : e.data = s.sequence.data
  left : ∃ entries, Reads s.sequence.left entries ∧
    e.reads.map fst ++ entries = entriesOf e.data
  count : e.sends.length + s.cmdTimer.armed.toNat = e.reads.length
  pending : s.cmdTimer.armed = true → ∃ read, e.reads[e.sends.length]? = some read ∧
    read.1.packet = some s.record.command ∧
    read.1.due read.2 = s.cmdTimer.expirationTime.micros ∧
    s.cmdTimer.expirationTime.timeBase = base

def FromFile (inputs : List Input) (data : Bytes) : Prop :=
  ∃ i ∈ inputs, ∃ fileName file, i.env.files fileName = .opened file ∧
    data = recordBlock file.contents

structure SeqOk (base : TimeBase) (inputs : List Input) (seq : FPrimeSequence) : Prop where
  reads : ∃ entries, Reads seq.data entries
  loaded : seq.data ≠ [] → seq.header.timeBase = base ∧ FromFile inputs seq.data

structure Inv (base : TimeBase) (inputs : List Input) (l : Log) : Prop where
  seq : SeqOk base inputs l.s.sequence
  stopped : l.s.runMode = .stopped →
    l.s.sequence.left = l.s.sequence.data ∧ l.s.cmdTimer.armed = false
  running : l.s.runMode = .running → ∃ e rest, l.executions = e :: rest ∧
    Current base l.s e ∧ l.sent = e.first + e.sends.length
  faithful : ∀ e ∈ l.executions, e.Faithful l.answered ∧ FromFile inputs e.data
  strays : l.strays = []

theorem dueTime_timeBase (header : SequenceHeader) (relative : Bool) (tag : Tag) (now : Time) :
    (State.dueTime header relative tag now).timeBase = header.timeBase := by
  cases relative <;> simp [State.dueTime]

theorem dueTime_micros {header : SequenceHeader} {relative : Bool} {tag : Tag} {now : Time}
    (h : relative = true → tag.micros + now.micros < 2 ^ 32 * 1000000) (packet : ComBuffer) :
    (State.dueTime header relative tag now).micros = (Entry.command relative tag packet).due now := by
  have htag : (Time.mk header.timeBase header.timeContext tag.seconds tag.useconds
      tag.valid).micros = tag.micros := by
    simp only [Time.micros, Tag.micros]
  cases relative with
  | false => simp [State.dueTime, Entry.due, htag]
  | true =>
    have hlt := h rfl
    rw [← htag] at hlt
    simp [State.dueTime, Entry.due, Time.micros_addDuration hlt, htag]

section Steps

variable {base : TimeBase} {answered : List Nat} {s s' : State} {e : Execution} {now : Time}

theorem Ready.read (h : Ready answered s.sequence e) {entry : Entry} {rest : Bytes}
    (hread : readEntry s.sequence.left = .ok (entry, rest)) (now : Time) :
    entry ∈ entriesOf s.sequence.data ∧ s.sequence.data ≠ [] ∧
      (e.extend [(entry, now)] []).Faithful answered ∧
      ∃ entries, Reads rest entries ∧
        (e.reads ++ [(entry, now)]).map fst ++ entries = entriesOf e.data := by
  obtain ⟨entries, hleft, hall⟩ := h.left
  obtain ⟨later, rfl, hlater⟩ := hleft.of_readEntry hread
  have hmem : entry ∈ entriesOf s.sequence.data := by
    rw [← h.data, ← hall]
    simp
  have hall' : (e.reads ++ [(entry, now)]).map fst ++ later = entriesOf e.data := by
    simpa using hall
  have hfront : (e.extend [(entry, now)] []).reads.map fst <+: entriesOf e.data := ⟨later, hall'⟩
  have htimely := h.timely.extend_reads [(entry, now)]
  refine ⟨hmem, ?_, ⟨hfront, Execution.sends_in_file_order hfront htimely, htimely, ?_⟩, later, hlater,
    hall'⟩
  · intro hnil
    rw [hnil] at hmem
    cases hmem
  · intro hauto j hj
    simp only [Execution.extend, length_append, length_singleton, append_nil] at hj ⊢
    have hlt : j < e.sends.length := by
      rw [h.count]
      omega
    exact ⟨hlt, h.after_answer hauto j hlt⟩

theorem Execution.Faithful.send (h : e.Faithful answered) {read : Entry × Time}
    (hread : e.reads[e.sends.length]? = some read) {send : ComBuffer × Time}
    (hpacket : read.1.packet = some send.1) (hdue : read.1.due read.2 ≤ send.2.micros) :
    (e.extend [] [send]).Faithful answered := by
  have htimely := h.timely.extend_send hread hpacket hdue
  have hreads : (e.extend [] [send]).reads.map fst <+: entriesOf (e.extend [] [send]).data := by
    simpa [Execution.extend] using h.reads_in_order
  refine ⟨hreads, Execution.sends_in_file_order hreads htimely, htimely, fun hauto j hj => ?_⟩
  simp only [Execution.extend, append_nil, length_append, length_singleton] at hj ⊢
  obtain ⟨hlt, hmem⟩ := h.after_answer hauto j hj
  exact ⟨by omega, hmem⟩

theorem Ready.steps (h : Ready answered s.sequence e) (hmode : e.mode = s.stepMode)
    (harmed : s.cmdTimer.armed = false)
    (hbase : s.sequence.data ≠ [] → s.sequence.header.timeBase = base)
    (hnow : now.timeBase = base) (hfits : ∀ entry ∈ entriesOf s.sequence.data, entry.Fits now)
    {reads : List (Entry × Time)} {sends : List (ComBuffer × Time)}
    (hs : Steps now s s' reads sends) :
    (e.extend reads sends).Faithful answered ∧
      (s'.runMode = .running → Current base s' (e.extend reads sends)) ∧
      (s.runMode = .running → s'.runMode = .stopped →
        s'.sequence.left = s'.sequence.data ∧ s'.cmdTimer.armed = false) := by
  cases hs with
  | ended hread hstop hseq _ htimer =>
    obtain ⟨-, -, hfaithful, -⟩ := h.read hread now
    refine ⟨hfaithful, fun hrun => ?_, fun _ _ => ⟨by rw [hseq]; rfl, by rw [htimer, harmed]⟩⟩
    rw [hstop] at hrun
    cases hrun
  | @sent relative tag packet rest hread hdue hrunMode hseq hstep htimer =>
    obtain ⟨hmem, hdata, hfaithful, hleft⟩ := h.read hread now
    have hcompare := (Time.compare_ge (by rw [dueTime_timeBase, hnow, hbase hdata])).mp hdue
    rw [dueTime_micros (hfits _ hmem) packet] at hcompare
    have hsplit : e.extend [(.command relative tag packet, now)] [(packet, now)] =
        (e.extend [(.command relative tag packet, now)] []).extend [] [(packet, now)] := by
      simp [Execution.extend]
    refine ⟨?_, fun _ => ?_, fun hrun hstop => ?_⟩
    · rw [hsplit]
      have hlast : (e.extend [(.command relative tag packet, now)] []).reads[
          (e.extend [(.command relative tag packet, now)] []).sends.length]? =
            some (.command relative tag packet, now) := by
        simp [Execution.extend, h.count]
      exact hfaithful.send hlast rfl hcompare
    · refine ⟨hmode.trans hstep.symm, by rw [hseq]; exact h.data, by rw [hseq]; exact hleft, ?_, ?_⟩
      · rw [htimer, harmed]
        simp [Execution.extend, h.count]
      · rw [htimer, harmed]
        nofun
    · rw [hrunMode, hrun] at hstop
      cases hstop
  | @deferred relative tag packet rest hread hrunMode hseq hstep htimer hrecord =>
    obtain ⟨hmem, hdata, hfaithful, hleft⟩ := h.read hread now
    refine ⟨hfaithful, fun _ => ?_, fun hrun hstop => ?_⟩
    · refine ⟨hmode.trans hstep.symm, by rw [hseq]; exact h.data, by rw [hseq]; exact hleft, ?_, ?_⟩
      · rw [htimer]
        simp [Execution.extend, h.count]
      · intro _
        refine ⟨(.command relative tag packet, now), ?_, by rw [hrecord]; rfl, ?_, ?_⟩
        · simp [Execution.extend, h.count]
        · rw [htimer]
          exact (dueTime_micros (hfits _ hmem) packet).symm
        · rw [htimer, dueTime_timeBase, hbase hdata]
    · rw [hrunMode, hrun] at hstop
      cases hstop

end Steps

theorem FromFile.mono {past : List Input} {data : Bytes} (h : FromFile past data) (i : Input) :
    FromFile (past ++ [i]) data := by
  obtain ⟨j, hj, hfile⟩ := h
  exact ⟨j, mem_append_left _ hj, hfile⟩

theorem answered_subset (l : Log) (i : Input) : l.answered ⊆ l.answeredAfter i := by
  unfold Log.answeredAfter
  split
  · exact subset_cons_self _ _
  · exact List.Subset.refl _

section Messages

variable {w : Wiring} {base : TimeBase} {past : List Input} {l : Log} {i : Input} {s' : State}

variable {seq : FPrimeSequence} {sends : List (ComBuffer × Time)} {reads : List (Entry × Time)}

theorem SeqOk.mono (h : SeqOk base past seq) (i : Input) :
    SeqOk base (past ++ [i]) seq :=
  ⟨h.reads, fun hne => ⟨(h.loaded hne).1, (h.loaded hne).2.mono i⟩⟩

theorem SeqOk.cleared (h : seq.data = []) : SeqOk base past seq :=
  ⟨⟨[], h ▸ .nil⟩, fun hne => absurd h hne⟩

theorem SeqOk.loads {seq' : FPrimeSequence} (h : SeqOk base past seq) (hleft : seq.left = seq.data)
    (hbase : i.env.first.timeBase = base) (hloads : Loads i.env seq seq') :
    SeqOk base (past ++ [i]) seq' ∧ seq'.left = seq'.data := by
  cases hloads with
  | kept heq =>
    subst heq
    exact ⟨h.mono i, hleft⟩
  | @loaded fileName hload =>
    obtain ⟨⟨file, hopen, hdata⟩, ⟨entry, entries, hreads⟩, hleft', htime, -⟩ :=
      FPrimeSequence.loadFile_eq_ok hload
    exact ⟨⟨⟨_, hreads⟩, fun _ => ⟨htime.trans hbase, i, mem_append_right _ mem_cons_self,
      fileName, file, hopen, hdata⟩⟩, hleft'⟩
  | cleared hdata hnil => exact ⟨.cleared hdata, by rw [hdata, hnil]⟩

theorem Inv.older (h : Inv base past l) (i : Input) :
    ∀ e ∈ l.executions, e.Faithful (l.answeredAfter i) ∧ FromFile (past ++ [i]) e.data :=
  fun e he => ⟨(h.faithful e he).1.mono (answered_subset l i), (h.faithful e he).2.mono i⟩

theorem Inv.stay_stopped (h : Inv base past l) (hstop : l.s.runMode = .stopped)
    (hstop' : s'.runMode = .stopped) (hseq : SeqOk base (past ++ [i]) s'.sequence)
    (hleft : s'.sequence.left = s'.sequence.data) (harmed : s'.cmdTimer.armed = false)
    (reads : List (Entry × Time)) : Inv base (past ++ [i]) (l.observe i s' reads []) where
  seq := hseq
  stopped _ := ⟨hleft, harmed⟩
  running hrun := by
    change s'.runMode = .running at hrun
    rw [hstop'] at hrun
    cases hrun
  faithful := by
    simp only [Log.observe, hstop, hstop']
    exact h.older i
  strays := by
    simp only [Log.observe, hstop, hstop', append_nil]
    exact h.strays

theorem Inv.extended (h : Inv base past l) (hrun : l.s.runMode = .running)
    (hseq : SeqOk base (past ++ [i]) s'.sequence)
    (hstopped : s'.runMode = .stopped → s'.sequence.left = s'.sequence.data ∧ s'.cmdTimer.armed = false)
    (hcurrent : ∀ e ∈ l.executions.take 1, Current base l.s e → l.sent = e.first + e.sends.length → (e.extend reads sends).Faithful (l.answeredAfter i) ∧ (s'.runMode = .running → Current base s' (e.extend reads sends))) :
    Inv base (past ++ [i]) (l.observe i s' reads sends) := by
  obtain ⟨e, rest, hexec, hcur, hsent⟩ := h.running hrun
  obtain ⟨hfaithful, hcur'⟩ := hcurrent e (by rw [hexec]; exact mem_cons_self) hcur hsent
  have hexec' : (l.observe i s' reads sends).executions = e.extend reads sends :: rest := by
    simp only [Log.observe, hrun, hexec]
  refine ⟨hseq, hstopped, fun hrun' => ⟨_, rest, hexec', hcur' hrun', ?_⟩, ?_, ?_⟩
  · simp only [Log.observe, Execution.extend, length_append, hsent]
    omega
  · rw [hexec']
    intro e' he'
    rcases mem_cons.mp he' with rfl | he'
    · exact ⟨hfaithful, (h.faithful e (by rw [hexec]; exact mem_cons_self)).2.mono i⟩
    · exact h.older i e' (by rw [hexec]; exact mem_cons_of_mem _ he')
  · simp only [Log.observe, hrun]
    exact h.strays

/-- In the automatic mode an answer can only be to the last command, and no record waits while one
is outstanding. -/
theorem Current.ready_of_answer {e : Execution} (hcur : Current base l.s e)
    (hsent : l.sent = e.first + e.sends.length) (hfaithful : e.Faithful l.answered)
    (hauto : l.s.stepMode = .auto) (hfirst : e.first ≤ i.command) (hlt : i.command < l.sent)
    (hnew : i.command ∉ l.answered) :
    l.s.cmdTimer.armed = false ∧ Ready (i.command :: l.answered) l.s.sequence e := by
  have hlast : ∀ j, j + 1 < e.reads.length → e.first + j ≠ i.command := by
    intro j hj heq
    exact hnew (heq ▸ (hfaithful.after_answer (hcur.mode.trans hauto) j hj).2)
  have hcount := hcur.count
  have harmed : l.s.cmdTimer.armed = false := by
    cases harmed : l.s.cmdTimer.armed with
    | false => rfl
    | true =>
      rw [harmed, Bool.toNat_true] at hcount
      exact absurd (show e.first + (i.command - e.first) = i.command by omega)
        (hlast (i.command - e.first) (by omega))
  rw [harmed, Bool.toNat_false, Nat.add_zero] at hcount
  refine ⟨harmed, hcur.data, hcur.left, hcount, hfaithful.timely, fun _ j hj => ?_⟩
  by_cases hj' : j + 1 < e.reads.length
  · exact mem_cons_of_mem _ (hfaithful.after_answer (hcur.mode.trans hauto) j hj').2
  · have heq : e.first + j = i.command := by
      by_contra hne
      exact hlast (i.command - e.first) (by omega) (by omega)
    rw [heq]
    exact mem_cons_self

theorem Current.ready_of_manual {answered : List Nat} {e : Execution} (hcur : Current base l.s e)
    (hfaithful : e.Faithful l.answered) (hmanual : l.s.stepMode = .manual)
    (harmed : l.s.cmdTimer.armed = false) : Ready answered l.s.sequence e := by
  have hcount := hcur.count
  rw [harmed, Bool.toNat_false, Nat.add_zero] at hcount
  refine ⟨hcur.data, hcur.left, hcount, hfaithful.timely, fun hauto => ?_⟩
  rw [hcur.mode, hmanual] at hauto
  cases hauto

theorem SeqOk.steps {s : State} {now : Time} (h : SeqOk base past s.sequence)
    (hs : Steps now s s' reads sends) : SeqOk base past s'.sequence := by
  cases hs with
  | ended _ _ hseq _ _ =>
    rw [hseq]
    exact .cleared rfl
  | sent _ _ _ hseq _ _ | deferred _ _ hseq _ _ _ =>
    rw [hseq]
    exact ⟨h.reads, h.loaded⟩

theorem Inv.step_running (h : Inv base past l) (hlegal : Legal base l i) (hturn : InTurn w l i)
    (hrun : l.s.runMode = .running) (htrigger : Triggers w l.s i.call)
    (hs : Steps i.env.second l.s s' reads sends) :
    Inv base (past ++ [i]) (l.observe i s' reads sends) := by
  have hready : ∀ e ∈ l.executions.take 1, Current base l.s e →
      l.sent = e.first + e.sends.length →
        l.s.cmdTimer.armed = false ∧ Ready (l.answeredAfter i) l.s.sequence e := by
    intro e he hcur hsent
    have hfaithful := (h.faithful e (mem_of_mem_take he)).1
    cases hcall : i.call with
    | cmdIn opCode cmdSeq args =>
      rw [hcall] at htrigger
      cases htrigger with
      | step hop hmanual =>
        have harmed := hturn.2.1 (by rw [hcall]; exact decide_eq_true hop)
        exact ⟨harmed, hcur.ready_of_manual hfaithful hmanual harmed⟩
    | cmdResponseIn opCode cmdSeq response =>
      rw [hcall] at htrigger
      cases htrigger with
      | answer hauto =>
        have hanswer : i.call.isAnswer = true := by
          rw [hcall]
          rfl
        obtain ⟨hlt, hnew⟩ := hlegal.2.2 hanswer
        have hfirst := (hturn.1 hanswer hrun).1 e he
        rw [Log.answeredAfter, hcall]
        exact hcur.ready_of_answer hsent hfaithful hauto hfirst hlt hnew
    | seqRunIn fileName | seqDispatchIn fileName | seqCancelIn | schedIn | pingIn key =>
      rw [hcall] at htrigger
      cases htrigger
  obtain ⟨e, rest, hexec, hcur, hsent⟩ := h.running hrun
  have hsteps : ∀ e ∈ l.executions.take 1, Current base l.s e →
      l.sent = e.first + e.sends.length → _ := fun e he hcur hsent =>
    (hready e he hcur hsent).2.steps hcur.mode (hready e he hcur hsent).1
      (fun hne => (h.seq.loaded hne).1) hlegal.2.1 hturn.2.2 hs
  have hhead : e ∈ l.executions.take 1 := by
    rw [hexec]
    exact mem_cons_self
  exact h.extended hrun ((h.seq.mono i).steps hs)
    ((hsteps e hhead hcur hsent).2.2 hrun)
    fun e he hcur hsent => ⟨(hsteps e he hcur hsent).1, (hsteps e he hcur hsent).2.1⟩

theorem loadFile_of_loadedBy {env : Env} {call : Call} {seq seq' : FPrimeSequence}
    {fileName : Bytes} {now : Time}
    (h : seq.loadFile fileName ((env.loadedBy w call).files fileName) now = .ok seq') :
    fileName ∈ call.fileName w ∧ seq.loadFile fileName (env.files fileName) now = .ok seq' := by
  unfold Env.loadedBy at h
  dsimp only at h
  split at h
  · exact ⟨‹_›, h⟩
  · unfold FPrimeSequence.loadFile at h
    split at h <;> cases h

theorem Loads.of_loadedBy {env : Env} {call : Call} {seq seq' : FPrimeSequence}
    (h : Loads (env.loadedBy w call) seq seq') : Loads env seq seq' := by
  cases h with
  | kept heq => exact .kept heq
  | loaded hload => exact .loaded (loadFile_of_loadedBy hload).2
  | cleared hdata hleft => exact .cleared hdata hleft

theorem Inv.start (h : Inv base past l) (hlegal : Legal base l i) (hturn : InTurn w l i)
    (hfiles : FilesFit w l i) (hstop : l.s.runMode = .stopped)
    (hloads : Loads (i.env.loadedBy w i.call) l.s.sequence seq)
    (hs : Steps i.env.second { l.s with sequence := seq, runMode := .running } s' reads sends) :
    Inv base (past ++ [i]) (l.observe i s' reads sends) := by
  obtain ⟨hleft, harmed⟩ := h.stopped hstop
  obtain ⟨hseq, hleft'⟩ := h.seq.loads hleft hlegal.1 hloads.of_loadedBy
  have hfits : ∀ entry ∈ entriesOf seq.data, entry.Fits i.env.second := by
    cases hloads with
    | kept heq =>
      rw [heq]
      exact hturn.2.2
    | @loaded fileName hload =>
      obtain ⟨hname, hload⟩ := loadFile_of_loadedBy hload
      exact hfiles fileName hname seq hload
    | cleared hdata _ =>
      rw [hdata]
      intro entry hmem
      cases hmem
  obtain ⟨entries, hreads⟩ := hseq.reads
  have hready : Ready (l.answeredAfter i) seq ⟨l.s.stepMode, seq.data, l.sent, [], []⟩ :=
    ⟨rfl, ⟨entries, hleft' ▸ hreads, hreads.entriesOf_eq.symm⟩, rfl, nofun, nofun⟩
  obtain ⟨hfaithful, hcur, hstopped⟩ := hready.steps
    (s := { l.s with sequence := seq, runMode := .running }) rfl harmed
    (fun hne => (hseq.loaded hne).1) hlegal.2.1 hfits hs
  have hseq' : SeqOk base (past ++ [i]) s'.sequence :=
    SeqOk.steps (s := { l.s with sequence := seq, runMode := .running }) hseq hs
  obtain ⟨hne, hnone⟩ := hs.nonempty
  cases hmode : s'.runMode with
  | stopped =>
    obtain ⟨hleft'', harmed'⟩ := hstopped rfl hmode
    rw [hnone rfl hmode]
    exact h.stay_stopped hstop hmode hseq' hleft'' harmed' reads
  | running =>
    have hcur := hcur hmode
    have hexec : (l.observe i s' reads sends).executions =
        Execution.extend ⟨l.s.stepMode, seq.data, l.sent, [], []⟩ reads sends :: l.executions := by
      simp only [Log.observe, hstop, hmode, ← hcur.mode, ← hcur.data]
      rfl
    refine ⟨hseq', fun hstop' => ?_, fun _ => ⟨_, _, hexec, hcur, ?_⟩, ?_, ?_⟩
    · change s'.runMode = .stopped at hstop'
      rw [hmode] at hstop'
      cases hstop'
    · simp [Log.observe, Execution.extend]
    · rw [hexec]
      intro e he
      rcases mem_cons.mp he with rfl | he
      · refine ⟨hfaithful, (hseq.loaded ?_).2⟩
        rw [← hleft']
        exact hne
      · exact h.older i e he
    · simp only [Log.observe, hstop, hmode]
      exact h.strays

theorem Inv.tick (h : Inv base past l) (hlegal : Legal base l i)
    (hexpired : l.s.cmdTimer.isExpiredAt i.env.first = true) (hmode : s'.runMode = l.s.runMode)
    (hstep : s'.stepMode = l.s.stepMode) (hseq : s'.sequence = l.s.sequence)
    (harmed : s'.cmdTimer.armed = false) :
    Inv base (past ++ [i]) (l.observe i s' [] [(l.s.record.command, i.env.first)]) := by
  obtain ⟨harmed0, hcompare⟩ := Bool.and_eq_true_iff.mp hexpired
  have hrun : l.s.runMode = .running := by
    cases hm : l.s.runMode with
    | running => rfl
    | stopped =>
      rw [(h.stopped hm).2] at harmed0
      cases harmed0
  refine h.extended hrun (hseq ▸ h.seq.mono i) (fun hstop => ?_) fun e he hcur hsent => ?_
  · rw [hmode, hrun] at hstop
    cases hstop
  obtain ⟨read, hread, hpacket, hdue, hbase⟩ := hcur.pending harmed0
  have hpast : l.s.cmdTimer.expirationTime.micros ≤ i.env.first.micros :=
    (Time.compare_ne_gt (hbase.trans hlegal.1.symm)).mp (of_decide_eq_true hcompare)
  have hfaithful := (h.faithful e (mem_of_mem_take he)).1.mono (answered_subset l i)
  refine ⟨hfaithful.send hread hpacket (hdue.le.trans hpast), fun _ => ?_⟩
  have hcount := hcur.count
  rw [harmed0, Bool.toNat_true] at hcount
  refine ⟨hcur.mode.trans hstep.symm, by rw [hseq]; exact hcur.data, ?_, ?_, ?_⟩
  · obtain ⟨entries, hreads, hall⟩ := hcur.left
    exact ⟨entries, hseq ▸ hreads, by simpa [Execution.extend] using hall⟩
  · rw [harmed]
    simpa [Execution.extend] using hcount
  · rw [harmed]
    nofun

theorem Inv.step {l' : Log} (h : Inv base past l) (hlegal : Legal base l i) (hturn : InTurn w l i)
    (hfiles : FilesFit w l i) (hstep : l.step w i = .ok l') : Inv base (past ++ [i]) l' := by
  obtain ⟨⟨s', outs⟩, hhandle, hl'⟩ := bind_eq_ok.mp hstep
  cases hl'
  rw [← handle_loadedBy] at hhandle
  have hmove := handle_moves i.call s' outs hhandle
  generalize readsOf outs = reads, sendsOf outs = sends, hcall : i.call = call at hmove
  cases hmove with
  | still hmode hstepMode hseq hrecord htimer =>
    cases hm : l.s.runMode with
    | stopped =>
      obtain ⟨hleft, harmed⟩ := h.stopped hm
      exact h.stay_stopped hm (hmode.trans hm) (hseq ▸ h.seq.mono i) (by rw [hseq, hleft])
        (by rw [htimer, harmed]) []
    | running =>
      refine h.extended hm (hseq ▸ h.seq.mono i) (fun hstop => ?_) fun e he hcur hsent => ?_
      · rw [hmode, hm] at hstop
        cases hstop
      · rw [Execution.extend_nil]
        refine ⟨(h.older i e (mem_of_mem_take he)).1, fun _ => ?_⟩
        exact ⟨hstepMode ▸ hcur.mode, hseq ▸ hcur.data, hseq ▸ hcur.left, htimer ▸ hcur.count,
          hrecord ▸ htimer ▸ hcur.pending⟩
  | idle hstop hstop' hloads htimer =>
    obtain ⟨hleft, harmed⟩ := h.stopped hstop
    obtain ⟨hseq, hleft'⟩ := h.seq.loads hleft hlegal.1 hloads.of_loadedBy
    exact h.stay_stopped hstop hstop' hseq hleft' (by rw [htimer, harmed]) []
  | cancel hstop' hseq harmed =>
    have hseq' : SeqOk base (past ++ [i]) s'.sequence := by
      rw [hseq]
      exact ⟨h.seq.reads, (h.seq.mono i).loaded⟩
    have hleft : s'.sequence.left = s'.sequence.data := by
      rw [hseq]
      rfl
    cases hm : l.s.runMode with
    | stopped => exact h.stay_stopped hm hstop' hseq' hleft harmed []
    | running =>
      refine h.extended hm hseq' (fun _ => ⟨hleft, harmed⟩) fun e he hcur hsent => ?_
      rw [Execution.extend_nil]
      refine ⟨(h.older i e (mem_of_mem_take he)).1, fun hrun => ?_⟩
      rw [hstop'] at hrun
      cases hrun
  | @finish opCode cmdSeq response hrun _ hstop' hseq htimer =>
    obtain ⟨e, rest, hexec, hcur, hsent⟩ := h.running hrun
    have hhead : e ∈ l.executions.take 1 := by
      rw [hexec]
      exact mem_cons_self
    have hanswer : i.call.isAnswer = true := by
      rw [hcall]
      rfl
    obtain ⟨hfirst, hmanual⟩ := hturn.1 hanswer hrun
    have harmed : l.s.cmdTimer.armed = false := by
      cases hmode : l.s.stepMode with
      | manual => exact hmanual hmode
      | auto =>
        obtain ⟨hlt, hnew⟩ := hlegal.2.2 hanswer
        exact (hcur.ready_of_answer hsent (h.faithful e (mem_of_mem_take hhead)).1 hmode
          (hfirst e hhead) hlt hnew).1
    refine h.extended hrun (hseq ▸ .cleared rfl) (fun _ => ⟨by rw [hseq]; rfl, by rw [htimer, harmed]⟩)
      fun e he _ _ => ?_
    rw [Execution.extend_nil]
    refine ⟨(h.older i e (mem_of_mem_take he)).1, fun hrun' => ?_⟩
    rw [hstop'] at hrun'
    cases hrun'
  | step hrun htrigger hs => exact h.step_running hlegal hturn hrun (hcall ▸ htrigger) hs
  | start hstop hloads hs => exact h.start hlegal hturn hfiles hstop (hcall ▸ hloads) hs
  | tick hexpired hmode hstepMode hseq harmed =>
    exact h.tick hlegal hexpired hmode hstepMode hseq harmed

end Messages

/-- In every run in turn the commands of an execution are those of a file, in its order, each sent
once and not before its time; and none is sent outside of an execution. -/
theorem dispatched_in_order {w : Wiring} {base : TimeBase} {capacity : Nat} {timeout : UInt32}
    {inputs : List Input} {l : Log}
    (hcond : AlongM (Log.step w) (fun l i => (Legal base l i ∧ InTurn w l i) ∧ FilesFit w l i)
      (.new capacity timeout) inputs)
    (hrun : Log.run w capacity timeout inputs = .ok l) :
    l.strays = [] ∧ ∀ e ∈ l.executions, e.Faithful l.answered ∧ FromFile inputs e.data := by
  have hnew : Inv base [] (.new capacity timeout) :=
    ⟨.cleared rfl, fun _ => ⟨rfl, rfl⟩, nofun, nofun, rfl⟩
  have hinv := invariant_runM (I := Inv base)
    (fun past l i l' h hc hstep => h.step hc.1.1 hc.1.2 hc.2 hstep) hnew hcond hrun
  exact ⟨hinv.strays, hinv.faithful⟩

def inputsAt (contents : Bytes) (calls : List (UInt32 × Call × Nat)) : List Input :=
  calls.map fun (seconds, call, command) => ⟨onlyFile contents seconds, call, command⟩

def threeCommands : Bytes :=
  sequenceFile 3 (commandRecord 0 0 0 1 ++ commandRecord 0 10 0 2 ++ commandRecord 0 0 0 3)

def answeredInTurn : List Input :=
  inputsAt threeCommands [(1, .cmdIn 0 0 (runArgs 1), 0), (2, .cmdResponseIn 1 0 .ok, 0),
    (9, .schedIn, 0), (10, .schedIn, 0), (11, .cmdResponseIn 2 0 .ok, 1),
    (12, .cmdResponseIn 3 0 .ok, 2)]

theorem dispatched_in_order_three_commands :
    ∃ l, Log.run connected 128 0 answeredInTurn = .ok l ∧
      l.executions.map (fun e => e.sends.map fun send => send.1.val.drop 5) = [[[1], [2], [3]]] ∧
      l.strays = [] ∧ ∀ e ∈ l.executions, e.Faithful l.answered ∧ FromFile answeredInTurn e.data := by
  obtain ⟨l, hrun, hsends⟩ := exists_ok (r := Log.run connected 128 0 answeredInTurn)
    (P := fun l => l.executions.map (fun e => e.sends.map fun send => send.1.val.drop 5) =
      [[[1], [2], [3]]]) (by decide +kernel)
  have hfiles : ∀ i ∈ answeredInTurn, ∀ l : Log, FilesFit connected l i := by
    have hfit : ∀ i ∈ answeredInTurn, ∀ entry ∈ entriesOf (recordBlock threeCommands),
        entry.Fits i.env.second := by decide +kernel
    intro i hi l fileName _ seq hload entry hentry
    obtain ⟨⟨file, hopen, hdata⟩, -⟩ := FPrimeSequence.loadFile_eq_ok hload
    obtain ⟨call, -, rfl⟩ := mem_map.mp hi
    cases hopen
    rw [hdata] at hentry
    exact hfit _ hi entry hentry
  have hcond : AlongM (Log.step connected)
      (fun l i => Legal .tbNone l i ∧ InTurn connected l i) (.new 128 0) answeredInTurn := by
    decide +kernel
  exact ⟨l, hrun, hsends, dispatched_in_order (hcond.and (alongM_of_forall hfiles _)) hrun⟩

def lateAnswer : List Input :=
  inputsAt threeCommands [(1, .cmdIn 0 0 (runArgs 1), 0), (1, .cmdIn 2 1 [], 0),
    (1, .cmdIn 3 2 [], 0), (1, .cmdResponseIn 1 0 .ok, 0), (1, .cmdResponseIn 1 0 .ok, 1),
    (10, .schedIn, 0)]

/-- A step in the manual mode while the first record waits for its time. -/
def stepWhileWaiting : List Input :=
  inputsAt (sequenceFile 2 (commandRecord 0 10 0 1 ++ commandRecord 0 0 0 2))
    [(1, .cmdIn 6 0 [], 0), (1, .cmdIn 0 1 (runArgs 1), 0), (1, .cmdIn 3 2 [], 0),
      (1, .cmdIn 4 3 [], 0)]

def overflow : List Input :=
  inputsAt (sequenceFile 1 (commandRecord 1 0xFFFFFFFF 0 1)) [(1, .cmdIn 0 0 (runArgs 1), 0)]

/-- The late answer skips the second command, the step sends only the second, and a command due at
the second 2 ^ 32 is sent. -/
theorem late_answer_skips_command :
    (AlongM (Log.step connected) (Legal .tbNone) (.new 128 0) lateAnswer ∧
      ∃ l, Log.run connected 128 0 lateAnswer = .ok l ∧
        l.executions.map (fun e => e.sends.map fun send => send.1.val.drop 5) =
          [[[1], [3], [3]], [[1]]]) ∧
    (AlongM (Log.step connected) (Legal .tbNone) (.new 128 0) stepWhileWaiting ∧
      ∃ l, Log.run connected 128 0 stepWhileWaiting = .ok l ∧
        l.executions.map (fun e => e.sends.map fun send => send.1.val.drop 5) = [[[2]]]) ∧
    (AlongM (Log.step connected) (Legal .tbNone) (.new 128 0) overflow ∧
      ∃ l, Log.run connected 128 0 overflow = .ok l ∧
        l.executions.map (fun e => (e.reads.map fun read => read.1.due read.2,
          e.sends.map fun send => send.2.micros)) = [([2 ^ 32 * 1000000], [1000000])]) :=
  ⟨⟨by decide +kernel, exists_ok (by decide +kernel)⟩,
    ⟨by decide +kernel, exists_ok (by decide +kernel)⟩,
    ⟨by decide +kernel, exists_ok (by decide +kernel)⟩⟩

end Fprime.Svc.CmdSequencer
