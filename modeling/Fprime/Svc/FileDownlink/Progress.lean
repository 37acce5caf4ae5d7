import Fprime.Svc.FileDownlink.Discipline

/-!
# Every request is answered

As long as the ticks go on and the buffers come back, every request that was accepted is answered,
provided that the timer reaches the cooldown.
-/

namespace Fprime.Svc.FileDownlink

open Fw Lib.Runs List UInt32

def CoolsBy (ticks : Nat) (timing : UInt32 × UInt32) : Prop :=
  timing.1 ≤ ofNat ticks * timing.2

/-- The next answer comes after so many awaited steps, if the cooldown takes no more than some
ticks. -/
def Due (ticks : Nat) (taken : Option FileEntry) (s : FileDownlink) (n : Nat) : Prop :=
  match taken, s.mode with
  | some _, _ => UInt32.size + 2 ≤ n
  | none, .idle => UInt32.size + 3 ≤ n
  | none, .cooldown => CoolsBy ticks s.timing →
      ∃ left, s.cooldown ≤ s.curTimer + ofNat left * s.cycleTime ∧ UInt32.size + 4 + left ≤ n
  | none, _ => s.endOffset.toNat - s.byteOffset.toNat +
      (if s.lastCompletedType = .start ∨ s.lastCompletedType = .data then 2 else 1) ≤ n

/-- What a step does to the answers given and to the steps left to the next one. -/
inductive Outcome (ticks : Nat) (w : World) (finished : List Transfer) (n : Nat) (input : Input)
    (w' : World) : List Transfer → Nat → Prop
  | nearer (n' : Nat) : n' < n → Outcome ticks w finished n input w' finished n'
  | answered (t : Transfer) :
      Outcome ticks w finished n input w' (finished ++ [t]) (UInt32.size + 4 + ticks)
  | waiting : ¬w.Awaits input → (∀ j, w.Awaits j → w'.Awaits j) →
      Outcome ticks w finished n input w' finished n
  | caughtUp : w.accepted.length ≤ finished.length → Outcome ticks w finished n input w' finished n
  | stalled (n' : Nat) : ¬CoolsBy ticks w.comp.timing → Outcome ticks w finished n input w' finished n'

section Steps

variable {s : FileDownlink} {n ticks : Nat} {entry : FileEntry} {data : Bytes}
  {packets : List FilePacket}

theorem due_taken : Due ticks (some entry) s n ↔ UInt32.size + 2 ≤ n := by
  simp only [Due]

theorem due_idle (h : s.mode = .idle) : Due ticks none s n ↔ UInt32.size + 3 ≤ n := by
  simp only [Due, h]

theorem due_cooldown (h : s.mode = .cooldown) :
    Due ticks none s n ↔ (CoolsBy ticks s.timing →
      ∃ left, s.cooldown ≤ s.curTimer + ofNat left * s.cycleTime ∧ UInt32.size + 4 + left ≤ n) := by
  simp only [Due, h]

theorem due_sending (h : Sending s entry data packets) :
    Due ticks none s n ↔ stepsLeft entry s.file.size data s.lastCompletedType ≤ n := by
  rw [h.stepsLeft_eq]
  rcases h.mode with hmode | hmode <;> simp only [Due, hmode]

theorem stepsLeft_start (entry : FileEntry) (size : UInt32) :
    stepsLeft entry size [] .start < UInt32.size + 2 := by
  have hend := rangeEnd_le entry size
  have hsize : size.toNat < UInt32.size := size.toNat_lt
  rw [stepsLeft, if_pos (.inl rfl)]
  omega

theorem due_of_resting (hrest : Resting s) (htimer : s.mode = .cooldown → s.curTimer = 0) :
    Due ticks none s (UInt32.size + 4 + ticks) := by
  rcases hrest.mode with hmode | hmode
  · exact (due_idle hmode).mpr (by omega)
  · refine (due_cooldown hmode).mpr fun hticks => ⟨ticks, ?_, Nat.le_refl _⟩
    rw [htimer hmode, UInt32.zero_add]
    exact hticks

variable {w : World} {finished : List Transfer} {current : Option Transfer}

theorem Sound.due_tick {timer : UInt32} {mode : Mode} (h : Sound w finished current)
    (hdue : Due ticks none w.comp n) (htaken : w.taken = none) (htick : Ticked w.comp timer mode) :
    ∃ n', Due ticks none { w.comp with curTimer := timer, mode := mode } n' ∧
      Outcome ticks w finished n .run
        { w with comp := { w.comp with curTimer := timer, mode := mode } } finished n' := by
  cases h.phase with
  | taken _ hsome => exact absurd (htaken.symm.trans hsome) (by simp)
  | sending entry data packets buffer _ hout _ hsending =>
    refine ⟨n, ?_, .waiting (by simp [World.Awaits, hout]) fun j hj => by cases j <;> exact hj⟩
    exact (due_sending (hsending.tick htick).2).mpr ((due_sending hsending).mp hdue)
  | resting _ _ hrest =>
    by_cases hcools : CoolsBy ticks w.comp.timing
    · cases htick with
      | cooled hmode =>
        obtain ⟨left, -, hn⟩ := (due_cooldown hmode).mp hdue hcools
        exact ⟨UInt32.size + 3, (due_idle rfl).mpr (Nat.le_refl _), .nearer _ (by omega)⟩
      | cooling hmode hnot =>
        obtain ⟨left, hle, hn⟩ := (due_cooldown hmode).mp hdue hcools
        obtain _ | left := left
        · exact absurd (by simpa using hle) hnot
        · refine ⟨n - 1, (due_cooldown ?_).mpr fun _ => ⟨left, ?_, by omega⟩, .nearer _ (by omega)⟩
          · exact hmode
          · rw [UInt32.ofNat_add, UInt32.add_mul, UInt32.add_comm (_ * _)] at hle
            simpa [UInt32.add_assoc] using hle
      | counted _ hcool hempty =>
        have hidle := hrest.mode.resolve_right hcool
        refine ⟨n, (due_idle ?_).mpr ((due_idle hidle).mp hdue), .caughtUp ?_⟩
        · exact hidle
        · rw [← h.queue, hempty hidle]
          simp
    · refine ⟨UInt32.size + 3, ?_, .stalled _ hcools⟩
      have hmode : mode = .idle ∨ mode = .cooldown := by
        rcases htick.mode with rfl | ⟨-, rfl⟩
        · exact hrest.mode
        · exact .inl rfl
      rcases hmode with rfl | rfl
      · exact (due_idle rfl).mpr (Nat.le_refl _)
      · exact (due_cooldown rfl).mpr fun h => absurd h hcools

theorem Sound.due_requested {comp : FileDownlink} {accepted : Option FileEntry}
    (h : Sound w finished current) (hdue : Due ticks w.taken w.comp n)
    (hreq : Requested w.comp comp accepted) : Due ticks w.taken comp n := by
  cases h.phase with
  | resting htaken _ hrest =>
    rw [htaken] at hdue ⊢
    have hmode' := hreq.rest hrest
    rcases hrest.mode with hmode | hmode
    · exact (due_idle (hmode'.trans hmode)).mpr ((due_idle hmode).mp hdue)
    · obtain ⟨hcooldown, hcycle⟩ := Prod.mk.inj hreq.timing
      rw [due_cooldown (hmode'.trans hmode), hreq.timing, hcooldown, hcycle, hreq.timer]
      exact (due_cooldown hmode).mp hdue
  | taken entry htaken =>
    rw [htaken, due_taken] at hdue ⊢
    exact hdue
  | sending entry data packets _ htaken _ _ hsending =>
    rw [htaken] at hdue ⊢
    rw [due_sending (hreq.sending _ _ _ hsending), hreq.file, hreq.lastType]
    exact (due_sending hsending).mp hdue

def Leads (ticks n : Nat) (w : World) (finished : List Transfer) (input : Input)
    (result : Except Assertion World) : Prop :=
  ∃ w' finished' current' n', result = .ok w' ∧ w'.comp.timing = w.comp.timing ∧
    w.accepted <+: w'.accepted ∧ Sound w' finished' current' ∧ Due ticks w'.taken w'.comp n' ∧
    Outcome ticks w finished n input w' finished' n'

variable {input : Input} {result : Result}

theorem Sound.leads_advance {last : FilePacketType} {size : UInt32}
    (h : Sound w finished (some ⟨entry, packets, none⟩))
    (hadv : Advances w.comp entry data packets last size result)
    (hless : stepsLeft entry size data last < n) :
    Leads ticks n w finished input
      (result.map fun r => { w with taken := none, outstanding := [] }.emit r.1 r.2) := by
  obtain ⟨comp, outs, packet, hresult, hsound, hsending, -, hlast, hsize, htiming⟩ := h.advance hadv
  subst hlast hsize
  rw [hresult]
  exact ⟨_, finished, _, _, rfl, htiming, prefix_refl _, hsound,
    (due_sending hsending).mpr (Nat.le_refl _), .nearer _ hless⟩

theorem Sound.leads_conclude (hfollows : Follows entry packets)
    (h : Sound w finished (some ⟨entry, packets, none⟩)) (hend : Concludes w.comp entry result) :
    Leads ticks n w finished input
      (result.map fun r => { w with taken := none, outstanding := [] }.emit r.1 r.2) := by
  obtain ⟨comp, outs, status, hresult, hsound, hrest, htiming, htimer⟩ := h.conclude hfollows hend
  rw [hresult]
  exact ⟨_, _, none, _, rfl, htiming, prefix_refl _, hsound, due_of_resting hrest htimer,
    .answered _⟩

/-- An awaited step comes nearer to the answer or gives it, unless all are given or the cooldown
does not end; any other leaves what is awaited. -/
theorem Sound.leads (h : Sound w finished current) (hdue : Due ticks w.taken w.comp n)
    (input : Input) : Leads ticks n w finished input (w.step input) := by
  have heffect := h.effect input
  generalize w.step input = result at heffect ⊢
  cases heffect with
  | nothing _ hnot =>
    exact ⟨w, finished, current, n, rfl, rfl, prefix_refl _, h, hdue, .waiting hnot fun _ => id⟩
  | tick timer mode htaken htick =>
    rw [htaken] at hdue
    obtain ⟨n', hdue', hout⟩ := h.due_tick hdue htaken htick
    exact ⟨_, finished, current, n', rfl, rfl, prefix_refl _, h.tick htaken htick,
      htaken.symm ▸ hdue', hout⟩
  | take entry rest htaken hidle hqueue =>
    rw [htaken, due_idle hidle] at hdue
    exact ⟨_, finished, _, UInt32.size + 2, rfl, rfl, prefix_refl _, h.take htaken hidle hqueue,
      due_taken.mpr (Nat.le_refl _), .nearer _ (by omega)⟩
  | sendFile disk entry htaken hrest hcur hcurrent =>
    subst hcurrent
    rw [htaken, due_taken] at hdue
    rcases hrest.sendFile h.stock hcur disk with ⟨size, hadv⟩ | hend
    · exact h.leads_advance hadv (Nat.lt_of_lt_of_le (stepsLeft_start entry size) hdue)
    · exact h.leads_conclude (.inl rfl) hend
  | bufferReturn disk i entry data packets buffer htaken hbuffer hsending hcurrent =>
    subst hcurrent
    rw [htaken, due_sending hsending] at hdue
    rcases hsending.bufferReturn hbuffer h.stock disk with ⟨data', last, size, hadv, hless⟩ | hend
    · exact h.leads_advance hadv (Nat.lt_of_lt_of_le hless hdue)
    · exact h.leads_conclude hsending.follows hend
  | requested input comp accepted handled callers hnot hreq hmode hproper haccepted =>
    refine ⟨_, finished, current, n, rfl, hreq.timing, ?_, h.requested hreq hproper haccepted,
      h.due_requested hdue hreq, .waiting hnot fun j hj => by cases j <;> exact hj⟩
    rw [World.accepted, World.accepted, filterMap_append]
    exact prefix_append _ _

/-- The first requests are answered after fewer awaited steps, if the timer is fast enough. -/
def Ahead (ticks : Nat) (first : List FileEntry) (n : Nat) (w : World) : Prop :=
  CoolsBy ticks w.comp.timing ∧ first <+: w.accepted ∧ ∃ finished current n',
    Sound w finished current ∧ Due ticks w.taken w.comp n' ∧ (first.length ≤ finished.length ∨
      (first.length - finished.length) * (UInt32.size + 5 + ticks) + n' < n)

theorem Ahead.step {first : List FileEntry} (n : Nat) (w : World) (input : Input)
    (h : Ahead ticks first n w) :
    ∃ w' m, w.step input = .ok w' ∧ Ahead ticks first m w' ∧ m ≤ n ∧
      (m < n ∨ n = 0 ∨ ¬w.Awaits input ∧ ∀ j, w.Awaits j → w'.Awaits j) := by
  obtain ⟨hticks, hfirst, finished, current, d, hsound, hdue, hleft⟩ := h
  obtain ⟨w', finished', current', d', hstep, htiming, haccepted, hsound', hdue', hout⟩ :=
    hsound.leads hdue input
  have hahead : ∀ m, (first.length ≤ finished'.length ∨
      (first.length - finished'.length) * (UInt32.size + 5 + ticks) + d' < m) →
      Ahead ticks first m w' := fun m hm =>
    ⟨htiming ▸ hticks, hfirst.trans haccepted, finished', current', d', hsound', hdue', hm⟩
  by_cases hdone : first.length ≤ finished'.length
  · exact ⟨w', 0, hstep, hahead 0 (.inl hdone), Nat.zero_le n, by omega⟩
  cases hout with
  | nearer _ hless =>
    have hleft := hleft.resolve_left hdone
    exact ⟨w', n - 1, hstep, hahead _ (.inr (by omega)), by omega, .inl (by omega)⟩
  | answered t =>
    rw [length_append, length_singleton] at hdone hahead
    have hleft := hleft.resolve_left (by omega)
    obtain ⟨k, hk⟩ : ∃ k, first.length - finished.length = k + 1 :=
      ⟨first.length - finished.length - 1, by omega⟩
    rw [hk, Nat.add_mul, Nat.one_mul] at hleft
    rw [show first.length - (finished.length + 1) = k by omega] at hahead
    exact ⟨w', n - 1, hstep, hahead _ (.inr (by omega)), by omega, .inl (by omega)⟩
  | waiting hnot hkeep =>
    exact ⟨w', n, hstep, hahead _ hleft, Nat.le_refl n, .inr (.inr ⟨hnot, hkeep⟩)⟩
  | caughtUp hall => exact absurd (Nat.le_trans hfirst.length_le hall) hdone
  | stalled _ hnot => exact absurd hticks hnot

/-- The tick goes on, and the buffer that is out comes back; anything else may come as well. -/
def Round (inputs : List Input) : Prop :=
  .run ∈ inputs ∧ (∃ disk, .sendFile disk ∈ inputs) ∧ ∃ disk, .bufferReturn disk 0 ∈ inputs

theorem Sound.awaits (h : Sound w finished current) {inputs : List Input} (hround : Round inputs) :
    ∃ i ∈ inputs, w.Awaits i := by
  obtain ⟨hrun, ⟨disk, hsendFile⟩, disk', hreturn⟩ := hround
  cases h.phase with
  | resting htaken hout => exact ⟨_, hrun, htaken, hout⟩
  | taken entry htaken => exact ⟨_, hsendFile, by simp [World.Awaits, htaken]⟩
  | sending _ _ _ _ htaken hout => exact ⟨_, hreturn, htaken, by simp [hout]⟩

theorem Ahead.answered {first : List FileEntry} (h : Ahead ticks first n w)
    {rounds : List (List Input)} (hrounds : ∀ inputs ∈ rounds, Round inputs)
    (hlen : n ≤ rounds.length) :
    ∃ w' finished current, w.run rounds.flatten = .ok w' ∧ OneByOne w' finished current ∧
      first <+: finished.map Transfer.entry := by
  obtain ⟨w', hrun, -, hfirst, finished, current, d, hsound, -, hleft⟩ :=
    settled_by_rounds Ahead.step h (fun r hr _ _ ⟨_, _, _, _, _, hw, _⟩ _ => hw.awaits (hrounds r hr))
      hlen
  refine ⟨w', finished, current, hrun, hsound.oneByOne, ?_⟩
  have hdone := hleft.resolve_right (Nat.not_lt_zero _)
  refine prefix_of_prefix_length_le hfirst ?_ (by simpa using hdone)
  rw [← hsound.queue, map_append, append_assoc]
  exact prefix_append _ _

end Steps

theorem sound_run (idBase cooldown cycleTime : UInt32) (depth ticks : Nat) (inputs : List Input) :
    ∃ w, (World.start (new idBase cooldown cycleTime depth)).run inputs = .ok w ∧
      ∃ finished current n, Sound w finished current ∧ Due ticks w.taken w.comp n ∧
        w.comp.timing = (cooldown, cycleTime) := by
  refine total_run (C := fun _ _ => True) (I := fun w => ∃ finished current n,
    Sound w finished current ∧ Due ticks w.taken w.comp n ∧ w.comp.timing = (cooldown, cycleTime))
    ?_ ?_ (alongM_of_forall (fun _ _ _ => trivial) _)
  · rintro w input ⟨finished, current, n, hsound, hdue, htiming⟩ -
    obtain ⟨w', finished', current', n', hstep, htiming', -, hsound', hdue', -⟩ :=
      hsound.leads hdue input
    exact ⟨w', hstep, finished', current', n', hsound', hdue', htiming'.trans htiming⟩
  · exact ⟨[], none, _, sound_start idBase cooldown cycleTime depth,
      (due_idle rfl).mpr (Nat.le_refl _), rfl⟩

/-- Whatever comes, no assertion fails and the requests are worked on in good order. If the timer
reaches the cooldown at some tick, all that were accepted are answered in enough rounds of ticks and
returned buffers. -/
theorem request_discipline (idBase cooldown cycleTime : UInt32) (depth : Nat)
    (inputs : List Input) :
    ∃ w, (World.start (new idBase cooldown cycleTime depth)).run inputs = .ok w ∧ Disciplined w ∧
      ((∃ ticks, cooldown ≤ ofNat ticks * cycleTime) → ∃ enough, ∀ rounds : List (List Input),
        (∀ inputs ∈ rounds, Round inputs) → enough ≤ rounds.length →
        ∃ w' finished current, w.run rounds.flatten = .ok w' ∧ OneByOne w' finished current ∧
          w.accepted <+: finished.map Transfer.entry) := by
  obtain ⟨w, hrun, _, _, _, hsound, -⟩ := sound_run idBase cooldown cycleTime depth 0 inputs
  refine ⟨w, hrun, hsound.disciplined, fun ⟨ticks, hticks⟩ => ?_⟩
  obtain ⟨w', hrun', finished, current, n, hsound, hdue, htiming⟩ :=
    sound_run idBase cooldown cycleTime depth ticks inputs
  cases hrun.symm.trans hrun'
  obtain ⟨enough, hahead⟩ : ∃ enough, Ahead ticks w.accepted enough w :=
    ⟨_, htiming ▸ hticks, prefix_refl _, finished, current, n, hsound, hdue,
      .inr (Nat.lt_succ_self _)⟩
  exact ⟨enough, fun rounds hrounds hlen => hahead.answered hrounds hlen⟩

def Record.answer : Record → Option Out
  | completed answer => some answer
  | _ => none

def oneByte : Disk :=
  ⟨.opOk, (.opOk, 1), .opOk, fun _ count => (.opOk, replicate count 7)⟩

def request (offset : UInt32) : PortRequest :=
  ⟨.setBytes _ [97], .setBytes _ [98], offset, 0⟩

/-- A file that is sent for a port call, and one that is cancelled. -/
def twoTransfers : List Input :=
  [.portCall (request 0), .portEnqueue 0, .cmdIn 0 5 [0, 1, 97, 0, 1, 98], .run, .sendFile oneByte,
    .bufferReturn oneByte 0, .bufferReturn oneByte 0, .bufferReturn oneByte 0, .run, .run, .run,
    .sendFile oneByte, .cmdIn 1 6 [], .bufferReturn oneByte 0, .bufferReturn oneByte 0]

theorem request_discipline_two : ∃ w, (World.start (new 0 1 1 2)).run twoTransfers = .ok w ∧
    Disciplined w ∧ w.accepted.length = 2 ∧
    w.log.filterMap Record.answer = [.fileComplete ⟨.statusOk, 0⟩, .cmdResponse 0 5 .ok] ∧
    ∃ (rounds : List (List Input)) (w' : World) (finished : List Transfer) (current : _),
      (∀ inputs ∈ rounds, Round inputs) ∧
      w.run rounds.flatten = .ok w' ∧ OneByOne w' finished current ∧
      w.accepted <+: finished.map Transfer.entry := by
  obtain ⟨w, hrun, hdisciplined, hprogress⟩ := request_discipline 0 1 1 2 twoTransfers
  obtain ⟨enough, hanswered⟩ := hprogress ⟨1, by decide⟩
  have hround : ∀ inputs ∈ replicate enough [.run, .sendFile oneByte, .bufferReturn oneByte 0],
      Round inputs := by
    intro inputs hinputs
    cases eq_of_mem_replicate hinputs
    exact ⟨.head _, ⟨oneByte, .tail _ (.head _)⟩, oneByte, .tail _ (.tail _ (.head _))⟩
  obtain ⟨w', finished, current, hlater⟩ := hanswered _ hround (length_replicate ▸ Nat.le_refl _)
  have hanswers : w.accepted.length = 2 ∧ w.log.filterMap Record.answer =
      [.fileComplete ⟨.statusOk, 0⟩, .cmdResponse 0 5 .ok] := by
    cases hrun
    exact ⟨rfl, rfl⟩
  exact ⟨w, hrun, hdisciplined, hanswers.1, hanswers.2, _, w', finished, current, hround, hlater⟩

/-- A cooldown that no tick ends. -/
structure Stalled (log : List Record) (w : World) : Prop where
  log : w.log = log
  sound : ∃ finished, Sound w finished none
  mode : w.comp.mode = .cooldown
  never : ∀ ticks, ¬w.comp.cooldown ≤ w.comp.curTimer + ofNat ticks * w.comp.cycleTime

theorem Stalled.step {log : List Record} {w : World} (h : Stalled log w) (input : Input) :
    ∃ w', w.step input = .ok w' ∧ Stalled log w' := by
  obtain ⟨finished, hsound⟩ := h.sound
  have heffect := hsound.effect input
  generalize w.step input = result at heffect ⊢
  cases heffect with
  | nothing => exact ⟨w, rfl, h⟩
  | take _ _ _ hidle => exact absurd (hidle.symm.trans h.mode) (by simp)
  | sendFile _ _ _ _ _ hcurrent | bufferReturn _ _ _ _ _ _ _ _ _ hcurrent => cases hcurrent
  | tick timer mode htaken htick =>
    have hsound' := hsound.tick htaken htick
    cases htick with
    | cooled _ hover => exact absurd (by simpa using hover) (h.never 0)
    | counted _ hcool => exact absurd h.mode hcool
    | cooling =>
      refine ⟨_, rfl, h.log, ⟨finished, hsound'⟩, h.mode, fun ticks hle => h.never (ticks + 1) ?_⟩
      rw [UInt32.ofNat_add, UInt32.add_mul, UInt32.add_comm (_ * _)]
      simpa [UInt32.add_assoc] using hle
  | requested input comp accepted handled callers _ hreq _ hproper haccepted =>
    have hrest : Resting w.comp := by
      cases hsound.phase
      assumption
    obtain ⟨hcooldown, hcycle⟩ := Prod.mk.inj hreq.timing
    refine ⟨_, rfl, h.log, ⟨finished, hsound.requested hreq hproper haccepted⟩,
      (hreq.rest hrest).trans h.mode, ?_⟩
    rw [hcooldown, hcycle, hreq.timer]
    exact h.never

/-- With a cycle time of zero the first answer is the last one, whatever comes. -/
theorem cooldown_never_ends : ∃ w, (World.start (new 0 1 0 2)).run
      [.portCall (request 1), .portEnqueue 0, .portCall (request 1), .portEnqueue 0, .run,
        .sendFile oneByte] = .ok w ∧
    w.accepted.length = 2 ∧ w.log.filterMap Record.answer = [.fileComplete ⟨.statusOk, 0⟩] ∧
    ∀ inputs, ∃ w', w.run inputs = .ok w' ∧ w'.log = w.log := by
  obtain ⟨w, hrun, finished, current, -, hsound, -⟩ := sound_run 0 1 0 2 0
    [.portCall (request 1), .portEnqueue 0, .portCall (request 1), .portEnqueue 0, .run,
      .sendFile oneByte]
  obtain ⟨htaken, hout, hmode, htiming, htimer, hanswers⟩ : w.taken = none ∧ w.outstanding = [] ∧
      w.comp.mode = .cooldown ∧ w.comp.timing = (1, 0) ∧ w.comp.curTimer = 0 ∧
      w.accepted.length = 2 ∧
      w.log.filterMap Record.answer = [.fileComplete ⟨.statusOk, 0⟩] := by
    cases hrun
    exact ⟨rfl, rfl, rfl, rfl, rfl, rfl, rfl⟩
  refine ⟨w, hrun, hanswers.1, hanswers.2, fun inputs => ?_⟩
  obtain ⟨hcooldown, hcycle⟩ := Prod.mk.inj htiming
  cases hsound.phase with
  | taken _ hsome => exact absurd (htaken.symm.trans hsome) (by simp)
  | sending _ _ _ _ _ hbuffer => exact absurd (hout.symm.trans hbuffer) (by simp)
  | resting =>
    have hstalled : Stalled w.log w := by
      refine ⟨rfl, ⟨finished, hsound⟩, hmode, fun ticks => ?_⟩
      rw [hcooldown, hcycle, htimer, UInt32.mul_zero]
      decide
    obtain ⟨w', hrun, hstalled'⟩ := total_run (C := fun _ _ => True)
      (fun _ input h _ => Stalled.step h input) hstalled
      (alongM_of_forall (fun _ (_ : _ ∈ inputs) _ => trivial) w)
    exact ⟨w', hrun, hstalled'.log⟩

end Fprime.Svc.FileDownlink
