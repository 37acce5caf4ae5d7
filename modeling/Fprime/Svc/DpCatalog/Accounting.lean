import Fprime.Svc.DpCatalog.Responses

/-!
# What the data product catalog makes of a completion

A completion is taken to be for the entry in flight. That is the file that was sent as long as no
other is sent, and no catalog built, before the completion of a transmission that has been stopped.
-/

namespace Fprime.Svc.DpCatalog

open Fw Lib List

theorem requests_append (outs outs' : List Out) :
    requests (outs ++ outs') = requests outs ++ requests outs' :=
  filterMap_append

variable {env : Env} {outs : List Out} {s s' : DpCatalog} {outstanding : List DpStateEntry}

theorem acceptedSends_append {outs' : List Out} (h : requests outs' = []) :
    acceptedSends env (outs ++ outs') = acceptedSends env outs := by
  rw [acceptedSends, requests_append, h, append_nil]
  rfl

theorem acceptedSends_eq_nil (h : requests outs = []) :
    acceptedSends env outs = [] := by
  rw [acceptedSends, h]
  exact ite_self _

def transmitted (entry : DpStateEntry) : DpStateEntry :=
  { entry with record := { entry.record with state := .transmitted } }

def InFlight (s : DpCatalog) (outstanding : List DpStateEntry) : Prop :=
  (outstanding = [] ∧ s.xmitInProgress = false) ∨
    ∃ entry, outstanding = [entry] ∧
      (s.catalogBuilt = true → s.hasCurrentXmit = true ∧ s.currentXmitEntry = entry)

def resumes (s : DpCatalog) (message : Message) : Bool :=
  s.isStart message || s.isPlain opcodeBuildCatalog message ||
    match message with
    | .addToCat _ => s.remainActive
    | _ => false

theorem InFlight.congr (h : InFlight s outstanding) (hbusy : s'.xmitInProgress = s.xmitInProgress)
    (hbuilt : s'.catalogBuilt = s.catalogBuilt) (hcurrent : s'.hasCurrentXmit = s.hasCurrentXmit)
    (hentry : s'.currentXmitEntry = s.currentXmitEntry) : InFlight s' outstanding := by
  rw [InFlight, hbusy, hbuilt, hcurrent, hentry]
  exact h

theorem Advances.inFlight {r : DpCatalog × List Out} (h : Advances env s r) :
    InFlight r.1 (acceptedSends env r.2) := by
  rcases h.flight with ⟨-, hcurrent, -, hsent⟩ | ⟨hidle, hsent, -⟩
  · exact .inr ⟨r.1.currentXmitEntry, hsent, fun _ => ⟨hcurrent, rfl⟩⟩
  · exact .inl ⟨hsent, hidle⟩

theorem InFlight.tail (h : InFlight s outstanding) : outstanding.tail = [] := by
  rcases h with ⟨rfl, -⟩ | ⟨entry, rfl, -⟩
  · rfl
  · rfl

theorem Outcome.inFlight {message : Message} (h : Outcome env s message s' outs)
    (hflight : InFlight s outstanding)
    (hsteady : s.resumes message = true → s.xmitInProgress = false → outstanding = []) :
    InFlight s' (message.awaited outstanding ++ acceptedSends env outs) := by
  have hnone : ∀ {outs : List Out} {s' : DpCatalog}, requests outs = [] → InFlight s' outstanding →
      InFlight s' (outstanding ++ acceptedSends env outs) := by
    intro outs s' hrequests h
    rwa [acceptedSends_eq_nil hrequests, append_nil]
  cases h with
  | answered response lines | turnedAway remainActive hstart =>
    exact hnone rfl (hflight.congr rfl rfl rfl rfl)
  | rebuilt hbuild h hresponses hrequests =>
    have hidle := h.idle
    have hempty := hsteady (by simp only [resumes, hbuild, Bool.or_true, Bool.true_or]) hidle
    obtain ⟨c, n, b, l, built, rfl⟩ := h.frame
    exact hnone hrequests (.inl ⟨hempty, hidle⟩)
  | started wait remainActive hstart hidle hbuilt h =>
    have hempty := hsteady (by simp only [resumes, hstart, Bool.true_or]) hidle
    rw [hempty, acceptedSends_append (by cases wait <;> rfl)]
    exact h.inFlight
  | stopped =>
    obtain ⟨⟨opCode', cmdSeq', hfst⟩, -, hrequests, -⟩ :=
      dispatchWaitedResponse_spec { s with xmitInProgress := false } .ok
    refine hnone (by rw [requests_append, hrequests]; rfl) ?_
    rw [hfst]
    rcases hflight with ⟨hempty, -⟩ | hentry
    · exact .inl ⟨hempty, rfl⟩
    · exact .inr hentry
  | cleared hclear =>
    refine hnone rfl ?_
    rcases hflight with hempty | ⟨entry, hentry, -⟩
    · exact .inl hempty
    · exact .inr ⟨entry, hentry, fun h => nomatch h⟩
  | added h hresponses hrequests =>
    obtain ⟨c, n, b, l, rfl⟩ := h.frame
    exact hnone hrequests (hflight.congr rfl rfl rfl rfl)
  | resumed hgrows hidle hactive h lines =>
    have hempty := hsteady (by rw [resumes, hactive, Bool.or_true]) hidle
    rw [acceptedSends_append rfl]
    show InFlight _ (outstanding ++ _)
    rw [hempty]
    exact h.inFlight
  | halted h hidle | completed hcurrent hbuilt hcatalog h =>
    show InFlight _ (outstanding.tail ++ _)
    rw [hflight.tail]
    exact h.inFlight

namespace Transition

/-- A send is for an entry that no other comes before, and a completion takes away and records the
entry that was sent. -/
structure Accounted (t : Transition) : Prop where
  sends : ∀ entry ∈ requests t.outs, Least t.after.catalog.entries entry
  records : ∀ entry ∈ records t.outs, t.message = .fileDone true ∧
    ∃ sent, t.oldest = some sent ∧ entry = transmitted sent ∧
      t.before.catalog.entries.Perm (sent :: t.after.catalog.entries)
  removals : ∀ entry ∈ t.before.catalog.entries, entry ∉ t.after.catalog.entries →
    t.before.isPlain opcodeBuildCatalog t.message = true ∨
      t.before.isPlain opcodeClearCatalog t.message = true ∨
      (t.message = .fileDone true ∧ t.oldest = some entry ∧
        transmitted entry ∈ DpCatalog.records t.outs)

theorem accounted_of_keeps {s s' : DpCatalog} {message : Message} {oldest : Option DpStateEntry}
    {outs : List Out} (hrequests : requests outs = []) (hrecords : DpCatalog.records outs = [])
    (hkeeps : s.catalog.entries ⊆ s'.catalog.entries) :
    Accounted ⟨s, message, oldest, s', outs⟩ :=
  ⟨by simp [hrequests], by simp [hrecords], fun _ hbefore hafter => absurd (hkeeps hbefore) hafter⟩

theorem accounted_of_advances {env : Env} {s s1 : DpCatalog} {message : Message}
    {oldest : Option DpStateEntry} {r : DpCatalog × List Out} {outs : List Out}
    (h : Advances env s1 r) (hkeeps : s.catalog.entries ⊆ s1.catalog.entries)
    (hrequests : requests outs = []) (hrecords : DpCatalog.records outs = []) :
    Accounted ⟨s, message, oldest, r.1, r.2 ++ outs⟩ := by
  refine ⟨?_, ?_, ?_⟩
  · dsimp only
    rw [requests_append, hrequests, append_nil, h.catalog]
    exact h.least
  · have hnone : DpCatalog.records (r.2 ++ outs) = [] := by
      rw [DpCatalog.records, filterMap_append, ← DpCatalog.records, ← DpCatalog.records,
        h.records, hrecords]
      rfl
    dsimp only
    rw [hnone]
    exact fun _ h => absurd h not_mem_nil
  · intro entry hbefore hafter
    dsimp only at hafter
    rw [h.catalog] at hafter
    exact absurd (hkeeps hbefore) hafter

end Transition

theorem Outcome.accounted {message : Message} (h : Outcome env s message s' outs)
    (hflight : InFlight s outstanding)
    (hpermitted : ∀ ok, message = .fileDone ok → outstanding ≠ []) :
    Transition.Accounted ⟨s, message, outstanding.head?, s', outs⟩ := by
  cases h with
  | answered response lines => exact Transition.accounted_of_keeps rfl rfl (List.Subset.refl _)
  | rebuilt hbuild h hresponses hrequests hrecords =>
    exact ⟨by simp [hrequests], by simp [hrecords], fun _ _ _ => .inl hbuild⟩
  | turnedAway remainActive hstart =>
    exact Transition.accounted_of_keeps rfl rfl (List.Subset.refl _)
  | started wait remainActive hstart hidle hbuilt h =>
    refine Transition.accounted_of_advances h (List.Subset.refl _) ?_ ?_ <;> cases wait <;> rfl
  | stopped =>
    obtain ⟨⟨opCode', cmdSeq', hfst⟩, -, hrequests, hrecords⟩ :=
      dispatchWaitedResponse_spec { s with xmitInProgress := false } .ok
    refine Transition.accounted_of_keeps ?_ ?_ ?_
    · rw [requests_append, hrequests]
      rfl
    · rw [records, filterMap_append, ← records, ← records, hrecords]
      rfl
    · rw [hfst]
      exact List.Subset.refl _
  | cleared hclear =>
    exact ⟨fun _ h => absurd h not_mem_nil, fun _ h => absurd h not_mem_nil,
      fun _ _ _ => .inr (.inl hclear)⟩
  | added h hresponses hrequests hrecords =>
    exact Transition.accounted_of_keeps hrequests hrecords h.entries
  | resumed hgrows hidle hactive h lines =>
    exact Transition.accounted_of_advances h hgrows.entries rfl rfl
  | @halted ok r h hidle =>
    rw [← append_nil r.2]
    exact Transition.accounted_of_advances h (List.Subset.refl _) rfl rfl
  | @completed catalog r hcurrent hbuilt hcatalog h =>
    -- the completion is for the entry in flight
    obtain ⟨sent, rfl, hsame⟩ : ∃ sent, outstanding = [sent] ∧ s.currentXmitEntry = sent := by
      rcases hflight with ⟨hempty, -⟩ | ⟨entry, hentry, hcurrent⟩
      · exact absurd hempty (hpermitted true rfl)
      · exact ⟨entry, hentry, (hcurrent hbuilt).2⟩
    rw [hsame] at hcatalog
    have hrecord : DpCatalog.records (.appendState (s.completed catalog).currentXmitEntry :: r.2) =
        [transmitted sent] := by
      show _ :: DpCatalog.records r.2 = _
      rw [h.records, ← hsame]
      rfl
    refine ⟨?_, ?_, ?_⟩
    · dsimp only
      rw [h.catalog]
      exact h.least
    · intro entry hentry
      dsimp only at hentry
      rw [hrecord] at hentry
      refine ⟨rfl, sent, rfl, mem_singleton.mp hentry, ?_⟩
      dsimp only
      rw [h.catalog]
      exact hcatalog
    · intro entry hbefore hafter
      dsimp only at hbefore hafter
      rw [h.catalog] at hafter
      rcases mem_cons.mp (hcatalog.mem_iff.mp hbefore) with rfl | hrest
      · refine .inr (.inr ⟨rfl, rfl, ?_⟩)
        dsimp only
        rw [hrecord]
        exact mem_singleton_self _
      · exact absurd hrest hafter

namespace World

/-- Nothing is sent or built between the end of a transmission and a completion still to come. -/
def Steady (w : World) (event : Env × Message) : Prop :=
  w.component.resumes event.2 = true → w.component.xmitInProgress = false → w.outstanding = []
  deriving Decidable

structure Accounting (w : World) : Prop where
  consistent : w.component.Consistent
  flight : InFlight w.component w.outstanding
  history : ∀ t ∈ w.history, t.Accounted

theorem Accounting.initial (idBase : UInt32) (directories : List FileNameString)
    (stateFile : FileNameString) (slots : Nat) :
    Accounting (initial idBase directories stateFile slots) :=
  ⟨.configured idBase directories stateFile slots, .inl ⟨rfl, rfl⟩, fun _ h => nomatch h⟩

theorem Accounting.step {w : World} {event : Env × Message} (hw : Accounting w)
    (hevent : w.Permitted event ∧ w.Steady event) :
    ∃ w', w.step event = .ok w' ∧ Accounting w' := by
  obtain ⟨hpermitted, hsteady⟩ := hevent
  have houtstanding : ∀ ok, event.2 = .fileDone ok → w.outstanding ≠ [] := by
    intro ok hdone
    rw [Permitted, hdone] at hpermitted
    exact hpermitted
  rcases receive_outcome event.1 hw.consistent event.2 with ⟨s', outs, heq, houtcome⟩ | herror
  · refine ⟨w.after event (s', outs), by rw [World.step, heq]; rfl,
      houtcome.consistent hw.consistent, houtcome.inFlight hw.flight hsteady, fun t ht => ?_⟩
    rcases mem_append.mp ht with ht | ht
    · exact hw.history t ht
    · rw [mem_singleton.mp ht]
      exact houtcome.accounted hw.flight houtstanding
  · obtain ⟨hdone, hbuilt, hcurrent, -⟩ := herror
    rcases hw.flight with ⟨hempty, -⟩ | ⟨entry, -, hentry⟩
    · exact absurd hempty (houtstanding true hdone)
    · exact absurd (hcurrent.symm.trans (hentry hbuilt).1) Bool.false_ne_true

end World

/-- As long as nothing is sent or built while an old completion is to come, the counts are those of
the entries, and each product is accounted for by its own transfer. -/
theorem products_accounted (idBase : UInt32) (directories : List FileNameString)
    (stateFile : FileNameString) (slots : Nat) {events : List (Env × Message)}
    (hpermitted : Runs.AlongM World.step World.Permitted
      (.initial idBase directories stateFile slots) events)
    (hsteady : Runs.AlongM World.step World.Steady
      (.initial idBase directories stateFile slots) events) :
    ∃ w, events.foldlM World.step (.initial idBase directories stateFile slots) = .ok w ∧
      w.component.pendingFiles = w.component.catalog.entries.length ∧
      w.component.pendingDpBytes.toNat = totalSize w.component.catalog.entries ∧
      ∀ t ∈ w.history, t.Accounted := by
  obtain ⟨w, hrun, hw⟩ := Runs.total_run (fun _ _ hw hevent => World.Accounting.step hw hevent)
    (World.Accounting.initial idBase directories stateFile slots) (hpermitted.and hsteady)
  exact ⟨w, hrun, hw.consistent.files, hw.consistent.bytes, hw.history⟩

/-- The product is sent after it has been stopped, and its completion takes it out of the catalog. -/
theorem products_accounted_stopped :
    ∃ w, [(oneProduct, .cmd opcodeBuildCatalog 1 []),
        (oneProduct, .cmd opcodeStartXmitCatalog 2 [1, 0]),
        (oneProduct, .cmd opcodeStopXmitCatalog 3 []),
        (oneProduct, .fileDone true)].foldlM World.step oneDirectory = .ok w ∧
      w.component.pendingFiles = w.component.catalog.entries.length ∧
      w.component.pendingDpBytes.toNat = totalSize w.component.catalog.entries ∧
      ∀ t ∈ w.history, t.Accounted :=
  products_accounted 0 _ _ 4 (by decide +kernel) (by decide +kernel)

/-- A product that is sent again before the completion of its first transfer is completed twice. -/
theorem second_completion_fails :
    ∃ events : List (Env × Message),
      Runs.AlongM World.step World.Permitted oneDirectory events ∧
      events.foldlM World.step oneDirectory = .error .noCurrentXmit :=
  ⟨[(oneProduct, .cmd opcodeBuildCatalog 1 []),
    (oneProduct, .cmd opcodeStartXmitCatalog 2 [1, 0]),
    (oneProduct, .cmd opcodeStopXmitCatalog 3 []),
    (oneProduct, .cmd opcodeStartXmitCatalog 4 [1, 0]),
    (oneProduct, .fileDone true),
    (oneProduct, .fileDone true)],
    by decide +kernel, Runs.failure_eq_some.mp (by decide +kernel)⟩

end Fprime.Svc.DpCatalog
