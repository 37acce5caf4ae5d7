import Fprime.Svc.DpCatalog.Outcome

/-!
# Answers to the commands of the data product catalog

A command to transmit may ask to be answered when the transmission ends. It is kept in one slot,
which a second such command empties although it is refused.
-/

namespace Fprime.Svc.DpCatalog

open Lib

theorem responses_append (outs outs' : List Out) :
    responses (outs ++ outs') = responses outs ++ responses outs' :=
  List.filterMap_append

theorem Outcome.answers {env : Env} {s s' : DpCatalog} {message : Message} {outs : List Out}
    (h : Outcome env s message s' outs)
    (hfree : s.isStart message = true → s.xmitCmdWait = false) :
    (responses outs ++ s'.waiting).Perm (message.command ++ s.waiting) := by
  cases h with
  | answered response lines | cleared hclear => exact List.Perm.refl _
  | rebuilt hbuild h hresponses =>
    obtain ⟨c, n, b, l, built, rfl⟩ := h.frame
    rw [hresponses]
    exact List.Perm.refl _
  | turnedAway remainActive hstart =>
    rw [waiting_eq_nil (hfree hstart)]
    exact List.Perm.refl _
  | started wait remainActive hstart hidle hbuilt h =>
    have hslot := h.slot
    cases wait with
    | true =>
      rw [if_pos rfl, List.append_nil, hslot, waiting_eq_nil (hfree hstart)]
      exact List.Perm.refl _
    | false =>
      rw [if_neg Bool.false_ne_true, responses_append]
      refine (List.perm_append_comm.append_right _).trans ?_
      rw [List.append_assoc, hslot]
      exact List.Perm.refl _
  | stopped =>
    obtain ⟨⟨opCode', cmdSeq', hfst⟩, hslot, -⟩ :=
      dispatchWaitedResponse_spec { s with xmitInProgress := false } .ok
    rw [responses_append, hslot, hfst]
    exact (List.append_nil _).symm ▸ List.perm_append_comm
  | added h hresponses =>
    obtain ⟨c, n, b, l, rfl⟩ := h.frame
    rw [hresponses]
    exact List.Perm.refl _
  | resumed hgrows hidle hactive h lines =>
    obtain ⟨c, n, b, l, rfl⟩ := hgrows.frame
    rw [responses_append, List.append_assoc]
    exact .of_eq h.slot
  | halted h | completed hcurrent hbuilt hcatalog h => exact .of_eq h.slot

structure Answering (w : World) : Prop where
  consistent : w.component.Consistent
  answers : (w.answers ++ w.component.waiting).Perm w.commands

namespace World

/-- No command to transmit comes while one waits for its answer. -/
def SlotFree (w : World) (event : Env × Message) : Prop :=
  w.component.isStart event.2 = true → w.component.xmitCmdWait = false
  deriving Decidable

end World

theorem Answering.initial (idBase : UInt32) (directories : List Fw.FileNameString)
    (stateFile : Fw.FileNameString) (slots : Nat) :
    Answering (.initial idBase directories stateFile slots) :=
  ⟨.configured idBase directories stateFile slots, List.Perm.refl _⟩

theorem Answering.step {w w' : World} {event : Env × Message} (hw : Answering w)
    (hfree : w.SlotFree event) (h : w.step event = .ok w') : Answering w' := by
  obtain ⟨r, hr, rfl⟩ := Runs.map_eq_ok.mp h
  rcases receive_outcome event.1 hw.consistent event.2 with ⟨s', outs, heq, houtcome⟩ | herror
  · rw [heq] at hr
    cases hr
    refine ⟨houtcome.consistent hw.consistent, ?_⟩
    show (w.answers ++ responses outs ++ s'.waiting).Perm (w.commands ++ event.2.command)
    have hnew := houtcome.answers hfree
    rw [List.append_assoc]
    refine (hnew.append_left _).trans ((List.perm_append_comm.append_left _).trans ?_)
    rw [← List.append_assoc]
    exact hw.answers.append_right _
  · rw [herror.2.2.2] at hr
    cases hr

theorem Answering.all {w : World} (hw : Answering w) (h : w.component.xmitCmdWait = false) :
    w.answers.Perm w.commands := by
  have hanswers := hw.answers
  rwa [waiting_eq_nil h, List.append_nil] at hanswers

theorem Answering.of_idle {w : World} (hw : Answering w)
    (h : w.component.xmitInProgress = false) : w.answers.Perm w.commands := by
  refine hw.all (Bool.eq_false_iff.mpr fun hwait => ?_)
  exact absurd (h.symm.trans (hw.consistent.waits hwait)) Bool.false_ne_true

/-- Every command is answered once, with its own numbers: it waits as long as its transmission runs,
and no assertion fails before. -/
theorem commands_answered_once (idBase : UInt32) (directories : List Fw.FileNameString)
    (stateFile : Fw.FileNameString) (slots : Nat) {events : List (Env × Message)} {w : World}
    (hfree : Runs.AlongM World.step World.SlotFree
      (.initial idBase directories stateFile slots) events)
    (hrun : events.foldlM World.step (.initial idBase directories stateFile slots) = .ok w) :
    (w.answers ++ w.component.waiting).Perm w.commands ∧
      (w.component.xmitInProgress = false → w.answers.Perm w.commands) ∧
      ∀ event error, w.step event = .error error → w.answers.Perm w.commands := by
  have hw : Answering w := Runs.invariant_run (fun _ _ _ hw hfree h => hw.step hfree h)
    (.initial idBase directories stateFile slots) hfree hrun
  refine ⟨hw.answers, hw.of_idle, fun event error herror => hw.of_idle ?_⟩
  rcases receive_outcome event.1 hw.consistent event.2 with ⟨s', outs, heq, -⟩ | herror'
  · rw [World.step, heq] at herror
    cases herror
  · obtain ⟨-, hbuilt, hcurrent, -⟩ := herror'
    refine Bool.eq_false_iff.mpr fun hbusy => ?_
    exact absurd (hcurrent.symm.trans (hw.consistent.sending hbusy hbuilt)) Bool.false_ne_true

def oneProduct : Env where
  stateFile := .doesntExist
  directory := fun _ => some [some (.setBytes _ ((formatDpFileName [100] 1 2 3).1.bytes.drop 2))]
  file := fun _ => some ⟨minPacketSize.toUInt64, 0, 1, 2, 3, 0, .untransmitted⟩
  accepts := true

def oneDirectory : World :=
  .initial 0 [.setBytes _ [100]] .new 4

theorem commands_answered_once_waiting :
    ∃ w, [(oneProduct, .cmd opcodeBuildCatalog 1 []),
        (oneProduct, .cmd opcodeStartXmitCatalog 2 [0, 0]),
        (oneProduct, .fileDone true)].foldlM World.step oneDirectory = .ok w ∧
      w.component.xmitInProgress = false ∧ w.answers.Perm w.commands := by
  have hevents : Runs.AlongM World.step World.SlotFree oneDirectory
        [(oneProduct, .cmd opcodeBuildCatalog 1 []),
          (oneProduct, .cmd opcodeStartXmitCatalog 2 [0, 0]), (oneProduct, .fileDone true)] ∧
      ∃ w, [(oneProduct, .cmd opcodeBuildCatalog 1 []),
        (oneProduct, .cmd opcodeStartXmitCatalog 2 [0, 0]),
        (oneProduct, .fileDone true)].foldlM World.step oneDirectory = .ok w ∧
        w.component.xmitInProgress = false := Runs.of_guarded (by decide +kernel)
  obtain ⟨hfree, w, hrun, hidle⟩ := hevents
  exact ⟨w, hrun, hidle, (commands_answered_once 0 _ _ 4 hfree hrun).2.1 hidle⟩

/-- A second command to transmit takes the first one's slot, and the first is not answered. -/
theorem refused_start_drops_waiting :
    ∃ events : List (Env × Message),
      Runs.AlongM World.step World.Permitted oneDirectory events ∧
      ∃ w, events.foldlM World.step oneDirectory = .ok w ∧
        w.component.xmitInProgress = false ∧ w.outstanding = [] ∧
        (opcodeStartXmitCatalog, 2) ∈ w.commands ∧ (opcodeStartXmitCatalog, 2) ∉ w.answers :=
  ⟨[(oneProduct, .cmd opcodeBuildCatalog 1 []),
    (oneProduct, .cmd opcodeStartXmitCatalog 2 [0, 0]),
    (oneProduct, .cmd opcodeStartXmitCatalog 3 [1, 0]),
    (oneProduct, .fileDone true)], Runs.of_guarded (by decide +kernel)⟩

end Fprime.Svc.DpCatalog
