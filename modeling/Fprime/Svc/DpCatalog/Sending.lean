import Fprime.Svc.DpCatalog.Stock

/-!
# Sending the entries of the data product catalog

What holds of the component between two messages, and what an attempt to send the next entry does.
-/

namespace Fprime.Svc.DpCatalog

open Fw Lib

def responses (outs : List Out) : List (UInt32 × UInt32) :=
  outs.filterMap fun
    | .cmdResponse opCode cmdSeq _ => some (opCode, cmdSeq)
    | _ => none

def requests (outs : List Out) : List DpStateEntry :=
  outs.filterMap fun
    | .fileOut entry _ => some entry
    | _ => none

def records (outs : List Out) : List DpStateEntry :=
  outs.filterMap fun
    | .appendState entry => some entry
    | _ => none

variable (env : Env) (s : DpCatalog)

def acceptedSends (outs : List Out) : List DpStateEntry :=
  if env.accepts then requests outs else []

def waiting : List (UInt32 × UInt32) :=
  if s.xmitCmdWait then [(s.xmitOpCode, s.xmitCmdSeq)] else []

theorem waiting_eq_nil {s : DpCatalog} (h : s.xmitCmdWait = false) : s.waiting = [] := by
  rw [waiting, h]
  rfl

def Least (entries : List DpStateEntry) (entry : DpStateEntry) : Prop :=
  entry ∈ entries ∧ ∀ other ∈ entries, compareEntries entry other ≠ .gt

theorem least_first {catalog : Catalog} {entry : DpStateEntry} (h : catalog.first = some entry) :
    Least catalog.entries entry := by
  obtain ⟨hmem, hle⟩ := SortedSet.first_eq_some h
  refine ⟨hmem, fun other hother => ?_⟩
  rw [compareEntries_eq, ne_eq, Nat.compare_eq_gt]
  exact not_lt.mpr (hle other hother)

/-- An entry in flight is in the catalog, and only a running transmission is waited for. -/
structure Coherent (s : DpCatalog) : Prop extends Stocked s where
  memory : s.catalogBuilt = true → s.numDpSlots ≠ 0
  current : s.hasCurrentXmit = true → s.currentXmitEntry ∈ s.catalog.entries
  waits : s.xmitCmdWait = true → s.xmitInProgress = true

/-- A running transmission from a catalog has an entry in flight. -/
structure Consistent (s : DpCatalog) : Prop extends Coherent s where
  sending : s.xmitInProgress = true → s.catalogBuilt = true → s.hasCurrentXmit = true

def sendingState (entry : DpStateEntry) (hasCurrent : Bool) (name : FileNameString)
    (inProgress wait : Bool) (opCode cmdSeq : UInt32) : DpCatalog :=
  { s with
    currentXmitEntry := entry
    hasCurrentXmit := hasCurrent
    currXmitFileName := name
    xmitInProgress := inProgress
    xmitCmdWait := wait
    xmitOpCode := opCode
    xmitCmdSeq := cmdSeq }

/-- The transmission has gone on with an entry, or it has ended. -/
structure Advances (env : Env) (s : DpCatalog) (r : DpCatalog × List Out) : Prop where
  frame : ∃ entry hasCurrent name inProgress wait opCode cmdSeq,
    r.1 = s.sendingState entry hasCurrent name inProgress wait opCode cmdSeq
  slot : responses r.2 ++ r.1.waiting = s.waiting
  records : records r.2 = []
  least : ∀ entry ∈ requests r.2, Least s.catalog.entries entry
  flight :
    (r.1.xmitInProgress = true ∧ r.1.hasCurrentXmit = true ∧
      r.1.currentXmitEntry ∈ s.catalog.entries ∧
      acceptedSends env r.2 = [r.1.currentXmitEntry]) ∨
    (r.1.xmitInProgress = false ∧ acceptedSends env r.2 = [] ∧
      (r.1.xmitCmdWait = true → s.xmitCmdWait = true ∧ s.xmitInProgress = false) ∧
      (r.1.hasCurrentXmit = true →
        s.hasCurrentXmit = true ∧ r.1.currentXmitEntry = s.currentXmitEntry))

theorem dispatchWaitedResponse_spec (response : CmdResponse) :
    (∃ opCode cmdSeq, (s.dispatchWaitedResponse response).1 =
      { s with xmitCmdWait := false, xmitOpCode := opCode, xmitCmdSeq := cmdSeq }) ∧
    responses (s.dispatchWaitedResponse response).2 = s.waiting ∧
    requests (s.dispatchWaitedResponse response).2 = [] ∧
    DpCatalog.records (s.dispatchWaitedResponse response).2 = [] := by
  rw [dispatchWaitedResponse, waiting]
  split
  · exact ⟨⟨_, _, rfl⟩, rfl, rfl, rfl⟩
  · next hwait =>
    refine ⟨⟨s.xmitOpCode, s.xmitCmdSeq, ?_⟩, rfl, rfl, rfl⟩
    have hfree : s.xmitCmdWait = false := Bool.not_eq_true _ ▸ hwait
    rw [← hfree]

theorem advances_stopped {s s' : DpCatalog} (outs : List Out) (response : CmdResponse)
    (hframe : ∃ entry hasCurrent name inProgress,
      s' = s.sendingState entry hasCurrent name inProgress s.xmitCmdWait s.xmitOpCode
        s.xmitCmdSeq)
    (hstop : s'.xmitInProgress = false)
    (hcurrent : s'.hasCurrentXmit = true →
      s.hasCurrentXmit = true ∧ s'.currentXmitEntry = s.currentXmitEntry)
    (hresponses : responses outs = []) (hrecords : records outs = [])
    (hleast : ∀ entry ∈ requests outs, Least s.catalog.entries entry)
    (haccepted : acceptedSends env outs = []) :
    Advances env s ((s'.dispatchWaitedResponse response).1,
      outs ++ (s'.dispatchWaitedResponse response).2) := by
  obtain ⟨entry, hasCurrent, name, inProgress, rfl⟩ := hframe
  obtain ⟨⟨opCode, cmdSeq, hfst⟩, hslot, hreq, hrec⟩ :=
    dispatchWaitedResponse_spec (s.sendingState entry hasCurrent name inProgress s.xmitCmdWait
      s.xmitOpCode s.xmitCmdSeq) response
  have hrequests : requests (outs ++ ((s.sendingState entry hasCurrent name inProgress
      s.xmitCmdWait s.xmitOpCode s.xmitCmdSeq).dispatchWaitedResponse response).2) =
      requests outs := by
    rw [requests, List.filterMap_append, ← requests, ← requests, hreq, List.append_nil]
  refine ⟨⟨entry, hasCurrent, name, inProgress, false, opCode, cmdSeq, hfst⟩, ?_, ?_, ?_,
    .inr ⟨?_, ?_, ?_, ?_⟩⟩
  · dsimp only
    rw [responses, List.filterMap_append, ← responses, ← responses, hslot, hresponses, hfst]
    exact List.append_nil _
  · dsimp only
    rw [records, List.filterMap_append, ← records, ← records, hrec, hrecords]
    rfl
  · rwa [hrequests]
  · rw [hfst]
    exact hstop
  · dsimp only
    rw [acceptedSends, hrequests, ← acceptedSends, haccepted]
  · rw [hfst]
    exact fun h => nomatch h
  · rw [hfst]
    exact hcurrent

theorem sendNextEntry_advances :
    Advances env s (s.sendNextEntry env) := by
  rw [sendNextEntry]
  split
  · next hidle =>
    have hstop : s.xmitInProgress = false := Bool.not_eq_true _ ▸ hidle
    exact ⟨⟨_, _, _, _, _, _, _, rfl⟩, rfl, rfl, (fun _ h => nomatch h),
      .inr ⟨hstop, ite_self _, fun h => ⟨h, hstop⟩, fun h => ⟨h, rfl⟩⟩⟩
  · next hbusy =>
    split
    · exact advances_stopped env [] .ok ⟨_, _, _, _, rfl⟩ rfl (fun h => ⟨h, rfl⟩) rfl rfl
        (fun _ h => nomatch h) (ite_self _)
    · next entry hfirst =>
      have hleast := least_first hfirst
      dsimp only
      split
      · exact advances_stopped env [] .executionError ⟨_, _, _, _, rfl⟩ rfl (fun h => nomatch h) rfl
          rfl (fun _ h => nomatch h) (ite_self _)
      · split
        · next haccepts =>
          refine ⟨⟨_, _, _, _, _, _, _, rfl⟩, rfl, rfl, fun e he => ?_,
            .inl ⟨not_not.mp hbusy, rfl, hleast.1, if_pos haccepts⟩⟩
          rw [List.mem_singleton.mp he]
          exact hleast
        · next haccepts =>
          refine advances_stopped env [_] .executionError ⟨_, _, _, _, rfl⟩ rfl
            (fun h => nomatch h) rfl rfl (fun e he => ?_) (if_neg haccepts)
          rw [List.mem_singleton.mp he]
          exact hleast

namespace Advances

variable {env : Env} {s : DpCatalog} {r : DpCatalog × List Out}

theorem catalog (h : Advances env s r) : r.1.catalog = s.catalog := by
  obtain ⟨_, _, _, _, _, _, _, heq⟩ := h.frame
  rw [heq]
  rfl

theorem consistent (h : Advances env s r) (hs : s.Coherent) : r.1.Consistent := by
  have hflight := h.flight
  obtain ⟨entry, hasCurrent, name, inProgress, wait, opCode, cmdSeq, heq⟩ := h.frame
  rw [heq] at hflight ⊢
  refine ⟨⟨⟨hs.files, hs.bytes, fun e he => ?_⟩, hs.memory, ?_, ?_⟩, ?_⟩
  · exact ⟨(hs.listed e he).nonneg, (hs.listed e he).lt, (hs.listed e he).size⟩
  · intro hcurrent
    rcases hflight with ⟨-, -, hmem, -⟩ | ⟨-, -, -, hsame⟩
    · exact hmem
    · obtain ⟨hhas, hentry⟩ := hsame hcurrent
      exact hentry ▸ hs.current hhas
  · intro hwait
    rcases hflight with ⟨hbusy, -⟩ | ⟨-, -, hslot, -⟩
    · exact hbusy
    · obtain ⟨hwas, hidle⟩ := hslot hwait
      exact absurd (hs.waits hwas) (by rw [hidle]; exact Bool.false_ne_true)
  · intro hbusy _
    rcases hflight with ⟨-, hhas, -⟩ | ⟨hidle, -⟩
    · exact hhas
    · exact absurd hbusy (by rw [hidle]; exact Bool.false_ne_true)

end Advances

end Fprime.Svc.DpCatalog
