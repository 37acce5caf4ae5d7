import Fprime.Cfdp.Rx.Runs

/-!
# When a reception is complete

The FIN of a class-2 reception is to follow the EOF, the metadata and all of the data. File data
that cannot be decoded has one sent at once, and a NAK that falls due after the last gap was closed
completes without one.
-/

namespace Fprime.Cfdp

open Fprime.Os Fprime.Fw Lib.Runs

namespace Rx

variable {v : View} {p : Inputs}

theorem View.AllData.stored (hv : v.AllData) {h : Handle} {offset : UInt32} {data : Bytes}
    (hbound : if v.mdRecv then offset.toNat + data.length ≤ v.fsize.toNat else offset.toNat + data.length < 2 ^ 32) :
    (v.stored h offset data).AllData := by
  rw [if_pos hv.1] at hbound
  exact ⟨hv.1, hv.2.add hbound⟩

/-- An error, or the checksum pass, before the close-out; all of the file, and the EOF, before a FIN
without an error. -/
structure Ordered (v : View) : Prop where
  closeout : v.closeout → v.failed ∨ v.crcCalc
  canceled : v.canceled → v.failed
  eofCc : v.eofCc ≠ 0 → v.failed
  sendFin : v.sendFin → v.failed ∨ v.crcCalc ∨ (v.eofRecv ∧ v.AllData)
  delivered : v.delivered → v.eofRecv ∧ v.eofCc = 0 ∧ v.AllData

theorem Ordered.initial (h : Initial p v) : Ordered v := by
  cases h with
  | opened h => exact {
      closeout := by simp [h.closeout]
      canceled := by simp [h.canceled]
      eofCc := by simp [h.eofCc]
      sendFin := by simp [h.sendFin]
      delivered := by simp [h.delivered] }
  | refused h => exact {
      closeout := fun _ => .inl rfl
      canceled := fun _ => rfl
      eofCc := fun _ => rfl
      sendFin := fun _ => .inl rfl
      delivered := by simp [h.delivered] }

theorem Ordered.ended (hv : Ordered v) (h : v.failed ∨ v.closeout ∨ v.eofCc ≠ 0 ∨ v.canceled) :
    v.failed ∨ v.crcCalc := by
  rcases h with h | h | h | h
  · exact .inl h
  · exact hv.closeout h
  · exact .inl (hv.eofCc h)
  · exact .inl (hv.canceled h)

theorem Ordered.step (hp : ¬ p.reset) {w : View} (h : Step p v w) (hv : Ordered v) : Ordered w := by
  cases h with
  | fail fd => exact { hv with
      closeout := fun _ => .inl rfl
      canceled := fun _ => rfl
      eofCc := fun _ => rfl
      sendFin := fun _ => .inl rfl }
  | cancel h => exact { hv with canceled := fun _ => h }
  | requestFin h => exact { hv with
      sendFin := fun _ => by
        rcases h with h | ⟨-, hclose⟩ | h | h
        · exact .inl h
        · exact (hv.closeout hclose).imp_right .inl
        · exact absurd h hp
        · exact .inr (.inr h) }
  | giveUp h => exact { hv with sendFin := fun _ => .inl h }
  | complete heof hall => exact { hv with sendFin := fun _ => .inr (.inr ⟨heof, hall⟩) }
  | lateComplete | read | finish => exact { hv with }
  | reopen h => exact { hv with closeout := nofun }
  | eof cc hfirst hcc => exact { hv with
      eofCc := hcc
      sendFin := fun h => (hv.sendFin h).imp_right fun h => h.imp_right fun h => absurd h.1 hfirst
      delivered := fun h => absurd (hv.delivered h).1 hfirst }
  | eofComplete hfirst hall => exact { hv with
      eofCc := fun h => absurd rfl h
      sendFin := fun _ => .inr (.inr ⟨rfl, hall⟩)
      delivered := fun h => absurd (hv.delivered h).1 hfirst }
  | store _ offset data _ _ _ _ _ hbound => exact { hv with
      sendFin := fun h => (hv.sendFin h).imp_right fun h => h.imp_right fun h =>
        ⟨h.1, h.2.stored hbound⟩
      delivered := fun h =>
        ⟨(hv.delivered h).1, (hv.delivered h).2.1, (hv.delivered h).2.2.stored hbound⟩ }
  | metadataFailed _ _ _ _ hfirst => exact { hv with
      closeout := fun _ => .inl rfl
      canceled := fun _ => rfl
      eofCc := fun _ => rfl
      sendFin := fun _ => .inl rfl
      delivered := fun h => absurd (hv.delivered h).2.2.1 hfirst }
  | metadata _ _ _ hfirst => exact { hv with
      sendFin := fun h =>
        (hv.sendFin h).imp_right fun h => h.imp_right fun h => absurd h.2.1 hfirst
      delivered := fun h => absurd (hv.delivered h).2.2.1 hfirst }
  | deliver hfin hok hcrc => exact { hv with
      closeout := fun _ => .inr rfl
      sendFin := fun _ => .inr (.inl rfl)
      delivered := fun _ => by
        obtain ⟨heof, hall⟩ := ((hv.sendFin hfin).resolve_left hok).resolve_left hcrc
        exact ⟨heof, by_contra fun h => hok (hv.eofCc h), hall⟩ }
  | checked h => exact { hv with
      closeout := fun _ => .inl h
      sendFin := fun _ => .inl h }
  | closeout h => exact { hv with closeout := fun _ => h }
  | finSent => exact { hv with sendFin := nofun }

/-- A reception found complete has its FIN on the way. -/
structure Announced (v : View) : Prop where
  allData : v.complete → v.failed ∨ v.AllData
  fin : v.complete → v.eofRecv → v.failed ∨ v.sendFin ∨ v.closeout ∨ v.state = .hold

theorem Announced.initial (h : Initial p v) : Announced v := by
  cases h with
  | opened h | refused h => exact ⟨by simp [h.complete], by simp [h.complete]⟩

theorem Announced.step (hp : ¬ p.lateNak) {w : View} (h : Step p v w) (hv : Announced v) :
    Announced w := by
  cases h with
  | fail fd | metadataFailed => exact ⟨fun _ => .inl rfl, fun _ _ => .inl rfl⟩
  | cancel h | read | deliver | checked => exact { hv with }
  | requestFin => exact { hv with fin := fun _ _ => .inr (.inl rfl) }
  | giveUp h => exact ⟨fun _ => .inl h, fun _ _ => .inl h⟩
  | complete _ hall | eofComplete _ hall => exact ⟨fun _ => .inr hall, fun _ _ => .inr (.inl rfl)⟩
  | lateComplete hall h => exact ⟨fun _ => .inr hall, fun _ heof => by
      rcases h with h | h | h | h
      · exact absurd h hp
      · exact .inl h
      · exact absurd heof h
      · exact .inr h⟩
  | reopen h => exact { hv with
      fin := fun hcomp heof => by
        rcases h with h | h | h | h
        · exact .inl h
        · exact absurd heof h
        · exact .inl ((hv.allData hcomp).resolve_right h)
        · exact .inr (.inl h) }
  | eof _ _ _ hopen => exact { hv with
      fin := fun hcomp _ => by
        rcases hopen with h | h
        · exact .inl h
        · exact .inl ((hv.allData hcomp).resolve_right h) }
  | store _ _ _ _ _ _ _ _ hbound => exact { hv with
      allData := fun h => (hv.allData h).imp_right fun h => h.stored hbound }
  | metadata _ _ _ hfirst => exact { hv with
      allData := fun h => (hv.allData h).imp_right fun h => absurd h.1 hfirst }
  | closeout => exact { hv with fin := fun _ _ => .inr (.inr (.inl rfl)) }
  | finSent h => exact { hv with fin := fun _ _ => .inr (.inr (.inl h)) }
  | finish => exact { hv with fin := fun _ _ => .inr (.inr (.inr rfl)) }

end Rx

namespace Session

open Rx

def Undecodable (data : Bytes) : Prop :=
  peekPduType data = .fileData ∧ decoded (FileDataPdu.deserializeFrom ⟨data⟩) = none

instance (data : Bytes) : Decidable (Undecodable data) :=
  decidable_of_iff (peekPduType data = .fileData ∧
    (decoded (FileDataPdu.deserializeFrom ⟨data⟩)).isNone) (by simp [Undecodable])

/-- File data that cannot be decoded comes after an error, a cancellation or the start of the
checksum pass, or when nothing is missing. -/
def HarmlessReset (s : Session) : Mgr × RxEvent → Prop
  | (_, .recv data) => Undecodable data →
      s.txn.state ≠ .r2 ∨ s.isError ∨ s.txn.flags.com.canceled ∨
      s.txn.stateData.receive.subState = .closeoutSync ∨
      s.txn.stateData.receive.r2.eofCc ≠ 0 ∨ s.txn.stateData.receive.r2.rxCrcCalcBytes ≠ 0 ∨
      (s.txn.flags.rx.eofRecv ∧ ¬ s.missing)
  | (_, .tick) => True
  | (_, .cancel) => True

instance (s : Session) (e : Mgr × RxEvent) : Decidable (s.HarmlessReset e) := by
  rcases e with ⟨_, _ | _⟩ <;> unfold HarmlessReset <;> infer_instance

/-- Any data and any size, but no FIN for what cannot be decoded. -/
def anyInput : Inputs := ⟨fun _ _ => True, fun _ => True, False, True⟩

variable {s : Session} {e : Mgr × RxEvent}

theorem HarmlessReset.permits (h : s.HarmlessReset e) :
    s.Permits anyInput e := by
  obtain ⟨mgr, event⟩ := e
  cases event with
  | recv data =>
    refine ⟨fun _ _ _ => trivial, fun _ _ => trivial, fun hst hpeek hdec hcrc hno => .inr ?_⟩
    rcases h ⟨hpeek, hdec⟩ with h | h | h | h | h | h | ⟨heof, hall⟩
    · exact absurd hst h
    · exact absurd (.inl h) hno
    · exact absurd (.inr (.inr (.inr h))) hno
    · exact absurd (.inr (.inl (decide_eq_true h))) hno
    · exact absurd (.inr (.inr (.inl h))) hno
    · exact absurd hcrc h
    · exact ⟨heof, (missing_eq_false_iff s).1 (by simpa using hall)⟩
  | tick => exact fun _ => trivial
  | cancel => exact trivial

theorem harmless_invariant {I : View → Prop} (hinit : ∀ v, Initial anyInput v → I v)
    (hstep : ∀ v w, Step anyInput v w → I v → I w) (hf : s.Fresh) {first : Mgr × Bytes}
    (hclass : (s.dispatchRecv first.1 first.2).txn.txnClass = .class2)
    (hfirst : ¬ Undecodable first.2) {events : List (Mgr × RxEvent)}
    (h : Along rxStep HarmlessReset (s.dispatchRecv first.1 first.2) events) :
    (s.rxRun first events).Recycled ∨ I (s.rxRun first events).rxView := by
  refine rxRun_invariant hinit hstep hf hclass (fun s => ?_) (h.mono fun _ _ => HarmlessReset.permits)
  exact ⟨fun _ _ _ => trivial, fun _ _ => trivial, fun _ hpeek hdec => absurd ⟨hpeek, hdec⟩ hfirst⟩

/-- Delivery is reported as complete only with the EOF, the metadata and all of the file, as long as
undecodable file data does no harm. -/
theorem complete_of_harmless_resets (hf : s.Fresh) (first : Mgr × Bytes)
    (hclass : (s.dispatchRecv first.1 first.2).txn.txnClass = .class2)
    (hfirst : ¬ Undecodable first.2) (events : List (Mgr × RxEvent))
    (h : Along rxStep HarmlessReset (s.dispatchRecv first.1 first.2) events)
    (hdc : (s.rxRun first events).txn.stateData.receive.r2.dc = .complete)
    (hfs : (s.rxRun first events).txn.stateData.receive.r2.fs = .retained) :
    (s.rxRun first events).txn.flags.rx.eofRecv ∧
      (s.rxRun first events).txn.stateData.receive.r2.eofCc = ConditionCode.noError.code ∧
      (s.rxRun first events).txn.flags.rx.mdRecv ∧
      (s.rxRun first events).list.Covers (s.rxRun first events).txn.fsize.toNat := by
  have hdel : (s.rxRun first events).rxView.delivered = true := by
    simp only [rxView, hdc, hfs, decide_true, Bool.and_self]
  rcases harmless_invariant (fun _ => Ordered.initial) (fun _ _ => Ordered.step id) hf hclass
    hfirst h with hrec | hord
  · rw [hrec.2.1] at hdel
    cases hdel
  · obtain ⟨heof, hcc, hmd, hcov⟩ := hord.delivered hdel
    exact ⟨heof, hcc, hmd, hcov⟩

theorem complete_of_harmless_resets_two_bytes :
    (started.rxRun (.ample, mdBytes)
      [(.ample, .recv fdBytes), (.ample, .recv eofBytes), (.ample, .tick), (.ample, .tick),
        (.ample, .recv [0x30, 0, 0, 0, 1, 7, 2])]).list.Covers 2 :=
  (complete_of_harmless_resets started_fresh (.ample, mdBytes) (by decide) (by decide)
    [(.ample, .recv fdBytes), (.ample, .recv eofBytes), (.ample, .tick), (.ample, .tick),
      (.ample, .recv [0x30, 0, 0, 0, 1, 7, 2])]
    (by decide) (by decide) (by decide)).2.2.2

/-- File data whose PDU ends after its header has the FIN report a complete delivery of an empty
file. -/
theorem complete_of_undecodable_file_data :
    ∃ (first : Mgr × Bytes) (events : List (Mgr × RxEvent)), started.Fresh ∧
      (started.dispatchRecv first.1 first.2).txn.txnClass = .class2 ∧
      (started.rxRun first events).txn.stateData.receive.r2.dc = .complete ∧
      (started.rxRun first events).txn.stateData.receive.r2.fs = .retained ∧
      (started.rxRun first events).txn.flags.rx.eofRecv = false ∧
      (started.rxRun first events).txn.flags.rx.mdRecv = false :=
  ⟨(.ample, [0x30, 0, 0, 0, 1, 7, 2]), [(.ample, .tick)], started_fresh,
    by decide, by decide, by decide, by decide, by decide⟩

/-- No tick services a NAK when nothing is missing any more. -/
def NoLateNak (s : Session) : Mgr × RxEvent → Prop
  | (_, .tick) => ¬ s.LateNak
  | (_, .recv _) => True
  | (_, .cancel) => True

instance (s : Session) (e : Mgr × RxEvent) : Decidable (s.NoLateNak e) := by
  rcases e with ⟨_, _ | _⟩ <;> unfold NoLateNak <;> infer_instance

def anyPdu : Inputs := ⟨fun _ _ => True, fun _ => True, True, False⟩

theorem NoLateNak.permits (h : s.NoLateNak e) :
    s.Permits anyPdu e := by
  obtain ⟨mgr, event⟩ := e
  cases event with
  | recv data =>
    exact ⟨fun _ _ _ => trivial, fun _ _ => trivial, fun _ _ _ _ _ => .inl trivial⟩
  | tick => exact h
  | cancel => exact trivial

/-- A completed reception has its FIN due or sent, or is over, along every reception in which no
NAK is serviced late. -/
theorem fin_of_complete_without_late_nak (hf : s.Fresh)
    (first : Mgr × Bytes)
    (hclass : (s.dispatchRecv first.1 first.2).txn.txnClass = .class2)
    (events : List (Mgr × RxEvent))
    (h : Along rxStep NoLateNak (s.dispatchRecv first.1 first.2) events)
    (hok : ¬ (s.rxRun first events).isError)
    (_hcan : ¬ (s.rxRun first events).txn.flags.com.canceled)
    (hcomp : (s.rxRun first events).txn.flags.rx.complete)
    (heof : (s.rxRun first events).txn.flags.rx.eofRecv) :
    (s.rxRun first events).txn.flags.rx.sendFin ∨
      (s.rxRun first events).txn.stateData.receive.subState = .closeoutSync ∨
      (s.rxRun first events).txn.state = .hold := by
  have hadmits : ∀ s : Session, s.Admits anyPdu first.2 := fun s =>
    ⟨fun _ _ _ => trivial, fun _ _ => trivial, fun _ _ _ _ _ => .inl trivial⟩
  have halong : Along rxStep (Permits anyPdu) (s.dispatchRecv first.1 first.2) events :=
    h.mono fun _ _ => NoLateNak.permits
  rcases rxRun_invariant (fun _ => Announced.initial) (fun _ _ => Announced.step id) hf hclass
    hadmits halong with hrec | hann
  · have hcomp' : (s.rxRun first events).rxView.complete = true := hcomp
    rw [hrec.2.2] at hcomp'
    cases hcomp'
  · rcases hann.fin hcomp heof with h | h | h | h
    · exact absurd h hok
    · exact .inl h
    · exact .inr (.inl (of_decide_eq_true h))
    · exact .inr (.inr h)

theorem fin_of_complete_without_late_nak_two_bytes :
    (started.rxRun (.ample, mdBytes)
      [(.ample, .recv fdBytes), (.ample, .recv eofBytes), (.ample, .tick)]).txn.flags.rx.sendFin :=
  (fin_of_complete_without_late_nak started_fresh (.ample, mdBytes) (by decide)
    [(.ample, .recv fdBytes), (.ample, .recv eofBytes), (.ample, .tick)]
    (by decide) (by decide) (by decide) (by decide) (by decide)).resolve_right (by decide)

/-- The data arrives between the EOF, which has a NAK requested, and the tick: no FIN is due. -/
theorem late_nak_completes_without_fin :
    ∃ (first : Mgr × Bytes) (events : List (Mgr × RxEvent)), started.Fresh ∧
      (started.dispatchRecv first.1 first.2).txn.txnClass = .class2 ∧
      (started.rxRun first events).isError = false ∧
      (started.rxRun first events).txn.flags.com.canceled = false ∧
      (started.rxRun first events).txn.flags.rx.complete ∧
      (started.rxRun first events).txn.flags.rx.eofRecv ∧
      (started.rxRun first events).txn.flags.rx.sendFin = false ∧
      (started.rxRun first events).txn.stateData.receive.subState = .fileData ∧
      (started.rxRun first events).txn.state = .r2 :=
  ⟨(.ample, mdBytes), [(.ample, .recv eofBytes), (.ample, .tick), (.ample, .recv fdBytes),
      (.ample, .tick)], started_fresh, by decide, by decide, by decide, by decide, by decide,
    by decide, by decide, by decide⟩

end Session

end Fprime.Cfdp
