import Fprime.Svc.TlmChan.Store

/-!
# The latest value

A channel may be in both stores, and the older of its two entries stays there; which one is served
depends on their times alone.
-/

namespace Fprime.Svc.TlmChan

open Fw Lib.Runs TlmSet

structure Receipt where
  id : UInt32
  time : Time
  value : TlmBuffer
  store : Bool

structure World where
  comp : TlmChan
  drain : Option Drain
  received : List Receipt

inductive Input where
  | recv (id : UInt32) (timeTag : Time) (val : TlmBuffer)
  | run
  | work

def World.start (comp : TlmChan) : World :=
  ⟨comp, none, []⟩

/-- One critical section of a caller or of the component's thread, which handles one message after
the other. -/
def World.step (w : World) : Input → Except Assertion World
  | .recv id timeTag val => do
    let (comp, _) ← w.comp.tlmRecvHandler id timeTag val
    return { w with comp := comp, received := ⟨id, timeTag, val, w.comp.active⟩ :: w.received }
  | .run =>
    if w.drain.isSome then .ok w
    else
      let (comp, drain) := w.comp.beginRun
      .ok { w with comp := comp, drain := drain }
  | .work =>
    match w.drain with
    | none => .ok w
    | some drain => do
      let (comp, drain, _) ← w.comp.stepRun drain
      return { w with comp := comp, drain := drain }

def World.latest (w : World) (id : UInt32) : Option Receipt :=
  w.received.find? (·.id = id)

/-- Times are on one base and never decrease, and there are no more channels than buckets. -/
def InOrder (base : TimeBase) (w : World) : Input → Prop
  | .recv id timeTag _ => timeTag.timeBase = base ∧
      (∀ r ∈ w.received, r.time.micros ≤ timeTag.micros) ∧
      (id :: w.received.map Receipt.id).dedup.length ≤ hashBuckets
  | _ => True

/-- A value that goes into the other store than the latest one of its channel has a later time. -/
def Separate (w : World) : Input → Prop
  | .recv id timeTag _ => ∀ r ∈ w.latest id, r.store ≠ w.comp.active →
      r.time.micros < timeTag.micros
  | _ => True

instance decidableInOrder (base : TimeBase) (w : World) (input : Input) :
    Decidable (InOrder base w input) := by
  cases input <;> unfold InOrder <;> infer_instance

instance decidableSeparate (w : World) (input : Input) : Decidable (Separate w input) := by
  cases input <;> unfold Separate <;> infer_instance

def packetRoom : Nat := comBufferMaxSize - 2 - 4 - Time.serializedSize

/-- Every channel's latest value is in the store that it went to, and what the other still has is
older. -/
structure Current (seed : UInt32) (base : TimeBase) (w : World) : Prop where
  hashSeed : w.comp.hashSeed = seed
  wellFormed : ∀ b, WellFormed seed (w.comp.set b)
  known : ∀ b id t v, view seed (w.comp.set b) id = some (t, v) →
    ∃ r ∈ w.received, r.id = id ∧ r.value = v
  bases : ∀ r ∈ w.received, r.time.timeBase = base
  latest : ∀ id, ∀ r ∈ w.latest id,
    view seed (w.comp.set r.store) id = some (r.time, r.value) ∧
    ∀ t v, view seed (w.comp.set (!r.store)) id = some (t, v) →
      t.timeBase = base ∧ t.micros < r.time.micros
  packet : ∀ d ∈ w.drain, d.pkt.numEntries = 0 → d.pkt = .reset

section Sets

variable {s : TlmChan} {set : TlmSet} {b c : Bool}

@[simp] theorem set_putSet_self : (s.putSet b set).set b = set := by
  cases b <;> rfl

theorem set_putSet_of_ne (h : c ≠ b) : (s.putSet b set).set c = s.set c := by
  cases b <;> cases c <;> first | rfl | exact absurd rfl h

@[simp] theorem active_putSet : (s.putSet b set).active = s.active := by
  cases b <;> rfl

@[simp] theorem hashSeed_putSet : (s.putSet b set).hashSeed = s.hashSeed := by
  cases b <;> rfl

theorem forall_putSet {P : Bool → TlmSet → Prop} (hb : P b set) (h : ∀ c ≠ b, P c (s.set c))
    (c : Bool) : P c ((s.putSet b set).set c) := by
  by_cases hc : c = b
  · subst hc
    rwa [set_putSet_self]
  · rw [set_putSet_of_ne hc]
    exact h c hc

theorem tlmRecvHandler_recorded {seed id : UInt32} {ids : List UInt32} (hseed : s.hashSeed = seed)
    (hwf : WellFormed seed (s.set s.active))
    (hknown : ∀ id' r, view seed (s.set s.active) id' = some r → id' ∈ ids)
    (hids : (id :: ids).dedup.length ≤ hashBuckets) (t : Time) (v : TlmBuffer) :
    ∃ i set', s.tlmRecvHandler id t v = .ok (s.putSet s.active set', []) ∧
      Recorded seed (s.set s.active) id t v i set' := by
  obtain ⟨i, set1, hentry, hset⟩ := entryToUse_recorded hwf (hwf.room hknown hids) t v
  refine ⟨i, _, ?_, hset⟩
  rw [tlmRecvHandler, hseed, hentry]
  rfl

end Sets

section Serving

variable {seed : UInt32} {base : TimeBase} {w : World} {id : UInt32}

theorem mem_received_of_latest {r : Receipt} (h : w.latest id = some r) :
    r ∈ w.received ∧ r.id = id :=
  ⟨List.mem_of_find?_eq_some h, by simpa using List.find?_some h⟩

theorem choose_of_older {a i : TlmEntry} (hbase : i.lastUpdate.timeBase = a.lastUpdate.timeBase)
    (hlt : i.lastUpdate.micros < a.lastUpdate.micros) : choose a i = a := by
  rw [choose, Time.compare_of_base hbase, if_pos hlt]

theorem choose_of_newer {a i : TlmEntry} (hbase : i.lastUpdate.timeBase = a.lastUpdate.timeBase)
    (hlt : a.lastUpdate.micros < i.lastUpdate.micros) : choose a i = i := by
  rw [choose, Time.compare_of_base hbase, if_neg (by omega), if_pos hlt]

theorem view_eq_of_findEntry {set : TlmSet} {i : Nat}
    (h : set.findEntry (doHash seed id) id = some i) :
    view seed set id = some ((set.bucket i).lastUpdate, (set.bucket i).buffer) := by
  rw [view, h]
  rfl

theorem findEntry_of_view {set : TlmSet} {t : Time} {v : TlmBuffer}
    (h : view seed set id = some (t, v)) : ∃ i, set.findEntry (doHash seed id) id = some i ∧
      (set.bucket i).lastUpdate = t ∧ (set.bucket i).buffer = v := by
  obtain ⟨i, hfind, heq⟩ := Option.map_eq_some_iff.mp h
  obtain ⟨ht, hv⟩ := Prod.mk.inj heq
  exact ⟨i, hfind, ht, hv⟩

theorem Current.tlmGet (h : Current seed base w) (id : UInt32) :
    w.comp.tlmGetHandler id = (w.latest id).map fun r => (r.time, r.value) := by
  rw [tlmGetHandler, h.hashSeed]
  cases hlatest : w.latest id with
  | none =>
    have hnone : ∀ b, (w.comp.set b).findEntry (doHash seed id) id = none := by
      intro b
      cases hfind : (w.comp.set b).findEntry (doHash seed id) id with
      | none => rfl
      | some i =>
        obtain ⟨r, hr, hid, -⟩ := h.known b id _ _ (view_eq_of_findEntry hfind)
        exact absurd (List.find?_eq_none.mp hlatest r hr) (by simp [hid])
    rw [hnone, hnone]
    rfl
  | some r =>
    obtain ⟨hview, holder⟩ := h.latest id r hlatest
    obtain ⟨k, hfind, htime, hval⟩ := findEntry_of_view hview
    have hbase := h.bases r (mem_received_of_latest hlatest).1
    by_cases hstore : r.store = w.comp.active
    · rw [hstore] at hfind htime hval holder
      rw [hfind]
      cases hother : (w.comp.set !w.comp.active).findEntry (doHash seed id) id with
      | none => exact congrArg some (Prod.ext htime hval)
      | some i =>
        obtain ⟨hi, hlt⟩ := holder _ _ (view_eq_of_findEntry hother)
        dsimp only
        rw [choose_of_older (by rw [hi, htime, hbase]) (by rw [htime]; exact hlt)]
        exact congrArg some (Prod.ext htime hval)
    · have hflip : r.store = !w.comp.active := Bool.eq_not.mpr hstore
      rw [hflip] at hfind htime hval
      rw [hflip, Bool.not_not] at holder
      rw [hfind]
      cases hother : (w.comp.set w.comp.active).findEntry (doHash seed id) id with
      | none => exact congrArg some (Prod.ext htime hval)
      | some i =>
        obtain ⟨hi, hlt⟩ := holder _ _ (view_eq_of_findEntry hother)
        dsimp only
        rw [choose_of_newer (by rw [hi, htime, hbase]) (by rw [htime]; exact hlt)]
        exact congrArg some (Prod.ext htime hval)

end Serving

section Steps

variable {seed : UInt32} {base : TimeBase} {w : World}

theorem latest_cons (r : Receipt) (id : UInt32) :
    World.latest { w with received := r :: w.received } id =
      if r.id = id then some r else w.latest id := by
  rw [World.latest, List.find?_cons]
  by_cases h : r.id = id
  · simp [h]
  · simp [h, World.latest]

variable {drain : Option Drain} {id : UInt32} {t : Time} {v : TlmBuffer}

theorem Current.of_views {comp : TlmChan} (h : Current seed base w)
    (hseed : comp.hashSeed = w.comp.hashSeed)
    (hsets : ∀ b, SameValues seed (w.comp.set b) (comp.set b))
    (hpacket : ∀ d ∈ drain, d.pkt.numEntries = 0 → d.pkt = .reset) :
    Current seed base { w with comp := comp, drain := drain } where
  hashSeed := hseed.trans h.hashSeed
  wellFormed b := (hsets b).wellFormed
  known b id t v hview := h.known b id t v ((hsets b).views id ▸ hview)
  bases := h.bases
  latest id r hr := by
    obtain ⟨hview, holder⟩ := h.latest id r hr
    refine ⟨((hsets r.store).views id).trans hview, fun t v hother => holder t v ?_⟩
    exact (hsets (!r.store)).views id ▸ hother
  packet := hpacket

theorem Current.drained (h : Current seed base w)
    (hpacket : ∀ d ∈ drain, d.pkt.numEntries = 0 → d.pkt = .reset) :
    Current seed base { w with drain := drain } :=
  h.of_views rfl (fun b => ⟨h.wellFormed b, fun _ => rfl⟩) hpacket

theorem Current.older (h : Current seed base w) {timeTag : Time} {val : TlmBuffer}
    (hmono : ∀ r ∈ w.received, r.time.micros ≤ timeTag.micros)
    (hseparate : Separate w (.recv id timeTag val))
    (hview : view seed (w.comp.set (!w.comp.active)) id = some (t, v)) :
    t.timeBase = base ∧ t.micros < timeTag.micros := by
  cases hlatest : w.latest id with
  | none =>
    obtain ⟨r, hr, hid, -⟩ := h.known _ id t v hview
    exact absurd (List.find?_eq_none.mp hlatest r hr) (by simp [hid])
  | some r =>
    obtain ⟨hlast, holder⟩ := h.latest id r hlatest
    have hmem := (mem_received_of_latest hlatest).1
    by_cases hstore : r.store = w.comp.active
    · rw [hstore] at holder
      obtain ⟨hbase, hlt⟩ := holder t v hview
      exact ⟨hbase, Nat.lt_of_lt_of_le hlt (hmono r hmem)⟩
    · rw [Bool.eq_not.mpr hstore, hview] at hlast
      obtain ⟨rfl, -⟩ := Prod.mk.inj (Option.some.inj hlast)
      exact ⟨h.bases r hmem, hseparate r hlatest hstore⟩

theorem Current.recv (h : Current seed base w) {timeTag : Time} {val : TlmBuffer}
    (horder : InOrder base w (.recv id timeTag val))
    (hseparate : Separate w (.recv id timeTag val)) :
    ∃ w', w.step (.recv id timeTag val) = .ok w' ∧ Current seed base w' ∧
      w'.received = ⟨id, timeTag, val, w.comp.active⟩ :: w.received := by
  obtain ⟨hbase, hmono, hids⟩ := horder
  obtain ⟨i, set', hrecv, hset'⟩ := tlmRecvHandler_recorded h.hashSeed (h.wellFormed _)
    (fun id' ⟨t, v⟩ hview => by
      obtain ⟨r, hr, hid, -⟩ := h.known _ id' t v hview
      exact List.mem_map.mpr ⟨r, hr, hid⟩) hids timeTag val
  have hstored := hset'.stored (h.wellFormed _)
  refine ⟨_, by rw [World.step, hrecv]; rfl, ?_, rfl⟩
  have hold : ∀ b id' t v, view seed (w.comp.set b) id' = some (t, v) →
      ∃ r ∈ ⟨id, timeTag, val, w.comp.active⟩ :: w.received, r.id = id' ∧ r.value = v := by
    intro b id' t v hview
    obtain ⟨r, hr, hrv⟩ := h.known b id' t v hview
    exact ⟨r, List.mem_cons_of_mem _ hr, hrv⟩
  refine ⟨hashSeed_putSet.trans h.hashSeed,
    forall_putSet hstored.wellFormed fun b _ => h.wellFormed b, fun b id' t v hview => ?_,
    fun r hr => ?_, fun id' r hr => ?_, h.packet⟩
  · by_cases hb : b = w.comp.active
    · subst hb
      rw [set_putSet_self] at hview
      by_cases hid : id' = id
      · subst hid
        rw [hstored.self] at hview
        obtain ⟨-, rfl⟩ := Prod.mk.inj (Option.some.inj hview)
        exact ⟨_, List.mem_cons_self, rfl, rfl⟩
      · exact hold _ id' t v (hstored.others id' hid ▸ hview)
    · rw [set_putSet_of_ne hb] at hview
      exact hold b id' t v hview
  · rcases List.mem_cons.mp hr with rfl | hr
    · exact hbase
    · exact h.bases r hr
  · have hlatest := @latest_cons w ⟨id, timeTag, val, w.comp.active⟩ id'
    rw [World.latest] at hr hlatest
    rw [hlatest] at hr
    by_cases hid : id = id'
    · subst hid
      rw [if_pos rfl] at hr
      cases hr
      dsimp only
      rw [set_putSet_self, set_putSet_of_ne (by simp)]
      exact ⟨hstored.self, fun t v hview => h.older hmono hseparate hview⟩
    · rw [if_neg hid] at hr
      have hsame : ∀ b, view seed ((w.comp.putSet w.comp.active set').set b) id' =
          view seed (w.comp.set b) id' :=
        forall_putSet (P := fun b set => view seed set id' = view seed (w.comp.set b) id')
          (hstored.others id' (Ne.symm hid)) fun _ _ => rfl
      dsimp only
      rw [hsame, hsame]
      exact h.latest id' r hr

theorem Current.beginRun (h : Current seed base w) :
    Current seed base { w with comp := w.comp.beginRun.1, drain := w.comp.beginRun.2 } := by
  rw [TlmChan.beginRun]
  by_cases hconnected : w.comp.connected = true
  · rw [if_pos hconnected]
    have hset : ∀ b, ({ w.comp with active := !w.comp.active } : TlmChan).set b = w.comp.set b :=
      fun b => by cases b <;> rfl
    refine h.of_views hashSeed_putSet (forall_putSet (h.wellFormed _).clear fun b _ => ?_)
      fun d hd _ => ?_
    · rw [hset]
      exact ⟨h.wellFormed b, fun _ => rfl⟩
    · cases hd
      rfl
  · rw [if_neg hconnected]
    exact h.drained fun d hd => by cases hd

theorem addValue_pos {pkt pkt' : TlmPacket} (h : pkt.addValue id t v = some pkt') :
    0 < pkt'.numEntries := by
  rw [TlmPacket.addValue] at h
  split at h
  · cases h
  · cases h
    exact Nat.succ_pos _

theorem addValue_reset_eq_none (h : TlmPacket.reset.addValue id t v = none) :
    packetRoom < v.1.length := by
  rw [TlmPacket.addValue] at h
  split at h
  · next hlt =>
    have hroom : packetRoom = 495 := rfl
    have hleft : comBufferMaxSize - TlmPacket.reset.bytes.length = 510 := rfl
    have hsize : Time.serializedSize = 11 := rfl
    omega
  · cases h

theorem Current.flagged (h : Current seed base w) (b : Bool) (i : Nat) (updated : Bool)
    (hpacket : ∀ d ∈ drain, d.pkt.numEntries = 0 → d.pkt = .reset) :
    Current seed base { w with
      comp := w.comp.putSet b ((w.comp.set b).put i { (w.comp.set b).bucket i with updated })
      drain := drain } := by
  exact h.of_views hashSeed_putSet (forall_putSet ((h.wellFormed b).flag i updated) fun c _ =>
    ⟨h.wellFormed c, fun _ => rfl⟩) hpacket

theorem finishRun_eq (s : TlmChan) (d : Drain) :
    ∃ count outs, s.finishRun d = ({ s with procCapCount := count }, outs) := by
  rw [finishRun]
  by_cases hdeferred : 0 < d.deferred
  · rw [if_pos hdeferred]
    exact ⟨_, _, rfl⟩
  · rw [if_neg hdeferred]
    exact ⟨s.procCapCount, _, rfl⟩

/-- One entry is packed, or a value was received that fits no packet. -/
theorem Current.work (h : Current seed base w) :
    (∃ w', w.step .work = .ok w' ∧ Current seed base w' ∧ w'.received = w.received) ∨
      (w.step .work = .error .packetTooSmall ∧
        ∃ r ∈ w.received, packetRoom < r.value.1.length) := by
  cases hdrain : w.drain with
  | none => exact .inl ⟨w, by rw [World.step, hdrain], h, rfl⟩
  | some d =>
    have hpacket := h.packet d hdrain
    rw [World.step, hdrain]
    dsimp only
    rw [stepRun]
    by_cases hlt : d.entryIdx < hashBuckets
    · rw [if_pos hlt]
      dsimp only
      by_cases hnew : ((w.comp.set !w.comp.active).bucket d.entryIdx).updated = true ∧
          ((w.comp.set !w.comp.active).bucket d.entryIdx).used = true
      · rw [if_neg (not_not.mpr hnew)]
        by_cases hcap : maxEntriesPerRun ≤ d.processed
        · rw [if_pos hcap]
          refine .inl ⟨_, rfl, h.drained fun d' hd' => ?_, rfl⟩
          cases hd'
          exact hpacket
        rw [if_neg hcap]
        cases hadd : d.pkt.addValue ((w.comp.set !w.comp.active).bucket d.entryIdx).id
            ((w.comp.set !w.comp.active).bucket d.entryIdx).lastUpdate
            ((w.comp.set !w.comp.active).bucket d.entryIdx).buffer with
        | some pkt =>
          refine .inl ⟨_, rfl, h.flagged _ _ _ fun d' hd' hzero => ?_, rfl⟩
          cases hd'
          exact absurd hzero (Nat.ne_of_gt (addValue_pos hadd))
        | none =>
          dsimp only
          by_cases hentries : 0 < d.pkt.numEntries
          · rw [if_pos hentries]
            refine .inl ⟨_, rfl, h.drained fun d' hd' _ => ?_, rfl⟩
            cases hd'
            rfl
          · rw [if_neg hentries]
            refine .inr ⟨rfl, ?_⟩
            rw [hpacket (Nat.eq_zero_of_not_pos hentries)] at hadd
            obtain ⟨r, hr, -, hval⟩ := h.known _ _ _ _
              ((h.wellFormed _).view_eq_some.mpr
                ⟨_, (h.wellFormed _).lt_free hnew.2, rfl, rfl, rfl⟩)
            exact ⟨r, hr, hval ▸ addValue_reset_eq_none hadd⟩
      · rw [if_pos hnew]
        refine .inl ⟨_, rfl, h.drained fun d' hd' => ?_, rfl⟩
        cases hd'
        exact hpacket
    · obtain ⟨count, outs, hfinish⟩ := finishRun_eq w.comp d
      rw [if_neg hlt, hfinish]
      refine .inl ⟨_, rfl, h.of_views ?_ (fun b => ?_) fun d hd => ?_, rfl⟩
      · rfl
      · exact ⟨h.wellFormed b, fun _ => rfl⟩
      · cases hd

theorem Current.step (h : Current seed base w) {input : Input} (horder : InOrder base w input)
    (hseparate : Separate w input) :
    (∃ w', w.step input = .ok w' ∧ Current seed base w') ∨
      (w.step input = .error .packetTooSmall ∧
        ∃ r ∈ w.received, packetRoom < r.value.1.length) := by
  cases input with
  | recv id timeTag val =>
    obtain ⟨w', hstep, hcurrent, -⟩ := h.recv horder hseparate
    exact .inl ⟨w', hstep, hcurrent⟩
  | run =>
    rw [World.step]
    by_cases hbusy : w.drain.isSome = true
    · rw [if_pos hbusy]
      exact .inl ⟨w, rfl, h⟩
    · rw [if_neg hbusy]
      exact .inl ⟨_, rfl, h.beginRun⟩
  | work =>
    rcases h.work with ⟨w', hstep, hcurrent, -⟩ | hfail
    · exact .inl ⟨w', hstep, hcurrent⟩
    · exact .inr hfail

end Steps

theorem current_start (seed : UInt32) (connected : Bool) (base : TimeBase) :
    Current seed base (.start (new seed connected)) := by
  have hset : ∀ b, (new seed connected).set b = .new := fun b => by cases b <;> rfl
  have hempty : ∀ b id, view seed ((new seed connected).set b) id = none := by
    intro b id
    rw [hset, (wellFormed_new seed).view_eq_none]
    exact fun i hi => absurd hi (Nat.not_lt_zero i)
  refine ⟨rfl, fun b => ?_, fun b id t v hview => ?_, fun r hr => ?_, fun id r hr => ?_,
    fun d hd => ?_⟩
  · exact (hset b).symm ▸ wellFormed_new seed
  · exact absurd ((hempty b id).symm.trans hview) (by simp)
  · cases hr
  · cases hr
  · cases hd

def Fits : Input → Prop
  | .recv _ _ val => val.1.length ≤ packetRoom
  | _ => True

theorem received_of_step {w w' : World} {input : Input} (h : w.step input = .ok w')
    (hfits : Fits input) (hall : ∀ r ∈ w.received, r.value.1.length ≤ packetRoom) :
    ∀ r ∈ w'.received, r.value.1.length ≤ packetRoom := by
  cases input with
  | recv id timeTag val =>
    obtain ⟨⟨comp, outs⟩, -, heq⟩ := bind_eq_ok.mp h
    cases heq
    intro r hr
    rcases List.mem_cons.mp hr with rfl | hr
    · exact hfits
    · exact hall r hr
  | run =>
    rw [World.step] at h
    split at h
    · cases h
      exact hall
    · cases h
      exact hall
  | work =>
    rw [World.step] at h
    split at h
    · cases h
      exact hall
    · obtain ⟨⟨comp, drain, outs⟩, -, heq⟩ := bind_eq_ok.mp h
      cases heq
      exact hall

/-- As long as a value that goes into the other store has a later time, every look-up serves the
latest value. No assertion fails unless a value fits no packet. -/
theorem tlm_get_latest (seed : UInt32) (connected : Bool) (base : TimeBase) {inputs : List Input}
    (h : AlongM World.step (fun w input => InOrder base w input ∧ Separate w input)
      (.start (new seed connected)) inputs) :
    (∀ w, inputs.foldlM World.step (.start (new seed connected)) = .ok w → ∀ id,
      w.comp.tlmGetHandler id = (w.latest id).map fun r => (r.time, r.value)) ∧
    ((∀ input ∈ inputs, Fits input) →
      ∃ w, inputs.foldlM World.step (.start (new seed connected)) = .ok w) := by
  have hstart := current_start seed connected base
  constructor
  · intro w hrun id
    have hstep : ∀ (w : World) (input : Input) (w' : World),
        Current seed base w → InOrder base w input ∧ Separate w input → w.step input = .ok w' →
        Current seed base w' := by
      intro w input w' hcurrent hinput hw'
      rcases hcurrent.step hinput.1 hinput.2 with ⟨w'', hok, hnext⟩ | ⟨hfail, -⟩
      · rw [hw'] at hok
        cases hok
        exact hnext
      · rw [hw'] at hfail
        cases hfail
    have hcurrent : Current seed base w :=
      invariant_run hstep hstart h hrun
    exact hcurrent.tlmGet id
  · intro hfits
    let Served (w : World) : Prop :=
      Current seed base w ∧ ∀ r ∈ w.received, r.value.1.length ≤ packetRoom
    have hserved : Served (.start (new seed connected)) := ⟨hstart, fun r hr => by cases hr⟩
    obtain ⟨w, hrun, -⟩ := total_run (I := Served) (fun w input hw hinput => by
      obtain ⟨⟨horder, hseparate⟩, hfit⟩ := hinput
      rcases hw.1.step horder hseparate with ⟨w', hok, hnext⟩ | ⟨-, r, hr, hlt⟩
      · exact ⟨w', hok, hnext, received_of_step hok hfit hw.2⟩
      · exact absurd (hw.2 r hr) (Nat.not_le_of_lt hlt)) hserved
      (h.and (alongM_of_forall (fun input hinput _ => hfits input hinput) _))
    exact ⟨w, hrun⟩

def workstationTime (seconds : UInt32) : Time :=
  ⟨.tbWorkstationTime, 0, seconds, 0, Time.zero_valid⟩

theorem one_le_tlmBufferMaxSize : 1 ≤ tlmBufferMaxSize := by decide

def byteValue (byte : UInt8) : TlmBuffer :=
  ⟨[byte], one_le_tlmBufferMaxSize⟩

theorem tlm_get_latest_two :
    ∃ w, [Input.recv 7 (workstationTime 1) (byteValue 1), .run, .work,
        .recv 7 (workstationTime 2) (byteValue 2), .work].foldlM World.step
        (.start (new 0xDEADBEEF true)) = .ok w ∧
      w.comp.tlmGetHandler 7 = some (workstationTime 2, byteValue 2) ∧
      w.comp.tlmGetHandler 8 = none := by
  obtain ⟨hserves, htotal⟩ := @tlm_get_latest 0xDEADBEEF true .tbWorkstationTime
    [.recv 7 (workstationTime 1) (byteValue 1), .run, .work,
      .recv 7 (workstationTime 2) (byteValue 2), .work] (by decide +kernel)
  obtain ⟨w, hrun⟩ := htotal (by simp [Fits, byteValue, packetRoom, comBufferMaxSize,
    Time.serializedSize])
  have hlatest : (w.latest 7).map (fun r => (r.time, r.value)) =
      some (workstationTime 2, byteValue 2) ∧ w.latest 8 = none := by
    have heval : ([Input.recv 7 (workstationTime 1) (byteValue 1), .run, .work,
        .recv 7 (workstationTime 2) (byteValue 2), .work].foldlM World.step
        (.start (new 0xDEADBEEF true))).toOption.all (fun w =>
          (w.latest 7).map (fun r => (r.time, r.value)) =
            some (workstationTime 2, byteValue 2) ∧ w.latest 8 = none) = true := by
      decide +kernel
    rw [hrun] at heval
    exact of_decide_eq_true heval
  exact ⟨w, hrun, (hserves w hrun 7).trans hlatest.1, by rw [hserves w hrun 8, hlatest.2]; rfl⟩

/-- Two values of one time, with a run between them: once the stores are swapped again, the older
one is served. -/
theorem equal_times_serve_old_value :
    ∃ inputs : List Input,
      AlongM World.step (InOrder .tbWorkstationTime) (.start (new 0xDEADBEEF true)) inputs ∧
      ∃ w, inputs.foldlM World.step (.start (new 0xDEADBEEF true)) = .ok w ∧
        (w.latest 7).map (fun r => (r.time, r.value)) = some (workstationTime 1, byteValue 2) ∧
        w.comp.tlmGetHandler 7 = some (workstationTime 1, byteValue 1) := by
  refine ⟨.recv 7 (workstationTime 1) (byteValue 1) :: .run :: List.replicate 501 .work ++
    [.recv 7 (workstationTime 1) (byteValue 2), .run], of_guarded ?_⟩
  decide +kernel

end Fprime.Svc.TlmChan
