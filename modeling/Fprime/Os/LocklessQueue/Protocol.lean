import Mathlib.Algebra.Order.BigOperators.Group.Finset
import Fprime.Os.LocklessQueue.Ownership

/-!
# What every interleaving keeps

The counters and the record of messages along with the owners: the count is the number of slots
that hold a message or are about to, and every published message is in a slot or received.
-/

namespace Fprime.Os.LocklessQueue

open Lib List Function Nat Option LocklessQueue.System

variable {cfg : Config} {σ σ' : System cfg} {status : Fin cfg.depth → Status} {t : Nat}
  {ids : List Nat}

def inSlots (status : Fin cfg.depth → Status) : List Nat :=
  (finRange cfg.depth).flatMap fun i => (status i).message.toList

/-- The receives, in order, have returned the messages of the sends in `ids`. -/
structure Inv (σ : System cfg) (status : Fin cfg.depth → Status) (ids : List Nat) : Prop
    extends Local σ status where
  count : σ.count.toNat = ∑ i, (status i).weight σ.procs
  mark : σ.highMark.toNat ≤ cfg.depth
  nodup : σ.published.Nodup
  known : ∀ n ∈ σ.published, n < σ.sends.length
  confirmed : ∀ n ∈ σ.confirmed, n ∈ σ.published
  messages : σ.published.Perm (ids ++ inSlots status)
  received : σ.received.map some = ids.map (σ.sends[·]?)

theorem weight_le_one {depth : Nat} (procs : Nat → Proc depth) (st : Status) :
    st.weight procs ≤ 1 := by
  cases st with
  | free => exact zero_le 1
  | ready n => exact le_rfl
  | writing t | reading t n => exact Bool.toNat_le _

theorem sum_weight_le (procs : Nat → Proc cfg.depth) :
    ∑ i, (status i).weight procs ≤ cfg.depth := by
  refine (Finset.sum_le_sum fun i _ => weight_le_one procs (status i)).trans ?_
  simp

theorem Local.weight_of_ne (h : Local σ status) {i : Fin cfg.depth}
    (hi : (σ.procs t).owned ≠ some i) (p : Proc cfg.depth) :
    (status i).weight (update σ.procs t p) = (status i).weight σ.procs := by
  have hok := h.slot i
  have hne : ∀ t', (σ.procs t').owned = some i → t' ≠ t := by
    rintro t' ht' rfl
    exact hi ht'
  cases hst : status i with
  | free => rfl
  | ready n => rfl
  | writing t' =>
    rw [hst] at hok
    simp only [Status.weight, update_of_ne (hne t' hok.2)]
  | reading t' n =>
    rw [hst] at hok
    simp only [Status.weight, update_of_ne (hne t' hok.2.1)]

theorem Local.sum_stay (h : Local σ status) (hown : (σ.procs t).owned = none)
    (p : Proc cfg.depth) :
    ∑ i, (status i).weight (update σ.procs t p) = ∑ i, (status i).weight σ.procs := by
  refine Finset.sum_congr rfl fun i _ => h.weight_of_ne ?_ p
  rw [hown]
  exact some_ne_none i |>.symm

theorem Local.sum_touch (h : Local σ status) {i : Fin cfg.depth}
    (hown : ∀ j, (σ.procs t).owned = some j → j = i) (st : Status) (p : Proc cfg.depth) :
    ∑ j, (update status i st j).weight (update σ.procs t p) +
        (status i).weight σ.procs =
      ∑ j, (status j).weight σ.procs + st.weight (update σ.procs t p) := by
  have hrest : ∑ j ∈ Finset.univ.erase i,
        (update status i st j).weight (update σ.procs t p) =
      ∑ j ∈ Finset.univ.erase i, (status j).weight σ.procs := by
    refine Finset.sum_congr rfl fun j hj => ?_
    have hne := Finset.ne_of_mem_erase hj
    rw [update_of_ne hne]
    exact h.weight_of_ne (fun hj' => hne (hown j hj')) p
  rw [← Finset.add_sum_erase _ _ (Finset.mem_univ i), hrest,
    ← Finset.add_sum_erase _ (fun j => (status j).weight σ.procs) (Finset.mem_univ i),
    update_self]
  omega

theorem inSlots_update (status : Fin cfg.depth → Status) (i : Fin cfg.depth) (st : Status) :
    (inSlots (update status i st)).Perm
      (st.message.toList ++ (finRange cfg.depth).flatMap
        (update (fun j => (status j).message.toList) i [])) := by
  have hfun : (fun j => (update status i st j).message.toList) =
      update (fun j => (status j).message.toList) i st.message.toList := by
    funext j
    exact apply_update (fun _ (s : Status) => s.message.toList) status i st j
  unfold inSlots
  rw [hfun]
  exact Lists.flatMap_update_perm (nodup_finRange _) (mem_finRange i) _ _

theorem inSlots_exchange (status : Fin cfg.depth → Status) (i : Fin cfg.depth) (st : Status) :
    ((status i).message.toList ++ inSlots (update status i st)).Perm
      (st.message.toList ++ inSlots status) := by
  have hself := inSlots_update status i (status i)
  rw [update_eq_self] at hself
  have hnew := inSlots_update status i st
  rw [perm_iff_count] at hself hnew ⊢
  intro n
  have := hself n
  have := hnew n
  simp only [count_append] at *
  omega

structure Same (σ σ' : System cfg) : Prop where
  sends : σ'.sends = σ.sends
  published : σ'.published = σ.published
  confirmed : σ'.confirmed = σ.confirmed
  received : σ'.received = σ.received
  mark : σ'.highMark = σ.highMark

theorem Inv.of_same (h : Inv σ status ids) (hlocal : Local σ' status)
    (hcount : σ'.count.toNat = ∑ i, (status i).weight σ'.procs) (hsame : Same σ σ') :
    Inv σ' status ids where
  toLocal := hlocal
  count := hcount
  mark := by rw [hsame.mark]; exact h.mark
  nodup := by rw [hsame.published]; exact h.nodup
  known := by rw [hsame.published, hsame.sends]; exact h.known
  confirmed := by rw [hsame.published, hsame.confirmed]; exact h.confirmed
  messages := by rw [hsame.published]; exact h.messages
  received := by rw [hsame.received, hsame.sends]; exact h.received

theorem Inv.stay {p : Proc cfg.depth} (h : Inv σ status ids)
    (hprocs : σ'.procs = update σ.procs t p) (hslots : σ'.slots = σ.slots)
    (hcount : σ'.count = σ.count) (hsame : Same σ σ')
    (hid : p.sendId = none ∨ p.sendId = (σ.procs t).sendId)
    (hown : (σ.procs t).owned = none) (hproc : ProcOk σ' status t p) : Inv σ' status ids := by
  refine h.of_same (h.toLocal.stay hprocs hslots hsame.sends hsame.published hid hown hproc) ?_ hsame
  rw [hcount, hprocs, h.toLocal.sum_stay hown, h.count]

theorem Inv.hold {p : Proc cfg.depth} {i : Fin cfg.depth} {slot : Slot} (h : Inv σ status ids)
    (hi : (σ.procs t).owned = some i)
    (hprocs : σ'.procs = update σ.procs t p)
    (hslots : σ'.slots = update σ.slots i slot)
    (hcount : σ'.count.toNat + (σ.procs t).counted.toNat = σ.count.toNat + p.counted.toNat)
    (hsame : Same σ σ') (hid : p.sendId = (σ.procs t).sendId)
    (hslot : SlotOk σ' i (status i)) (hproc : ProcOk σ' status t p) : Inv σ' status ids := by
  have howner := h.owner hi
  have hown : ∀ j, (σ.procs t).owned = some j → j = i := fun j hj =>
    some.inj (hj.symm.trans hi)
  have hlocal : Local σ' status := by
    have htouch := h.toLocal.touch hprocs hslots hsame.sends
      (fun _ _ _ _ => by rw [hsame.published]) (.inr hid)
      (fun t' ht' => some.inj (ht'.symm.trans howner)) hown hslot
      (by rw [update_eq_self]; exact hproc)
    rw [update_eq_self] at htouch
    exact htouch
  have hweight : (status i).weight σ.procs = (σ.procs t).counted.toNat ∧
      (status i).weight σ'.procs = p.counted.toNat := by
    rw [hprocs]
    cases hst : status i with
    | free | ready n => rw [hst] at howner; cases howner
    | writing t' | reading t' n =>
      rw [hst] at howner
      cases howner
      simp [Status.weight]
  have hsum := h.toLocal.sum_touch hown (status i) p
  rw [update_eq_self, ← hprocs, hweight.1, hweight.2, ← h.count] at hsum
  exact h.of_same hlocal (by omega) hsame

section Send

variable {op : SendOp} {pass : Nat} {pos : SendAt cfg.depth} {i : Fin cfg.depth}

section

variable (h : Inv σ status ids)

include h

theorem Inv.sending (hp : σ.procs t = .send op pass pos) :
    ProcOk σ status t (.send op pass pos) :=
  hp ▸ h.proc t

theorem Inv.idle (hown : (σ.procs t).owned = none) :
    Inv (σ.setProc t .idle) status ids :=
  h.stay rfl rfl rfl ⟨rfl, rfl, rfl, rfl, rfl⟩ (.inl rfl) hown trivial

theorem Inv.sendTo (next : SendAt cfg.depth)
    (hp : σ.procs t = .send op pass pos) (hnone : pos.owned = none) {pass' : Nat}
    (hnext : next.owned = none) (hpublished : next.published = pos.published)
    (hfacts : next.Facts σ.slots op) : Inv (σ.setProc t (.send op pass' next)) status ids := by
  obtain ⟨hmsg, hlen, -, -, hpub⟩ := h.sending hp
  refine h.stay rfl rfl rfl ⟨rfl, rfl, rfl, rfl, rfl⟩ (.inr (by rw [hp]; rfl))
    (by rw [hp]; exact hnone)
    ⟨hmsg, hlen, hfacts, fun i hi => ?_, by rw [hpublished]; exact hpub⟩
  rw [hnext] at hi
  cases hi

theorem Inv.sendScan (hp : σ.procs t = .send op pass pos)
    (hnone : pos.owned = none) (hpublished : pos.published = false) (index : Nat) :
    Inv (σ.sendScan t op pass index) status ids := by
  unfold System.sendScan
  split
  · exact h.sendTo _ hp hnone rfl hpublished.symm trivial
  · split
    · exact h.sendTo _ hp hnone rfl hpublished.symm trivial
    · exact h.idle (by rw [hp]; exact hnone)

theorem Inv.confirm (hp : σ.procs t = .send op pass pos)
    (hnone : pos.owned = none) (hpublished : pos.published = true) {mark : UInt32}
    (hmark : mark.toNat ≤ cfg.depth) :
    Inv { { σ with highMark := mark }.setProc t .idle with
      confirmed := σ.confirmed ++ [op.id] } status ids := by
  have hidle := h.idle (t := t) (by rw [hp]; exact hnone)
  have hmem : op.id ∈ σ.published := (h.sending hp).2.2.2.2.mpr hpublished
  refine ⟨⟨hidle.slot, hidle.proc, hidle.distinct⟩, hidle.count, hmark, h.nodup, h.known, ?_,
    h.messages, h.received⟩
  intro n hn
  rcases mem_append.mp hn with hn | hn
  · exact h.confirmed n hn
  · rw [mem_singleton.mp hn]
    exact hmem

theorem Inv.markFrom (hp : σ.procs t = .send op pass pos)
    (hnone : pos.owned = none) (hpublished : pos.published = true) {nextCount : UInt32}
    (hnext : nextCount.toNat ≤ cfg.depth) (previous : UInt32) (markPass : Nat) :
    Inv (σ.markFrom t op pass nextCount previous markPass) status ids := by
  unfold System.markFrom
  split
  · exact h.sendTo _ hp hnone rfl hpublished.symm hnext
  · exact h.confirm hp hnone hpublished h.mark

theorem Inv.fill (next : SendAt cfg.depth)
    (hp : σ.procs t = .send op pass pos)
    (hi : pos.owned = some i) (hi' : next.owned = some i) {slot : Slot}
    (hprocs : σ'.procs = update σ.procs t (.send op pass next))
    (hslots : σ'.slots = update σ.slots i slot)
    (hword : slot.stateTag = (σ.slots i).stateTag)
    (hcount : σ'.count.toNat + (Proc.send op pass pos).counted.toNat =
      σ.count.toNat + (Proc.send op pass next).counted.toNat)
    (hsame : Same σ σ') (hfacts : next.Facts σ'.slots op) : Inv σ' status ids := by
  obtain ⟨hmsg, hlen, -, howned, hpub⟩ := h.sending hp
  have hstatus := howned i hi
  have hown : (σ.procs t).owned = some i := by rw [hp]; exact hi
  have hnot : ∀ q : SendAt cfg.depth, q.owned = some i → q.published = false := by
    intro q hq
    cases q <;> first | rfl | cases hq
  refine h.hold hown hprocs hslots (by rw [hp]; exact hcount) hsame (by rw [hp]; rfl) ?_
    ⟨by rw [hsame.sends]; exact hmsg, hlen, hfacts, fun j hj => ?_, ?_⟩
  · have hok := h.slot i
    rw [hstatus] at hok ⊢
    refine ⟨?_, ?_⟩
    · rw [hslots, update_self, hword]
      exact hok.1
    · rw [hprocs, update_self]
      exact hi'
  · rw [hi'] at hj
    rw [← some.inj hj]
    exact hstatus
  · rw [hsame.published, hpub, hnot pos hi, hnot next hi']

end

theorem writeFrom_owned (desired k : Nat) :
    (writeFrom cfg op i desired k).owned = some i := by
  unfold writeFrom
  split <;> rfl

theorem writeFrom_counted (desired k : Nat) :
    (Proc.send op pass (writeFrom cfg op i desired k)).counted = false := by
  unfold writeFrom
  split <;> rfl

theorem writeFrom_facts {slots : Fin cfg.depth → Slot} {desired k : Nat}
    (h : Written cfg op.buffer k (slots i)) :
    (writeFrom cfg op i desired k).Facts slots op := by
  unfold writeFrom
  split
  · exact h
  · rename_i hk
    exact fun j hj => h j (by omega)

theorem Inv.claimFree (h : Inv σ status ids) {packed : Nat}
    (hp : σ.procs t = .send op pass (.claim i packed)) (hword : (σ.slots i).stateTag = packed) :
    Inv (σ.sendStep t op pass (.claim i packed)) (update status i (.writing t)) ids := by
  obtain ⟨hmsg, hlen, hfree, -, hpub⟩ := h.sending hp
  have hstatus : status i = .free := h.status_free (by rw [hword]; exact hfree)
  have hown : ∀ j, (σ.procs t).owned = some j → j = i := by
    intro j hj
    rw [hp] at hj
    cases hj
  have hnot : (writeFrom cfg op i (packStateTag cfg.tagBits .writing (tagOf packed + 1))
      0).published = false := by
    unfold writeFrom
    split <;> rfl
  generalize hdesired : packStateTag cfg.tagBits .writing (tagOf packed + 1) = desired at hnot
  have hstep : σ.sendStep t op pass (.claim i packed) =
      (σ.setSlot i { σ.slots i with stateTag := desired }).setProc t
        (.send op pass (writeFrom cfg op i desired 0)) := by
    rw [← hdesired]
    exact if_pos hword
  rw [hstep]
  have hlocal : Local ((σ.setSlot i { σ.slots i with stateTag := desired }).setProc t
      (.send op pass (writeFrom cfg op i desired 0)))
      (update status i (.writing t)) := by
    refine h.toLocal.touch rfl rfl rfl (fun _ _ _ _ => Iff.rfl) (.inr (by rw [hp]; rfl))
      (fun t' ht' => by rw [hstatus] at ht'; cases ht') hown ⟨?_, ?_⟩
      ⟨hmsg, hlen, ?_, fun j hj => ?_, ?_⟩
    · simp only [setProc, setSlot, update_self, ← hdesired,
        stateOf_packStateTag]
    · simp only [setProc, setSlot, update_self]
      exact writeFrom_owned desired 0
    · exact writeFrom_facts fun j hj => absurd hj (not_lt_zero j)
    · rw [writeFrom_owned] at hj
      rw [← some.inj hj, update_self]
    · rw [hnot]
      exact hpub
  have hsum := h.toLocal.sum_touch hown (.writing t)
    (.send op pass (writeFrom cfg op i desired 0))
  have hmessages := inSlots_exchange status i (.writing t)
  have hafter : (Status.writing t).weight (update σ.procs t
      (.send op pass (writeFrom cfg op i desired 0))) = 0 := by
    rw [Status.weight, update_self, writeFrom_counted]
    rfl
  rw [hstatus] at hsum hmessages
  rw [hafter, ← h.count] at hsum
  refine ⟨hlocal, hsum.symm, h.mark, h.nodup, h.known, h.confirmed, ?_, h.received⟩
  exact h.messages.trans (hmessages.symm.append_left ids)

theorem Inv.publish (h : Inv σ status ids) {desired : Nat} {nextCount : UInt32}
    (hp : σ.procs t = .send op pass (.publish i desired nextCount)) :
    Inv (σ.sendStep t op pass (.publish i desired nextCount))
      (update status i (.ready op.id)) ids := by
  obtain ⟨hmsg, hlen, ⟨hfilled, hnext⟩, howned, hpub⟩ := h.sending hp
  have hstatus : status i = .writing t := howned i rfl
  have hfresh : op.id ∉ σ.published := fun hmem => nomatch hpub.mp hmem
  have hown : ∀ j, (σ.procs t).owned = some j → j = i := by
    intro j hj
    rw [hp] at hj
    exact (some.inj hj).symm
  have hfill : Filled cfg (op.buffer, op.priority) { σ.slots i with
      stateTag := packStateTag cfg.tagBits .ready (tagOf desired + 1) } :=
    ⟨hfilled.written, hfilled.size, hfilled.priority⟩
  have hlocal : Local (σ.sendStep t op pass (.publish i desired nextCount))
      (update status i (.ready op.id)) := by
    refine h.toLocal.touch rfl rfl rfl (fun t' n ht' hn => ?_) (.inr (by rw [hp]; rfl))
      (fun t' ht' => ?_) hown ?_ ?_
    · -- no other thread makes this send
      have hne : n ≠ op.id := by
        rintro rfl
        exact ht' (h.distinct t' t op.id hn (by rw [hp]; rfl))
      simp [sendStep, setProc, setSlot, hne]
    · rw [hstatus] at ht'
      exact (some.inj ht').symm
    · refine ⟨?_, (op.buffer, op.priority), hmsg, hlen, ?_⟩
      · simp only [sendStep, setProc, setSlot, update_self,
          stateOf_packStateTag]
      · simp only [sendStep, setProc, setSlot, update_self]
        exact hfill
    · refine ⟨hmsg, hlen, hnext, ?_, ?_⟩
      · intro j hj
        cases hj
      · simp [sendStep, setProc, setSlot, SendAt.published]
  have hsum := h.toLocal.sum_touch hown (.ready op.id) (.send op pass (.fetchAvailable nextCount))
  have hmessages := inSlots_exchange status i (.ready op.id)
  have hbefore : (Status.writing t).weight σ.procs = 1 := by
    rw [Status.weight, hp]
    rfl
  rw [hstatus] at hsum hmessages
  rw [hbefore, ← h.count] at hsum
  refine ⟨hlocal, (add_right_cancel hsum).symm, h.mark, ?_, ?_, ?_, ?_, h.received⟩
  · exact nodup_append.mpr ⟨h.nodup, nodup_singleton _, by
      intro a ha b hb
      rw [mem_singleton.mp hb]
      rintro rfl
      exact hfresh ha⟩
  · intro n hn
    rcases mem_append.mp hn with hn | hn
    · exact h.known n hn
    · rw [mem_singleton.mp hn]
      exact (List.getElem?_eq_some_iff.mp hmsg).1
  · exact fun n hn => mem_append_left _ (h.confirmed n hn)
  · refine (h.messages.append_right [op.id]).trans ?_
    rw [append_assoc]
    refine List.Perm.append_left ids (perm_append_comm.trans ?_)
    simpa [Status.message] using hmessages.symm

theorem toNat_add_one {c : UInt32} (h : c.toNat < 2 ^ 32 - 1) : (c + 1).toNat = c.toNat + 1 := by
  rw [UInt32.toNat_add]
  exact mod_eq_of_lt (by simpa using add_lt_of_lt_sub h)

theorem Inv.setAvailable (h : Inv σ status ids) (available : UInt32) :
    Inv { σ with available := available } status ids :=
  ⟨⟨h.slot, h.proc, h.distinct⟩, h.count, h.mark, h.nodup, h.known, h.confirmed, h.messages,
    h.received⟩

theorem Inv.count_lt (h : Inv σ status ids) : σ.count.toNat < 2 ^ 32 - 1 := by
  have hle : σ.count.toNat ≤ cfg.depth := h.count ▸ sum_weight_le σ.procs
  have hdepth := cfg.depth_lt
  omega

theorem Inv.count_room (h : Inv σ status ids) {desired : Nat}
    (hp : σ.procs t = .send op pass (.fetchCount i desired)) :
    σ.count.toNat + 1 ≤ cfg.depth := by
  have hstatus := (h.sending hp).2.2.2.1 i rfl
  have hown : ∀ j, (σ.procs t).owned = some j → j = i := by
    intro j hj
    rw [hp] at hj
    exact (some.inj hj).symm
  have hsum := h.toLocal.sum_touch hown (.ready op.id) .idle
  have hbefore : (Status.writing t).weight σ.procs = 0 := by
    rw [Status.weight, hp]
    rfl
  rw [hstatus, hbefore, ← h.count] at hsum
  have hle := @sum_weight_le cfg (update status i (.ready op.id))
    (update σ.procs t .idle)
  exact hsum ▸ hle

theorem Inv.sendStep (h : Inv σ status ids) (hp : σ.procs t = .send op pass pos) :
    ∃ status', Inv (σ.sendStep t op pass pos) status' ids := by
  have hfacts := (h.sending hp).2.2.1
  cases pos with
  | scan index =>
    refine ⟨status, ?_⟩
    simp only [sendStep]
    split
    · split
      · rename_i hfree
        exact h.sendTo _ hp rfl rfl rfl hfree
      · exact h.sendScan hp rfl rfl _
    · exact h
  | claim i packed =>
    by_cases hword : (σ.slots i).stateTag = packed
    · exact ⟨_, h.claimFree hp hword⟩
    · refine ⟨status, ?_⟩
      simp only [sendStep, if_neg hword]
      exact h.sendScan hp rfl rfl _
  -- the stores into the slot, one after the other
  | storeWord i desired k =>
    refine ⟨status, h.fill _ hp rfl (writeFrom_owned desired (k + 1)) rfl rfl rfl ?_
      ⟨rfl, rfl, rfl, rfl, rfl⟩ (writeFrom_facts fun j hj => ?_)⟩
    · rw [writeFrom_counted]
      rfl
    · simp only [sendStep, setProc, setSlot, update_self]
      by_cases hjk : j = k
      · rw [hjk, update_self]
      · rw [update_of_ne hjk]
        exact hfacts j (by omega)
  | storeSize i desired =>
    refine ⟨status, h.fill (.storePriority i desired) hp rfl rfl rfl rfl rfl rfl
      ⟨rfl, rfl, rfl, rfl, rfl⟩ ?_⟩
    simp only [SendAt.Facts, sendStep, setProc, setSlot, update_self]
    exact ⟨hfacts, trivial⟩
  | storePriority i desired =>
    refine ⟨status, h.fill (.fetchSequence i desired) hp rfl rfl rfl rfl rfl rfl
      ⟨rfl, rfl, rfl, rfl, rfl⟩ ?_⟩
    simp only [SendAt.Facts, sendStep, setProc, setSlot, update_self]
    exact ⟨hfacts.1, hfacts.2, rfl⟩
  | fetchSequence i desired =>
    exact ⟨status, h.fill (.storeSequence i desired σ.sequence) hp rfl rfl rfl
      (update_eq_self i σ.slots).symm rfl rfl ⟨rfl, rfl, rfl, rfl, rfl⟩ hfacts⟩
  | storeSequence i desired sequence =>
    refine ⟨status, h.fill (.fetchCount i desired) hp rfl rfl rfl rfl rfl rfl
      ⟨rfl, rfl, rfl, rfl, rfl⟩ ?_⟩
    simp only [SendAt.Facts, sendStep, setProc, setSlot, update_self]
    exact ⟨hfacts.written, hfacts.size, hfacts.priority⟩
  | fetchCount i desired =>
    have hnext := toNat_add_one h.count_lt
    refine ⟨status, h.fill (.publish i desired (σ.count + 1)) hp rfl rfl rfl
      (update_eq_self i σ.slots).symm rfl ?_ ⟨rfl, rfl, rfl, rfl, rfl⟩ ⟨hfacts, ?_⟩⟩
    · exact hnext
    · rw [hnext]
      exact h.count_room hp
  | publish i desired nextCount => exact ⟨_, h.publish hp⟩
  | fetchAvailable nextCount =>
    have havailable := h.setAvailable (σ.available + 1)
    exact ⟨status, havailable.sendTo (.loadMark nextCount) hp rfl rfl rfl hfacts⟩
  | loadMark nextCount => exact ⟨status, h.markFrom hp rfl rfl hfacts _ _⟩
  | raiseMark nextCount previous markPass =>
    refine ⟨status, ?_⟩
    simp only [sendStep]
    split
    · exact h.confirm hp rfl rfl hfacts
    · exact h.markFrom hp rfl rfl hfacts _ _

end Send

section Receive

variable {op : ReceiveOp} {pass : Nat} {pos : ReceiveAt cfg.depth} {i : Fin cfg.depth}

section

variable (h : Inv σ status ids) (hp : σ.procs t = .receive op pass pos)

include h hp

theorem Inv.receiving :
    ProcOk σ status t (.receive op pass pos) :=
  hp ▸ h.proc t

theorem Inv.receiveTo
    (hnone : pos.owned = none) {pass' : Nat} {next : ReceiveAt cfg.depth}
    (hnext : next.owned = none) (hseen : next.Seen) :
    Inv (σ.setProc t (.receive op pass' next)) status ids := by
  refine h.stay rfl rfl rfl ⟨rfl, rfl, rfl, rfl, rfl⟩ (.inl rfl) (by rw [hp]; exact hnone)
    ⟨hseen, fun j hj => ?_⟩
  rw [hnext] at hj
  cases hj

theorem Inv.receivePass
    (hnone : pos.owned = none) : Inv (σ.receivePass t op pass) status ids := by
  unfold System.receivePass
  split
  · exact h.receiveTo hp hnone rfl trivial
  · exact h.idle (by rw [hp]; exact hnone)

theorem Inv.receiveScan
    (hnone : pos.owned = none) (index : Nat) {best : Option (Candidate cfg.depth)}
    (hbest : Candidate.Seen best) : Inv (σ.receiveScan t op pass index best) status ids := by
  unfold System.receiveScan
  split
  · exact h.receiveTo hp hnone rfl hbest
  · cases best with
    | none => exact h.receivePass hp hnone
    | some c => exact h.receiveTo hp hnone rfl (hbest c rfl)

theorem Inv.read
    (hi : pos.owned = some i) (next : ReceiveAt cfg.depth) (hnext : next.owned = some i)
    (hprocs : σ'.procs = update σ.procs t (.receive op pass next))
    (hslots : σ'.slots = σ.slots)
    (hcount : σ'.count.toNat + (Proc.receive op pass pos).counted.toNat =
      σ.count.toNat + (Proc.receive op pass next).counted.toNat)
    (hsame : Same σ σ') (hseen : next.Seen)
    (hfacts : ∀ m : Message, m.1.length ≤ cfg.messageSize → Filled cfg m (σ.slots i) →
      pos.Facts m → next.Facts m) : Inv σ' status ids := by
  obtain ⟨n, m, hstatus, hmsg, hm⟩ := (h.receiving hp).2 i hi
  have hok := h.slot i
  rw [hstatus] at hok
  obtain ⟨hword, -, hstored⟩ := hok
  obtain ⟨m', hmsg', hlen, hfilled⟩ := id hstored
  obtain rfl : m' = m := some.inj (hmsg'.symm.trans hmsg)
  refine h.hold (by rw [hp]; exact hi) hprocs
    (hslots.trans (update_eq_self i σ.slots).symm) (by rw [hp]; exact hcount) hsame
    (by rw [hp]; rfl) ?_ ⟨hseen, fun j hj => ?_⟩
  · rw [hstatus]
    refine ⟨by rw [hslots]; exact hword, ?_, hstored.congr hsame.sends (by rw [hslots])⟩
    rw [hprocs, update_self]
    exact hnext
  · rw [hnext] at hj
    obtain rfl := some.inj hj
    exact ⟨n, m', hstatus, by rw [hsame.sends]; exact hmsg, hfacts m' hlen hfilled hm⟩

end

theorem Inv.claimReady (h : Inv σ status ids) {best : Candidate cfg.depth}
    (hp : σ.procs t = .receive op pass (.claim best))
    (hword : (σ.slots best.index).stateTag = best.packed) :
    ∃ status', Inv (σ.receiveStep t op pass (.claim best)) status' ids := by
  have hseen : stateOf best.packed = LocklessSlotState.ready.asRepr := (h.receiving hp).1
  obtain ⟨n, hstatus, m, hmsg, hlen, hfilled⟩ := h.status_ready (by rw [hword]; exact hseen)
  have hown : ∀ j, (σ.procs t).owned = some j → j = best.index := by
    intro j hj
    rw [hp] at hj
    cases hj
  refine ⟨update status best.index (.reading t n), ?_⟩
  generalize hdesired : packStateTag cfg.tagBits .reading (tagOf best.packed + 1) = desired
  have hstep : σ.receiveStep t op pass (.claim best) =
      (σ.setSlot best.index { σ.slots best.index with stateTag := desired }).setProc t
        (.receive op pass (.fetchAvailable best.index desired)) := by
    rw [← hdesired]
    exact if_pos hword
  rw [hstep]
  have hlocal : Local ((σ.setSlot best.index { σ.slots best.index with
      stateTag := desired }).setProc t (.receive op pass (.fetchAvailable best.index desired)))
      (update status best.index (.reading t n)) := by
    refine h.toLocal.touch rfl rfl rfl (fun _ _ _ _ => Iff.rfl) (.inl rfl)
      (fun t' ht' => by rw [hstatus] at ht'; cases ht') hown ⟨?_, ?_, m, hmsg, hlen, ?_⟩
      ⟨trivial, fun j hj => ?_⟩
    · simp only [setProc, setSlot, update_self, ← hdesired,
        stateOf_packStateTag]
    · simp only [setProc, setSlot, update_self]
      rfl
    · simp only [setProc, setSlot, update_self]
      exact ⟨hfilled.written, hfilled.size, hfilled.priority⟩
    · obtain rfl := some.inj hj
      exact ⟨n, m, update_self .., hmsg, trivial⟩
  have hsum := h.toLocal.sum_touch hown (.reading t n)
    (.receive op pass (.fetchAvailable best.index desired))
  have hmessages := inSlots_exchange status best.index (.reading t n)
  have hafter : (Status.reading t n).weight (update σ.procs t
      (.receive op pass (.fetchAvailable best.index desired))) = 1 := by
    rw [Status.weight, update_self]
    rfl
  rw [hstatus] at hsum hmessages
  rw [hafter, ← h.count] at hsum
  refine ⟨hlocal, (add_right_cancel hsum).symm, h.mark, h.nodup, h.known, h.confirmed, ?_,
    h.received⟩
  exact h.messages.trans ((perm_cons n).mp hmessages.symm |>.append_left ids)

theorem Inv.release (h : Inv σ status ids) {desired : Nat} {message : Message}
    (hp : σ.procs t = .receive op pass (.release i desired message)) :
    ∃ n, Inv (σ.receiveStep t op pass (.release i desired message))
      (update status i .free) (ids ++ [n]) := by
  obtain ⟨n, m, hstatus, hmsg, rfl⟩ := (h.receiving hp).2 i rfl
  have hown : ∀ j, (σ.procs t).owned = some j → j = i := by
    intro j hj
    rw [hp] at hj
    exact (some.inj hj).symm
  have hlocal : Local (σ.receiveStep t op pass (.release i desired message))
      (update status i .free) := by
    refine h.toLocal.touch rfl rfl rfl (fun _ _ _ _ => Iff.rfl) (.inl rfl) (fun t' ht' => ?_) hown
      ?_ trivial
    · rw [hstatus] at ht'
      exact (some.inj ht').symm
    · simp only [SlotOk, receiveStep, setProc, setSlot, update_self,
        stateOf_packStateTag]
  have hsum := h.toLocal.sum_touch hown .free .idle
  have hmessages := inSlots_exchange status i .free
  have hbefore : (Status.reading t n).weight σ.procs = 0 := by
    rw [Status.weight, hp]
    rfl
  rw [hstatus] at hsum hmessages
  rw [hbefore, ← h.count] at hsum
  refine ⟨n, hlocal, hsum.symm, h.mark, h.nodup, h.known, h.confirmed, ?_, ?_⟩
  · rw [append_assoc]
    exact h.messages.trans (hmessages.symm.append_left ids)
  · simp only [receiveStep, setProc, setSlot, map_append, h.received,
      map_cons, map_nil, hmsg]

variable (desired size k : Nat) (bytes : Bytes)

theorem readFrom_owned :
    (readFrom cfg i desired size k bytes).owned = some i := by
  unfold readFrom
  split <;> rfl

theorem readFrom_counted :
    (Proc.receive op pass (readFrom cfg i desired size k bytes)).counted = true := by
  unfold readFrom
  split <;> rfl

theorem readFrom_seen :
    (readFrom cfg i desired size k bytes).Seen := by
  unfold readFrom
  split <;> trivial

theorem readFrom_facts {m : Message} (hlen : m.1.length ≤ cfg.messageSize) (desired k : Nat) :
    (readFrom cfg i desired m.1.length k (m.1.take (k * cfg.word))).Facts m := by
  unfold readFrom
  split
  · rename_i hk
    exact ⟨rfl, rfl, hk⟩
  · rename_i hk
    refine take_of_length_le ((le_chunks_mul hlen).trans ?_)
    exact Nat.mul_le_mul_right _ (Nat.le_of_not_lt hk)

theorem toNat_sub_one {c : UInt32} (h : 1 ≤ c.toNat) : (c - 1).toNat = c.toNat - 1 :=
  UInt32.toNat_sub_of_le c 1 (UInt32.le_iff_toNat_le.mpr h)

theorem Inv.count_pos (h : Inv σ status ids) (hp : σ.procs t = .receive op pass pos)
    (hi : pos.owned = some i) (hcounted : (Proc.receive op pass pos).counted = true) :
    1 ≤ σ.count.toNat := by
  obtain ⟨n, m, hstatus, -, -⟩ := (h.receiving hp).2 i hi
  have hweight : (status i).weight σ.procs = 1 := by
    rw [hstatus, Status.weight, hp, hcounted]
    rfl
  rw [h.count, ← hweight]
  exact Finset.single_le_sum (f := fun i => (status i).weight σ.procs) (fun _ _ => zero_le _)
    (Finset.mem_univ i)

theorem Inv.receiveStep (h : Inv σ status ids) (hp : σ.procs t = .receive op pass pos) :
    ∃ status' ids', Inv (σ.receiveStep t op pass pos) status' ids' := by
  have hseen := (h.receiving hp).1
  cases pos with
  | loadAvailable =>
    refine ⟨status, ids, ?_⟩
    simp only [receiveStep]
    split
    · exact h.receivePass hp rfl
    · exact h.receiveScan hp rfl 0 fun _ hc => nomatch hc
  | scan index best =>
    refine ⟨status, ids, ?_⟩
    simp only [receiveStep]
    split
    · split
      · rename_i hready
        exact h.receiveTo hp rfl rfl ⟨hready, hseen⟩
      · exact h.receiveScan hp rfl _ hseen
    · exact h
  | loadPriority i packed best | loadSequence i packed priority best =>
    exact ⟨status, ids, h.receiveTo hp rfl rfl hseen⟩
  | reload c best =>
    refine ⟨status, ids, ?_⟩
    simp only [receiveStep]
    split
    · refine h.receiveScan hp rfl _ fun c' hc' => ?_
      rw [← some.inj hc']
      exact hseen.1
    · exact h.receiveScan hp rfl _ hseen.2
  | claim best =>
    by_cases hword : (σ.slots best.index).stateTag = best.packed
    · obtain ⟨status', hinv⟩ := h.claimReady hp hword
      exact ⟨status', ids, hinv⟩
    · refine ⟨status, ids, ?_⟩
      simp only [receiveStep, if_neg hword]
      exact h.receivePass hp rfl
  | fetchAvailable i desired =>
    exact ⟨status, ids, h.read hp rfl (.loadSize i desired) rfl rfl rfl rfl
      ⟨rfl, rfl, rfl, rfl, rfl⟩ trivial fun _ _ _ _ => trivial⟩
  | loadSize i desired =>
    refine ⟨status, ids, ?_⟩
    simp only [receiveStep]
    split
    · refine h.read hp rfl _ (readFrom_owned ..) rfl rfl ?_ ⟨rfl, rfl, rfl, rfl, rfl⟩
        (readFrom_seen ..) fun m hlen hfilled _ => ?_
      · rw [readFrom_counted]
        rfl
      · rw [hfilled.size]
        simpa using @readFrom_facts cfg i m hlen desired 0
    · exact ⟨⟨h.slot, h.proc, h.distinct⟩, h.count, h.mark, h.nodup, h.known, h.confirmed,
        h.messages, h.received⟩
  | loadWord i desired size k bytes =>
    refine ⟨status, ids, h.read hp rfl _ (readFrom_owned ..) rfl rfl ?_
      ⟨rfl, rfl, rfl, rfl, rfl⟩ (readFrom_seen ..) fun m hlen hfilled hfacts => ?_⟩
    · rw [readFrom_counted]
      rfl
    · obtain ⟨rfl, rfl, hk⟩ := hfacts
      rw [hfilled.written k hk, take_toWord, take_append_chunk]
      exact readFrom_facts hlen desired (k + 1)
  | loadStored i desired bytes =>
    refine ⟨status, ids, h.read hp rfl (.fetchCount i desired (bytes, (σ.slots i).priority)) rfl
      rfl rfl rfl ⟨rfl, rfl, rfl, rfl, rfl⟩ trivial fun m _ hfilled hfacts => ?_⟩
    exact Prod.ext hfacts hfilled.priority
  | fetchCount i desired message =>
    have hpos := h.count_pos hp rfl rfl
    have hsub := toNat_sub_one hpos
    refine ⟨status, ids, h.read hp rfl (.release i desired message) rfl rfl rfl ?_
      ⟨rfl, rfl, rfl, rfl, rfl⟩ trivial fun _ _ _ hfacts => hfacts⟩
    show (σ.count - 1).toNat + 1 = σ.count.toNat + 0
    omega
  | release i desired message =>
    obtain ⟨n, hinv⟩ := h.release hp
    exact ⟨_, _, hinv⟩

end Receive

theorem Inv.sendId_lt (h : Inv σ status ids) {n : Nat} (hn : (σ.procs t).sendId = some n) :
    n < σ.sends.length := by
  have hok := h.proc t
  cases hp : σ.procs t with
  | idle | receive op pass pos =>
    rw [hp] at hn
    cases hn
  | send op pass pos =>
    rw [hp] at hn hok
    rw [← some.inj hn]
    exact (List.getElem?_eq_some_iff.mp hok.1).1

theorem Inv.start (h : Inv σ status ids) (hp : σ.procs t = .idle) {buffer : Bytes}
    (hlen : buffer.length ≤ cfg.messageSize) (priority : UInt8) (blocking : Bool) :
    Inv { σ.setProc t (.send ⟨σ.sends.length, buffer, priority, blocking⟩ 1 (.scan 0)) with
      sends := σ.sends ++ [(buffer, priority)] } status ids := by
  have hgrow : ∀ n m, σ.sends[n]? = some m → (σ.sends ++ [(buffer, priority)])[n]? = some m :=
    fun n m hm => by
      rw [getElem?_append_left (getElem?_eq_some_iff.mp hm).1]
      exact hm
  have hother : ∀ t', t' ≠ t → update σ.procs t
      (.send ⟨σ.sends.length, buffer, priority, blocking⟩ 1 (.scan 0)) t' = σ.procs t' :=
    fun t' ht' => update_of_ne ht' ..
  have hidle : ∀ i t', (σ.procs t').owned = some i → t' ≠ t := by
    rintro i t' ht' rfl
    rw [hp] at ht'
    cases ht'
  have hstored : ∀ i n, Stored σ i n → ∃ m, (σ.sends ++ [(buffer, priority)])[n]? = some m ∧
      m.1.length ≤ cfg.messageSize ∧ Filled cfg m (σ.slots i) := by
    rintro i n ⟨m, hm, hrest⟩
    exact ⟨m, hgrow n m hm, hrest⟩
  refine ⟨⟨fun i => ?_, fun t' => ?_, ?_⟩, ?_, h.mark, h.nodup, fun n hn => ?_, h.confirmed,
    h.messages, ?_⟩
  · have hok := h.slot i
    cases hst : status i with
    | free =>
      rw [hst] at hok
      exact hok
    | writing t' =>
      rw [hst] at hok
      refine ⟨hok.1, ?_⟩
      simp only [setProc, hother t' (hidle i t' hok.2)]
      exact hok.2
    | ready n =>
      rw [hst] at hok
      exact ⟨hok.1, hstored i n hok.2⟩
    | reading t' n =>
      rw [hst] at hok
      refine ⟨hok.1, ?_, hstored i n hok.2.2⟩
      simp only [setProc, hother t' (hidle i t' hok.2.1)]
      exact hok.2.1
  · simp only [setProc]
    by_cases ht' : t' = t
    · subst ht'
      rw [update_self]
      refine ⟨by simp, hlen, trivial, ?_, ?_⟩
      · intro i hi
        cases hi
      · simp only [SendAt.published, Bool.false_eq_true, iff_false]
        exact fun hmem => absurd (h.known _ hmem) (lt_irrefl _)
    · rw [hother t' ht']
      have hok := h.proc t'
      cases hp' : σ.procs t' with
      | idle => trivial
      | send op pass pos =>
        rw [hp'] at hok
        exact ⟨hgrow _ _ hok.1, hok.2⟩
      | receive op pass pos =>
        rw [hp'] at hok
        refine ⟨hok.1, fun i hi => ?_⟩
        obtain ⟨n, m, hstatus, hm, hfacts⟩ := hok.2 i hi
        exact ⟨n, m, hstatus, hgrow n m hm, hfacts⟩
  · -- the others make earlier sends
    intro t1 t2 n h1 h2
    simp only [setProc] at h1 h2
    by_cases ht1 : t1 = t <;> by_cases ht2 : t2 = t
    · rw [ht1, ht2]
    · rw [ht1, update_self] at h1
      rw [hother t2 ht2] at h2
      have hlt := h.sendId_lt h2
      rw [← some.inj h1] at hlt
      exact absurd hlt (lt_irrefl _)
    · rw [ht2, update_self] at h2
      rw [hother t1 ht1] at h1
      have hlt := h.sendId_lt h1
      rw [← some.inj h2] at hlt
      exact absurd hlt (lt_irrefl _)
    · rw [hother t1 ht1] at h1
      rw [hother t2 ht2] at h2
      exact h.distinct t1 t2 n h1 h2
  · show σ.count.toNat = ∑ i, (status i).weight (update σ.procs t _)
    rw [h.toLocal.sum_stay (by rw [hp]; rfl), h.count]
  · have := h.known n hn
    simp only [length_append, length_singleton]
    omega
  · show σ.received.map some = ids.map ((σ.sends ++ [(buffer, priority)])[·]?)
    rw [h.received]
    refine map_congr_left fun n hn => ?_
    have hlt := h.known n (h.messages.mem_iff.mpr (mem_append_left _ hn))
    rw [getElem?_append_left hlt]

theorem Inv.step (h : Inv σ status ids) (event : Event) :
    ∃ status' ids', Inv (σ.step event) status' ids' := by
  unfold System.step
  split
  · exact ⟨status, ids, h⟩
  · cases event with
    | send t buffer priority blocking =>
      simp only
      split
      · rename_i hp
        split
        · exact ⟨status, ids, h⟩
        · rename_i hlen
          exact ⟨status, ids, h.start hp (Nat.le_of_not_lt hlen) priority blocking⟩
      · exact ⟨status, ids, h⟩
    | receive t room blocking =>
      simp only
      split
      · rename_i hp
        refine ⟨status, ids, h.stay rfl rfl rfl ⟨rfl, rfl, rfl, rfl, rfl⟩ (.inl rfl)
          (by rw [hp]; rfl) ⟨trivial, fun i hi => nomatch hi⟩⟩
      · exact ⟨status, ids, h⟩
    | advance t =>
      simp only [advance]
      split
      · exact ⟨status, ids, h⟩
      · rename_i op pass pos hp
        obtain ⟨status', hinv⟩ := h.sendStep hp
        exact ⟨status', ids, hinv⟩
      · rename_i op pass pos hp
        exact h.receiveStep hp

theorem inv_create (cfg : Config) : Inv (create cfg) (fun _ => .free) [] where
  slot := fun _ => stateOf_packStateTag _ .free 0
  proc := fun _ => trivial
  distinct := fun _ _ _ h => nomatch h
  count := by simp [create, Status.weight]
  mark := zero_le _
  nodup := nodup_nil
  known := fun _ hn => nomatch hn
  confirmed := fun _ hn => nomatch hn
  messages := by simp [create, inSlots, Status.message]
  received := rfl

theorem inv_run (cfg : Config) (events : List Event) :
    ∃ status ids, Inv (run cfg events) status ids := by
  refine Runs.invariant (C := fun _ _ => True) (I := fun σ => ∃ status ids, Inv σ status ids)
    ?_ ⟨_, _, inv_create cfg⟩ (Runs.along_of_forall (fun _ _ _ => trivial) _)
  rintro σ event ⟨status, ids, h⟩ -
  exact h.step event

/-- In any interleaving a slot has one owner, every receive returns the message of another send, and
neither the count nor its mark exceeds the depth. -/
theorem slot_protocol (cfg : Config) (events : List Event) :
    let σ := run cfg events
    (∀ i t t', (σ.procs t).owned = some i → (σ.procs t').owned = some i → t = t') ∧
    (∀ i, (stateOf (σ.slots i).stateTag = LocklessSlotState.writing.asRepr ∨
        stateOf (σ.slots i).stateTag = LocklessSlotState.reading.asRepr) ↔
      ∃ t, (σ.procs t).owned = some i) ∧
    (∃ ids : List Nat, ids.Nodup ∧ (∀ n ∈ ids, n ∈ σ.published) ∧
      σ.received.map some = ids.map (σ.sends[·]?)) ∧
    σ.published.Nodup ∧ (∀ n ∈ σ.confirmed, n ∈ σ.published) ∧
    σ.count.toNat ≤ cfg.depth ∧ σ.highMark.toNat ≤ cfg.depth := by
  intro σ
  obtain ⟨status, ids, h⟩ := inv_run cfg events
  refine ⟨fun i t t' ht ht' => ?_, fun i => ⟨fun hword => ?_, ?_⟩, ⟨ids, ?_, ?_, h.received⟩,
    h.nodup, h.confirmed, h.count ▸ sum_weight_le σ.procs, h.mark⟩
  · exact some.inj ((h.owner ht).symm.trans (h.owner ht'))
  · have hok := h.slot i
    cases hst : status i with
    | free =>
      rw [hst] at hok
      rcases hword with hword | hword <;>
        exact absurd (asRepr_inj (hok.symm.trans hword)) (by decide)
    | writing t =>
      rw [hst] at hok
      exact ⟨t, hok.2⟩
    | ready n =>
      rw [hst] at hok
      rcases hword with hword | hword <;>
        exact absurd (asRepr_inj (hok.1.symm.trans hword)) (by decide)
    | reading t n =>
      rw [hst] at hok
      exact ⟨t, hok.2.1⟩
  · rintro ⟨t, ht⟩
    have howner := h.owner ht
    have hok := h.slot i
    cases hst : status i with
    | free | ready n => rw [hst] at howner; cases howner
    | writing t =>
      rw [hst] at hok
      exact .inl hok.1
    | reading t n =>
      rw [hst] at hok
      exact .inr hok.1
  · exact (nodup_append.mp (h.messages.nodup_iff.mp h.nodup)).1
  · exact fun n hn => h.messages.mem_iff.mpr (mem_append_left _ hn)

-- a message of nine bytes goes through a queue of one slot
example : (run ⟨1, 16, 8, 62, 4, by decide, by decide, by decide, by decide, by decide⟩
    ([.send 0 [1, 2, 3, 4, 5, 6, 7, 8, 9] 3 false, .receive 1 16 false] ++
      replicate 15 (.advance 0) ++ replicate 15 (.advance 1))).received =
    [([1, 2, 3, 4, 5, 6, 7, 8, 9], 3)] := by
  decide +kernel

end Fprime.Os.LocklessQueue
