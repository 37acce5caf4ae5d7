import Mathlib.Data.List.Dedup
import Fprime.Svc.TlmChan
import Mathlib.Data.List.GetD

/-!
# One store

A store as a table of channels: what it has for a channel, and how recording a value changes that.
-/

namespace Fprime.Svc.TlmChan

open Fw Lib.Chains List Function Nat

namespace TlmSet

structure WellFormed (seed : UInt32) (set : TlmSet) : Prop where
  table : ∃ chains, Table (doHash seed) set.slot set.next set.key set.free chains
  slots : set.slots.length = numTlmHashSlots
  buckets : set.buckets.length = hashBuckets
  free : set.free ≤ hashBuckets
  unused : ∀ i, set.free ≤ i → (set.bucket i).used = false

def view (seed : UInt32) (set : TlmSet) (id : UInt32) : Option (Time × TlmBuffer) :=
  (set.findEntry (doHash seed id) id).map fun i => ((set.bucket i).lastUpdate, (set.bucket i).buffer)

structure SameValues (seed : UInt32) (set set' : TlmSet) : Prop where
  wellFormed : WellFormed seed set'
  views : ∀ id, view seed set' id = view seed set id

section Buckets

variable {seed id : UInt32} {set : TlmSet} {i j : Nat} {entry : TlmEntry}

theorem doHash_lt (seed id : UInt32) : doHash seed id < numTlmHashSlots :=
  mod_lt _ (by decide)

theorem bucket_put (h : set.buckets.length = hashBuckets) (hi : i < hashBuckets) :
    (set.put i entry).bucket = update set.bucket i entry := by
  funext j
  rw [bucket, put, getD_eq_getElem?_getD, getElem?_set, h]
  by_cases hj : i = j
  · subst hj
    rw [update_self, if_pos rfl, if_pos hi, Option.getD_some]
  · rw [update_of_ne (Ne.symm hj), if_neg hj, bucket, getD_eq_getElem?_getD]

theorem bucket_put_of_ne (hj : j ≠ i) : (set.put i entry).bucket j = set.bucket j := by
  rw [bucket, put, getD_eq_getElem?_getD, getElem?_set_ne (Ne.symm hj), bucket,
    getD_eq_getElem?_getD]

@[simp] theorem length_put : (set.put i entry).buckets.length = set.buckets.length :=
  length_set

@[simp] theorem length_link {next : Option Nat} :
    (set.link i next).buckets.length = set.buckets.length :=
  length_set

theorem WellFormed.findEntry_eq_some (h : WellFormed seed set) :
    set.findEntry (doHash seed id) id = some i ↔ i < set.free ∧ set.key i = id := by
  obtain ⟨chains, htable⟩ := h.table
  rw [findEntry, find_eq (htable.linked _) (le_trans (htable.length_le _) h.free)]
  exact htable.find?_eq_some

theorem WellFormed.findEntry_eq_none (h : WellFormed seed set) :
    set.findEntry (doHash seed id) id = none ↔ ∀ i < set.free, set.key i ≠ id := by
  rw [Option.eq_none_iff_forall_ne_some]
  constructor
  · exact fun hnone i hi hkey => hnone i (h.findEntry_eq_some.mpr ⟨hi, hkey⟩)
  · intro hall i hsome
    obtain ⟨hi, hkey⟩ := h.findEntry_eq_some.mp hsome
    exact hall i hi hkey

theorem WellFormed.view_eq_some (h : WellFormed seed set) {t : Time} {v : TlmBuffer} :
    view seed set id = some (t, v) ↔ ∃ i < set.free, set.key i = id ∧
      (set.bucket i).lastUpdate = t ∧ (set.bucket i).buffer = v := by
  rw [view, Option.map_eq_some_iff]
  constructor
  · rintro ⟨i, hfind, heq⟩
    obtain ⟨hi, hkey⟩ := h.findEntry_eq_some.mp hfind
    obtain ⟨rfl, rfl⟩ := Prod.mk.inj heq
    exact ⟨i, hi, hkey, rfl, rfl⟩
  · rintro ⟨i, hi, hkey, rfl, rfl⟩
    exact ⟨i, h.findEntry_eq_some.mpr ⟨hi, hkey⟩, rfl⟩

theorem WellFormed.view_eq_none (h : WellFormed seed set) :
    view seed set id = none ↔ ∀ i < set.free, set.key i ≠ id := by
  rw [view, Option.map_eq_none_iff]
  exact h.findEntry_eq_none

theorem WellFormed.view_congr {set' : TlmSet} (h : WellFormed seed set)
    (h' : WellFormed seed set') (hfree : set'.free = set.free)
    (hsame : ∀ i < set.free, set'.key i = set.key i ∧
      (set'.bucket i).lastUpdate = (set.bucket i).lastUpdate ∧
      (set'.bucket i).buffer = (set.bucket i).buffer) (id : UInt32) :
    view seed set' id = view seed set id := by
  refine Option.ext fun r => ?_
  obtain ⟨t, v⟩ := r
  rw [h.view_eq_some, h'.view_eq_some, hfree]
  constructor
  · rintro ⟨i, hi, hkey, htime, hval⟩
    obtain ⟨hk, ht, hv⟩ := hsame i hi
    exact ⟨i, hi, hk ▸ hkey, ht ▸ htime, hv ▸ hval⟩
  · rintro ⟨i, hi, hkey, htime, hval⟩
    obtain ⟨hk, ht, hv⟩ := hsame i hi
    exact ⟨i, hi, hk.trans hkey, ht.trans htime, hv.trans hval⟩

theorem wellFormed_new (seed : UInt32) : WellFormed seed new where
  table := by
    have hslot : new.slot = fun _ => none := by
      funext index
      exact (getD_eq_getElem?_getD ..).trans (getElem?_getD_replicate_default_eq _ _ _)
    rw [hslot]
    exact ⟨_, table_empty _ _ _⟩
  slots := length_replicate
  buckets := length_replicate
  free := zero_le _
  unused i _ := by
    have hdefault : new.bucket i = .default :=
      (getD_eq_getElem?_getD ..).trans (getElem?_getD_replicate_default_eq _ _ _)
    rw [hdefault]
    rfl

theorem WellFormed.flags {set' : TlmSet} (h : WellFormed seed set) (hslots : set'.slots = set.slots)
    (hfree : set'.free = set.free) (hbuckets : set'.buckets.length = set.buckets.length)
    (hsame : ∀ i, ∃ updated, set'.bucket i = { set.bucket i with updated := updated }) :
    SameValues seed set set' := by
  obtain ⟨chains, htable⟩ := h.table
  have hkey : ∀ i, set'.key i = set.key i := fun i => by
    obtain ⟨_, hi⟩ := hsame i
    rw [key, hi, key]
  have hnext : ∀ i, set'.next i = set.next i := fun i => by
    obtain ⟨_, hi⟩ := hsame i
    rw [next, hi, next]
  have hslot : set'.slot = set.slot := by
    funext index
    rw [slot, hslots, slot]
  have hwf : WellFormed seed set' := by
    refine ⟨⟨chains, ?_⟩, hslots ▸ h.slots, hbuckets.trans h.buckets, hfree ▸ h.free,
      fun i hi => ?_⟩
    · rw [hslot, hfree]
      exact htable.congr (fun i _ => hnext i) fun i _ => hkey i
    · obtain ⟨_, hb⟩ := hsame i
      rw [hb]
      exact h.unused i (hfree ▸ hi)
  refine ⟨hwf, h.view_congr hwf hfree fun i _ => ?_⟩
  obtain ⟨_, hb⟩ := hsame i
  exact ⟨hkey i, by rw [hb], by rw [hb]⟩

theorem WellFormed.flag (h : WellFormed seed set) (i : Nat) (flag : Bool) :
    SameValues seed set (set.put i { set.bucket i with updated := flag }) := by
  refine h.flags rfl rfl length_put fun j => ?_
  by_cases hj : j = i
  · subst hj
    by_cases hlt : j < hashBuckets
    · rw [bucket_put h.buckets hlt, update_self]
      exact ⟨flag, rfl⟩
    · refine ⟨(set.bucket j).updated, ?_⟩
      rw [bucket, put, set_eq_of_length_le (h.buckets.trans_le (Nat.le_of_not_lt hlt)), bucket]
  · rw [bucket_put_of_ne hj]
    exact ⟨(set.bucket j).updated, rfl⟩

theorem bucket_clearUpdated (set : TlmSet) (i : Nat) :
    set.clearUpdated.bucket i = { set.bucket i with updated := false } := by
  have hmap : TlmEntry.default =
      (fun entry : TlmEntry => { entry with updated := false }) .default := rfl
  rw [bucket, clearUpdated, bucket, hmap, getD_map]
  rfl

theorem WellFormed.clear (h : WellFormed seed set) : SameValues seed set set.clearUpdated :=
  h.flags rfl rfl (length_map _) fun i => ⟨false, bucket_clearUpdated set i⟩

theorem WellFormed.lt_free (h : WellFormed seed set) (hused : (set.bucket i).used = true) :
    i < set.free := by
  by_contra hge
  rw [h.unused i (Nat.le_of_not_lt hge)] at hused
  cases hused

end Buckets

structure Stored (seed : UInt32) (set : TlmSet) (id : UInt32) (t : Time) (v : TlmBuffer)
    (set' : TlmSet) : Prop where
  wellFormed : WellFormed seed set'
  self : view seed set' id = some (t, v)
  others : ∀ id' ≠ id, view seed set' id' = view seed set id'

/-- How recording a value in a bucket changes the store: another bucket keeps all but its link. -/
structure Recorded (seed : UInt32) (set : TlmSet) (id : UInt32) (t : Time) (v : TlmBuffer) (i : Nat)
    (set' : TlmSet) : Prop where
  wellFormed : WellFormed seed set'
  place : i < set.free ∧ set.key i = id ∨ i = set.free
  free : ∀ j, j < set'.free ↔ j < set.free ∨ j = i
  self : ∃ next, set'.bucket i = ⟨id, true, t, v, next, true⟩
  others : ∀ j ≠ i, ∃ next, set'.bucket j = { set.bucket j with next := next }

section Record

variable {seed id : UInt32} {set : TlmSet} {t : Time} {v : TlmBuffer} {i : Nat}

theorem bucket_record (h : set.buckets.length = hashBuckets) (hi : i < hashBuckets) :
    (set.record i id t v).bucket = update set.bucket i
      ⟨id, true, t, v, (set.bucket i).next, true⟩ :=
  bucket_put h hi

theorem entryToUse_found (h : WellFormed seed set) (hi : i < set.free) (hkey : set.key i = id) :
    set.entryToUse (doHash seed id) id = .ok (some (i, set)) := by
  obtain ⟨chains, htable⟩ := h.table
  have hfind := htable.find?_eq_some.mpr ⟨hi, hkey⟩
  have hlinked := htable.linked (doHash seed id)
  have hlen := le_trans (htable.length_le (doHash seed id)) h.free
  rw [entryToUse]
  cases hslot : set.slot (doHash seed id) with
  | none =>
    rw [hslot] at hlinked
    cases hchain : chains (doHash seed id) with
    | nil =>
      rw [hchain] at hfind
      cases hfind
    | cons j rest =>
      rw [hchain] at hlinked
      cases hlinked.1
  | some head =>
    rw [hslot] at hlinked
    dsimp only
    rw [walk_eq hlinked (lt_succ_of_le hlen), hfind]

theorem Recorded.key_of_ne {set' : TlmSet} (h : Recorded seed set id t v i set') {j : Nat}
    (hj : j ≠ i) : set'.key j = set.key j := by
  obtain ⟨_, hb⟩ := h.others j hj
  rw [key, hb, key]

theorem Recorded.key_self {set' : TlmSet} (h : Recorded seed set id t v i set') :
    set'.key i = id := by
  obtain ⟨_, hb⟩ := h.self
  rw [key, hb]

theorem Recorded.stored {set' : TlmSet} (h : Recorded seed set id t v i set')
    (hwf : WellFormed seed set) : Stored seed set id t v set' := by
  refine ⟨h.wellFormed, h.wellFormed.view_eq_some.mpr ?_, fun id' hne => Option.ext fun r => ?_⟩
  · obtain ⟨_, hb⟩ := h.self
    exact ⟨i, (h.free i).mpr (.inr rfl), h.key_self, by rw [hb], by rw [hb]⟩
  · obtain ⟨t', v'⟩ := r
    rw [h.wellFormed.view_eq_some, hwf.view_eq_some]
    refine exists_congr fun j => ?_
    by_cases hj : j = i
    · subst hj
      refine iff_of_false (fun hr => hne (hr.2.1.symm.trans h.key_self)) fun hr => ?_
      rcases h.place with ⟨-, hkey⟩ | hfree
      · exact hne (hr.2.1.symm.trans hkey)
      · exact Nat.ne_of_lt hr.1 hfree
    · obtain ⟨_, hb⟩ := h.others j hj
      rw [h.free, or_iff_left hj, h.key_of_ne hj, hb]

theorem recorded_found (h : WellFormed seed set) (hi : i < set.free) (hkey : set.key i = id)
    (t : Time) (v : TlmBuffer) : Recorded seed set id t v i (set.record i id t v) := by
  have hlt : i < hashBuckets := lt_of_lt_of_le hi h.free
  have hbucket := @bucket_record id set t v i h.buckets hlt
  obtain ⟨chains, htable⟩ := h.table
  have hkeys : ∀ j, (set.record i id t v).key j = set.key j := by
    intro j
    by_cases hj : j = i
    · subst hj
      rw [key, hbucket, update_self, hkey]
    · rw [key, hbucket, update_of_ne hj, key]
  have hnext : ∀ j, (set.record i id t v).next j = set.next j := by
    intro j
    by_cases hj : j = i
    · subst hj
      rw [next, hbucket, update_self, next]
    · rw [next, hbucket, update_of_ne hj, next]
  have hwf : WellFormed seed (set.record i id t v) := by
    refine ⟨⟨chains, htable.congr (fun j _ => hnext j) fun j _ => hkeys j⟩, h.slots, ?_, h.free,
      fun j hj => ?_⟩
    · exact length_put.trans h.buckets
    · have hne : j ≠ i := ne_of_gt (lt_of_lt_of_le hi hj)
      rw [hbucket, update_of_ne hne]
      exact h.unused j hj
  refine ⟨hwf, .inl ⟨hi, hkey⟩, fun j => ?_, ⟨_, by rw [hbucket, update_self]⟩,
    fun j hj => ⟨_, by rw [hbucket, update_of_ne hj]⟩⟩
  exact ⟨.inl, fun hj => hj.elim (fun hlt => hlt) fun hji => hji ▸ hi⟩

theorem recorded_new {chains : Nat → List Nat} {set1 : TlmSet} (h : WellFormed seed set)
    (htable : Table (doHash seed) set.slot set.next set.key set.free chains)
    (habsent : ∀ i < set.free, set.key i ≠ id) (hroom : set.free < hashBuckets)
    (hfree : set1.free = set.free + 1) (hslots : set1.slots.length = set.slots.length)
    (hbuckets : set1.buckets.length = set.buckets.length)
    (hsame : ∀ i ≠ set.free, ∃ next, set1.bucket i = { set.bucket i with next := next })
    (hothers : ∀ s ≠ doHash seed id, set1.slot s = set.slot s)
    (hnext : ∀ i ≠ set.free, i ∉ chains (doHash seed id) → set1.next i = set.next i)
    (hlinked : Linked set1.next (set1.slot (doHash seed id))
      (chains (doHash seed id) ++ [set.free])) (t : Time) (v : TlmBuffer) :
    Recorded seed set id t v set.free (set1.record set.free id t v) := by
  have hbucket := @bucket_record id set1 t v set.free (hbuckets.trans h.buckets) hroom
  have hkept : ∀ i ≠ set.free, ∃ next, (set1.record set.free id t v).bucket i =
      { set.bucket i with next := next } := by
    intro i hi
    obtain ⟨next, hb⟩ := hsame i hi
    exact ⟨next, by rw [hbucket, update_of_ne hi, hb]⟩
  have hnew : (set1.record set.free id t v).bucket set.free =
      ⟨id, true, t, v, (set1.bucket set.free).next, true⟩ := by
    rw [hbucket, update_self]
  have hnextEq : (set1.record set.free id t v).next = set1.next := by
    funext i
    by_cases hi : i = set.free
    · rw [hi, next, hnew, next]
    · rw [next, hbucket, update_of_ne hi, next]
  have hkeys : ∀ i < set.free, (set1.record set.free id t v).key i = set.key i := by
    intro i hi
    obtain ⟨_, hb⟩ := hkept i (Nat.ne_of_lt hi)
    rw [key, hb, key]
  have hself : (set1.record set.free id t v).key set.free = id := by
    rw [key, hnew]
  have hinsert : Table (doHash seed) (set1.record set.free id t v).slot
      (set1.record set.free id t v).next (set1.record set.free id t v).key (set.free + 1)
      (update chains (doHash seed id) (chains (doHash seed id) ++ [set.free])) := by
    refine htable.insert habsent hself hkeys hothers (fun s hs i hi => ?_) ?_
    · obtain ⟨hlt, hhash⟩ := (htable.mem_iff s i).mp hi
      rw [hnextEq]
      refine hnext i (Nat.ne_of_lt hlt) fun hmem => hs ?_
      rw [← hhash, ((htable.mem_iff _ i).mp hmem).2]
    · rw [hnextEq]
      exact hlinked
  have hwf : WellFormed seed (set1.record set.free id t v) := by
    refine ⟨⟨_, hfree ▸ hinsert⟩, hslots.trans h.slots,
      length_put.trans (hbuckets.trans h.buckets), ?_, fun i hi => ?_⟩
    · exact hfree ▸ hroom
    · have hle : set1.free ≤ i := hi
      have hlt : set.free < i := by omega
      obtain ⟨_, hb⟩ := hkept i (ne_of_gt hlt)
      rw [hb]
      exact h.unused i (le_of_lt hlt)
  have hfree' : (set1.record set.free id t v).free = set.free + 1 := hfree
  refine ⟨hwf, .inr rfl, fun j => ?_, ⟨_, hnew⟩, hkept⟩
  rw [hfree', Nat.lt_succ_iff_lt_or_eq]

section

variable (h : set.buckets.length = hashBuckets) (hi : i < hashBuckets) (next : Option Nat)

include h hi next

theorem bucket_link :
    (set.link i next).bucket = update set.bucket i { set.bucket i with next := next } :=
  bucket_put h hi

theorem next_link : (set.link i next).next = update set.next i next := by
  funext j
  by_cases hj : j = i
  · rw [hj, TlmSet.next, bucket_link h hi, update_self, update_self]
  · rw [TlmSet.next, bucket_link h hi, update_of_ne hj, update_of_ne hj,
      TlmSet.next]

theorem link_same (j : Nat) :
    ∃ next', (set.link i next).bucket j = { set.bucket j with next := next' } := by
  by_cases hj : j = i
  · rw [hj, bucket_link h hi, update_self]
    exact ⟨next, rfl⟩
  · rw [bucket_link h hi, update_of_ne hj]
    exact ⟨(set.bucket j).next, rfl⟩

end

section
variable {chains : Nat → List Nat} (h : WellFormed seed set)
  (htable : Table (doHash seed) set.slot set.next set.key set.free chains)
  (habsent : ∀ i < set.free, set.key i ≠ id) (hroom : set.free < hashBuckets)
include h htable habsent hroom

theorem entryToUse_first (hchain : chains (doHash seed id) = []) (t : Time) (v : TlmBuffer) :
    ∃ i set1, set.entryToUse (doHash seed id) id = .ok (some (i, set1)) ∧
      Recorded seed set id t v i (set1.record i id t v) := by
  have hlinked := htable.linked (doHash seed id)
  have hslotLt : doHash seed id < set.slots.length := h.slots.symm ▸ doHash_lt seed id
  have hgrown : ({ set with free := set.free + 1 } : TlmSet).buckets.length = hashBuckets :=
    h.buckets
  rw [entryToUse, allocate, if_neg (Nat.not_le_of_lt hroom)]
  rw [hchain] at hlinked
  cases hslot : set.slot (doHash seed id) with
  | some head =>
    rw [hslot] at hlinked
    cases hlinked
  | none =>
    refine ⟨_, _, rfl, recorded_new h htable habsent hroom rfl ?_ ?_ ?_ ?_ ?_ ?_ t v⟩
    · exact length_set
    · exact length_link
    · exact fun i _ => link_same hgrown hroom none i
    · intro s hs
      have hother : ∀ set2 : TlmSet,
          set2.slots = set.slots.set (doHash seed id) (some set.free) →
          set2.slot s = set.slot s := by
        intro set2 hslots
        rw [slot, hslots, getD_eq_getElem?_getD, getElem?_set_ne (Ne.symm hs), slot,
          getD_eq_getElem?_getD]
      exact hother _ rfl
    · intro i hi _
      exact (congrFun (next_link hgrown hroom none) i).trans (update_of_ne hi ..)
    · have hhead : ∀ set2 : TlmSet,
          set2.slots = set.slots.set (doHash seed id) (some set.free) →
          set2.slot (doHash seed id) = some set.free := by
        intro set2 hslots
        rw [slot, hslots, getD_eq_getElem?_getD, getElem?_set_self hslotLt]
        rfl
      rw [hchain]
      refine ⟨hhead _ rfl, ?_⟩
      exact (congrFun (next_link hgrown hroom none) set.free).trans (update_self ..)

theorem entryToUse_behind {front : List Nat} {last : Nat}
    (hchain : chains (doHash seed id) = front ++ [last]) (t : Time) (v : TlmBuffer) :
    ∃ i set1, set.entryToUse (doHash seed id) id = .ok (some (i, set1)) ∧
      Recorded seed set id t v i (set1.record i id t v) := by
  have hlinked := htable.linked (doHash seed id)
  have hnodup := htable.nodup (doHash seed id)
  have hlen := Nat.le_trans (htable.length_le (doHash seed id)) h.free
  have hbelow : ∀ i ∈ chains (doHash seed id), i < set.free :=
    fun i hi => ((htable.mem_iff _ i).mp hi).1
  have hfresh : set.free ∉ chains (doHash seed id) := fun hmem => lt_irrefl _ (hbelow _ hmem)
  have hgrown : ({ set with free := set.free + 1 } : TlmSet).buckets.length = hashBuckets :=
    h.buckets
  rw [entryToUse, allocate, if_neg (Nat.not_le_of_lt hroom)]
  rw [hchain] at hlinked hnodup hfresh hlen
  have hlast : last < hashBuckets := lt_trans (hbelow last (by simp [hchain])) hroom
  have hwalk : (front ++ [last]).find? (fun i => set.key i = id) = none := by
    rw [← hchain, find?_eq_none]
    intro i hi
    simpa using habsent i (hbelow i hi)
  cases hslot : set.slot (doHash seed id) with
  | none =>
    rw [hslot] at hlinked
    cases front with
    | nil | cons i front => cases hlinked.1
  | some head =>
    rw [hslot] at hlinked
    dsimp only
    rw [walk_eq hlinked (lt_succ_of_le hlen), hwalk]
    dsimp only
    rw [getLastD_concat]
    have hlinkedOnce : (({ set with free := set.free + 1 } : TlmSet).link last
        (some set.free)).buckets.length = hashBuckets := length_link.trans h.buckets
    have hnextEq := (next_link hlinkedOnce hroom none).trans
      (congrArg (update · set.free none) (next_link hgrown hlast (some set.free)))
    refine ⟨_, _, rfl, recorded_new h htable habsent hroom ?_ ?_ ?_ ?_ ?_ ?_ ?_ t v⟩
    · rfl
    · rfl
    · exact length_link.trans length_link
    · intro i _
      obtain ⟨n1, h1⟩ := link_same hgrown hlast (some set.free) i
      obtain ⟨n2, h2⟩ := link_same hlinkedOnce hroom none i
      exact ⟨n2, h2.trans (by rw [h1]; rfl)⟩
    · exact fun s _ => rfl
    · intro i hi hmem
      have hil : i ≠ last := fun he => hmem (by simp [hchain, he])
      refine (congrFun hnextEq i).trans ?_
      rw [update_of_ne hi, update_of_ne hil]
      rfl
    · rw [hchain]
      dsimp only
      rw [hnextEq]
      exact hslot.symm ▸ hlinked.concat hnodup hfresh

end

theorem entryToUse_new (h : WellFormed seed set) (habsent : ∀ i < set.free, set.key i ≠ id)
    (hroom : set.free < hashBuckets) (t : Time) (v : TlmBuffer) :
    ∃ i set1, set.entryToUse (doHash seed id) id = .ok (some (i, set1)) ∧
      Recorded seed set id t v i (set1.record i id t v) := by
  obtain ⟨chains, htable⟩ := h.table
  rcases eq_nil_or_concat' (chains (doHash seed id)) with hchain | ⟨front, last, hchain⟩
  · exact entryToUse_first h htable habsent hroom hchain t v
  · exact entryToUse_behind h htable habsent hroom hchain t v

theorem entryToUse_recorded (h : WellFormed seed set)
    (hroom : (∃ i < set.free, set.key i = id) ∨ set.free < hashBuckets) (t : Time) (v : TlmBuffer) :
    ∃ i set1, set.entryToUse (doHash seed id) id = .ok (some (i, set1)) ∧
      Recorded seed set id t v i (set1.record i id t v) := by
  by_cases hfound : ∃ i < set.free, set.key i = id
  · obtain ⟨i, hi, hkey⟩ := hfound
    exact ⟨i, set, entryToUse_found h hi hkey, recorded_found h hi hkey t v⟩
  · refine entryToUse_new h (fun i hi hkey => hfound ⟨i, hi, hkey⟩) (hroom.resolve_left hfound) t v

theorem WellFormed.free_lt (h : WellFormed seed set) {ids : List UInt32}
    (hids : ∀ i < set.free, set.key i ∈ ids) (habsent : ∀ i < set.free, set.key i ≠ id) :
    set.free < (id :: ids).dedup.length := by
  obtain ⟨chains, htable⟩ := h.table
  have hnodup : (id :: (range set.free).map set.key).Nodup := by
    refine nodup_cons.mpr ⟨?_, ?_⟩
    · intro hmem
      obtain ⟨i, hi, hkey⟩ := mem_map.mp hmem
      exact habsent i (mem_range.mp hi) hkey
    · refine List.Nodup.map_on (fun i hi j hj => ?_) nodup_range
      exact htable.distinct i (mem_range.mp hi) j (mem_range.mp hj)
  have hsub : id :: (range set.free).map set.key ⊆ (id :: ids).dedup := by
    intro x hx
    rw [mem_dedup]
    rcases mem_cons.mp hx with rfl | hx
    · exact mem_cons_self
    · obtain ⟨i, hi, rfl⟩ := mem_map.mp hx
      exact mem_cons_of_mem _ (hids i (mem_range.mp hi))
  have hle := (hnodup.subperm hsub).length_le
  rw [length_cons, length_map, length_range] at hle
  exact hle

theorem WellFormed.room (h : WellFormed seed set) {ids : List UInt32}
    (hknown : ∀ id' r, view seed set id' = some r → id' ∈ ids)
    (hids : (id :: ids).dedup.length ≤ hashBuckets) :
    (∃ i < set.free, set.key i = id) ∨ set.free < hashBuckets := by
  by_cases hfound : ∃ i < set.free, set.key i = id
  · exact .inl hfound
  · refine .inr (lt_of_lt_of_le ?_ hids)
    refine h.free_lt (fun i hi => ?_) fun i hi hkey => hfound ⟨i, hi, hkey⟩
    exact hknown _ _ (h.view_eq_some.mpr ⟨i, hi, rfl, rfl, rfl⟩)

end Record

end TlmSet

end Fprime.Svc.TlmChan
