import Mathlib.Data.List.Nodup
import Mathlib.Data.List.Perm.Basic
import Mathlib.Data.List.ReduceOption

/-!
# Array maps

A map of fixed capacity kept as an array of optional entries. Inserting overwrites the entry of its
key or takes the first free slot.
-/

namespace Lib

open List Option

variable {κ ν : Type}

namespace Slots

variable {k : κ} {v : ν} {e : κ × ν} {l l' : List (Option (κ × ν))}

def place (e : κ × ν) : List (Option (κ × ν)) → Option (List (Option (κ × ν)))
  | [] => none
  | none :: rest => some (some e :: rest)
  | some e' :: rest => (place e rest).map (some e' :: ·)

theorem place_length (h : place e l = some l') : l'.length = l.length := by
  fun_induction place e l generalizing l' with
  | case1 => cases h
  | case2 rest =>
    cases h
    rfl
  | case3 e' rest ih =>
    obtain ⟨r, hr, rfl⟩ := map_eq_some_iff.mp h
    simp [ih hr]

theorem place_perm (h : place e l = some l') : l'.reduceOption.Perm (e :: l.reduceOption) := by
  fun_induction place e l generalizing l' with
  | case1 => cases h
  | case2 rest =>
    cases h
    simp [reduceOption_cons_of_some, reduceOption_cons_of_none]
  | case3 e' rest ih =>
    obtain ⟨r, hr, rfl⟩ := map_eq_some_iff.mp h
    simp only [reduceOption_cons_of_some]
    exact ((ih hr).cons e').trans (List.Perm.swap e e' _)

theorem place_eq_none_iff : place e l = none ↔ l.reduceOption.length = l.length := by
  fun_induction place e l with
  | case1 => simp
  | case2 rest =>
    have hle := reduceOption_length_le rest
    simp only [reduceOption_cons_of_none, length_cons, reduceCtorEq, false_iff]
    omega
  | case3 e' rest ih =>
    simp [reduceOption_cons_of_some, ih]

variable [DecidableEq κ]

def overwrite (k : κ) (v : ν) : List (Option (κ × ν)) → Option (List (Option (κ × ν)))
  | [] => none
  | none :: rest => (overwrite k v rest).map (none :: ·)
  | some e :: rest =>
    if e.1 = k then some (some (e.1, v) :: rest) else (overwrite k v rest).map (some e :: ·)

def take (k : κ) : List (Option (κ × ν)) → Option (ν × List (Option (κ × ν)))
  | [] => none
  | none :: rest => (take k rest).map fun r => (r.1, none :: r.2)
  | some e :: rest =>
    if e.1 = k then some (e.2, none :: rest) else (take k rest).map fun r => (r.1, some e :: r.2)

theorem overwrite_length (h : overwrite k v l = some l') : l'.length = l.length := by
  fun_induction overwrite k v l generalizing l' with
  | case1 => cases h
  | case2 rest ih =>
    obtain ⟨r, hr, rfl⟩ := map_eq_some_iff.mp h
    simp [ih hr]
  | case3 e rest heq =>
    cases h
    rfl
  | case4 e rest hne ih =>
    obtain ⟨r, hr, rfl⟩ := map_eq_some_iff.mp h
    simp [ih hr]

theorem overwrite_eq_none (h : k ∉ l.reduceOption.map Prod.fst) : overwrite k v l = none := by
  fun_induction overwrite k v l with
  | case1 => rfl
  | case2 rest ih =>
    rw [reduceOption_cons_of_none] at h
    simp [ih h]
  | case3 e rest heq =>
    rw [reduceOption_cons_of_some] at h
    simp [heq] at h
  | case4 e rest hne ih =>
    rw [reduceOption_cons_of_some, map_cons, mem_cons, not_or] at h
    simp [ih h.2]

theorem take_length {r : ν × List (Option (κ × ν))} (h : take k l = some r) :
    r.2.length = l.length := by
  fun_induction take k l generalizing r with
  | case1 => cases h
  | case2 rest ih =>
    obtain ⟨r', hr, rfl⟩ := map_eq_some_iff.mp h
    simp [ih hr]
  | case3 e rest heq =>
    cases h
    rfl
  | case4 e rest hne ih =>
    obtain ⟨r', hr, rfl⟩ := map_eq_some_iff.mp h
    simp [ih hr]

theorem take_perm {r : ν × List (Option (κ × ν))} (h : take k l = some r) :
    l.reduceOption.Perm ((k, r.1) :: r.2.reduceOption) := by
  fun_induction take k l generalizing r with
  | case1 => cases h
  | case2 rest ih =>
    obtain ⟨r', hr, rfl⟩ := map_eq_some_iff.mp h
    simpa only [reduceOption_cons_of_none] using ih hr
  | case3 e rest heq =>
    cases h
    simp only [reduceOption_cons_of_none, reduceOption_cons_of_some, ← heq]
    rfl
  | case4 e rest hne ih =>
    obtain ⟨r', hr, rfl⟩ := map_eq_some_iff.mp h
    simp only [reduceOption_cons_of_some]
    exact ((ih hr).cons e).trans (List.Perm.swap _ _ _)

theorem take_eq_none_iff : take k l = none ↔ k ∉ l.reduceOption.map Prod.fst := by
  fun_induction take k l with
  | case1 => simp
  | case2 rest ih => simp [reduceOption_cons_of_none, ih]
  | case3 e rest heq => simp [reduceOption_cons_of_some, heq]
  | case4 e rest hne ih =>
    simp [reduceOption_cons_of_some, ih, Ne.symm hne]

end Slots

structure ArrayMap (κ ν : Type) (n : Nat) where
  slots : List (Option (κ × ν))
  size : slots.length = n

namespace ArrayMap

variable {n : Nat}

def empty : ArrayMap κ ν n :=
  ⟨replicate n none, length_replicate⟩

variable (m : ArrayMap κ ν n)

def live : List (κ × ν) :=
  m.slots.reduceOption

@[simp] theorem live_empty : (empty : ArrayMap κ ν n).live = [] := by
  induction n with
  | zero => rfl
  | succ n ih =>
    simp only [live, empty, replicate_succ, reduceOption_cons_of_none] at ih ⊢
    exact ih

variable [DecidableEq κ]

def insert (k : κ) (v : ν) : Option (ArrayMap κ ν n) :=
  match ho : Slots.overwrite k v m.slots with
  | some slots => some ⟨slots, (Slots.overwrite_length ho).trans m.size⟩
  | none =>
    match hp : Slots.place (k, v) m.slots with
    | some slots => some ⟨slots, (Slots.place_length hp).trans m.size⟩
    | none => none

def remove (k : κ) : Option ν × ArrayMap κ ν n :=
  match h : Slots.take k m.slots with
  | some r => (some r.1, ⟨r.2, (Slots.take_length h).trans m.size⟩)
  | none => (none, m)

variable {m m' : ArrayMap κ ν n} {k : κ} {v : ν}

theorem insert_eq_none_iff (hk : k ∉ m.live.map Prod.fst) :
    m.insert k v = none ↔ m.live.length = n := by
  have hnone : Slots.overwrite k v m.slots = none := Slots.overwrite_eq_none hk
  have hplace := Slots.place_eq_none_iff (e := (k, v)) (l := m.slots)
  rw [m.size] at hplace
  rw [live, ← hplace]
  unfold insert
  split
  · rename_i ho
    rw [hnone] at ho
    cases ho
  · split <;> simp_all

theorem insert_perm (hk : k ∉ m.live.map Prod.fst) (h : m.insert k v = some m') :
    m'.live.Perm ((k, v) :: m.live) := by
  have hnone : Slots.overwrite k v m.slots = none := Slots.overwrite_eq_none hk
  unfold insert at h
  split at h
  · rename_i ho
    rw [hnone] at ho
    cases ho
  · split at h
    · rename_i slots hp
      cases h
      exact Slots.place_perm hp
    · cases h

theorem remove_of_mem (hnodup : (m.live.map Prod.fst).Nodup) (h : (k, v) ∈ m.live) :
    (m.remove k).1 = some v ∧ m.live.Perm ((k, v) :: (m.remove k).2.live) := by
  unfold remove
  split
  · rename_i r hr
    have hperm := Slots.take_perm hr
    have hmem : (k, r.1) ∈ m.live := hperm.mem_iff.mpr mem_cons_self
    have heq : (k, r.1) = (k, v) := inj_on_of_nodup_map hnodup hmem h rfl
    cases heq
    exact ⟨rfl, hperm⟩
  · rename_i hr
    exact absurd (mem_map_of_mem h) (Slots.take_eq_none_iff.mp hr)

theorem remove_of_not_mem (h : k ∉ m.live.map Prod.fst) : m.remove k = (none, m) := by
  unfold remove
  split
  · rename_i r hr
    rw [Slots.take_eq_none_iff.mpr h] at hr
    cases hr
  · rfl

end ArrayMap

end Lib
