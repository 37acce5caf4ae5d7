import Mathlib.Data.List.Nodup

/-!
# Insertion-ordered maps

A finite map with a bound on the number of its keys, which also knows in which order they came.
A new value for a key that is there leaves the key where it is.
-/

namespace Lib

open Function

structure OrderedMap (κ ν : Type) (bound : Nat) where
  order : List κ
  value : κ → Option ν
  mem_order : ∀ k, k ∈ order ↔ (value k).isSome
  nodup : order.Nodup
  fits : order.length ≤ bound

namespace OrderedMap

variable {κ ν : Type} {bound : Nat}

theorem ext {m m' : OrderedMap κ ν bound} (horder : m.order = m'.order)
    (hvalue : m.value = m'.value) : m = m' := by
  cases m
  cases m'
  cases horder
  cases hvalue
  rfl

def empty : OrderedMap κ ν bound where
  order := []
  value _ := none
  mem_order _ := by simp
  nodup := List.nodup_nil
  fits := Nat.zero_le _

variable (m : OrderedMap κ ν bound) {k : κ}

theorem nodup_append (h : k ∉ m.order) :
    (m.order ++ [k]).Nodup :=
  m.nodup.append (List.nodup_singleton k) (List.disjoint_singleton.mpr h)

theorem length_append_le {m : OrderedMap κ ν bound} (k : κ) (h : m.order.length < bound) :
    (m.order ++ [k]).length ≤ bound := by
  rw [List.length_append, List.length_singleton]
  exact h

variable [DecidableEq κ]

theorem mem_order_replace (v : ν) (h : k ∈ m.order) (k' : κ) :
    k' ∈ m.order ↔ (update m.value k (some v) k').isSome := by
  by_cases hk : k' = k
  · subst hk
    simp [h]
  · rw [update_of_ne hk, m.mem_order]

theorem mem_order_append (k : κ) (v : ν) (k' : κ) :
    k' ∈ m.order ++ [k] ↔ (update m.value k (some v) k').isSome := by
  by_cases hk : k' = k
  · subst hk
    simp
  · rw [update_of_ne hk, ← m.mem_order, List.mem_append, List.mem_singleton]
    exact or_iff_left hk

/-- A value for a key; a new key needs room. -/
def insert (k : κ) (v : ν) : Option (OrderedMap κ ν bound) :=
  if h : k ∈ m.order then
    some { m with
      value := update m.value k (some v)
      mem_order := m.mem_order_replace v h }
  else if hroom : m.order.length < bound then
    some
      { order := m.order ++ [k]
        value := update m.value k (some v)
        mem_order := m.mem_order_append k v
        nodup := m.nodup_append h
        fits := length_append_le k hroom }
  else none

def insertAll (entries : List (κ × ν)) :
    Option (OrderedMap κ ν bound) :=
  entries.foldlM (fun m e => m.insert e.1 e.2) m

section Insert

variable {m m' : OrderedMap κ ν bound} {k : κ} {v : ν}

theorem insert_of_mem (h : k ∈ m.order) (horder : m'.order = m.order)
    (hvalue : m'.value = update m.value k (some v)) : m.insert k v = some m' := by
  rw [insert, dif_pos h]
  exact congrArg some (ext horder.symm hvalue.symm)

theorem insert_of_room (h : k ∉ m.order) (hroom : m.order.length < bound)
    (horder : m'.order = m.order ++ [k])
    (hvalue : m'.value = update m.value k (some v)) : m.insert k v = some m' := by
  rw [insert, dif_neg h, dif_pos hroom]
  exact congrArg some (ext horder.symm hvalue.symm)

theorem insert_of_full (h : k ∉ m.order) (hfull : ¬ m.order.length < bound) :
    m.insert k v = none := by
  rw [insert, dif_neg h, dif_neg hfull]

theorem insertAll_cons (h : m.insert k v = some m') (entries : List (κ × ν)) :
    m.insertAll ((k, v) :: entries) = m'.insertAll entries := by
  rw [insertAll, List.foldlM_cons, h]
  rfl

end Insert

end OrderedMap

end Lib
