import Mathlib.Data.List.Basic
import Fprime.Fw.Serial

/-!
# Message queues of the utility types

A queue of messages of one size with a fixed depth. The ring of bytes it is kept in is taken as
the list of its messages, oldest first.
-/

namespace Fprime.Utils

open Fw List

inductive QueueMode where
  | fifo
  | lifo

inductive QueueOverflowMode where
  | dropNewest
  | dropOldest
  deriving DecidableEq

structure Queue (α : Type) where
  depth : Nat
  mode : QueueMode
  overflowMode : QueueOverflowMode
  messages : List α
  highWaterMark : Nat
  pos : 0 < depth
  fits : messages.length ≤ depth

namespace Queue

variable {α : Type}

def new (depth : Nat) (mode : QueueMode) (overflowMode : QueueOverflowMode) (h : 0 < depth) :
    Queue α :=
  ⟨depth, mode, overflowMode, [], 0, h, Nat.zero_le _⟩

variable (q : Queue α)

def withMessages (messages : List α) (h : messages.length ≤ q.depth) : Queue α :=
  { q with messages := messages, fits := h }

def push (messages : List α) (h : messages.length ≤ q.depth) : Queue α :=
  { q with
    messages := messages
    highWaterMark := max q.highWaterMark messages.length
    fits := h }

def enqueue (message : α) : SerializeStatus × Queue α :=
  if h : q.messages.length < q.depth then
    (.ok, q.push (q.messages ++ [message]) (by
      rw [length_append, length_singleton]
      exact h))
  else
    match q.overflowMode with
    | .dropNewest => (.noRoomLeft, q)
    | .dropOldest =>
      (.discardedExisting, q.push (q.messages.tail ++ [message]) (by
        have := q.fits
        have := q.pos
        simp only [length_append, length_tail, length_singleton]
        omega))

def popFront : Option (α × Queue α) :=
  match h : q.messages with
  | [] => none
  | m :: rest => some (m, q.withMessages rest (by
      have := q.fits
      rw [h, length_cons] at this
      omega))

theorem length_dropLast_le : q.messages.dropLast.length ≤ q.depth := by
  have := q.fits
  rw [length_dropLast]
  omega

def popBack : Option (α × Queue α) :=
  match q.messages.getLast? with
  | none => none
  | some m => some (m, q.withMessages q.messages.dropLast q.length_dropLast_le)

def dequeue : Option (α × Queue α) :=
  match q.mode with
  | .fifo => q.popFront
  | .lifo => q.popBack

def getQueueSize : Nat :=
  q.messages.length

def clearHighWaterMark : Queue α :=
  { q with highWaterMark := 0 }

variable {q q' : Queue α} {m : α}

theorem enqueue_spec {status : SerializeStatus} (h : q.enqueue m = (status, q')) :
    q'.depth = q.depth ∧ q'.mode = q.mode ∧ q'.overflowMode = q.overflowMode ∧
      ∀ x ∈ q'.messages, x = m ∨ x ∈ q.messages := by
  unfold enqueue at h
  split at h
  · cases h
    refine ⟨rfl, rfl, rfl, fun x hx => ?_⟩
    rcases mem_append.mp hx with hx | hx
    · exact .inr hx
    · exact .inl (mem_singleton.mp hx)
  · split at h
    · cases h
      exact ⟨rfl, rfl, rfl, fun x hx => .inr hx⟩
    · cases h
      refine ⟨rfl, rfl, rfl, fun x hx => ?_⟩
      rcases mem_append.mp hx with hx | hx
      · exact .inr (mem_of_mem_tail hx)
      · exact .inl (mem_singleton.mp hx)

theorem enqueue_of_kept {status : SerializeStatus} (h : q.enqueue m = (status, q'))
    (hkept : q.messages.length < q.depth ∨ q.overflowMode = .dropNewest) :
    (status = .ok ∧ q'.messages = q.messages ++ [m]) ∨ (status = .noRoomLeft ∧ q' = q) := by
  unfold enqueue at h
  split at h
  · cases h
    exact .inl ⟨rfl, rfl⟩
  · rename_i hfull
    rw [hkept.resolve_left hfull] at h
    cases h
    exact .inr ⟨rfl, rfl⟩

theorem popFront_eq_some (h : q.popFront = some (m, q')) :
    q.messages = m :: q'.messages ∧ q'.depth = q.depth ∧ q'.mode = q.mode ∧
      q'.overflowMode = q.overflowMode := by
  unfold popFront at h
  split at h
  · cases h
  · rename_i m' rest hm
    cases h
    exact ⟨hm, rfl, rfl, rfl⟩

theorem dequeue_eq_some (h : q.dequeue = some (m, q')) :
    (match q.mode with
      | .fifo => q.messages = m :: q'.messages
      | .lifo => q.messages = q'.messages ++ [m]) ∧
    q'.depth = q.depth ∧ q'.mode = q.mode ∧ q'.overflowMode = q.overflowMode := by
  unfold dequeue at h
  cases hmode : q.mode with
  | fifo =>
    simp only [hmode] at h
    obtain ⟨hm, hdepth, hmode', hover⟩ := popFront_eq_some h
    exact ⟨hm, hdepth, hmode'.trans hmode, hover⟩
  | lifo =>
    simp only [hmode, popBack] at h
    split at h
    · cases h
    · rename_i m' hm
      cases h
      exact ⟨(dropLast_append_getLast? _ hm).symm, rfl, hmode, rfl⟩

theorem popFront_isSome (h : q.messages ≠ []) : ∃ m q', q.popFront = some (m, q') := by
  unfold popFront
  split
  · rename_i hm
    exact absurd hm h
  · exact ⟨_, _, rfl⟩

theorem dequeue_isSome (h : q.messages ≠ []) : ∃ m q', q.dequeue = some (m, q') := by
  unfold dequeue
  cases q.mode with
  | fifo => exact popFront_isSome h
  | lifo =>
    simp only [popBack]
    split
    · rename_i hm
      exact absurd (getLast?_eq_none_iff.mp hm) h
    · exact ⟨_, _, rfl⟩

theorem dequeue_perm (h : q.dequeue = some (m, q')) : q.messages.Perm (m :: q'.messages) := by
  have hm := (dequeue_eq_some h).1
  cases hmode : q.mode with
  | fifo =>
    rw [hmode] at hm
    exact .of_eq hm
  | lifo =>
    rw [hmode] at hm
    rw [hm]
    exact perm_append_singleton m q'.messages

end Queue

end Fprime.Utils
