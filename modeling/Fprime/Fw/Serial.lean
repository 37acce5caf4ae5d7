import Mathlib.Data.List.TakeWhile
import Fprime.Lib.Bytes

/-!
# Serialization buffers

The write side of the framework's serial buffers: a write either fits as a whole or changes nothing.
-/

namespace Fprime.Fw

open Lib.Bytes

inductive SerializeStatus where
  | ok
  | formatError
  | noRoomLeft
  | deserBufferEmpty
  | deserFormatError
  | deserSizeMismatch
  | deserTypeMismatch
  | deserImmutable
  | deserInvalidData
  | discardedExisting
  deriving DecidableEq

/-- How an encoder or decoder can fail: with a status it returns, or with a failed assertion
or an out-of-range slice. -/
inductive CodecError where
  | status (s : SerializeStatus)
  | panic

abbrev Codec (α : Type) := Except CodecError α

@[simp] theorem Codec.ok_bind {α β : Type} (a : α) (f : α → Codec β) :
    (Except.ok a : Codec α) >>= f = f a := rfl

@[simp] theorem Codec.throw_bind {α β : Type} (e : CodecError) (f : α → Codec β) :
    (throw e : Codec α) >>= f = .error e := rfl

theorem Codec.bind_eq_ok {α β : Type} {x : Codec α} {f : α → Codec β} {b : β} :
    (x >>= f) = .ok b ↔ ∃ a, x = .ok a ∧ f a = .ok b := by
  cases x with
  | error e => simp [bind, Except.bind]
  | ok a => simp

def fwAssert (p : Bool) : Codec Unit :=
  if p then .ok () else .error .panic

@[simp] theorem fwAssert_true : fwAssert true = .ok () := rfl

structure SerBuf where
  capacity : Nat
  bytes : Bytes
  fits : bytes.length ≤ capacity

namespace SerBuf

def empty (capacity : Nat) : SerBuf :=
  ⟨capacity, [], Nat.zero_le _⟩

variable (b : SerBuf)

def writeRaw (data : Bytes) : Codec SerBuf :=
  if h : b.bytes.length + data.length ≤ b.capacity then
    .ok ⟨b.capacity, b.bytes ++ data, by simpa using h⟩
  else .error (.status .noRoomLeft)

def serializeU8 (v : UInt8) : Codec SerBuf :=
  b.writeRaw [v]

def serializeU16 (v : UInt16) : Codec SerBuf :=
  b.writeRaw (encodeBE 2 v.toNat)

def serializeU32 (v : UInt32) : Codec SerBuf :=
  b.writeRaw (encodeBE 4 v.toNat)

def serializeU64 (v : UInt64) : Codec SerBuf :=
  b.writeRaw (encodeBE 8 v.toNat)

theorem writeRaw_bind_writeRaw (x y : Bytes) :
    ((b.writeRaw x) >>= fun b' => b'.writeRaw y) = b.writeRaw (x ++ y) := by
  by_cases hx : b.bytes.length + x.length ≤ b.capacity
  · simp [writeRaw, hx, bind, Except.bind, Nat.add_assoc]
  · have hxy : ¬ b.bytes.length + (x.length + y.length) ≤ b.capacity := by omega
    simp [writeRaw, hx, hxy, bind, Except.bind]

theorem writeRaw_nil : b.writeRaw [] = .ok b := by
  have h := b.fits
  simp [writeRaw, h]

theorem writeRaw_empty {capacity : Nat} {data : Bytes} (h : data.length ≤ capacity) :
    (empty capacity).writeRaw data = .ok ⟨capacity, data, h⟩ := by
  simp [writeRaw, empty, h]

end SerBuf

/-- The bytes of a string argument that a bounded string keeps: up to the first NUL, at most
the string's capacity. -/
def setBytes (capacity : Nat) (src : Bytes) : Bytes :=
  (src.takeWhile (· ≠ 0)).take capacity

theorem setBytes_eq_self {capacity : Nat} {src : Bytes} (hlen : src.length ≤ capacity)
    (hnul : (0 : UInt8) ∉ src) : setBytes capacity src = src := by
  have hall : src.takeWhile (· ≠ 0) = src := by
    rw [List.takeWhile_eq_self_iff]
    intro b hb
    simp only [decide_eq_true_eq]
    rintro rfl
    exact hnul hb
  rw [setBytes, hall, List.take_of_length_le hlen]

end Fprime.Fw
