import Fprime.Lib.Bytes
import Mathlib.Data.List.Basic

/-!
# The stack of a sequence

A byte array with the number of bytes in use and the start of the frame of the current function.
Values are stored big-endian; the bytes above those in use keep what was there.
-/

namespace Fprime.Svc.Fpy

open Lib.Bytes List

def maxStackSize : Nat := 65535

/-- What stops a directive: a failed assertion of the stack, or machine arithmetic out of range. -/
inductive Fault where
  | bounds
  | arithmetic

inductive DirectiveError where
  | noError
  | stmtOutOfBounds
  | domainError
  | stackAccessOutOfBounds
  | stackOverflow
  | stackUnderflow
  | arithmeticOverflow
  | arithmeticUnderflow
  | frameStartOutOfBounds

structure Stack where
  bytes : Bytes
  size : Nat
  currentFrameStart : Nat
  length_eq : bytes.length = maxStackSize
  size_le : size ≤ maxStackSize

namespace Stack

def content (s : Stack) : Bytes :=
  s.bytes.take s.size

def truncate (s : Stack) (n : Nat) : Stack :=
  { s with size := min n s.size, size_le := (Nat.min_le_right n s.size).trans s.size_le }

def popBytes (s : Stack) (n : Nat) : Except Fault (Bytes × Stack) :=
  if n ≤ s.size then .ok ((s.bytes.drop (s.size - n)).take n, s.truncate (s.size - n))
  else .error .bounds

/-- Overwrite bytes of the array, and use those up to the end of them. -/
def place (s : Stack) (dest : Nat) (src : Bytes) (h : dest + src.length ≤ maxStackSize) :
    Stack :=
  { s with
    bytes := s.bytes.take dest ++ src ++ s.bytes.drop (dest + src.length)
    size := dest + src.length
    length_eq := by
      simp only [length_append, length_take, length_drop, s.length_eq]
      omega
    size_le := h }

def pushBytes (s : Stack) (src : Bytes) : Except Fault Stack :=
  if h : s.size + src.length ≤ maxStackSize then .ok (s.place s.size src h) else .error .bounds

def popU32 (s : Stack) : Except Fault (Nat × Stack) := do
  let (bytes, s) ← s.popBytes 4
  return (decodeBE 0 bytes, s)

def pushU32 (s : Stack) (value : Nat) : Except Fault Stack :=
  s.pushBytes (encodeBE 4 value)

def toI64 (bits : Nat) : Int :=
  if bits < 2 ^ 63 then bits else bits - 2 ^ 64

def ofI64 (value : Int) : Nat :=
  (value % 2 ^ 64).toNat

def popI64 (s : Stack) : Except Fault (Int × Stack) := do
  let (bytes, s) ← s.popBytes 8
  return (toI64 (decodeBE 0 bytes), s)

def pushI64 (s : Stack) (value : Int) : Except Fault Stack :=
  s.pushBytes (encodeBE 8 (ofI64 value))

variable {s : Stack} {xs ys : Bytes}

theorem length_content (s : Stack) : s.content.length = s.size := by
  rw [content, length_take, s.length_eq, Nat.min_eq_left s.size_le]

theorem content_truncate (s : Stack) (n : Nat) : (s.truncate n).content = s.content.take n := by
  rw [content, truncate, content, take_take]

theorem read_content (h : s.content = xs ++ ys) : (s.bytes.drop xs.length).take ys.length = ys := by
  have hsize : s.size = xs.length + ys.length := by
    rw [← length_content, h, length_append]
  calc (s.bytes.drop xs.length).take ys.length = s.content.drop xs.length := by
        rw [content, hsize, drop_take, Nat.add_sub_cancel_left]
    _ = ys := by rw [h, drop_left]

theorem content_place (dest : Nat) (src : Bytes) (h : dest + src.length ≤ maxStackSize)
    (hdest : dest ≤ s.size) : (s.place dest src h).content = s.content.take dest ++ src := by
  have hlen : (s.bytes.take dest).length = dest := by
    rw [length_take, s.length_eq]
    omega
  have htake : (s.bytes.take dest ++ src).length = dest + src.length := by
    rw [length_append, hlen]
  rw [content, place, take_left' htake, content, take_take, Nat.min_eq_left hdest]

theorem popBytes_eq (h : s.content = xs ++ ys) :
    ∃ s', s.popBytes ys.length = .ok (ys, s') ∧ s'.content = xs ∧ s'.bytes = s.bytes ∧
      s'.currentFrameStart = s.currentFrameStart := by
  have hsize : s.size = xs.length + ys.length := by
    rw [← length_content, h, length_append]
  have hdiff : s.size - ys.length = xs.length := by omega
  refine ⟨s.truncate xs.length, ?_, ?_, rfl, rfl⟩
  · rw [popBytes, if_pos (by omega), hdiff, read_content h]
  · rw [content_truncate, h, take_left]

theorem pushBytes_eq (h : s.content = xs) (hroom : xs.length + ys.length ≤ maxStackSize) :
    ∃ s', s.pushBytes ys = .ok s' ∧ s'.content = xs ++ ys ∧
      s'.currentFrameStart = s.currentFrameStart := by
  have hsize : s.size = xs.length := by rw [← length_content, h]
  have hfits : s.size + ys.length ≤ maxStackSize := by omega
  refine ⟨s.place s.size ys hfits, dif_pos hfits, ?_, rfl⟩
  rw [content_place s.size ys hfits le_rfl, hsize, ← h, take_length]

theorem popU32_eq (h : s.content = xs ++ ys) (hlen : ys.length = 4) :
    ∃ s', s.popU32 = .ok (decodeBE 0 ys, s') ∧ s'.content = xs ∧ s'.bytes = s.bytes ∧
      s'.currentFrameStart = s.currentFrameStart := by
  obtain ⟨s', hpop, hs'⟩ := popBytes_eq h
  exact ⟨s', by rw [popU32, ← hlen, hpop]; rfl, hs'⟩

theorem toI64_ofI64 {value : Int} (hmin : -2 ^ 63 ≤ value) (hmax : value < 2 ^ 63) :
    toI64 (ofI64 value) = value := by
  unfold toI64 ofI64
  split <;> omega

theorem popI64_eq {value : Int} (h : s.content = xs ++ encodeBE 8 (ofI64 value))
    (hmin : -2 ^ 63 ≤ value) (hmax : value < 2 ^ 63) :
    ∃ s', s.popI64 = .ok (value, s') ∧ s'.content = xs := by
  obtain ⟨s', hpop, hs', -⟩ := popBytes_eq h
  have hbits : decodeBE 0 (encodeBE 8 (ofI64 value)) = ofI64 value := by
    rw [decodeBE_encodeBE, ofI64]
    omega
  rw [encodeBE_length] at hpop
  refine ⟨s', ?_, hs'⟩
  rw [popI64, hpop]
  show Except.ok (toI64 (decodeBE 0 (encodeBE 8 (ofI64 value))), s') = _
  rw [hbits, toI64_ofI64 hmin hmax]

end Stack

end Fprime.Svc.Fpy
