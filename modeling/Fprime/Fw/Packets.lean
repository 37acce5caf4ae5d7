import Fprime.Fw.Serial
import Fprime.Lib.Runs

/-!
# Command packets

The read side of the framework's serial buffers, over the bytes behind the read cursor, and the
command packet that is read with it.
-/

namespace Fprime.Fw

open Lib.Bytes Lib.Runs Nat

inductive CmdResponse where
  | ok
  | invalidOpcode
  | validationError
  | formatError
  | executionError
  | busy
  deriving DecidableEq

inductive DeserialStatus where
  | ok
  | bufferEmpty
  | formatError
  | sizeMismatch
  | typeMismatch

/-- A status by its number; one without a counterpart becomes a format error. -/
def DeserialStatus.ofStatus : SerializeStatus → DeserialStatus
  | .ok => .ok
  | .deserBufferEmpty => .bufferEmpty
  | .deserFormatError => .formatError
  | .deserSizeMismatch => .sizeMismatch
  | .deserTypeMismatch => .typeMismatch
  | _ => .formatError

/-- Read some bytes, and what is left to read. A failed read moves nothing. -/
def readRaw (n : Nat) (buf : Bytes) : Except SerializeStatus (Bytes × Bytes) :=
  if buf.length = 0 then .error .deserBufferEmpty
  else if buf.length < n then .error .deserSizeMismatch
  else .ok (buf.take n, buf.drop n)

def deserializeU16 (buf : Bytes) : Except SerializeStatus (UInt16 × Bytes) :=
  (readRaw 2 buf).map fun r => (UInt16.ofNat (decodeBE 0 r.1), r.2)

def deserializeU32 (buf : Bytes) : Except SerializeStatus (UInt32 × Bytes) :=
  (readRaw 4 buf).map fun r => (UInt32.ofNat (decodeBE 0 r.1), r.2)

def deserializeU8 (buf : Bytes) : Except SerializeStatus (UInt8 × Bytes) :=
  (readRaw 1 buf).map fun r => (UInt8.ofNat (decodeBE 0 r.1), r.2)

variable {buf rest : Bytes} {n : Nat}

theorem readRaw_eq_ok {r : Bytes × Bytes} (h : readRaw n buf = .ok r) :
    n ≤ buf.length ∧ 0 < buf.length ∧ r = (buf.take n, buf.drop n) := by
  unfold readRaw at h
  split at h
  · cases h
  split at h
  · cases h
  · cases h
    exact ⟨by omega, by omega, rfl⟩

theorem readRaw_of_le (hpos : 0 < n) (h : n ≤ buf.length) :
    readRaw n buf = .ok (buf.take n, buf.drop n) := by
  rw [readRaw, if_neg (by omega), if_neg (by omega)]

theorem length_of_deserializeU8 {r : UInt8 × Bytes} (h : deserializeU8 buf = .ok r) :
    r.2.length < buf.length := by
  obtain ⟨x, hx, rfl⟩ := map_eq_ok.mp h
  obtain ⟨-, hpos, rfl⟩ := readRaw_eq_ok hx
  rw [List.length_drop]
  omega

theorem length_of_deserializeU32 {r : UInt32 × Bytes} (h : deserializeU32 buf = .ok r) :
    r.2.length < buf.length := by
  obtain ⟨x, hx, rfl⟩ := map_eq_ok.mp h
  obtain ⟨-, hpos, rfl⟩ := readRaw_eq_ok hx
  rw [List.length_drop]
  omega

theorem readRaw_append {front rest : Bytes} (hpos : 0 < n) (hlen : front.length = n) :
    readRaw n (front ++ rest) = .ok (front, rest) := by
  rw [readRaw_of_le hpos (by rw [List.length_append]; omega), List.take_left' hlen,
    List.drop_left' hlen]

theorem decode_encode_u32 (v : UInt32) : UInt32.ofNat (decodeBE 0 (encodeBE 4 v.toNat)) = v := by
  have hlt := v.toNat_lt
  rw [decodeBE_encodeBE, zero_mul, zero_add, mod_eq_of_lt (by omega),
    UInt32.ofNat_toNat]

theorem deserializeU32_encode (v : UInt32) (rest : Bytes) :
    deserializeU32 (encodeBE 4 v.toNat ++ rest) = .ok (v, rest) := by
  rw [deserializeU32, readRaw_append (by decide) (encodeBE_length 4 v.toNat)]
  exact congrArg (fun w => Except.ok (w, rest)) (decode_encode_u32 v)

theorem deserializeU16_encode (v : UInt16) (rest : Bytes) :
    deserializeU16 (encodeBE 2 v.toNat ++ rest) = .ok (v, rest) := by
  have hlt := v.toNat_lt
  have hdecode : UInt16.ofNat (decodeBE 0 (encodeBE 2 v.toNat)) = v := by
    rw [decodeBE_encodeBE, zero_mul, zero_add, mod_eq_of_lt (by omega),
      UInt16.ofNat_toNat]
  rw [deserializeU16, readRaw_append (by decide) (encodeBE_length 2 v.toNat)]
  exact congrArg (fun w => Except.ok (w, rest)) hdecode

theorem deserializeU8_cons (v : UInt8) (rest : Bytes) :
    deserializeU8 (v :: rest) = .ok (v, rest) := by
  have hdecode : UInt8.ofNat (decodeBE 0 [v]) = v := by
    rw [decodeBE, List.foldl_cons, List.foldl_nil, zero_mul, zero_add, UInt8.ofNat_toNat]
  rw [deserializeU8, ← List.singleton_append,
    readRaw_append (by decide) (List.length_singleton (a := v))]
  exact congrArg (fun w => Except.ok (w, rest)) hdecode

theorem encode_of_readRaw {read : Bytes} (h : readRaw n buf = .ok (read, rest)) :
    encodeBE n (decodeBE 0 read % 256 ^ n) ++ rest = buf := by
  obtain ⟨hle, -, heq⟩ := readRaw_eq_ok h
  cases heq
  have hlen : (buf.take n).length = n := List.length_take_of_le hle
  have hlt := decodeBE_lt 0 (buf.take n)
  have hback := encodeBE_decodeBE 0 (buf.take n)
  rw [hlen] at hlt hback
  rw [mod_eq_of_lt (by omega), hback, List.take_append_drop]

theorem deserializeU32_eq_ok {v : UInt32} (h : deserializeU32 buf = .ok (v, rest)) :
    encodeBE 4 v.toNat ++ rest = buf := by
  obtain ⟨x, hx, heq⟩ := map_eq_ok.mp h
  cases heq
  rw [UInt32.toNat_ofNat']
  exact encode_of_readRaw hx

theorem deserializeU16_eq_ok {v : UInt16} (h : deserializeU16 buf = .ok (v, rest)) :
    encodeBE 2 v.toNat ++ rest = buf := by
  obtain ⟨x, hx, heq⟩ := map_eq_ok.mp h
  cases heq
  rw [UInt16.toNat_ofNat']
  exact encode_of_readRaw hx

theorem deserializeU8_eq_ok {v : UInt8} (h : deserializeU8 buf = .ok (v, rest)) :
    v :: rest = buf := by
  obtain ⟨x, hx, heq⟩ := map_eq_ok.mp h
  cases heq
  have hbyte : UInt8.ofNat (decodeBE 0 x.1 % 256) = UInt8.ofNat (decodeBE 0 x.1) :=
    UInt8.toNat.inj (by simp)
  rw [← encode_of_readRaw hx, encodeBE, encodeBE, pow_zero, Nat.div_one, pow_one, hbyte]
  rfl

/-- A string with its length in front; what follows a zero byte is dropped. -/
def deserializeString (capacity : Nat) (buf : Bytes) :
    Except SerializeStatus (Bytes × Bytes) := do
  let (stored, buf) ← deserializeU16 buf
  if stored.toNat > buf.length ∨ stored.toNat > capacity then throw .deserSizeMismatch
  return ((buf.take stored.toNat).takeWhile (· ≠ 0), buf.drop stored.toNat)

def comBufferMaxSize : Nat := 512

def cmdStringMaxSize : Nat := 40

def cmdArgBufferMaxSize : Nat := comBufferMaxSize - 4 - 2

abbrev ComBuffer := { bytes : Bytes // bytes.length ≤ comBufferMaxSize }

def packetCommand : UInt16 := 0

structure CmdPacket where
  opcode : UInt32
  argBuffer : Bytes
  deriving DecidableEq

def CmdPacket.new : CmdPacket :=
  ⟨0, []⟩

/-- What has been read when the packet turns out to be malformed stays in it. -/
def CmdPacket.deserializeFrom (pkt : CmdPacket) (buf : Bytes) :
    SerializeStatus × CmdPacket :=
  match deserializeU16 buf with
  | .error e => (e, pkt)
  | .ok (descriptor, buf) =>
    if descriptor ≠ packetCommand then (.deserTypeMismatch, pkt)
    else
      match deserializeU32 buf with
      | .error e => (e, pkt)
      | .ok (opcode, left) =>
        if left.length > 0 then
          if cmdArgBufferMaxSize < left.length then (.noRoomLeft, { pkt with opcode := opcode })
          else (.ok, ⟨opcode, left⟩)
        else (.ok, ⟨opcode, []⟩)

end Fprime.Fw
