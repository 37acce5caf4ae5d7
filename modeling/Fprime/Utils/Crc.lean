import Fprime.Lib.ShiftRegister
import Fprime.Utils.Hash

/-!
# The CRC-32 bit by bit

The table takes in eight bits at once; what comes out is what a shift register makes of them one at a
time, lowest bit first.
-/

namespace Fprime.Utils.Hash

open Lib.ShiftRegister BitVec

def polynomial : BitVec 32 := 0xEDB88320#32

def bitsOf (byte : UInt8) : List Bool :=
  (List.range 8).map byte.toBitVec.getLsbD

theorem shiftBit_toBitVec (crc : UInt32) :
    (shiftBit crc).toBitVec = shift polynomial crc.toBitVec := by
  have hlow : (crc &&& 1).toBitVec = (ofBool (crc.toBitVec.getLsbD 0)).setWidth 32 :=
    and_one_eq_setWidth_ofBool_getLsbD
  unfold shiftBit shift
  cases hbit : crc.toBitVec.getLsbD 0 with
  | false =>
    have hzero : crc &&& 1 = 0 := UInt32.toBitVec_inj.mp (by rw [hlow, hbit]; rfl)
    rw [if_neg (not_not.mpr hzero)]
    rfl
  | true =>
    have hone : crc &&& 1 = 1 := UInt32.toBitVec_inj.mp (by rw [hlow, hbit]; rfl)
    rw [if_pos (by rw [hone]; decide)]
    rfl

theorem tableEntry_toBitVec (i : UInt32) :
    (tableEntry i).toBitVec = (shift polynomial)^[8] i.toBitVec := by
  simp only [tableEntry, List.range, List.range.loop, List.foldl, shiftBit_toBitVec,
    Function.iterate_succ_apply, Function.iterate_zero, id]

theorem word_bitsOf (byte : UInt8) : word 32 (bitsOf byte) = byte.toUInt32.toBitVec := by
  apply eq_of_getLsbD_eq
  intro i hi
  rw [getLsbD_word, UInt8.toBitVec_toUInt32, getLsbD_setWidth, List.getD_eq_getElem?_getD]
  by_cases h8 : i < 8
  · simp [bitsOf, h8]
  · simp [bitsOf, h8, getLsbD_of_ge byte.toBitVec i (by omega)]

theorem iterate_low (x : BitVec 32) :
    (shift polynomial)^[8] x = (x >>> 8) ^^^ (shift polynomial)^[8] (x &&& 0xFF#32) := by
  have hmask : ∀ i, (255 : Nat).testBit i = decide (i < 8) := Nat.testBit_two_pow_sub_one 8
  have hsplit : x = ((x >>> 8) <<< 8) ^^^ (x &&& 0xFF#32) := by
    apply eq_of_getLsbD_eq
    intro i hi
    rw [getLsbD_xor, getLsbD_shiftLeft, getLsbD_ushiftRight, getLsbD_and, getLsbD_ofNat, hmask]
    by_cases h8 : i < 8
    · simp [h8, hi]
    · simp [h8, hi, Nat.add_sub_cancel' (Nat.le_of_not_lt h8)]
  have hclear : ∀ i, 32 ≤ i + 8 → (x >>> 8).getLsbD i = false := by
    intro i hi
    rw [getLsbD_ushiftRight]
    exact getLsbD_of_ge x _ (by omega)
  have hshift := congrArg ((shift polynomial)^[8]) hsplit
  rwa [iterate_xor, iterate_shiftLeft polynomial hclear] at hshift

theorem update_byte (crc : UInt32) (byte : UInt8) :
    ((crc >>> 8) ^^^ tableEntry ((crc ^^^ byte.toUInt32) &&& 0xFF)).toBitVec =
      feed polynomial crc.toBitVec (bitsOf byte) := by
  have hbyte : byte.toUInt32.toBitVec >>> 8 = 0#32 := by
    apply eq_of_getLsbD_eq
    intro i hi
    rw [UInt8.toBitVec_toUInt32, getLsbD_ushiftRight, getLsbD_setWidth,
      getLsbD_of_ge byte.toBitVec _ (by omega), Bool.and_false, getLsbD_zero]
  have hlen : (bitsOf byte).length ≤ 32 := by simp [bitsOf]
  rw [feed_eq polynomial _ hlen, word_bitsOf]
  show _ = (shift polynomial)^[8] (crc.toBitVec ^^^ byte.toUInt32.toBitVec)
  rw [iterate_low, ushiftRight_xor_distrib, hbyte, BitVec.xor_zero, UInt32.toBitVec_xor,
    tableEntry_toBitVec]
  rfl

theorem update_toBitVec (crc : UInt32) (data : Bytes) :
    (update crc data).toBitVec = feed polynomial crc.toBitVec (data.flatMap bitsOf) := by
  induction data generalizing crc with
  | nil => rfl
  | cons byte data ih =>
    rw [List.flatMap_cons, feed_append, ← update_byte, ← ih]
    rfl

/-- The hash is the complement of what the register makes of the bits, one at a time. -/
theorem hash_bit_serial (data : Bytes) :
    (hashU32 data).toBitVec = ~~~ feed polynomial (allOnes 32) (data.flatMap bitsOf) := by
  rw [hashU32, UInt32.toBitVec_not, update_toBitVec]
  rfl

theorem update_ne {a b : Bytes} (h : Burst 32 (a.flatMap bitsOf) (b.flatMap bitsOf))
    (crc : UInt32) : update crc a ≠ update crc b := by
  intro heq
  have hfeed := congrArg UInt32.toBitVec heq
  rw [update_toBitVec, update_toBitVec] at hfeed
  exact feed_ne (by decide) _ h hfeed

theorem update_of_hash {a b : Bytes} (h : hashU32 a = hashU32 b) :
    update 0xFFFFFFFF a = update 0xFFFFFFFF b := by
  have hregister := congrArg (~~~ ·) h
  simpa only [hashU32, UInt32.not_not] using hregister

/-- Data that differs inside a window of 32 bits has another hash. -/
theorem hash_detects_burst {a b : Bytes}
    (h : Burst 32 (a.flatMap bitsOf) (b.flatMap bitsOf)) : hashU32 a ≠ hashU32 b :=
  fun heq => update_ne h _ (update_of_hash heq)

theorem hash_detects_burst_two : hashU32 [0x10, 0x20] ≠ hashU32 [0x90, 0x21] :=
  hash_detects_burst ⟨(bitsOf 0x10).take 7, [false, false], [true, true], (bitsOf 0x20).drop 1,
    by decide⟩

end Fprime.Utils.Hash
