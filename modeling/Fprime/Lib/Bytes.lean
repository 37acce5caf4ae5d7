import Mathlib.Tactic.Ring

/-!
# Fixed-width byte encodings of natural numbers

Big- and little-endian encodings of a number in a given count of bytes, with the
decoders that undo them up to the width.
-/

abbrev Bytes := List UInt8

namespace Lib.Bytes

/-- The low `n` bytes of `v`, most significant first. -/
def encodeBE : Nat → Nat → Bytes
  | 0, _ => []
  | n + 1, v => UInt8.ofNat (v / 256 ^ n) :: encodeBE n v

/-- Fold bytes, most significant first, onto an accumulator. -/
def decodeBE (acc : Nat) (bs : Bytes) : Nat :=
  bs.foldl (fun a b => a * 256 + b.toNat) acc

/-- The low `n` bytes of `v`, least significant first. -/
def encodeLE : Nat → Nat → Bytes
  | 0, _ => []
  | n + 1, v => UInt8.ofNat v :: encodeLE n (v / 256)

def decodeLE : Bytes → Nat
  | [] => 0
  | b :: bs => b.toNat + 256 * decodeLE bs

@[simp] theorem encodeBE_length (n v : Nat) : (encodeBE n v).length = n := by
  induction n with
  | zero => rfl
  | succ n ih => simp [encodeBE, ih]

@[simp] theorem encodeLE_length (n v : Nat) : (encodeLE n v).length = n := by
  induction n generalizing v with
  | zero => rfl
  | succ n ih => simp [encodeLE, ih]

theorem decodeBE_encodeBE (n v acc : Nat) :
    decodeBE acc (encodeBE n v) = acc * 256 ^ n + v % 256 ^ n := by
  induction n generalizing acc with
  | zero => simp [encodeBE, decodeBE, Nat.mod_one]
  | succ n ih =>
    have hb : (UInt8.ofNat (v / 256 ^ n)).toNat = v / 256 ^ n % 256 := by simp
    have hv : v % 256 ^ (n + 1) = v % 256 ^ n + 256 ^ n * (v / 256 ^ n % 256) := by
      rw [pow_succ, Nat.mod_mul]
    simp only [decodeBE] at ih
    simp only [encodeBE, decodeBE, List.foldl_cons, ih, hb, hv]
    ring

theorem decodeLE_encodeLE (n v : Nat) : decodeLE (encodeLE n v) = v % 256 ^ n := by
  induction n generalizing v with
  | zero => simp [encodeLE, decodeLE, Nat.mod_one]
  | succ n ih =>
    have hb : (UInt8.ofNat v).toNat = v % 256 := by simp
    rw [encodeLE, decodeLE, ih, hb, pow_succ', Nat.mod_mul]

theorem decodeBE_lt (acc : Nat) (bs : Bytes) :
    decodeBE acc bs < (acc + 1) * 256 ^ bs.length := by
  induction bs generalizing acc with
  | nil => simp [decodeBE]
  | cons b bs ih =>
    have hb := b.toNat_lt
    calc decodeBE acc (b :: bs) = decodeBE (acc * 256 + b.toNat) bs := rfl
      _ < (acc * 256 + b.toNat + 1) * 256 ^ bs.length := ih _
      _ ≤ ((acc + 1) * 256) * 256 ^ bs.length := Nat.mul_le_mul_right _ (by omega)
      _ = (acc + 1) * 256 ^ (b :: bs).length := by rw [List.length_cons, pow_succ']; ring

theorem decodeBE_div (acc : Nat) (bs : Bytes) : decodeBE acc bs / 256 ^ bs.length = acc := by
  induction bs generalizing acc with
  | nil => exact Nat.div_one acc
  | cons b bs ih =>
    have hb := b.toNat_lt
    have hrest : decodeBE acc (b :: bs) / 256 ^ bs.length = acc * 256 + b.toNat := ih _
    rw [List.length_cons, pow_succ, ← Nat.div_div_eq_div_mul, hrest]
    omega

theorem encodeBE_decodeBE (acc : Nat) (bs : Bytes) :
    encodeBE bs.length (decodeBE acc bs) = bs := by
  induction bs generalizing acc with
  | nil => rfl
  | cons b bs ih =>
    have hdiv : decodeBE acc (b :: bs) / 256 ^ bs.length = acc * 256 + b.toNat := decodeBE_div _ bs
    have hrest : encodeBE bs.length (decodeBE acc (b :: bs)) = bs := ih _
    have hb : UInt8.ofNat (acc * 256 + b.toNat) = b := by
      apply UInt8.toNat.inj
      have hlt := b.toNat_lt
      rw [UInt8.toNat_ofNat']
      omega
    rw [List.length_cons, encodeBE, hdiv, hrest, hb]

end Lib.Bytes
