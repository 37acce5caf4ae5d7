import Mathlib.Logic.Function.Iterate

/-!
# Shift registers

A register that moves down by one bit and takes a polynomial in when a one drops out. Bits are fed in
at the lower end.
-/

namespace Lib.ShiftRegister

open Function BitVec

variable {w : Nat} (p : BitVec w)

def shift (x : BitVec w) : BitVec w :=
  if x.getLsbD 0 then (x >>> 1) ^^^ p else x >>> 1

/-- Feed bits in, one at a time. -/
def feed (x : BitVec w) (bits : List Bool) : BitVec w :=
  bits.foldl (fun x b => shift p (x ^^^ (ofBool b).setWidth w)) x

/-- The bits as a number, the first one the lowest. -/
def word (w : Nat) : List Bool → BitVec w
  | [] => 0#w
  | b :: bits => (ofBool b).setWidth w ^^^ (word w bits <<< 1)

theorem shift_xor (x y : BitVec w) : shift p (x ^^^ y) = shift p x ^^^ shift p y := by
  have hcancel : (x >>> 1) ^^^ (y >>> 1) = ((x >>> 1) ^^^ p) ^^^ ((y >>> 1) ^^^ p) := by
    rw [BitVec.xor_assoc, BitVec.xor_comm _ p, ← BitVec.xor_assoc p, BitVec.xor_self,
      BitVec.zero_xor]
  unfold shift
  rw [getLsbD_xor, ushiftRight_xor_distrib]
  cases x.getLsbD 0 <;> cases y.getLsbD 0
  · rfl
  · exact BitVec.xor_assoc ..
  · show (x >>> 1) ^^^ (y >>> 1) ^^^ p = (x >>> 1) ^^^ p ^^^ (y >>> 1)
    ac_rfl
  · exact hcancel

/-- The bit that drops out is the highest one afterwards, so that nothing is lost. -/
theorem shift_injective (hp : p.msb = true) : Injective (shift p) := by
  have htop : ∀ x : BitVec w, (shift p x).msb = x.getLsbD 0 := by
    intro x
    unfold shift
    cases x.getLsbD 0 <;> simp [hp]
  intro x y h
  have hlow : x.getLsbD 0 = y.getLsbD 0 := by rw [← htop, ← htop, h]
  have hrest : x >>> 1 = y >>> 1 := by
    unfold shift at h
    rw [hlow] at h
    cases hy : y.getLsbD 0
    · simpa [hy] using h
    · simpa [hy] using h
  apply eq_of_getLsbD_eq
  intro i hi
  cases i with
  | zero => exact hlow
  | succ i =>
    have hbit := congrArg (fun z => z.getLsbD i) hrest
    simpa [Nat.add_comm] using hbit

theorem shift_shiftLeft {y : BitVec w} (hy : y.msb = false) : shift p (y <<< 1) = y := by
  have hlow : (y <<< 1).getLsbD 0 = false := by simp
  rw [shift, hlow]
  apply eq_of_getLsbD_eq
  intro i hi
  have hlast : i + 1 = w → y.getLsbD i = false := by
    intro h
    rw [msb_eq_getLsbD_last] at hy
    rwa [show i = w - 1 by omega]
  by_cases h : i + 1 < w
  · simp [h, Nat.add_comm 1 i, getLsbD_eq_getElem hi]
  · simp [hlast (by omega), h, Nat.add_comm 1 i]

theorem getLsbD_word (bits : List Bool) (i : Nat) :
    (word w bits).getLsbD i = (decide (i < w) && bits.getD i false) := by
  induction bits generalizing i with
  | nil => simp [word]
  | cons b bits ih =>
    cases i with
    | zero => simp [word]
    | succ i =>
      by_cases hi : i + 1 < w
      · have hbit := ih i
        simp [word, hi, Nat.lt_of_succ_lt hi] at hbit ⊢
        exact hbit
      · simp [word, hi]

theorem feed_eq (x : BitVec w) {bits : List Bool} (h : bits.length ≤ w) :
    feed p x bits = (shift p)^[bits.length] (x ^^^ word w bits) := by
  induction bits generalizing x with
  | nil => simp [feed, word]
  | cons b bits ih =>
    have hclear : (word w bits).msb = false := by
      rw [List.length_cons] at h
      rw [msb_eq_getLsbD_last, getLsbD_word, List.getD_eq_getElem?_getD,
        List.getElem?_eq_none (by omega), Option.getD_none, Bool.and_false]
    have hstep : shift p (x ^^^ word w (b :: bits)) =
        shift p (x ^^^ (ofBool b).setWidth w) ^^^ word w bits := by
      rw [word, ← BitVec.xor_assoc, shift_xor, shift_shiftLeft p hclear]
    rw [List.length_cons, iterate_succ_apply, hstep, ← ih _ (Nat.le_of_succ_le h)]
    rfl

theorem iterate_xor (n : Nat) (x y : BitVec w) :
    (shift p)^[n] (x ^^^ y) = (shift p)^[n] x ^^^ (shift p)^[n] y := by
  induction n generalizing x y with
  | zero => rfl
  | succ n ih => rw [iterate_succ_apply, shift_xor, ih, iterate_succ_apply, iterate_succ_apply]

theorem iterate_shiftLeft {n : Nat} {y : BitVec w} (hy : ∀ i, w ≤ i + n → y.getLsbD i = false) :
    (shift p)^[n] (y <<< n) = y := by
  induction n with
  | zero => exact BitVec.shiftLeft_zero y
  | succ n ih =>
    have hclear : (y <<< n).msb = false := by
      rw [msb_eq_getLsbD_last, getLsbD_shiftLeft]
      simp [hy (w - 1 - n) (by omega)]
    rw [iterate_succ_apply, shiftLeft_add, shift_shiftLeft p hclear, ih fun i hi => hy i (by omega)]

theorem feed_append (x : BitVec w) (bits more : List Bool) :
    feed p x (bits ++ more) = feed p (feed p x bits) more :=
  List.foldl_append

variable {p}

theorem xor_cancel {x y z : BitVec w} (h : x ^^^ z = y ^^^ z) : x = y := by
  have hz := congrArg (· ^^^ z) h
  simpa [BitVec.xor_assoc] using hz

theorem feed_injective (hp : p.msb = true) (bits : List Bool) :
    Injective fun x => feed p x bits := by
  induction bits with
  | nil => exact fun x y h => h
  | cons b bits ih =>
    intro x y h
    exact xor_cancel (shift_injective p hp (ih h))

/-- The two differ inside a window of `w` bits. -/
def Burst (w : Nat) (a b : List Bool) : Prop :=
  ∃ front u v back, a = front ++ u ++ back ∧ b = front ++ v ++ back ∧
    u.length = v.length ∧ u.length ≤ w ∧ u ≠ v

/-- A burst no wider than the register leaves it different. -/
theorem feed_ne (hp : p.msb = true) (x : BitVec w) {a b : List Bool} (h : Burst w a b) :
    feed p x a ≠ feed p x b := by
  obtain ⟨front, u, v, back, rfl, rfl, hlen, hw, hne⟩ := h
  intro h
  rw [feed_append, feed_append, feed_append, feed_append] at h
  have hsame := feed_injective hp back h
  generalize feed p x front = y at hsame
  rw [feed_eq p _ hw, feed_eq p _ (hlen ▸ hw), ← hlen] at hsame
  have hword : word w u = word w v := by
    have hstart := (shift_injective p hp).iterate u.length hsame
    rw [BitVec.xor_comm, BitVec.xor_comm _ (word w v)] at hstart
    exact xor_cancel hstart
  refine hne (List.ext_getElem hlen fun i hu hv => ?_)
  have hbit := congrArg (fun z => z.getLsbD i) hword
  simp only [getLsbD_word, List.getD_eq_getElem?_getD, List.getElem?_eq_getElem hu,
    List.getElem?_eq_getElem hv, decide_eq_true (Nat.lt_of_lt_of_le hu hw)] at hbit
  exact hbit

end Lib.ShiftRegister
