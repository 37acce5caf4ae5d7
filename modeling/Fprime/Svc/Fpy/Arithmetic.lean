import Fprime.Svc.Fpy.Stack
import Mathlib.Tactic.Linarith

/-!
# Integer arithmetic of sequences

The operations on signed 64-bit integers. They decide by case on the signs whether the result fits,
with machine arithmetic that must not leave the range itself.
-/

namespace Fprime.Svc.Fpy

open Lib.Bytes Stack Int

def i64Min : Int := -2 ^ 63
def i64Max : Int := 2 ^ 63 - 1

def InRange (z : Int) : Prop :=
  i64Min ≤ z ∧ z ≤ i64Max
  deriving Decidable

def i64 (z : Int) : Except Fault Int :=
  if InRange z then .ok z else .error .arithmetic

def div (x y : Int) : Except Fault Int :=
  if y = 0 then .error .arithmetic else i64 (x.tdiv y)

def rem (x y : Int) : Except Fault Int :=
  if y = 0 ∨ x = i64Min ∧ y = -1 then .error .arithmetic else .ok (x.tmod y)

/-- The second condition is computed only where the first one holds. -/
def andThen (c : Prop) [Decidable c] (d : Except Fault Bool) : Except Fault Bool :=
  if c then d else .ok false

def orElse (c : Bool) (d : Except Fault Bool) : Except Fault Bool :=
  if c then .ok true else d

abbrev Outcome := Except DirectiveError Int

def binary (f : Int → Int → Except Fault Outcome) (s : Stack) :
    Except Fault (DirectiveError × Stack) :=
  if s.size < 16 then .ok (.stackUnderflow, s)
  else do
    let (rhs, s) ← s.popI64
    let (lhs, s) ← s.popI64
    match ← f lhs rhs with
    | .error e => return (e, s)
    | .ok z => return (.noError, ← s.pushI64 z)

def add (lhs rhs : Int) : Except Fault Outcome := do
  if ← andThen (rhs > 0 ∧ lhs > 0) (return (← i64 (i64Max - rhs)) < lhs) then
    return .error .arithmeticOverflow
  else if ← andThen (rhs < 0 ∧ lhs < 0) (return (← i64 (i64Min - rhs)) > lhs) then
    return .error .arithmeticUnderflow
  else return .ok (← i64 (lhs + rhs))

def sub (lhs rhs : Int) : Except Fault Outcome := do
  if ← andThen (rhs < 0 ∧ lhs > 0) (return (← i64 (i64Max + rhs)) < lhs) then
    return .error .arithmeticOverflow
  else if ← andThen (rhs > 0 ∧ lhs < 0) (return (← i64 (i64Min + rhs)) > lhs) then
    return .error .arithmeticUnderflow
  else return .ok (← i64 (lhs - rhs))

def mul (lhs rhs : Int) : Except Fault Outcome := do
  let overflow ← orElse (← andThen (rhs > 0 ∧ lhs > 0) (return (← div i64Max rhs) < lhs))
    (andThen (rhs < 0 ∧ lhs < 0) (return lhs < (← div i64Max rhs)))
  if overflow then return .error .arithmeticOverflow
  else
    let underflow ← orElse (← andThen (rhs < 0 ∧ lhs > 0) (return (← div i64Min lhs) > rhs))
      (andThen (rhs > 0 ∧ lhs < 0) (return (← div i64Min rhs) > lhs))
    if underflow then return .error .arithmeticUnderflow
    else return .ok (← i64 (lhs * rhs))

def sdiv (lhs rhs : Int) : Except Fault Outcome := do
  if rhs = 0 then return .error .domainError
  else if lhs = i64Min ∧ rhs = -1 then return .error .arithmeticOverflow
  else
    let quotient ← div lhs rhs
    if ← andThen ((← rem lhs rhs) ≠ 0) (return decide (lhs < 0) != decide (rhs < 0)) then
      return .ok (← i64 (quotient - 1))
    else return .ok quotient

def opAdd := binary add
def opSub := binary sub
def opMul := binary mul
def opSdiv := binary sdiv

/-- The divisor is checked before the other operand is popped. -/
def opSmod (s : Stack) : Except Fault (DirectiveError × Stack) :=
  if s.size < 16 then .ok (.stackUnderflow, s)
  else do
    let (rhs, s) ← s.popI64
    if rhs = 0 then return (.domainError, s)
    else
      let (lhs, s) ← s.popI64
      if lhs = i64Min ∧ rhs = -1 then return (.noError, ← s.pushI64 0)
      else
        let res ← rem lhs rhs
        if res > 0 ∧ rhs < 0 ∨ res < 0 ∧ rhs > 0 then
          return (.noError, ← s.pushI64 (← i64 (res + rhs)))
        else return (.noError, ← s.pushI64 res)

def opIabs (s : Stack) : Except Fault (DirectiveError × Stack) :=
  if s.size < 8 then .ok (.stackUnderflow, s)
  else do
    let (value, s) ← s.popI64
    if value = i64Min then return (.arithmeticOverflow, s)
    else return (.noError, ← s.pushI64 (← i64 |value|))

/-- The exact result where it fits, and the error that says on which side it does not. -/
def fit (z : Int) : Outcome :=
  if i64Max < z then .error .arithmeticOverflow
  else if z < i64Min then .error .arithmeticUnderflow
  else .ok z

inductive BinaryOp where
  | add | sub | mul | sdiv | smod
  deriving DecidableEq

namespace BinaryOp

def run : BinaryOp → Stack → Except Fault (DirectiveError × Stack)
  | add => opAdd
  | sub => opSub
  | mul => opMul
  | sdiv => opSdiv
  | smod => opSmod

/-- The quotient is rounded down, and the remainder has the sign of the divisor. -/
def exact (lhs rhs : Int) : BinaryOp → Outcome
  | add => fit (lhs + rhs)
  | sub => fit (lhs - rhs)
  | mul => fit (lhs * rhs)
  | sdiv =>
    if rhs = 0 then .error .domainError
    else if lhs = i64Min ∧ rhs = -1 then .error .arithmeticOverflow
    else .ok (lhs.fdiv rhs)
  | smod => if rhs = 0 then .error .domainError else .ok (lhs.fmod rhs)

end BinaryOp

def Ends (rest : Bytes) (outcome : Outcome) (r : Except Fault (DirectiveError × Stack)) :
    Prop :=
  ∃ e s, r = .ok (e, s) ∧ match outcome with
    | .error error => e = error
    | .ok z => e = .noError ∧ s.content = rest ++ encodeBE 8 (ofI64 z)

variable {x y z : Int} {rest : Bytes} {s : Stack}

theorem i64_eq_ok (h : InRange z) : i64 z = .ok z := if_pos h

theorem andThen_eq {c : Prop} [Decidable c] {m : Except Fault Int} {d : Int} (p : Int → Prop)
    [DecidablePred p] (h : c → m = .ok d) :
    andThen c (m >>= fun a => pure (decide (p a))) = .ok (decide (c ∧ p d)) := by
  by_cases hc : c
  · rw [andThen, if_pos hc, h hc, decide_eq_decide.mpr (and_iff_right hc)]
    rfl
  · rw [andThen, if_neg hc, decide_eq_false fun h => hc h.1]

theorem orElse_eq (c d : Prop) [Decidable c] [Decidable d] :
    orElse (decide c) (.ok (decide d)) = .ok (decide (c ∨ d)) := by
  by_cases hc : c <;> simp [orElse, hc]

theorem checks_eq {high low : Prop} [Decidable high] [Decidable low]
    (hover : high ↔ i64Max < z) (hunder : low ↔ z < i64Min) :
    (if decide high = true then (pure (.error .arithmeticOverflow) : Except Fault Outcome)
      else if decide low = true then pure (.error .arithmeticUnderflow)
      else do return .ok (← i64 z)) = .ok (fit z) := by
  simp only [decide_eq_true_eq, hover, hunder, fit]
  split
  · rfl
  split
  · rfl
  rw [i64_eq_ok ⟨by omega, by omega⟩]
  rfl

theorem add_eq (hx : InRange x) (hy : InRange y) : add x y = .ok (fit (x + y)) := by
  unfold InRange i64Min i64Max at hx hy
  rw [add, andThen_eq (· < x) fun h => i64_eq_ok (by unfold InRange i64Min i64Max; omega),
    andThen_eq (· > x) fun h => i64_eq_ok (by unfold InRange i64Min i64Max; omega)]
  exact checks_eq (by unfold i64Max; omega) (by unfold i64Min; omega)

/-- The check for overflow leaves out zero minus the least number. -/
theorem sub_eq_iff (hx : InRange x) (hy : InRange y) :
    sub x y = .ok (fit (x - y)) ↔ ¬(x = 0 ∧ y = i64Min) := by
  constructor
  · rintro h ⟨rfl, rfl⟩
    cases h
  · intro hne
    unfold InRange i64Min i64Max at hx hy
    unfold i64Min at hne
    rw [sub, andThen_eq (· < x) fun h => i64_eq_ok (by unfold InRange i64Min i64Max; omega),
      andThen_eq (· > x) fun h => i64_eq_ok (by unfold InRange i64Min i64Max; omega)]
    exact checks_eq (by unfold i64Max; omega) (by unfold i64Min; omega)

theorem natAbs_tdiv_le_half (hy : y ≠ 0) (hone : y.natAbs ≠ 1) :
    (x.tdiv y).natAbs ≤ x.natAbs / 2 := by
  rw [natAbs_tdiv]
  exact Nat.div_le_div_left (by omega) (by decide)

theorem tdiv_inRange (hx : InRange x) (hy : y ≠ 0) (hne : ¬(x = i64Min ∧ y = -1)) :
    InRange (x.tdiv y) := by
  unfold InRange i64Min i64Max at *
  by_cases hone : y.natAbs = 1
  · rcases natAbs_eq y with h | h
    · rw [h, hone, show x.tdiv ((1 : Nat) : Int) = x from Int.tdiv_one x]
      exact hx
    · rw [h, hone, show x.tdiv (-((1 : Nat) : Int)) = -x by rw [Int.tdiv_neg]; simp]
      omega
  · have hhalf := @natAbs_tdiv_le_half x y hy hone
    omega

theorem div_eq_ok (hx : InRange x) (hy : y ≠ 0) (hne : ¬(x = i64Min ∧ y = -1)) :
    div x y = .ok (x.tdiv y) := by
  rw [div, if_neg hy, i64_eq_ok (tdiv_inRange hx hy hne)]

theorem inRange_max : InRange i64Max := by decide

theorem inRange_min : InRange i64Min := by decide

theorem tdiv_lt_iff {bound : Int} (hbound : 0 ≤ bound) (hy : 0 < y) :
    bound.tdiv y < x ↔ bound < x * y := by
  rw [Int.tdiv_eq_ediv_of_nonneg hbound, Int.ediv_lt_iff_lt_mul hy]

theorem mul_overflow_iff :
    (y > 0 ∧ x > 0) ∧ i64Max.tdiv y < x ∨ (y < 0 ∧ x < 0) ∧ x < i64Max.tdiv y ↔
      i64Max < x * y := by
  have hmax : 0 ≤ i64Max := by decide
  constructor
  · rintro (⟨⟨hy, -⟩, h⟩ | ⟨⟨hy, -⟩, h⟩)
    · exact (tdiv_lt_iff hmax hy).mp h
    · have hneg : i64Max.tdiv (-y) < -x := by
        rw [Int.tdiv_neg]
        omega
      have := (tdiv_lt_iff hmax (neg_pos_of_neg hy)).mp hneg
      rwa [neg_mul_neg] at this
  · intro h
    rcases lt_trichotomy y 0 with hy | rfl | hy
    · have hx : x < 0 := by
        by_contra hx
        have := mul_nonpos_of_nonneg_of_nonpos (not_lt.mp hx) hy.le
        omega
      have := (tdiv_lt_iff hmax (neg_pos_of_neg hy)).mpr (by rwa [neg_mul_neg])
      rw [Int.tdiv_neg] at this
      exact .inr ⟨⟨hy, hx⟩, by omega⟩
    · omega
    · have hx : x > 0 := by
        by_contra hx
        have := mul_nonpos_of_nonpos_of_nonneg (not_lt.mp hx) hy.le
        omega
      exact .inl ⟨⟨hy, hx⟩, (tdiv_lt_iff hmax hy).mpr h⟩

theorem min_tdiv_gt_iff (hx : 0 < x) : i64Min.tdiv x > y ↔ x * y < i64Min := by
  have h := @tdiv_lt_iff (-y) x (2 ^ 63) (by decide) hx
  have hmin : i64Min.tdiv x = -(2 ^ 63 : Int).tdiv x := Int.neg_tdiv _ _
  rw [neg_mul, mul_comm] at h
  rw [hmin]
  unfold i64Min
  omega

theorem mul_underflow_iff :
    (y < 0 ∧ x > 0) ∧ i64Min.tdiv x > y ∨ (y > 0 ∧ x < 0) ∧ i64Min.tdiv y > x ↔
      x * y < i64Min := by
  have hmin : i64Min < 0 := by decide
  constructor
  · rintro (⟨⟨-, hx⟩, h⟩ | ⟨⟨hy, -⟩, h⟩)
    · exact (min_tdiv_gt_iff hx).mp h
    · rw [mul_comm]
      exact (min_tdiv_gt_iff hy).mp h
  · intro h
    rcases lt_trichotomy y 0 with hy | rfl | hy
    · have hx : x > 0 := by
        by_contra hx
        have := mul_nonneg_of_nonpos_of_nonpos (not_lt.mp hx) hy.le
        omega
      exact .inl ⟨⟨hy, hx⟩, (min_tdiv_gt_iff hx).mpr h⟩
    · omega
    · have hx : x < 0 := by
        by_contra hx
        have := mul_nonneg (not_lt.mp hx) hy.le
        omega
      exact .inr ⟨⟨hy, hx⟩, (min_tdiv_gt_iff hy).mpr (by rwa [mul_comm])⟩

theorem mul_eq (x y : Int) : mul x y = .ok (fit (x * y)) := by
  have hmax : i64Max ≠ i64Min := by decide
  rw [mul, andThen_eq (· < x) fun h => div_eq_ok inRange_max (by omega) fun h => hmax h.1,
    andThen_eq (x < ·) fun h => div_eq_ok inRange_max (by omega) fun h => hmax h.1,
    andThen_eq (· > y) fun h => div_eq_ok inRange_min (by omega) fun h' => by omega,
    andThen_eq (· > x) fun h => div_eq_ok inRange_min (by omega) fun h' => by omega]
  dsimp only [bind, Except.bind]
  rw [orElse_eq, orElse_eq]
  exact checks_eq mul_overflow_iff mul_underflow_iff

theorem rem_eq_ok (hy : y ≠ 0) (hne : ¬(x = i64Min ∧ y = -1)) : rem x y = .ok (x.tmod y) :=
  if_neg (not_or.mpr ⟨hy, hne⟩)

theorem sdiv_eq (hx : InRange x) : sdiv x y = .ok (BinaryOp.sdiv.exact x y) := by
  by_cases hy : y = 0
  · rw [sdiv, BinaryOp.exact, if_pos hy, if_pos hy]
    rfl
  by_cases hmin : x = i64Min ∧ y = -1
  · rw [sdiv, BinaryOp.exact, if_neg hy, if_neg hy, if_pos hmin, if_pos hmin]
    rfl
  have hrange := tdiv_inRange hx hy hmin
  rw [sdiv, BinaryOp.exact, if_neg hy, if_neg hy, if_neg hmin, if_neg hmin, div_eq_ok hx hy hmin,
    rem_eq_ok hy hmin]
  dsimp only [bind, Except.bind, pure, Except.pure, andThen]
  rw [fdiv_eq_tdiv]
  by_cases hdvd : y ∣ x
  · rw [if_pos hdvd, if_neg (not_not.mpr (tmod_eq_zero_of_dvd hdvd))]
    simp
  rw [if_neg hdvd, if_pos (mt dvd_of_tmod_eq_zero hdvd)]
  have hless : InRange (x.tdiv y - 1) := by
    have hone : y.natAbs ≠ 1 := fun h => hdvd (natAbs_dvd.mp (h ▸ one_dvd x))
    have hhalf := @natAbs_tdiv_le_half x y hy hone
    unfold InRange i64Min i64Max at *
    omega
  rw [i64_eq_ok hless]
  rcases Int.lt_or_le x 0 with hx0 | hx0 <;> rcases Int.lt_or_le y 0 with hy0 | hy0
  · simp [hx0, hy0, not_le.mpr hx0, not_le.mpr hy0, sign_eq_neg_one_of_neg hy0]
  · have hpos : 0 < y := by omega
    simp [hx0, hy0, not_le.mpr hx0, not_lt.mpr hy0, sign_eq_one_of_pos hpos]
  · simp [hx0, hy0, not_lt.mpr hx0, not_le.mpr hy0]
  · simp [hx0, hy0, not_lt.mpr hx0, not_lt.mpr hy0]

theorem fmod_eq_ite (x y : Int) :
    x.fmod y = if x.tmod y > 0 ∧ y < 0 ∨ x.tmod y < 0 ∧ y > 0 then x.tmod y + y else x.tmod y := by
  rw [fmod_eq_tmod]
  by_cases hdvd : y ∣ x
  · rw [if_pos hdvd, tmod_eq_zero_of_dvd hdvd]
    simp
  have hne := mt dvd_of_tmod_eq_zero hdvd
  rw [if_neg hdvd]
  rcases Int.lt_or_le x 0 with hx0 | hx0
  · have hsign := tmod_nonneg y (neg_nonneg_of_nonpos hx0.le)
    rw [neg_tmod] at hsign
    split_ifs <;> omega
  · have hsign := tmod_nonneg y hx0
    split_ifs <;> omega

theorem tmod_inRange (hy : InRange y) (hne : y ≠ 0) : InRange (x.tmod y) := by
  have habs : (x.tmod y).natAbs < y.natAbs := by
    rw [natAbs_tmod]
    exact Nat.mod_lt _ (by omega)
  unfold InRange i64Min i64Max at *
  omega

theorem popI64_ok (h : s.content = rest ++ encodeBE 8 (ofI64 z)) (hz : InRange z) :
    ∃ s', s.popI64 = .ok (z, s') ∧ s'.content = rest :=
  popI64_eq h hz.1 (by unfold InRange i64Max at hz; omega)

theorem pushI64_ok (h : s.content = rest) (z : Int) (hroom : rest.length + 8 ≤ maxStackSize) :
    ∃ s', s.pushI64 z = .ok s' ∧ s'.content = rest ++ encodeBE 8 (ofI64 z) := by
  obtain ⟨s', hpush, hs', -⟩ := pushBytes_eq h (show rest.length + (encodeBE 8 (ofI64 z)).length ≤ _
    by rwa [encodeBE_length])
  exact ⟨s', hpush, hs'⟩

structure Operands (s : Stack) (rest : Bytes) (x y : Int) : Prop where
  content : s.content = rest ++ encodeBE 8 (ofI64 x) ++ encodeBE 8 (ofI64 y)
  lhs : InRange x
  rhs : InRange y

theorem Operands.size (h : Operands s rest x y) : s.size = rest.length + 16 := by
  rw [← length_content, h.content]
  simp

theorem Operands.pop (h : Operands s rest x y) : ∃ s1 s2, s.popI64 = .ok (y, s1) ∧
    s1.popI64 = .ok (x, s2) ∧ s2.content = rest := by
  obtain ⟨s1, hrhs, hs1⟩ := popI64_ok h.content h.rhs
  obtain ⟨s2, hlhs, hs2⟩ := popI64_ok hs1 h.lhs
  exact ⟨s1, s2, hrhs, hlhs, hs2⟩

theorem Operands.binary (h : Operands s rest x y) {f : Int → Int → Except Fault Outcome}
    {outcome : Outcome} (hf : f x y = .ok outcome) : Ends rest outcome (binary f s) := by
  have hsize := h.size
  have hle := s.size_le
  obtain ⟨s1, s2, hrhs, hlhs, hs2⟩ := h.pop
  rw [Fpy.binary, if_neg (by omega), hrhs]
  dsimp only [bind, Except.bind]
  rw [hlhs]
  dsimp only
  rw [hf]
  cases outcome with
  | error e => exact ⟨e, s2, rfl, rfl⟩
  | ok z =>
    obtain ⟨s3, hpush, hs3⟩ := pushI64_ok hs2 z (by omega)
    refine ⟨.noError, s3, ?_, rfl, hs3⟩
    dsimp only
    rw [hpush]
    rfl

theorem Operands.smod (h : Operands s rest x y) :
    Ends rest (BinaryOp.smod.exact x y) (opSmod s) := by
  have hsize := h.size
  have hle := s.size_le
  obtain ⟨s1, s2, hrhs, hlhs, hs2⟩ := h.pop
  rw [opSmod, if_neg (by omega), hrhs, BinaryOp.exact]
  dsimp only [bind, Except.bind]
  by_cases hy : y = 0
  · rw [if_pos hy, if_pos hy]
    exact ⟨_, _, rfl, rfl⟩
  obtain ⟨s3, hpush, hs3⟩ := pushI64_ok hs2 (x.fmod y) (by omega)
  rw [if_neg hy, if_neg hy, hlhs]
  dsimp only
  refine ⟨.noError, s3, ?_, rfl, hs3⟩
  by_cases hmin : x = i64Min ∧ y = -1
  · obtain ⟨rfl, rfl⟩ := hmin
    rw [if_pos ⟨rfl, rfl⟩, show (0 : Int) = i64Min.fmod (-1) by decide, hpush]
    rfl
  rw [if_neg hmin, rem_eq_ok hy hmin]
  rw [fmod_eq_ite] at hpush
  dsimp only
  split_ifs at hpush ⊢ with hsigns
  · have hrange := @tmod_inRange x y h.rhs hy
    have hrhs := h.rhs
    rw [i64_eq_ok (by unfold InRange i64Min i64Max at *; omega)]
    dsimp only
    rw [hpush]
    rfl
  · rw [hpush]
    rfl

theorem Operands.iabs (h : Operands s rest x y) :
    Ends (rest ++ encodeBE 8 (ofI64 x))
      (if y = i64Min then .error .arithmeticOverflow else .ok |y|) (opIabs s) := by
  have hsize := h.size
  have hle := s.size_le
  obtain ⟨s1, hpop, hs1⟩ := popI64_ok h.content h.rhs
  rw [opIabs, if_neg (show ¬s.size < 8 by omega), hpop]
  dsimp only [bind, Except.bind]
  by_cases hmin : y = i64Min
  · rw [if_pos hmin, if_pos hmin]
    exact ⟨_, _, rfl, rfl⟩
  · rw [if_neg hmin, if_neg hmin]
    obtain ⟨s2, hpush, hs2⟩ := pushI64_ok hs1 |y| (by
      rw [List.length_append, encodeBE_length]
      omega)
    have hrange : InRange |y| := by
      have hy := h.rhs
      unfold InRange i64Min i64Max at *
      rcases abs_cases y with ⟨habs, -⟩ | ⟨habs, -⟩ <;> omega
    refine ⟨.noError, s2, ?_, rfl, hs2⟩
    rw [i64_eq_ok hrange]
    dsimp only
    rw [hpush]
    rfl

theorem Operands.sub_fault (h : Operands s rest 0 i64Min) : opSub s = .error .arithmetic := by
  have hsize := h.size
  obtain ⟨s1, s2, hrhs, hlhs, hs2⟩ := h.pop
  rw [opSub, Fpy.binary, if_neg (by omega), hrhs]
  dsimp only [bind, Except.bind]
  rw [hlhs]
  rfl

/-- Each operation ends with its exact result or the error that says why there is none, except for
zero minus the least number. The quotient is rounded down. -/
theorem integer_arithmetic_exact_iff (h : Operands s rest x y) :
    (∀ op : BinaryOp, Ends rest (op.exact x y) (op.run s) ↔ ¬(op = .sub ∧ x = 0 ∧ y = i64Min)) ∧
      (y ≠ 0 → x = x.fdiv y * y + x.fmod y ∧ (0 < y → 0 ≤ x.fmod y ∧ x.fmod y < y) ∧
        (y < 0 → y < x.fmod y ∧ x.fmod y ≤ 0)) ∧
      Ends (rest ++ encodeBE 8 (ofI64 x))
        (if y = i64Min then .error .arithmeticOverflow else .ok |y|) (opIabs s) := by
  refine ⟨fun op => ?_, fun hy => ⟨?_, fun hpos => ?_, fun hneg => ?_⟩, h.iabs⟩
  · cases op with
    | add => exact iff_of_true (h.binary (add_eq h.lhs h.rhs)) (by simp)
    | sub =>
      constructor
      · rintro ⟨e, s', hok, -⟩ ⟨-, rfl, rfl⟩
        rw [show BinaryOp.sub.run s = opSub s from rfl, h.sub_fault] at hok
        cases hok
      · intro hne
        exact h.binary ((sub_eq_iff h.lhs h.rhs).mpr fun hxy => hne ⟨rfl, hxy⟩)
    | mul => exact iff_of_true (h.binary (mul_eq x y)) (by simp)
    | sdiv => exact iff_of_true (h.binary (sdiv_eq h.lhs)) (by simp)
    | smod => exact iff_of_true h.smod (by simp)
  · rw [mul_comm, mul_fdiv_add_fmod]
  · exact ⟨fmod_nonneg_of_pos x hpos, fmod_lt_of_pos x hpos⟩
  · have hpos : 0 < -y := neg_pos_of_neg hneg
    have hneg := Int.neg_fmod_neg (-x) (-y)
    have hge := fmod_nonneg_of_pos (-x) hpos
    have hlt := fmod_lt_of_pos (-x) hpos
    rw [neg_neg, neg_neg] at hneg
    omega

def holding (x y : Int) : Stack where
  bytes := encodeBE 8 (ofI64 x) ++ encodeBE 8 (ofI64 y) ++ List.replicate 65519 0
  size := 16
  currentFrameStart := 0
  length_eq := by
    rw [List.length_append, List.length_append, encodeBE_length, encodeBE_length,
      List.length_replicate]
    rfl
  size_le := by decide

theorem operands_holding (hx : InRange x) (hy : InRange y) : Operands (holding x y) [] x y :=
  ⟨List.take_left' (by rw [List.length_append, encodeBE_length, encodeBE_length]; rfl), hx, hy⟩

theorem integer_arithmetic_exact_floor :
    Operands (holding (-7) 2) [] (-7) 2 ∧ Ends [] (.ok (-4)) (opSdiv (holding (-7) 2)) ∧
      Ends [] (.ok 1) (opSmod (holding (-7) 2)) := by
  have h : Operands (holding (-7) 2) [] (-7) 2 := operands_holding (by decide) (by decide)
  obtain ⟨hops, -⟩ := integer_arithmetic_exact_iff h
  exact ⟨h, (hops .sdiv).mpr (by decide), (hops .smod).mpr (by decide)⟩

/-- The exact difference is too large, and the machine's subtraction is what fails. -/
theorem zero_minus_least_faults :
    Operands (holding 0 i64Min) [] 0 i64Min ∧
      BinaryOp.sub.exact 0 i64Min = .error .arithmeticOverflow ∧
      opSub (holding 0 i64Min) = .error .arithmetic := by
  have h : Operands (holding 0 i64Min) [] 0 i64Min := operands_holding (by decide) (by decide)
  exact ⟨h, rfl, h.sub_fault⟩

end Fprime.Svc.Fpy
