import Fprime.Fw.Packets

/-!
# Time

A time is a number of seconds and microseconds on a time base. The microseconds stay below a
million, which every constructor and setter of the source asserts.
-/

namespace Fprime.Fw

open Lib.Bytes UInt32

inductive TimeBase where
  | tbNone
  | tbProcTime
  | tbWorkstationTime
  | tbScTime
  | tbDontCare
  deriving DecidableEq

def TimeBase.tryFrom (raw : UInt16) : Option TimeBase :=
  if raw = 0 then some .tbNone
  else if raw = 1 then some .tbProcTime
  else if raw = 2 then some .tbWorkstationTime
  else if raw = 3 then some .tbScTime
  else if raw = 0xFFFF then some .tbDontCare
  else none

def TimeBase.asRepr : TimeBase → UInt16
  | tbNone => 0
  | tbProcTime => 1
  | tbWorkstationTime => 2
  | tbScTime => 3
  | tbDontCare => 0xFFFF

def deserializeTimeBase (buf : Bytes) : Except SerializeStatus (TimeBase × Bytes) := do
  let (raw, buf) ← deserializeU16 buf
  match TimeBase.tryFrom raw with
  | some base => return (base, buf)
  | none => throw .deserFormatError

inductive TimeComparison where
  | lt
  | eq
  | gt
  | incomparable
  deriving DecidableEq

structure Time where
  timeBase : TimeBase
  timeContext : UInt8
  seconds : UInt32
  useconds : UInt32
  valid : useconds < 1000000
  deriving DecidableEq

namespace Time

def zero : Time :=
  ⟨.tbNone, 0, 0, 0, by decide⟩

def serializedSize : Nat := 11

variable (t : Time)

def serialized : Bytes :=
  encodeBE 2 t.timeBase.asRepr.toNat ++ t.timeContext :: encodeBE 4 t.seconds.toNat ++
    encodeBE 4 t.useconds.toNat

/-- Times on different bases do not compare; the context is not looked at. -/
def compare (a b : Time) : TimeComparison :=
  if a.timeBase ≠ b.timeBase then .incomparable
  else if a.seconds < b.seconds then .lt
  else if b.seconds < a.seconds then .gt
  else if a.useconds < b.useconds then .lt
  else if b.useconds < a.useconds then .gt
  else .eq

theorem zero_valid : (0 : UInt32) < 1000000 := by decide

theorem carry_valid {a b : UInt32} (ha : a < 1000000) (hb : b < 1000000)
    (h : a + b ≥ 1000000) : a + b - 1000000 < 1000000 := by
  simp only [ge_iff_le, UInt32.le_iff_toNat_le, UInt32.lt_iff_toNat_lt] at *
  have hsum : (a + b).toNat = a.toNat + b.toNat := by
    rw [UInt32.toNat_add]
    exact Nat.mod_eq_of_lt (by simp at ha hb; omega)
  rw [UInt32.toNat_sub_of_le _ _ (UInt32.le_iff_toNat_le.mpr h)]
  simp at *
  omega

/-- The seconds wrap, as in a release build; the microseconds stay below the bound that the source
asserts. -/
def addDuration (seconds useconds : UInt32) (valid : useconds < 1000000) : Time :=
  let newSeconds := t.seconds + seconds
  let newUseconds := t.useconds + useconds
  if h : newUseconds ≥ 1000000 then
    { t with seconds := newSeconds + 1, useconds := newUseconds - 1000000,
             valid := carry_valid t.valid valid h }
  else { t with seconds := newSeconds, useconds := newUseconds, valid := UInt32.not_le.mp h }

/-- Adding times on different bases fails an assertion. -/
def add (a b : Time) : Except Unit Time :=
  if a.timeBase = b.timeBase then
    .ok { a.addDuration b.seconds b.useconds b.valid with
      timeContext := if a.timeContext = b.timeContext then a.timeContext else 0 }
  else .error ()

def micros : Nat :=
  t.seconds.toNat * 1000000 + t.useconds.toNat

theorem useconds_toNat_lt : t.useconds.toNat < 1000000 :=
  lt_iff_toNat_lt.mp t.valid

theorem compare_of_base {a b : Time} (h : a.timeBase = b.timeBase) :
    compare a b = if a.micros < b.micros then .lt
      else if b.micros < a.micros then .gt else .eq := by
  have ha := a.useconds_toNat_lt
  have hb := b.useconds_toNat_lt
  unfold compare micros
  simp only [h, ne_eq, not_true_eq_false, if_false, lt_iff_toNat_lt]
  split_ifs <;> first | rfl | omega

theorem compare_ne_gt {a b : Time} (h : a.timeBase = b.timeBase) :
    compare a b ≠ .gt ↔ a.micros ≤ b.micros := by
  rw [compare_of_base h]
  split_ifs <;> simp <;> omega

theorem compare_ge {a b : Time} (h : a.timeBase = b.timeBase) :
    compare a b = .gt ∨ compare a b = .eq ↔ b.micros ≤ a.micros := by
  rw [compare_of_base h]
  split_ifs <;> simp <;> omega

@[simp] theorem addDuration_timeBase (seconds useconds : UInt32)
    (valid : useconds < 1000000) :
    (t.addDuration seconds useconds valid).timeBase = t.timeBase := by
  unfold addDuration
  dsimp only
  split <;> rfl

theorem micros_addDuration {t d : Time} (h : t.micros + d.micros < 2 ^ 32 * 1000000) :
    (t.addDuration d.seconds d.useconds d.valid).micros = t.micros + d.micros := by
  have ht := t.useconds_toNat_lt
  have hd := d.useconds_toNat_lt
  have hsum : (t.useconds + d.useconds).toNat = t.useconds.toNat + d.useconds.toNat := by
    rw [UInt32.toNat_add]
    exact Nat.mod_eq_of_lt (by omega)
  unfold micros at h
  have hsec : (t.seconds + d.seconds).toNat = t.seconds.toNat + d.seconds.toNat := by
    rw [UInt32.toNat_add]
    exact Nat.mod_eq_of_lt (by omega)
  unfold addDuration micros
  dsimp only
  split
  · rename_i hc
    have hcarry : 1000000 ≤ t.useconds.toNat + d.useconds.toNat := by
      rw [← hsum]
      exact le_iff_toNat_le.mp hc
    have hone : (t.seconds + d.seconds + 1).toNat = t.seconds.toNat + d.seconds.toNat + 1 := by
      rw [UInt32.toNat_add, hsec]
      exact Nat.mod_eq_of_lt (by simp; omega)
    rw [hone, UInt32.toNat_sub_of_le _ _ hc, hsum]
    simp only [reduceToNat]
    omega
  · rw [hsec, hsum]
    ring

end Time

end Fprime.Fw
