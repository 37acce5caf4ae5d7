import Mathlib.Data.List.TakeDrop

/-!
# Scanning a stream

A scanner takes a piece of the front of a stream, discards an element or waits for more. Where its
verdicts do not change as more arrives, what it takes does not depend on how the stream was cut.
-/

namespace Lib

open List

inductive Verdict where
  | wait
  | discard
  | take (n : Nat)

structure Scanner (α : Type) where
  window : Nat
  verdict : List α → Verdict
  /-- A verdict stands, whatever comes behind what it was given on. -/
  stable : ∀ {front more : List α}, front ≠ [] → (front ++ more).length ≤ window →
    verdict front ≠ .wait → verdict (front ++ more) = verdict front
  /-- A full window is no reason to wait. -/
  wait_lt : ∀ {front : List α}, front.length ≤ window → verdict front = .wait →
    front.length < window
  take_pos : ∀ {front : List α} {n : Nat}, verdict front = .take n → 0 < n
  take_le : ∀ {front : List α} {n : Nat}, verdict front = .take n → n ≤ front.length

namespace Scanner

variable {α : Type} (s : Scanner α)

theorem length_sub_lt {stream : List α} {n : Nat} (hne : stream ≠ [])
    (h : s.verdict (stream.take s.window) = .take n) : stream.length - n < stream.length :=
  Nat.sub_lt (length_pos_iff.mpr hne) (s.take_pos h)

theorem length_pred_lt {stream : List α} (hne : stream ≠ []) :
    stream.length - 1 < stream.length :=
  Nat.sub_lt (length_pos_iff.mpr hne) Nat.one_pos

/-- What is taken from a stream, piece by piece, and what is left at its end. -/
def scan (stream : List α) : List (List α) × List α :=
  if hne : stream = [] then ([], [])
  else
    match h : s.verdict (stream.take s.window) with
    | .wait => ([], stream)
    | .discard =>
      have := length_pred_lt hne
      scan stream.tail
    | .take n =>
      have := s.length_sub_lt hne h
      (stream.take n :: (scan (stream.drop n)).1, (scan (stream.drop n)).2)
  termination_by stream.length

variable {s} {stream more : List α}

@[simp] theorem scan_nil : s.scan [] = ([], []) := by
  rw [scan, dif_pos rfl]

theorem scan_of_wait (h : s.verdict (stream.take s.window) = .wait) :
    s.scan stream = ([], stream) := by
  by_cases hne : stream = []
  · rw [hne, scan_nil]
  · rw [scan, dif_neg hne]
    split <;> simp_all

theorem scan_of_discard (hne : stream ≠ [])
    (h : s.verdict (stream.take s.window) = .discard) : s.scan stream = s.scan stream.tail := by
  rw [scan, dif_neg hne]
  split <;> simp_all

theorem scan_of_take {n : Nat} (hne : stream ≠ [])
    (h : s.verdict (stream.take s.window) = .take n) :
    s.scan stream = (stream.take n :: (s.scan (stream.drop n)).1, (s.scan (stream.drop n)).2) := by
  rw [scan, dif_neg hne]
  split <;> simp_all

theorem verdict_append (hwin : 0 < s.window) (hne : stream ≠ [])
    (h : s.verdict (stream.take s.window) ≠ .wait) :
    s.verdict ((stream ++ more).take s.window) = s.verdict (stream.take s.window) := by
  have hfront : stream.take s.window ≠ [] := by
    rw [Ne, take_eq_nil_iff]
    exact fun h => h.elim (Nat.ne_of_gt hwin) hne
  rw [take_append]
  refine s.stable hfront ?_ h
  simp only [length_append, length_take]
  omega

/-- A stream may be cut in two: what is left of the first part goes in front of the second. -/
theorem scan_append (hwin : 0 < s.window) :
    s.scan (stream ++ more) = ((s.scan stream).1 ++ (s.scan ((s.scan stream).2 ++ more)).1,
      (s.scan ((s.scan stream).2 ++ more)).2) := by
  fun_induction s.scan stream with
  | case1 => simp
  | case2 stream hne h => simp
  | case3 stream hne h hlt ih =>
    have h' : s.verdict ((stream ++ more).take s.window) = .discard := by
      rw [verdict_append hwin hne (by simp [h]), h]
    rw [scan_of_discard (by simp [hne]) h', tail_append_of_ne_nil hne]
    exact ih
  | case4 stream hne n h hlt ih =>
    have h' : s.verdict ((stream ++ more).take s.window) = .take n := by
      rw [verdict_append hwin hne (by simp [h]), h]
    have hle : n ≤ stream.length := Nat.le_trans (s.take_le h) (length_take_le' ..)
    rw [scan_of_take (by simp [hne]) h', take_append_of_le_length hle,
      drop_append_of_le_length hle, ih]
    simp

theorem rest_spec (hwin : 0 < s.window) :
    (s.scan stream).2.length < s.window ∧ s.scan (s.scan stream).2 = ([], (s.scan stream).2) := by
  fun_induction s.scan stream with
  | case1 => exact ⟨hwin, scan_nil⟩
  | case2 stream hne h =>
    have hlt := s.wait_lt (length_take_le _ _) h
    rw [length_take] at hlt
    exact ⟨by dsimp only; omega, scan_of_wait h⟩
  | case3 stream hne h hlt ih => exact ih
  | case4 stream hne n h hlt ih => exact ih

end Scanner

end Lib
