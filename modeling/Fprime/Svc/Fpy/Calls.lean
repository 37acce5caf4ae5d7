import Fprime.Svc.Fpy.Stack

/-!
# Calls and returns

A call saves the index of the next statement and the start of the frame above its arguments; however
calls are nested, each return undoes its call.
-/

namespace Fprime.Svc.Fpy

open Lib.Bytes Stack List Nat

/-- What calls and returns use of the state. The index may be behind the last statement. -/
structure FpyState where
  stack : Stack
  statementCount : UInt16
  nextStatementIndex : Nat
  index_le : nextStatementIndex ≤ statementCount.toNat

namespace FpyState

/-- Pop the target; save the index of the next statement and the frame; start a new frame. -/
def callDirectiveHandler (st : FpyState) : Except Fault (DirectiveError × FpyState) :=
  if st.stack.size < 4 then .ok (.stackUnderflow, st)
  else do
    let (target, stack) ← st.stack.popU32
    if stack.size + 4 + 4 > maxStackSize then return (.stackOverflow, { st with stack })
    else if h : target > st.statementCount.toNat then
      return (.stmtOutOfBounds, { st with stack })
    else
      let frame := stack.currentFrameStart
      let stack ← stack.pushU32 st.nextStatementIndex
      let stack ← stack.pushU32 frame
      return (.noError, { st with
        stack := { stack with currentFrameStart := stack.size }
        nextStatementIndex := target
        index_le := not_lt.mp h })

/-- Drop the frame, take back what the call has saved, drop the arguments, and move the value
down. -/
def returnDirectiveHandler (st : FpyState) (returnValSize callArgsSize : Nat) :
    Except Fault (DirectiveError × FpyState) :=
  let stack := st.stack
  if stack.size < returnValSize then .ok (.stackUnderflow, st)
  else
    let returnValOffset := stack.size - returnValSize
    if stack.currentFrameStart > stack.size then .ok (.frameStartOutOfBounds, st)
    else
      let stack := stack.truncate stack.currentFrameStart
      if stack.size < 4 + 4 then .ok (.stackUnderflow, { st with stack })
      else do
        let (savedFramePtr, stack) ← stack.popU32
        let (returnAddr, stack) ← stack.popU32
        if savedFramePtr > stack.size then return (.frameStartOutOfBounds, { st with stack })
        else
          let stack := { stack with currentFrameStart := savedFramePtr }
          if h : returnAddr > st.statementCount.toNat then
            return (.stmtOutOfBounds, { st with stack })
          else
            let st := { st with stack, nextStatementIndex := returnAddr, index_le := not_lt.mp h }
            if stack.size < callArgsSize then return (.stackUnderflow, st)
            else
              let stack := stack.truncate (stack.size - callArgsSize)
              if returnValSize > maxStackSize - stack.size then
                return (.stackOverflow, { st with stack })
              else
                -- the value still stands above the bytes in use
                let value := (stack.bytes.drop returnValOffset).take returnValSize
                if hroom : stack.size + value.length ≤ maxStackSize then
                  return (.noError, { st with stack := stack.place stack.size value hroom })
                else throw .bounds

variable {st st₁ st₂ : FpyState} {S A T V : Bytes}

theorem decodeBE_four {n : Nat} (h : n < 2 ^ 32) : decodeBE 0 (encodeBE 4 n) = n := by
  rw [decodeBE_encodeBE, zero_mul, zero_add]
  exact mod_eq_of_lt h

theorem call_ok (h : st.stack.content = S ++ T) (hT : T.length = 4)
    (hroom : S.length + 8 ≤ maxStackSize) (htarget : decodeBE 0 T ≤ st.statementCount.toNat) :
    ∃ st₁, st.callDirectiveHandler = .ok (.noError, st₁) ∧ st₁.stack.content =
        S ++ encodeBE 4 st.nextStatementIndex ++ encodeBE 4 st.stack.currentFrameStart ∧
      st₁.stack.currentFrameStart = S.length + 8 ∧ st₁.statementCount = st.statementCount := by
  have hsize : st.stack.size = S.length + 4 := by
    rw [← length_content, h, length_append, hT]
  obtain ⟨s1, hpop, hs1, -, hframe⟩ := popU32_eq h hT
  have hsize1 : s1.size = S.length := by rw [← length_content, hs1]
  obtain ⟨s2, hpush, hs2, -⟩ := @pushBytes_eq s1 S (encodeBE 4 st.nextStatementIndex) hs1
    (by rw [encodeBE_length]; omega)
  obtain ⟨s3, hpush', hs3, -⟩ := @pushBytes_eq s2 _ (encodeBE 4 s1.currentFrameStart) hs2
    (by rw [length_append, encodeBE_length, encodeBE_length]; omega)
  have hpush : s1.pushU32 st.nextStatementIndex = .ok s2 := hpush
  have hpush' : s2.pushU32 s1.currentFrameStart = .ok s3 := hpush'
  rw [callDirectiveHandler, if_neg (by omega), hpop]
  dsimp only [bind, Except.bind]
  rw [if_neg (by omega), dif_neg (by omega), hpush]
  dsimp only
  rw [hpush']
  refine ⟨_, rfl, hframe ▸ hs3, ?_, rfl⟩
  show s3.size = _
  rw [← length_content, hs3]
  simp

theorem call_spec (h : st.stack.content = S ++ T) (hT : T.length = 4)
    (hcall : st.callDirectiveHandler = .ok (.noError, st₁)) :
    st₁.stack.content =
        S ++ encodeBE 4 st.nextStatementIndex ++ encodeBE 4 st.stack.currentFrameStart ∧
      st₁.stack.currentFrameStart = S.length + 8 ∧ st₁.statementCount = st.statementCount := by
  have hsize : st.stack.size = S.length + 4 := by
    rw [← length_content, h, length_append, hT]
  obtain ⟨s1, hpop, hs1, -⟩ := popU32_eq h hT
  have hsize1 : s1.size = S.length := by rw [← length_content, hs1]
  have hchecks : S.length + 8 ≤ maxStackSize ∧ decodeBE 0 T ≤ st.statementCount.toNat := by
    rw [callDirectiveHandler, if_neg (by omega), hpop] at hcall
    dsimp only [bind, Except.bind] at hcall
    split at hcall
    · cases hcall
    split at hcall
    · cases hcall
    · omega
  obtain ⟨st', hcall', hst'⟩ := call_ok h hT hchecks.1 hchecks.2
  rw [hcall] at hcall'
  cases hcall'
  exact hst'

theorem call_inside (h : st.stack.content = S ++ T) (hT : T.length = 4)
    (hcall : st.callDirectiveHandler = .ok (.noError, st₁)) :
    st₁.stack.currentFrameStart ≤ st₁.stack.size := by
  obtain ⟨hcontent, hstart, -⟩ := call_spec h hT hcall
  rw [hstart, ← length_content, hcontent]
  simp

theorem return_spec {L : Bytes} {f r : Nat}
    (h : st.stack.content = S ++ A ++ encodeBE 4 r ++ encodeBE 4 f ++ (L ++ V))
    (hstart : st.stack.currentFrameStart = (S ++ A).length + 8) (hf : f ≤ (S ++ A).length)
    (hr : r ≤ st.statementCount.toNat) :
    ∃ st', st.returnDirectiveHandler V.length A.length = .ok (.noError, st') ∧
      st'.stack.content = S ++ V ∧ st'.stack.currentFrameStart = f ∧
      st'.nextStatementIndex = r ∧ st'.statementCount = st.statementCount := by
  have hcount := st.statementCount.toNat_lt
  have hmax : st.stack.size ≤ 65535 := st.stack.size_le
  have hsize : st.stack.size = (S ++ A).length + 8 + L.length + V.length := by
    rw [← length_content, h]
    simp
    omega
  have hlenSA : (S ++ A).length = S.length + A.length := length_append
  -- the frame is dropped, and the saved words come off
  have hframe : (st.stack.truncate st.stack.currentFrameStart).content =
      S ++ A ++ encodeBE 4 r ++ encodeBE 4 f := by
    rw [content_truncate, hstart, h, take_left']
    simp
    omega
  have htrunc : (st.stack.truncate st.stack.currentFrameStart).size = (S ++ A).length + 8 := by
    rw [← length_content, hframe]
    simp
    omega
  obtain ⟨s1, hpop1, hs1, hbytes1, -⟩ := popU32_eq hframe (encodeBE_length 4 f)
  obtain ⟨s2, hpop2, hs2, hbytes2, -⟩ := popU32_eq hs1 (encodeBE_length 4 r)
  rw [decodeBE_four (by omega)] at hpop1 hpop2
  have hsize2 : s2.size = (S ++ A).length := by rw [← length_content, hs2]
  let s3 : Stack := { s2 with currentFrameStart := f }.truncate (s2.size - A.length)
  have hs3 : s3.content = S := by
    show (s2.truncate (s2.size - A.length)).content = S
    rw [content_truncate, hs2, hsize2, hlenSA, Nat.add_sub_cancel, take_left]
  have hsize3 : s3.size = S.length := by rw [← length_content, hs3]
  have hvalue : (s2.bytes.drop (st.stack.size - V.length)).take V.length = V := by
    rw [← append_assoc] at h
    have hread := read_content h
    rwa [hbytes2, hbytes1, show st.stack.size - V.length =
      (S ++ A ++ encodeBE 4 r ++ encodeBE 4 f ++ L).length by simp; omega]
  have hroom : s3.size + ((s3.bytes.drop (st.stack.size - V.length)).take V.length).length ≤
      maxStackSize := by
    show _ + ((s2.bytes.drop _).take _).length ≤ 65535
    rw [hvalue]
    omega
  rw [returnDirectiveHandler]
  dsimp only
  rw [if_neg (by omega), if_neg (by omega), if_neg (by omega), hpop1]
  dsimp only [bind, Except.bind]
  rw [hpop2]
  dsimp only
  rw [if_neg (by omega), dif_neg (by omega), if_neg (by omega)]
  rw [if_neg (show ¬V.length > maxStackSize - s3.size by unfold maxStackSize; omega), dif_pos hroom]
  refine ⟨_, rfl, ?_, rfl, rfl, rfl⟩
  rw [content_place s3.size _ hroom le_rfl, hs3, hsize3, take_length]
  exact congrArg (S ++ ·) hvalue

/-- The frame is the same, and so are the bytes below its start. -/
structure Keeps (st st' : FpyState) : Prop where
  frame : st'.stack.currentFrameStart = st.stack.currentFrameStart
  count : st'.statementCount = st.statementCount
  below : st'.stack.content.take st.stack.currentFrameStart =
    st.stack.content.take st.stack.currentFrameStart

/-- Anything that keeps its frame and what is below it, and calls with arguments of its own, each up
to its return. -/
inductive Nested : FpyState → FpyState → Prop
  | done (st : FpyState) : Nested st st
  | inside {st st₁ st₂ : FpyState} (h : Keeps st st₁) (rest : Nested st₁ st₂) : Nested st st₂
  | call {st st₁ st₂ st₃ st₄ : FpyState} {returnValSize callArgsSize : Nat}
    (hcall : st.callDirectiveHandler = .ok (.noError, st₁))
    (hargs : st.stack.currentFrameStart + callArgsSize + 4 ≤ st.stack.size)
    (body : Nested st₁ st₂) (hvalue : st₁.stack.currentFrameStart + returnValSize ≤ st₂.stack.size)
    (hreturn : st₂.returnDirectiveHandler returnValSize callArgsSize = .ok (.noError, st₃))
    (rest : Nested st₃ st₄) : Nested st st₄

theorem Keeps.trans (h : Keeps st st₁) (h' : Keeps st₁ st₂) : Keeps st st₂ :=
  ⟨h'.frame.trans h.frame, h'.count.trans h.count,
    (h.frame ▸ h'.below).trans h.below⟩

theorem Keeps.content {B : Bytes} (h : Keeps st st₁) (hcontent : st.stack.content = B)
    (hstart : st.stack.currentFrameStart = B.length) : ∃ L, st₁.stack.content = B ++ L := by
  refine ⟨st₁.stack.content.drop B.length, ?_⟩
  have hbelow := h.below
  rw [hstart, hcontent, take_length] at hbelow
  rw [← take_append_drop B.length st₁.stack.content, hbelow]
  simp

theorem return_of_keeps {L : Bytes} (h : st.stack.content = S ++ A ++ T) (hT : T.length = 4)
    (hf : st.stack.currentFrameStart ≤ (S ++ A).length)
    (hcall : st.callDirectiveHandler = .ok (.noError, st₁)) (hbody : Keeps st₁ st₂)
    (htop : st₂.stack.content.drop st₁.stack.currentFrameStart = L ++ V) :
    ∃ st3, st₂.returnDirectiveHandler V.length A.length = .ok (.noError, st3) ∧
      st3.stack.content = S ++ V ∧
      st3.stack.currentFrameStart = st.stack.currentFrameStart ∧
      st3.nextStatementIndex = st.nextStatementIndex ∧ st3.statementCount = st.statementCount := by
  obtain ⟨hcontent, hstart, hcount⟩ := call_spec h hT hcall
  obtain ⟨rest, hrest⟩ := hbody.content hcontent (by rw [hstart]; simp; omega)
  have hrestLV : rest = L ++ V := by
    rw [← htop, hrest, drop_left' (by rw [hstart]; simp; omega)]
  obtain ⟨st3, hret, hst3⟩ := return_spec (hrestLV ▸ hrest) (hbody.frame.trans hstart) hf
    (hbody.count.trans hcount ▸ st.index_le)
  exact ⟨st3, hret, hst3.1, hst3.2.1, hst3.2.2.1, hst3.2.2.2.trans (hbody.count.trans hcount)⟩

theorem Keeps.inside (h : Keeps st st₁)
    (hin : st.stack.currentFrameStart ≤ st.stack.size) :
    st₁.stack.currentFrameStart ≤ st₁.stack.size := by
  have hlen := congrArg length h.below
  rw [length_take, length_take, length_content, length_content] at hlen
  rw [h.frame]
  omega

theorem Nested.keeps (h : Nested st st₁) (hin : st.stack.currentFrameStart ≤ st.stack.size) :
    Keeps st st₁ := by
  induction h with
  | done st => exact ⟨rfl, rfl, rfl⟩
  | inside hkeeps _ ih => exact hkeeps.trans (ih (hkeeps.inside hin))
  | @call st st₁ st₂ st3 st4 returnValSize callArgsSize hcall hargs _ hvalue hreturn _ ihBody ih =>
    -- the arguments and the target are the top of the stack
    let base := st.stack.size - (callArgsSize + 4)
    have hlen := st.stack.length_content
    have hsplit : st.stack.content = st.stack.content.take base ++
        (st.stack.content.drop base).take callArgsSize ++
        (st.stack.content.drop base).drop callArgsSize := by
      rw [append_assoc, take_append_drop, take_append_drop]
    have hS : (st.stack.content.take base).length = base := by rw [length_take]; omega
    have hA : ((st.stack.content.drop base).take callArgsSize).length = callArgsSize := by
      rw [length_take, length_drop]
      omega
    have hT : ((st.stack.content.drop base).drop callArgsSize).length = 4 := by
      rw [length_drop, length_drop]
      omega
    have hbody := ihBody (call_inside hsplit hT hcall)
    -- and the value is the top of the frame
    have htop := (take_append_drop (st₂.stack.size - st₁.stack.currentFrameStart -
      returnValSize) (st₂.stack.content.drop st₁.stack.currentFrameStart)).symm
    obtain ⟨st3', hret, hcontent3, hframe3, -, hcount3⟩ :=
      return_of_keeps hsplit hT (by rw [length_append, hS, hA]; omega) hcall hbody htop
    rw [hA, length_drop, length_drop, length_content, show st₂.stack.size -
      st₁.stack.currentFrameStart - (st₂.stack.size - st₁.stack.currentFrameStart - returnValSize) =
      returnValSize by omega, hreturn] at hret
    cases hret
    have hkeeps : Keeps st st3 := by
      refine ⟨hframe3, hcount3, ?_⟩
      rw [hcontent3, take_append_of_le_length (by omega), take_take,
        min_eq_left (by omega)]
    exact hkeeps.trans (ih (hkeeps.inside hin))

/-- After a call and whatever the function does, with calls to any depth, the return leaves the
value in the place of the arguments, and the caller's frame and next statement. -/
theorem return_undoes_call {L : Bytes} (h : st.stack.content = S ++ A ++ T)
    (hT : T.length = 4) (hf : st.stack.currentFrameStart ≤ (S ++ A).length)
    (hcall : st.callDirectiveHandler = .ok (.noError, st₁)) (hbody : Nested st₁ st₂)
    (htop : st₂.stack.content.drop st₁.stack.currentFrameStart = L ++ V) :
    ∃ st₃, st₂.returnDirectiveHandler V.length A.length = .ok (.noError, st₃) ∧
      st₃.stack.content = S ++ V ∧
      st₃.stack.currentFrameStart = st.stack.currentFrameStart ∧
      st₃.nextStatementIndex = st.nextStatementIndex := by
  obtain ⟨st₃, hret, hst3, hframe, hindex, -⟩ :=
    return_of_keeps h hT hf hcall (hbody.keeps (call_inside h hT hcall)) htop
  exact ⟨st₃, hret, hst3, hframe, hindex⟩

def caller : FpyState where
  stack := {
    bytes := [7, 5, 0, 0, 0, 3] ++ replicate 65529 0
    size := 6
    currentFrameStart := 0
    length_eq := by rw [length_append, length_replicate]; rfl
    size_le := by decide }
  statementCount := 4
  nextStatementIndex := 2
  index_le := by decide

def push (st : FpyState) (bytes : Bytes) : Except Fault FpyState := do
  return { st with stack := ← st.stack.pushBytes bytes }

theorem push_keeps (h : st.stack.content = S) (hroom : S.length + A.length ≤ maxStackSize)
    (hin : st.stack.currentFrameStart ≤ st.stack.size) :
    ∃ st', st.push A = .ok st' ∧ st'.stack.content = S ++ A ∧ Keeps st st' := by
  obtain ⟨stack, hpush, hcontent, hframe⟩ := pushBytes_eq h hroom
  refine ⟨{ st with stack }, by rw [push, hpush]; rfl, hcontent, hframe, rfl, ?_⟩
  rw [hcontent, h, take_append_of_le_length]
  rwa [← length_content, h] at hin

/-- Push an argument and a target, call, push and return a value in the argument's place, and push
another. -/
def calling (st : FpyState) : Except Fault FpyState := do
  let st ← st.push [8, 0, 0, 0, 1]
  let (_, st) ← st.callDirectiveHandler
  let st ← st.push [4]
  let (_, st) ← st.returnDirectiveHandler 1 1
  st.push [9]

theorem return_undoes_call_nested : ∃ st₁ st₂ st₃,
    caller.callDirectiveHandler = .ok (.noError, st₁) ∧ st₁.calling = .ok st₂ ∧
      st₂.stack.content.drop st₁.stack.currentFrameStart = [4, 9] ∧
      st₂.returnDirectiveHandler 1 1 = .ok (.noError, st₃) ∧ st₃.stack.content = [7, 9] ∧
      st₃.stack.currentFrameStart = 0 ∧ st₃.nextStatementIndex = 2 := by
  have hcontent : caller.stack.content = [7] ++ [5] ++ [0, 0, 0, 3] := take_left' rfl
  obtain ⟨st₁, hcall, hst₁, hstart, hcount⟩ := call_ok hcontent rfl (by decide) (by decide)
  have hin := call_inside hcontent rfl hcall
  obtain ⟨a, hpush, ha, hkeeps⟩ := @push_keeps _ _ [8, 0, 0, 0, 1] hst₁ (by decide) hin
  have ha : a.stack.content = [7, 5, 0, 0, 0, 2, 0, 0, 0, 0] ++ [8] ++ [0, 0, 0, 1] := ha
  obtain ⟨b, hcall', hb, hstart', -⟩ := call_ok ha rfl (by decide)
    (by rw [hkeeps.count, hcount]; decide)
  obtain ⟨c, hpush', hc, hkeeps'⟩ := @push_keeps _ _ [4] hb (by simp; decide)
    (call_inside ha rfl hcall')
  have hframe : a.stack.currentFrameStart = 10 := hkeeps.frame.trans hstart
  obtain ⟨d, hreturn, hd, hframe', -⟩ := @return_of_keeps _ _ _ _ _ _ [4] [] ha rfl
    (by rw [hframe]; decide) hcall' hkeeps'
    (by rw [hc, hstart', drop_left' (by simp)]; rfl)
  have hind : d.stack.currentFrameStart ≤ d.stack.size := by
    rw [hframe', hframe, ← length_content, hd]
    decide
  obtain ⟨st₂, hpush'', hst₂, hkeeps''⟩ := @push_keeps _ _ [9] hd (by decide) hind
  have hbody : Nested st₁ st₂ := by
    refine .inside hkeeps (.call hcall' ?_ (.inside hkeeps' (.done c)) ?_ hreturn
      (.inside hkeeps'' (.done st₂)))
    · rw [hframe, ← length_content, ha]
      decide
    · rw [hstart', ← length_content, hc]
      simp
  have htop : st₂.stack.content.drop st₁.stack.currentFrameStart = [4] ++ [9] := by
    rw [hst₂, hstart]
    rfl
  obtain ⟨st₃, hret, hst₃, hframe₃, hindex⟩ :=
    return_undoes_call hcontent rfl (zero_le _) hcall hbody htop
  refine ⟨st₁, st₂, st₃, hcall, ?_, htop, hret, hst₃, hframe₃, hindex⟩
  -- the body, step by step
  rw [calling, hpush]
  dsimp only [bind, Except.bind]
  rw [hcall']
  dsimp only
  rw [hpush']
  dsimp only
  rw [show c.returnDirectiveHandler 1 1 = _ from hreturn]
  exact hpush''

end FpyState

end Fprime.Svc.Fpy
