import Fprime.Svc.FprimeLink
import Fprime.Svc.FrameAccumulator.Conservation
import Fprime.Utils.Crc

/-!
# What the deframer accepts

The deframer delivers a payload exactly for the frame of that payload, and so none for a frame that
was damaged by a burst, and behind the accumulator none that was not received.
-/

namespace Fprime.Svc

open Fw Utils Lib Lib.Bytes Lib.Runs List Hash
open Framers ShiftRegister FrameAccumulator
open Framers.FprimeFramer (frame Fits startWord headerSize trailerSize body)

variable {data payload : Bytes} (context : FrameContext)

theorem exists_deserializeU32 {b : Bytes} (h : 4 ≤ b.length) :
    ∃ v, deserializeU32 b = .ok (v, b.drop 4) := by
  rw [deserializeU32, readRaw_of_le (by decide) h]
  exact ⟨_, rfl⟩

theorem exists_readApid (data : Bytes) : ∃ (context' : FrameContext)
    (events : List FprimeDeframer.Event),
    FprimeDeframer.readApid data context = .ok (context', events.map .event) := by
  unfold FprimeDeframer.readApid
  split
  · exact ⟨context, [.payloadTooShort], rfl⟩
  · rw [deserializeU16, readRaw_of_le (by decide) (by rw [length_drop]; omega)]
    exact ⟨_, [], rfl⟩

theorem frame_of_fields {lengthField crc : UInt32} {rest rest' rest'' : Bytes}
    (hstart : deserializeU32 data = .ok (startWord, rest))
    (hlength : deserializeU32 rest = .ok (lengthField, rest'))
    (hlen : data.length = headerSize + lengthField.toNat + trailerSize)
    (hcrc : deserializeU32 (data.drop (headerSize + lengthField.toNat)) = .ok (crc, rest''))
    (hhash : crc = hashU32 (data.take (headerSize + lengthField.toNat)))
    (hp : payload = (data.drop headerSize).take (data.length - headerSize - trailerSize)) :
    Fits payload ∧ data = frame payload := by
  have h8 : headerSize = 8 := rfl
  have h4 : trailerSize = 4 := rfl
  have hdata : data = encodeBE 4 startWord.toNat ++ encodeBE 4 lengthField.toNat ++ rest' := by
    rw [append_assoc, deserializeU32_eq_ok hlength, deserializeU32_eq_ok hstart]
  have hheader : (encodeBE 4 startWord.toNat ++ encodeBE 4 lengthField.toNat).length =
      headerSize := by
    rw [length_append, encodeBE_length, encodeBE_length]
    rfl
  have hrest : rest'.length = lengthField.toNat + trailerSize := by
    have := congrArg length hdata
    rw [length_append, hheader] at this
    omega
  rw [show data.length - headerSize - trailerSize = lengthField.toNat by omega, hdata, ← hheader,
    drop_left] at hp
  have hpayload : payload.length = lengthField.toNat := by
    rw [hp]
    exact length_take_of_le (by omega)
  have hbody : data.take (headerSize + lengthField.toNat) = body payload := by
    rw [body, hpayload, hp, hdata, ← hheader, take_length_add_append]
  have htrailer := deserializeU32_eq_ok hcrc
  have hend : rest'' = [] := by
    have := congrArg length htrailer
    rw [length_append, encodeBE_length, length_drop] at this
    exact eq_nil_of_length_eq_zero (by omega)
  constructor
  · have hlt := lengthField.toNat_lt
    unfold Fits
    omega
  · rw [← take_append_drop (headerSize + lengthField.toNat) data, hbody, ← htrailer, hend, hhash,
      hbody, append_nil, FprimeFramer.frame_eq]

def Delivers (data payload : Bytes) (context : FrameContext) : Prop :=
  ∃ (events : List FprimeDeframer.Event) (context' : FrameContext),
    FprimeDeframer.dataIn data context = .ok (events.map .event ++ [.dataOut payload context'])

def Returns (data : Bytes) (context : FrameContext) : Prop :=
  ∃ events : List FprimeDeframer.Event, events ≠ [] ∧
    FprimeDeframer.dataIn data context = .ok (events.map .event ++ [.dataReturnOut data context])

theorem dataIn_spec (data : Bytes) :
    (∃ payload, Fits payload ∧ data = frame payload ∧ Delivers data payload context) ∨
      Returns data context := by
  have h8 : headerSize = 8 := rfl
  have h4 : trailerSize = 4 := rfl
  unfold Delivers Returns FprimeDeframer.dataIn
  by_cases hshort : data.length < headerSize + trailerSize
  · rw [if_pos hshort]
    exact .inr ⟨[.invalidBufferReceived], cons_ne_nil _ _, rfl⟩
  obtain ⟨start, hstart⟩ := exists_deserializeU32 (b := data) (by omega)
  obtain ⟨lengthField, hlength⟩ := exists_deserializeU32 (b := data.drop 4)
    (by rw [length_drop]; omega)
  simp only [if_neg hshort, hstart, hlength, bind, Except.bind]
  by_cases hword : start ≠ startWord
  · rw [if_pos hword]
    exact .inr ⟨[.invalidStartWord], cons_ne_nil _ _, rfl⟩
  by_cases hlen : data.length ≠ headerSize + lengthField.toNat + trailerSize
  · rw [if_neg hword, if_pos hlen]
    exact .inr ⟨[.invalidLengthReceived], cons_ne_nil _ _, rfl⟩
  obtain ⟨contextCopy, events, happid⟩ := exists_readApid context data
  obtain ⟨crc, hcrc⟩ := exists_deserializeU32 (b := data.drop (headerSize + lengthField.toNat))
    (by rw [length_drop]; omega)
  simp only [if_neg hword, if_neg hlen, happid, hcrc]
  by_cases hhash : crc ≠ hashU32 (data.take (headerSize + lengthField.toNat))
  · rw [if_pos hhash]
    exact .inr ⟨events ++ [.invalidChecksum], by simp, by simp [pure, Except.pure]⟩
  · rw [not_not.mp hword] at hstart
    obtain ⟨hfits, hframe⟩ :=
      frame_of_fields hstart hlength (not_not.mp hlen) hcrc (not_not.mp hhash) rfl
    rw [if_neg hhash]
    exact .inl ⟨_, hfits, hframe, events, contextCopy, rfl⟩

theorem delivers_frame (h : Fits payload) : Delivers (frame payload) payload context := by
  obtain ⟨context', hok⟩ := deframe_frame h context
  unfold shortEvent at hok
  split at hok
  · exact ⟨[.payloadTooShort], context', hok⟩
  · exact ⟨[], context', hok⟩

theorem frame_of_delivers (h : Delivers data payload context) :
    Fits payload ∧ data = frame payload := by
  obtain ⟨events, context', h⟩ := h
  rcases dataIn_spec context data with ⟨other, hfits, hframe, _, _, hother⟩ | ⟨_, _, hreturned⟩
  · cases append_inj_right' (Except.ok.inj (hother.symm.trans h)) rfl
    exact ⟨hfits, hframe⟩
  · cases append_inj_right' (Except.ok.inj (hreturned.symm.trans h)) rfl

/-- A payload is delivered for its own frame and for nothing else, and all that is not a frame goes
back. -/
theorem deframe_exact :
    (Delivers data payload context ↔ Fits payload ∧ data = frame payload) ∧
      (Returns data context ↔ ∀ payload, Fits payload → data ≠ frame payload) := by
  refine ⟨⟨?_, ?_⟩, ?_, ?_⟩
  · exact frame_of_delivers context
  · rintro ⟨hfits, rfl⟩
    exact delivers_frame context hfits
  · rintro ⟨events, -, h⟩ other hfits rfl
    obtain ⟨_, _, hother⟩ := delivers_frame context hfits
    cases append_inj_right' (Except.ok.inj (hother.symm.trans h)) rfl
  · intro h
    rcases dataIn_spec context data with ⟨other, hfits, hframe, -⟩ | hreturns
    · exact absurd hframe (h other hfits)
    · exact hreturns

theorem damaged_ne_frame {damaged : Bytes} (other : Bytes)
    (h : Burst 32 ((body payload).flatMap bitsOf) (damaged.flatMap bitsOf)) :
    damaged ++ encodeBE 4 (hashU32 (body payload)).toNat ≠ frame other := by
  intro hframe
  rw [FprimeFramer.frame_eq] at hframe
  obtain ⟨rfl, htrailer⟩ := append_inj' hframe (by rw [encodeBE_length, encodeBE_length])
  have hread := congrArg deserializeU32 (congrArg (· ++ []) htrailer)
  rw [deserializeU32_encode, deserializeU32_encode] at hread
  exact update_ne h _ (update_of_hash (Prod.mk.inj (Except.ok.inj hread)).1)

/-- A frame damaged in a window of 32 bits before its trailer is not delivered. -/
theorem damaged_returned {damaged : Bytes}
    (h : Burst 32 ((body payload).flatMap bitsOf) (damaged.flatMap bitsOf)) :
    Returns (damaged ++ encodeBE 4 (hashU32 (body payload)).toNat) context := by
  rcases dataIn_spec context (damaged ++ encodeBE 4 (hashU32 (body payload)).toNat) with
    ⟨other, -, hframe, -⟩ | hreturns
  · exact absurd hframe (damaged_ne_frame other h)
  · exact hreturns

theorem damaged_returned_one :
    Returns ((body [0]).dropLast ++ [1] ++ encodeBE 4 (hashU32 (body [0])).toNat) {} :=
  damaged_returned {} ⟨(body [0]).dropLast.flatMap bitsOf, [false], [true],
    (bitsOf 0).drop 1, by decide⟩

/-- A payload that is delivered stands in the stream in its frame, right after the bytes that left
the ring before it. -/
def Received (stream : Bytes) (w : Account) : Prop :=
  ∀ before sent context after payload, w.happenings = before ++ .sent sent context :: after →
    Delivers sent payload context →
    stream = before.flatMap Happening.bytes ++ frame payload ++
      (after.flatMap Happening.bytes ++ w.ring.contents)

/-- Whatever comes in, in whatever chunks, the accumulator and the deframer make up no payload. -/
theorem delivered_was_received (detector : FrameDetector) (alloc : Nat → Framers.Allocator)
    (halloc : Honest alloc) (size : Nat) (hsize : 0 < size)
    (calls : List (Bytes × FrameContext)) :
    ∃ w, runFrom detector alloc (.new size hsize) calls = .ok w ∧
      Received (calls.flatMap Prod.fst) w := by
  obtain ⟨w, hrun, hacc⟩ := @runFrom_accounted detector alloc halloc size hsize calls
  refine ⟨w, hrun, fun before sent context after payload hsplit hdelivers => ?_⟩
  refine hacc.bytes.symm.trans ?_
  rw [hsplit, ← (frame_of_delivers context hdelivers).2]
  simp only [flatMap_append, flatMap_cons, Happening.bytes, append_assoc]

theorem delivered_was_received_slid : ∃ w, runFrom .fprime (fun _ => some) (.new 13 (by decide))
    [(9 :: frame [7], {})] = .ok w ∧ Received (9 :: frame [7]) w ∧
      w.happenings.filterMap Happening.out = [.dataOut (frame [7]) {}] := by
  obtain ⟨w, hrun, hreceived⟩ := delivered_was_received .fprime (fun _ => some)
    (fun _ _ _ h => (Option.some.inj h).le) 13 (by decide) [(9 :: frame [7], {})]
  cases hrun
  exact ⟨_, rfl, hreceived, rfl⟩

end Fprime.Svc
