import Fprime.Svc.FrameAccumulator.Chunking

/-!
# The F Prime link

The deframer, which takes the payload out of one frame, and the way of a payload through framer,
accumulator and deframer.
-/

namespace Fprime.Svc

open Fw Utils Lib Lib.Bytes List Framers.FprimeFramer

namespace FprimeDeframer

open Framers.FprimeFramer (startWord headerSize trailerSize)

inductive Event where
  | invalidBufferReceived
  | invalidStartWord
  | invalidLengthReceived
  | invalidChecksum
  | payloadTooShort

inductive Out where
  | dataOut (data : Bytes) (context : FrameContext)
  | dataReturnOut (data : Bytes) (context : FrameContext)
  | event (event : Event)

/-- The context with the identifier at the front of the payload. A payload too short for one is
reported, and goes on. -/
def readApid (data : Bytes) (context : FrameContext) :
    Except SerializeStatus (FrameContext × List Out) :=
  if data.length - headerSize < trailerSize + 2 then .ok (context, [.event .payloadTooShort])
  else do
    let (descriptor, _) ← deserializeU16 (data.drop headerSize)
    return ({ context with apid := (Apid.tryFrom descriptor).getD .invalidUninitialized }, [])

/-- One frame, which has to fill its buffer. A read that fails is a failed assertion. -/
def dataIn (data : Bytes) (context : FrameContext) : Except SerializeStatus (List Out) :=
  let reject := fun event => Except.ok [Out.event event, Out.dataReturnOut data context]
  if data.length < headerSize + trailerSize then reject .invalidBufferReceived
  else do
    let (start, rest) ← deserializeU32 data
    let (lengthField, _) ← deserializeU32 rest
    if start ≠ startWord then reject .invalidStartWord
    else if data.length ≠ headerSize + lengthField.toNat + trailerSize then
      reject .invalidLengthReceived
    else
      let (contextCopy, short) ← readApid data context
      let (transmittedCrc, _) ← deserializeU32 (data.drop (headerSize + lengthField.toNat))
      let computedCrc := Hash.hashU32 (data.take (headerSize + lengthField.toNat))
      if transmittedCrc ≠ computedCrc then
        return short ++ [.event .invalidChecksum, .dataReturnOut data context]
      else
        let payload := (data.drop headerSize).take (data.length - headerSize - trailerSize)
        return short ++ [.dataOut payload contextCopy]

end FprimeDeframer

namespace Framers.FprimeFramer

variable (payload : Bytes)

def body (payload : Bytes) : Bytes :=
  encodeBE 4 startWord.toNat ++ encodeBE 4 payload.length ++ payload

theorem frame_eq : frame payload = body payload ++ encodeBE 4 (Hash.hashU32 (body payload)).toNat :=
  rfl

theorem length_body : (body payload).length = headerSize + payload.length := by
  simp only [body, length_append, encodeBE_length]
  rfl

theorem length_frame : (frame payload).length = payload.length + FrameAccumulator.minFrameSize := by
  rw [frame_eq, length_append, length_body, encodeBE_length]
  have : headerSize = 8 := rfl
  have : FrameAccumulator.minFrameSize = 12 := rfl
  omega

theorem take_frame : (frame payload).take (headerSize + payload.length) = body payload := by
  rw [frame_eq, ← length_body, take_left]

theorem drop_frame : (frame payload).drop (headerSize + payload.length) =
    encodeBE 4 (Hash.hashU32 (body payload)).toNat := by
  rw [frame_eq, ← length_body, drop_left]

theorem payload_frame : ((frame payload).drop headerSize).take payload.length = payload := by
  have hhead : headerSize = (encodeBE 4 startWord.toNat ++ encodeBE 4 payload.length).length := by
    simp only [length_append, encodeBE_length]
    rfl
  rw [frame_eq, body, append_assoc, hhead, drop_left, take_left]

def Fits (payload : Bytes) : Prop :=
  payload.length ≤ 2 ^ 32 - 1

variable {payload}

theorem toNat_length (h : Fits payload) : (UInt32.ofNat payload.length).toNat = payload.length := by
  unfold Fits at h
  rw [UInt32.toNat_ofNat']
  omega

theorem frame_fields (h : Fits payload) :
    frame payload = encodeBE 4 startWord.toNat ++
      (encodeBE 4 (UInt32.ofNat payload.length).toNat ++
        (payload ++ encodeBE 4 (Hash.hashU32 (body payload)).toNat)) := by
  rw [toNat_length h, frame_eq, body]
  simp only [append_assoc]

end Framers.FprimeFramer

open Framers.FprimeFramer (frame Fits startWord headerSize trailerSize body)

section Frames

variable {payload : Bytes}

theorem fprimeIn_frame (h : Fits payload) {capacity : Nat}
    (hcap : payload.length + FrameAccumulator.minFrameSize ≤ capacity) :
    FrameAccumulator.fprimeIn capacity (frame payload) =
      .frameDetected (payload.length + FrameAccumulator.minFrameSize) := by
  have h4 : ∀ v : UInt32, (encodeBE 4 v.toNat).length = 4 := fun v => encodeBE_length 4 v.toNat
  have hstart : FrameAccumulator.u32At (frame payload) 0 = startWord := by
    rw [FrameAccumulator.u32At, frame_fields h, drop_zero,
      take_left' (h4 _), decode_encode_u32]
  have hlength : FrameAccumulator.u32At (frame payload) 4 = UInt32.ofNat payload.length := by
    rw [FrameAccumulator.u32At, frame_fields h, drop_left' (h4 _),
      take_left' (h4 _), decode_encode_u32]
  have hcrc : FrameAccumulator.u32At (frame payload) (headerSize + payload.length) =
      Hash.hashU32 (body payload) := by
    rw [FrameAccumulator.u32At, drop_frame,
      take_of_length_le (h4 _).le, decode_encode_u32]
  have hlen := length_frame payload
  unfold FrameAccumulator.fprimeIn
  dsimp only
  rw [hlength, toNat_length h, hstart, hcrc,
    take_frame, if_neg (by omega), if_neg (fun h => h rfl), if_neg (by omega),
    if_neg (by omega), if_neg (fun h => h rfl)]

theorem scan_frame (h : Fits payload) {capacity : Nat}
    (hcap : payload.length + FrameAccumulator.minFrameSize ≤ capacity) :
    (FrameAccumulator.scanner .fprime capacity).scan (frame payload) = ([frame payload], []) := by
  have hlen := length_frame payload
  have hne : frame payload ≠ [] := by
    rw [← length_pos_iff, hlen]
    exact Nat.succ_pos _
  have hverdict : (FrameAccumulator.scanner .fprime capacity).verdict
      ((frame payload).take (FrameAccumulator.scanner .fprime capacity).window) =
        .take (payload.length + FrameAccumulator.minFrameSize) := by
    have hwindow : (frame payload).take (FrameAccumulator.scanner .fprime capacity).window =
        frame payload := take_of_length_le (hlen.trans_le hcap)
    rw [hwindow]
    exact FrameAccumulator.verdict_eq_take.mpr ⟨fprimeIn_frame h hcap, hcap⟩
  rw [Scanner.scan_of_take hne hverdict, take_of_length_le hlen.le,
    drop_of_length_le hlen.le, Scanner.scan_nil]

theorem scan_frames {capacity : Nat} (hpos : 0 < capacity) {payloads : List Bytes}
    (h : ∀ payload ∈ payloads,
      Fits payload ∧ payload.length + FrameAccumulator.minFrameSize ≤ capacity) :
    (FrameAccumulator.scanner .fprime capacity).scan (payloads.flatMap frame) =
      (payloads.map frame, []) := by
  induction payloads with
  | nil => exact Scanner.scan_nil
  | cons payload payloads ih =>
    obtain ⟨hfits, hcap⟩ := h payload mem_cons_self
    have hrest := ih fun p hp => h p (mem_cons_of_mem payload hp)
    rw [flatMap_cons, Scanner.scan_append hpos, scan_frame hfits hcap]
    dsimp only [nil_append]
    rw [hrest]
    rfl

def shortEvent (payload : Bytes) : List FprimeDeframer.Out :=
  if payload.length < 2 then [.event .payloadTooShort] else []

theorem readApid_frame (payload : Bytes) (context : FrameContext) :
    ∃ context', FprimeDeframer.readApid (frame payload) context =
      .ok (context', shortEvent payload) := by
  have hlen := length_frame payload
  have h8 : headerSize = 8 := rfl
  have h4 : trailerSize = 4 := rfl
  have h12 : FrameAccumulator.minFrameSize = 12 := rfl
  unfold FprimeDeframer.readApid shortEvent
  by_cases hshort : payload.length < 2
  · exact ⟨context, by rw [if_pos (by omega), if_pos hshort]⟩
  · rw [if_neg (by omega), if_neg hshort, deserializeU16,
      readRaw_of_le (by decide) (by rw [length_drop]; omega)]
    exact ⟨_, rfl⟩

theorem deframe_frame (h : Fits payload) (context : FrameContext) :
    ∃ context', FprimeDeframer.dataIn (frame payload) context =
      .ok (shortEvent payload ++ [.dataOut payload context']) := by
  obtain ⟨context', hapid⟩ := readApid_frame payload context
  have hlen := length_frame payload
  have h8 : headerSize = 8 := rfl
  have h4 : trailerSize = 4 := rfl
  have h12 : FrameAccumulator.minFrameSize = 12 := rfl
  have hcrc : deserializeU32 ((frame payload).drop (headerSize + payload.length)) =
      .ok (Hash.hashU32 (body payload), []) := by
    rw [drop_frame, ← append_nil (encodeBE _ _), deserializeU32_encode]
  have hpayload : ((frame payload).drop headerSize).take
      ((frame payload).length - headerSize - trailerSize) = payload := by
    rw [hlen, show payload.length + FrameAccumulator.minFrameSize - headerSize - trailerSize =
      payload.length by omega, payload_frame]
  have hstart := deserializeU32_encode startWord (encodeBE 4 (UInt32.ofNat payload.length).toNat ++
    (payload ++ encodeBE 4 (Hash.hashU32 (body payload)).toNat))
  rw [← frame_fields h] at hstart
  refine ⟨context', ?_⟩
  unfold FprimeDeframer.dataIn
  rw [hpayload, hapid, hstart, if_neg (by omega)]
  simp only [bind, Except.bind, deserializeU32_encode]
  simp only [toNat_length h, hcrc, take_frame]
  rw [if_neg (fun h => h rfl), if_neg (by omega), if_neg (fun h => h rfl)]
  rfl

end Frames

def frameOne (alloc : Framers.Allocator) (w : Nat × List Framers.Out)
    (payload : ComQueue.Buffer × FrameContext) :
    Except Framers.Assertion (Nat × List Framers.Out) := do
  let (throttle, outs) ← dataIn w.1 alloc payload.1 payload.2
  return (throttle, w.2 ++ outs)

def frameAll (alloc : Framers.Allocator) (payloads : List (ComQueue.Buffer × FrameContext)) :
    Except Framers.Assertion (Nat × List Framers.Out) :=
  payloads.foldlM (frameOne alloc) (0, [])

def sentFrames (outs : List Framers.Out) : List Bytes :=
  outs.filterMap fun
    | .dataOut frame _ => some frame
    | _ => none

theorem frameOne_spec {alloc : Framers.Allocator} (halloc : FrameAccumulator.Serves alloc)
    (w : Nat × List Framers.Out) {payload : ComQueue.Buffer × FrameContext}
    (h : Fits payload.1.bytes) :
    ∃ w', frameOne alloc w payload = .ok w' ∧
      sentFrames w'.2 = sentFrames w.2 ++ [frame payload.1.bytes] := by
  obtain ⟨size, hsize, hle⟩ := halloc (headerSize + payload.1.bytes.length + trailerSize)
  have hdata : dataIn w.1 alloc payload.1 payload.2 =
      .ok (w.1, [.dataOut (frame payload.1.bytes) payload.2,
        .dataReturnOut payload.1 payload.2]) := by
    rw [dataIn, hsize]
    exact (if_pos h).trans (if_neg (Nat.not_lt.mpr hle))
  refine ⟨(w.1, _), by rw [frameOne, hdata]; rfl, ?_⟩
  rw [sentFrames, filterMap_append]
  rfl

theorem frameAll_spec {alloc : Framers.Allocator} (halloc : FrameAccumulator.Serves alloc)
    {payloads : List (ComQueue.Buffer × FrameContext)}
    (h : ∀ payload ∈ payloads, Fits payload.1.bytes) :
    ∃ throttle sent, frameAll alloc payloads = .ok (throttle, sent) ∧
      sentFrames sent = (payloads.map fun payload => payload.1.bytes).map frame := by
  let Sent (past : List (ComQueue.Buffer × FrameContext)) (w : Nat × List Framers.Out) : Prop :=
    sentFrames w.2 = (past.map fun payload => payload.1.bytes).map frame
  have hstep : ∀ past w payload, Sent past w → Fits payload.1.bytes →
      ∃ w', frameOne alloc w payload = .ok w' ∧ Sent (past ++ [payload]) w' := by
    intro past w payload hw hfits
    obtain ⟨w', hstep, hw'⟩ := frameOne_spec halloc w hfits
    refine ⟨w', hstep, hw'.trans ?_⟩
    rw [hw, map_append, map_append]
    rfl
  have hnew : Sent [] (0, []) := rfl
  obtain ⟨⟨throttle, sent⟩, hrun, hsent⟩ := Runs.total_runM hstep hnew
    (Runs.alongM_of_forall (fun payload hpayload _ => h payload hpayload) _)
  exact ⟨throttle, sent, hrun, hsent⟩

/-- What the deframer has to do with the frame of a payload. -/
def Deframed (payload received : Bytes) : Prop :=
  ∀ context, ∃ context', FprimeDeframer.dataIn received context =
    .ok (shortEvent payload ++ [.dataOut payload context'])

/-- Payloads that fit the ring, and whose lengths fit their field, come out as they went in, however
the bytes are cut. -/
theorem link_round_trip (size : Nat) (hsize : 0 < size) (alloc : Framers.Allocator)
    (halloc : FrameAccumulator.Serves alloc) (payloads : List (ComQueue.Buffer × FrameContext))
    (hring : ∀ payload ∈ payloads, payload.1.bytes.length + 12 ≤ size)
    (hfield : ∀ payload ∈ payloads, payload.1.bytes.length ≤ 2 ^ 32 - 1) :
    ∃ throttle sent, frameAll alloc payloads = .ok (throttle, sent) ∧
      ∀ calls : List FrameAccumulator.Call,
        (∀ call ∈ calls, FrameAccumulator.Serves call.alloc) →
        calls.flatMap FrameAccumulator.Call.data = (sentFrames sent).flatten →
        ∃ ring outs, FrameAccumulator.run .fprime (.new size hsize) calls = .ok (ring, outs) ∧
          FrameAccumulator.frames outs = sentFrames sent ∧ ring.contents = [] ∧
          List.Forall₂ Deframed (payloads.map fun payload => payload.1.bytes)
            (FrameAccumulator.frames outs) := by
  obtain ⟨throttle, sent, hframe, hsent⟩ := frameAll_spec halloc hfield
  refine ⟨throttle, sent, hframe, fun calls hserves hstream => ?_⟩
  obtain ⟨ring, outs, hrun, hscan⟩ :=
    FrameAccumulator.run_spec .fprime hsize calls hserves
  have hall : ∀ bytes ∈ payloads.map fun payload => payload.1.bytes,
      Fits bytes ∧ bytes.length + FrameAccumulator.minFrameSize ≤ size := by
    intro bytes hbytes
    obtain ⟨payload, hpayload, rfl⟩ := mem_map.mp hbytes
    exact ⟨hfield payload hpayload, hring payload hpayload⟩
  rw [hstream, hsent, ← flatMap_def, scan_frames hsize hall, Prod.mk.injEq] at hscan
  obtain ⟨hframes, hcontents⟩ := hscan
  refine ⟨ring, outs, hrun, by rw [← hframes, hsent], hcontents.symm, ?_⟩
  rw [← hframes, forall₂_map_right_iff, forall₂_same]
  exact fun bytes hbytes => deframe_frame (hall bytes hbytes).1

theorem link_round_trip_short :
    ∃ throttle sent, frameAll some [(⟨none, []⟩, {}), (⟨none, [7]⟩, {}), (⟨none, [1, 2, 3]⟩, {})] =
        .ok (throttle, sent) ∧
      ∃ ring outs, FrameAccumulator.run .fprime (.new 16 (by decide))
          [⟨(sentFrames sent).flatten, {}, some⟩] = .ok (ring, outs) ∧
        FrameAccumulator.frames outs = sentFrames sent ∧ ring.contents = [] ∧
        List.Forall₂ Deframed [[], [7], [1, 2, 3]] (FrameAccumulator.frames outs) := by
  have hserves : FrameAccumulator.Serves some := fun n => ⟨n, rfl, Nat.le_refl n⟩
  obtain ⟨throttle, sent, hframe, hlink⟩ := link_round_trip 16 (by decide) some hserves
    [(⟨none, []⟩, {}), (⟨none, [7]⟩, {}), (⟨none, [1, 2, 3]⟩, {})] (by decide) (by decide)
  refine ⟨throttle, sent, hframe, hlink _ ?_ (flatMap_singleton ..)⟩
  intro call hcall
  rw [mem_singleton.mp hcall]
  exact hserves

/-- A payload whose length does not fit four bytes fails the framer's assertion, however large
the ring is. -/
theorem length_field_overflows :
    ∃ (size : Nat) (payload : ComQueue.Buffer), payload.bytes.length + 12 ≤ size ∧
      frameAll some [(payload, {})] = .error .payloadSize := by
  obtain ⟨bytes, hbytes⟩ : ∃ bytes : Bytes, bytes.length = 2 ^ 32 :=
    ⟨replicate _ 0, length_replicate⟩
  have hfail : dataIn 0 some ⟨none, bytes⟩ {} = .error .payloadSize := by
    rw [dataIn]
    exact if_neg (by rw [hbytes]; decide)
  refine ⟨2 ^ 32 + 12, ⟨none, bytes⟩, by rw [hbytes], ?_⟩
  rw [frameAll, foldlM_cons, frameOne, hfail]
  rfl

end Fprime.Svc
