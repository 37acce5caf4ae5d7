import Fprime.Svc.FrameAccumulator.Chunking

/-!
# No byte is lost

Whatever the allocator answers from one request to the next, no assertion fails, and every byte is
in the frames sent or dropped, was slid over or is still in the ring.
-/

namespace Fprime.Svc.FrameAccumulator

open Fw Utils Lib List Framers.FprimeFramer

/-- The component, the requests made so far, where the bytes went, and the data left unread. -/
structure Account where
  ring : CircularBuffer
  requests : Nat
  happenings : List Happening
  unread : Bytes

def feedRingFrom (detector : FrameDetector) (alloc : Nat → Framers.Allocator)
    (context : FrameContext) : Nat → Account → Bytes → Except Assertion (Account × Bytes)
  | 0, w, data => .ok (w, data)
  | bound + 1, w, data =>
    if data.length = 0 ∨ w.ring.getFreeSize = 0 then .ok (w, data)
    else do
      let serSize := min w.ring.getFreeSize data.length
      let ring ← (w.ring.serialize (data.take serSize)).mapError .serialize
      let (ring, requests, happened) ←
        processRingFrom detector alloc context ring.getCapacity w.requests ring
      feedRingFrom detector alloc context bound
        { w with ring, requests, happenings := w.happenings ++ happened } (data.drop serSize)

variable (detector : FrameDetector)

def processBufferFrom (alloc : Nat → Framers.Allocator) (w : Account)
    (data : Bytes) (context : FrameContext) : Except Assertion Account := do
  let (w, rest) ← feedRingFrom detector alloc context data.length w data
  if rest.length ≠ 0 ∧ w.ring.getFreeSize ≠ 0 then throw .ringFree
  else return { w with unread := w.unread ++ rest }

def dataInFrom (alloc : Nat → Framers.Allocator) (w : Account)
    (call : Bytes × FrameContext) : Except Assertion Account :=
  if call.1 = [] then .ok w else processBufferFrom detector alloc w call.1 call.2

def runFrom (alloc : Nat → Framers.Allocator) (ring : CircularBuffer)
    (calls : List (Bytes × FrameContext)) : Except Assertion Account :=
  calls.foldlM (dataInFrom detector alloc) ⟨ring, 0, [], []⟩

section Steps

variable {detector : FrameDetector} {alloc : Nat → Framers.Allocator} {context : FrameContext}

structure Accounted (size : Nat) (past : Bytes) (w : Account) : Prop where
  bytes : w.happenings.flatMap Happening.bytes ++ w.ring.contents = past
  room : 0 < w.ring.getFreeSize
  unread : w.unread = []
  capacity : w.ring.getCapacity = size

theorem feedRingFrom_spec (halloc : Honest alloc) {size bound : Nat} {past data : Bytes}
    {w : Account} (hw : Accounted size past w) (hbound : data.length ≤ bound) :
    ∃ w', feedRingFrom detector alloc context bound w data = .ok (w', []) ∧
      Accounted size (past ++ data) w' := by
  induction bound generalizing w past data with
  | zero =>
    have hnil := length_eq_zero_iff.mp (Nat.le_zero.mp hbound)
    subst hnil
    exact ⟨w, rfl, by rwa [append_nil]⟩
  | succ bound ih =>
    unfold feedRingFrom
    by_cases hdata : data = []
    · subst hdata
      exact ⟨w, if_pos (.inl rfl), by rwa [append_nil]⟩
    have hpos := length_pos_iff.mpr hdata
    have hroom := hw.room
    obtain ⟨ring1, hserialize, hcontents, hcap⟩ := CircularBuffer.serialize_eq_ok
      (show (data.take (min w.ring.getFreeSize data.length)).length ≤ w.ring.getFreeSize by
        rw [length_take]; omega)
    obtain ⟨ring2, requests, happened, hprocess, hs, -⟩ :=
      @processRingFrom_spec detector alloc context ring1 halloc ring1.getCapacity w.requests
        (by rw [CircularBuffer.length_contents]; exact ring1.fits)
    have hw' : Accounted size (past ++ data.take (min w.ring.getFreeSize data.length))
        { w with ring := ring2, requests, happenings := w.happenings ++ happened } := by
      refine ⟨?_, hs.room, hw.unread, hs.capacity.trans (hcap.trans hw.capacity)⟩
      show (w.happenings ++ happened).flatMap Happening.bytes ++ ring2.contents = _
      rw [flatMap_append, append_assoc, hs.bytes, hcontents, ← append_assoc,
        hw.bytes]
    obtain ⟨w', hrun, hacc⟩ := ih hw'
      (show (data.drop (min w.ring.getFreeSize data.length)).length ≤ bound by
        rw [length_drop]; omega)
    refine ⟨w', ?_, ?_⟩
    · rw [if_neg (by omega)]
      simp only [bind, Except.bind, hserialize, Runs.mapError_ok, hprocess]
      exact hrun
    · rwa [append_assoc, take_append_drop] at hacc

theorem processBufferFrom_spec (halloc : Honest alloc) {size : Nat} {past : Bytes}
    {w : Account} (hw : Accounted size past w) (data : Bytes) (context : FrameContext) :
    ∃ w', processBufferFrom detector alloc w data context = .ok w' ∧
      Accounted size (past ++ data) w' := by
  obtain ⟨w', hrun, hacc⟩ :=
    @feedRingFrom_spec detector alloc context halloc size data.length past data w hw le_rfl
  refine ⟨{ w' with unread := w'.unread ++ [] }, ?_, hacc.bytes, hacc.room, ?_, hacc.capacity⟩
  · rw [processBufferFrom, hrun]
    rfl
  · exact (append_nil _).trans hacc.unread

theorem dataInFrom_spec (halloc : Honest alloc) {size : Nat}
    {past : List (Bytes × FrameContext)} {w : Account}
    (hw : Accounted size (past.flatMap Prod.fst) w) (call : Bytes × FrameContext) :
    ∃ w', dataInFrom detector alloc w call = .ok w' ∧
      Accounted size ((past ++ [call]).flatMap Prod.fst) w' := by
  rw [flatMap_append, flatMap_singleton, dataInFrom]
  by_cases hdata : call.1 = []
  · rw [if_pos hdata, hdata, append_nil]
    exact ⟨w, rfl, hw⟩
  · rw [if_neg hdata]
    exact processBufferFrom_spec halloc hw call.1 call.2

theorem runFrom_accounted (halloc : Honest alloc) {size : Nat} (hsize : 0 < size)
    (calls : List (Bytes × FrameContext)) :
    ∃ w, runFrom detector alloc (.new size hsize) calls = .ok w ∧
      Accounted size (calls.flatMap Prod.fst) w := by
  have hnew : Accounted size (([] : List (Bytes × FrameContext)).flatMap Prod.fst)
      ⟨.new size hsize, 0, [], []⟩ :=
    ⟨rfl, by simpa [CircularBuffer.new, CircularBuffer.getFreeSize] using hsize, rfl,
      length_replicate⟩
  exact Runs.total_runM
    (I := fun past w => Accounted size (past.flatMap Prod.fst) w) (C := fun _ _ => True)
    (fun past w call hw _ => @dataInFrom_spec detector alloc halloc size past w hw call) hnew
    (Runs.alongM_of_forall (fun _ (_ : _ ∈ calls) _ => trivial) _)

end Steps

/-- Whatever the chunks and the allocator's answers, no assertion fails, and each byte has left the
ring or is in it. -/
theorem no_byte_lost (alloc : Nat → Framers.Allocator)
    (halloc : Honest alloc) (size : Nat) (hsize : 0 < size)
    (calls : List (Bytes × FrameContext)) :
    ∃ w, runFrom detector alloc (.new size hsize) calls = .ok w ∧ w.unread = [] ∧
      w.happenings.flatMap Happening.bytes ++ w.ring.contents = calls.flatMap Prod.fst := by
  obtain ⟨w, hrun, hacc⟩ := @runFrom_accounted detector alloc halloc size hsize calls
  exact ⟨w, hrun, hacc.unread, hacc.bytes⟩

def fickle (requests size : Nat) : Option Nat :=
  if requests % 2 = 0 then none else some size

/-- The ring holds just the frame: it is dropped when there is no buffer, and sent when it comes
again. -/
theorem no_byte_lost_fickle :
    Honest fickle ∧ ∃ w, runFrom .fprime fickle (.new 13 (by decide))
      [(frame [7], {}), (frame [7], {})] = .ok w ∧
      w.unread = [] ∧ w.happenings.flatMap Happening.bytes ++ w.ring.contents =
        frame [7] ++ frame [7] := by
  have hhonest : Honest fickle := by
    intro requests size bufferSize h
    rw [fickle] at h
    split_ifs at h
    exact (Option.some.inj h).le
  refine ⟨hhonest, ?_⟩
  simpa using no_byte_lost .fprime fickle hhonest 13 (by decide)
    [(frame [7], {}), (frame [7], {})]

end Fprime.Svc.FrameAccumulator
