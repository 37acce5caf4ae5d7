import Fprime.Svc.FrameAccumulator
import Fprime.Lib.Scan

/-!
# Frames do not depend on how the uplink is cut

What a detector says stands when more bytes come in. So the accumulator takes from a stream the
frames that a scanner would take from all of it.
-/

namespace Fprime.Svc.FrameAccumulator

open Fw Utils Ccsds Lib Lib.Bytes List Nat Framers.FprimeFramer CircularBuffer Scanner

def u32At (bytes : Bytes) (offset : Nat) : UInt32 :=
  UInt32.ofNat (decodeBE 0 ((bytes.drop offset).take 4))

def fprimeIn (capacity : Nat) (bytes : Bytes) : DetectorStatus :=
  let length := (u32At bytes 4).toNat
  if bytes.length < minFrameSize then .moreDataNeeded minFrameSize
  else if u32At bytes 0 ≠ startWord then .noFrameDetected
  else if capacity < length + minFrameSize then .noFrameDetected
  else if bytes.length < length + minFrameSize then .moreDataNeeded (length + minFrameSize)
  else if u32At bytes (headerSize + length) ≠
      Hash.hashU32 (bytes.take (headerSize + length)) then .noFrameDetected
  else .frameDetected (length + minFrameSize)

def ccsdsTcIn (token : UInt16) (bytes : Bytes) : DetectorStatus :=
  let header := TCHeader.deserialize (bytes.take TCHeader.serializedSize)
  let length := header.totalFrameLength.toNat
  if bytes.length < tcMinFrameSize then .moreDataNeeded tcMinFrameSize
  else if header.flagsAndScId ≠ token then .noFrameDetected
  else if bytes.length < length then .moreDataNeeded length
  else if length < tcMinFrameSize then .noFrameDetected
  else if u16At ((bytes.drop (length - tcTrailerSize)).take tcTrailerSize) 0 ≠
      Crc16.compute (bytes.take (length - tcTrailerSize)) then .noFrameDetected
  else .frameDetected length

def FrameDetector.detectIn : FrameDetector → Nat → Bytes → DetectorStatus
  | fprime, capacity, bytes => fprimeIn capacity bytes
  | ccsdsTc spacecraftId, _, bytes => ccsdsTcIn (tcToken spacecraftId) bytes

theorem peekAll_eq_ok {ring : CircularBuffer} {size : Nat} (h : size ≤ ring.allocatedSize) :
    peekAll ring size = .ok (ring.contents.take size) := by
  have hbytes : (range size).mapM ring.peekU8 = .ok (ring.contents.take size) := by
    have hmap := @map_byteAt ring 0 size (by omega)
    simp only [zero_add, drop_zero] at hmap
    rw [← hmap]
    refine Runs.mapM_eq_ok fun i hi => ?_
    have hlt := mem_range.mp hi
    rw [peekU8, if_neg (by omega)]
  rw [peekAll, hbytes]
  rfl

variable (detector : FrameDetector) (ring : CircularBuffer)

theorem fprime_detect_eq :
    FprimeFrameDetector.detect ring = .ok (fprimeIn ring.getCapacity ring.contents) := by
  have h12 : minFrameSize = 12 := rfl
  have h8 : headerSize = 8 := rfl
  unfold FprimeFrameDetector.detect fprimeIn
  rw [length_contents]
  by_cases hmin : ring.allocatedSize < minFrameSize
  · rw [if_pos hmin, if_pos hmin]
  rw [if_neg hmin, if_neg hmin, peekU32Be_eq_ok (by omega),
    peekU32Be_eq_ok (by omega)]
  dsimp only
  rw [← u32At, ← u32At]
  split_ifs with hstart hfit hlen hcrc
  · rfl
  · rfl
  · rfl
  · rw [peekU32Be_eq_ok (by omega), peekAll_eq_ok (by omega)]
    exact if_pos hcrc
  · rw [peekU32Be_eq_ok (by omega), peekAll_eq_ok (by omega)]
    exact if_neg hcrc

theorem ccsdsTc_detect_eq (token : UInt16) (ring : CircularBuffer) :
    CcsdsTcFrameDetector.detect token ring = .ok (ccsdsTcIn token ring.contents) := by
  have h7 : tcMinFrameSize = 7 := rfl
  have h5 : TCHeader.serializedSize = 5 := rfl
  have h2 : tcTrailerSize = 2 := rfl
  unfold CcsdsTcFrameDetector.detect ccsdsTcIn
  rw [length_contents]
  by_cases hmin : ring.allocatedSize < tcMinFrameSize
  · rw [if_pos hmin, if_pos hmin]
  rw [if_neg hmin, if_neg hmin, peekBytes_eq_ok (by omega), drop_zero]
  dsimp only
  split_ifs with htoken hlen hsmall hcrc
  · rfl
  · rfl
  · rfl
  · rw [peekBytes_eq_ok (by omega), peekAll_eq_ok (by omega)]
    exact if_pos hcrc
  · rw [peekBytes_eq_ok (by omega), peekAll_eq_ok (by omega)]
    exact if_neg hcrc

theorem detect_eq :
    detector.detect ring = .ok (detector.detectIn ring.getCapacity ring.contents) := by
  cases detector with
  | fprime => exact fprime_detect_eq ring
  | ccsdsTc spacecraftId => exact ccsdsTc_detect_eq _ ring

/-- What the accumulator makes of a detector's status: a frame or a wait that is too large for the
ring costs one byte. -/
def DetectorStatus.verdict (capacity : Nat) : DetectorStatus → Verdict
  | frameDetected size => if size > capacity then .discard else .take size
  | moreDataNeeded size => if size > capacity then .discard else .wait
  | noFrameDetected => .discard

theorem verdict_eq_wait {capacity : Nat} {status : DetectorStatus} :
    status.verdict capacity = .wait ↔ ∃ size, status = .moreDataNeeded size ∧ size ≤ capacity := by
  cases status with
  | frameDetected size => rw [DetectorStatus.verdict]; split_ifs <;> simp
  | moreDataNeeded size | noFrameDetected => simp [DetectorStatus.verdict]

theorem verdict_eq_take {capacity n : Nat} {status : DetectorStatus} :
    status.verdict capacity = .take n ↔ status = .frameDetected n ∧ n ≤ capacity := by
  cases status with
  | frameDetected size => rw [DetectorStatus.verdict]; split_ifs <;> simp <;> omega
  | moreDataNeeded size => rw [DetectorStatus.verdict]; split_ifs <;> simp
  | noFrameDetected => simp [DetectorStatus.verdict]

/-- A detector waits for more than there is, takes no more than there is, and does not change its
mind within the ring. -/
structure Reliable (detectIn : Nat → Bytes → DetectorStatus) (capacity : Nat) : Prop where
  wait : ∀ {bytes size}, detectIn capacity bytes = .moreDataNeeded size → bytes.length < size
  frame : ∀ {bytes size}, detectIn capacity bytes = .frameDetected size →
    0 < size ∧ size ≤ bytes.length
  stable : ∀ {bytes more}, bytes.length + more.length ≤ capacity →
    (∀ size, detectIn capacity bytes = .moreDataNeeded size → capacity < size) →
    detectIn capacity (bytes ++ more) = detectIn capacity bytes

theorem u32At_append {bytes more : Bytes} {offset : Nat} (h : offset + 4 ≤ bytes.length) :
    u32At (bytes ++ more) offset = u32At bytes offset := by
  rw [u32At, drop_append_of_le_length (by omega), take_append_of_le_length]
  · rfl
  · rw [length_drop]
    omega

theorem reliable_fprimeIn (capacity : Nat) : Reliable fprimeIn capacity where
  wait := by
    intro bytes size h
    unfold fprimeIn at h
    dsimp only at h
    split_ifs at h <;> cases h <;> assumption
  frame := by
    intro bytes size h
    unfold fprimeIn at h
    dsimp only at h
    split_ifs at h
    cases h
    exact ⟨succ_pos _, by omega⟩
  stable := by
    intro bytes more hcap hwait
    have h12 : minFrameSize = 12 := rfl
    have h8 : headerSize = 8 := rfl
    unfold fprimeIn at hwait ⊢
    dsimp only at hwait ⊢
    by_cases hmin : bytes.length < minFrameSize
    · -- a ring that cannot hold the smallest frame never has enough
      have hsmall := hwait minFrameSize (if_pos hmin)
      rw [if_pos hmin, if_pos (by rw [length_append]; omega)]
    rw [if_neg hmin] at hwait ⊢
    rw [if_neg (by rw [length_append]; omega), u32At_append (by omega),
      u32At_append (by omega)]
    by_cases hstart : u32At bytes 0 ≠ startWord
    · rw [if_pos hstart, if_pos hstart]
    by_cases hfit : capacity < (u32At bytes 4).toNat + minFrameSize
    · rw [if_neg hstart, if_neg hstart, if_pos hfit, if_pos hfit]
    rw [if_neg hstart, if_neg hfit] at hwait ⊢
    by_cases hlen : bytes.length < (u32At bytes 4).toNat + minFrameSize
    · exact absurd (hwait _ (if_pos hlen)) hfit
    rw [if_neg hstart, if_neg hfit, if_neg hlen, if_neg (by rw [length_append]; omega),
      u32At_append (by omega), take_append_of_le_length (by omega)]

theorem reliable_ccsdsTcIn (token : UInt16) (capacity : Nat) :
    Reliable (fun _ => ccsdsTcIn token) capacity where
  wait := by
    intro bytes size h
    unfold ccsdsTcIn at h
    dsimp only at h
    split_ifs at h <;> cases h <;> assumption
  frame := by
    intro bytes size h
    have h7 : tcMinFrameSize = 7 := rfl
    unfold ccsdsTcIn at h
    dsimp only at h
    split_ifs at h
    cases h
    omega
  stable := by
    intro bytes more hcap hwait
    have h7 : tcMinFrameSize = 7 := rfl
    have h5 : TCHeader.serializedSize = 5 := rfl
    have h2 : tcTrailerSize = 2 := rfl
    unfold ccsdsTcIn at hwait ⊢
    dsimp only at hwait ⊢
    by_cases hmin : bytes.length < tcMinFrameSize
    · have hsmall := hwait tcMinFrameSize (if_pos hmin)
      rw [if_pos hmin, if_pos (by rw [length_append]; omega)]
    rw [if_neg hmin] at hwait ⊢
    rw [if_neg (by rw [length_append]; omega), take_append_of_le_length (by omega)]
    generalize TCHeader.deserialize (bytes.take TCHeader.serializedSize) = header at hwait ⊢
    by_cases htoken : header.flagsAndScId ≠ token
    · rw [if_pos htoken, if_pos htoken]
    rw [if_neg htoken] at hwait ⊢
    by_cases hlen : bytes.length < header.totalFrameLength.toNat
    · -- the frame is too long for the ring, so it stays too long
      have hlarge := hwait _ (if_pos hlen)
      rw [if_neg htoken, if_pos hlen, if_pos (by rw [length_append]; omega)]
    rw [if_neg htoken, if_neg hlen, if_neg (by rw [length_append]; omega)]
    by_cases hshort : header.totalFrameLength.toNat < tcMinFrameSize
    · rw [if_pos hshort, if_pos hshort]
    rw [drop_append_of_le_length (by omega),
      take_append_of_le_length (by rw [length_drop]; omega),
      take_append_of_le_length (by omega)]

theorem reliable_detectIn (capacity : Nat) :
    Reliable detector.detectIn capacity := by
  cases detector with
  | fprime => exact reliable_fprimeIn capacity
  | ccsdsTc spacecraftId => exact reliable_ccsdsTcIn (tcToken spacecraftId) capacity

def scanner (capacity : Nat) : Scanner UInt8 where
  window := capacity
  verdict bytes := (detector.detectIn capacity bytes).verdict capacity
  stable := by
    intro front more _ hlen hwait
    rw [length_append] at hlen
    rw [(reliable_detectIn detector capacity).stable hlen]
    intro size hmore
    by_contra hfit
    exact hwait (verdict_eq_wait.mpr ⟨size, hmore, not_lt.mp hfit⟩)
  wait_lt := by
    intro front _ hwait
    obtain ⟨size, hmore, hle⟩ := verdict_eq_wait.mp hwait
    exact ((reliable_detectIn detector capacity).wait hmore).trans_le hle
  take_pos htake := ((reliable_detectIn detector capacity).frame (verdict_eq_take.mp htake).1).1
  take_le htake := ((reliable_detectIn detector capacity).frame (verdict_eq_take.mp htake).1).2

inductive Happening where
  | sent (frame : Bytes) (context : FrameContext)
  | dropped (frame : Bytes)
  | slid (byte : UInt8)
  | oversize (size : Nat) (byte : UInt8)
  | noBuffer

def Happening.bytes : Happening → Bytes
  | sent frame _ => frame
  | dropped frame => frame
  | slid byte => [byte]
  | oversize _ byte => [byte]
  | noBuffer => []

def Happening.out : Happening → Option Out
  | sent frame context => some (.dataOut frame context)
  | dropped _ => some .validFrameDropped
  | slid _ => none
  | oversize size _ => some (.frameDetectionSizeError size)
  | noBuffer => some .noBufferAvailable

/-- `process_ring` where the answer of the allocator depends on the requests made before. -/
def processRingFrom (detector : FrameDetector) (alloc : Nat → Framers.Allocator)
    (context : FrameContext) :
    Nat → Nat → CircularBuffer → Except Assertion (CircularBuffer × Nat × List Happening)
  | 0, requests, ring => .ok (ring, requests, [])
  | bound + 1, requests, ring =>
    if ring.allocatedSize = 0 then .ok (ring, requests, [])
    else do
      let status ← detector.detect ring
      if status.sizeOut > ring.getCapacity then
        let ring' ← rotate ring 1
        let (ring', requests, rest) ← processRingFrom detector alloc context bound requests ring'
        return (ring', requests, .oversize status.sizeOut (ring.byteAt 0) :: rest)
      else
        match status with
        | .frameDetected size =>
          if size = 0 ∨ size > ring.allocatedSize then throw .frameSize
          else
            match alloc requests size with
            | some bufferSize =>
              if bufferSize < size then throw .bufferSize
              else
                let frame ← (ring.peekBytes size 0).mapError .peek
                let ring ← rotate ring size
                let (ring, requests, rest) ←
                  processRingFrom detector alloc context bound (requests + 1) ring
                return (ring, requests, .sent frame context :: rest)
            | none =>
              if ring.getFreeSize = 0 then
                let ring' ← rotate ring size
                return (ring', requests + 1, [.noBuffer, .dropped (ring.contents.take size)])
              else return (ring, requests + 1, [.noBuffer])
        | .moreDataNeeded size =>
          if size ≤ ring.allocatedSize then throw .moreDataNeeded
          else return (ring, requests, [])
        | .noFrameDetected =>
          let ring' ← rotate ring 1
          let (ring', requests, rest) ← processRingFrom detector alloc context bound requests ring'
          return (ring', requests, .slid (ring.byteAt 0) :: rest)

theorem processRingFrom_out (alloc : Framers.Allocator)
    (context : FrameContext) (bound requests : Nat) (ring : CircularBuffer) :
    processRing detector alloc context bound ring =
      (processRingFrom detector (fun _ => alloc) context bound requests ring).map
        fun r => (r.1, r.2.2.filterMap Happening.out) := by
  induction bound generalizing requests ring with
  | zero => rfl
  | succ bound ih =>
    unfold processRing processRingFrom
    split
    · rfl
    cases detector.detect ring with
    | error e => rfl
    | ok status =>
      dsimp only [bind, Except.bind]
      split
      · cases rotate ring 1 with
        | error e => rfl
        | ok ring' =>
          dsimp only
          rw [ih requests ring']
          cases processRingFrom detector (fun _ => alloc) context bound requests ring' <;> rfl
      · cases status with
        | frameDetected size =>
          dsimp only
          split
          · rfl
          cases alloc size with
          | some bufferSize =>
            dsimp only
            split
            · rfl
            cases (ring.peekBytes size 0).mapError Assertion.peek with
            | error e => rfl
            | ok frame =>
              cases rotate ring size with
              | error e => rfl
              | ok ring' =>
                dsimp only
                rw [ih (requests + 1) ring']
                cases processRingFrom detector (fun _ => alloc) context bound (requests + 1)
                  ring' <;> rfl
          | none =>
            dsimp only
            split
            · cases rotate ring size <;> rfl
            · rfl
        | moreDataNeeded size =>
          dsimp only
          split <;> rfl
        | noFrameDetected =>
          cases rotate ring 1 with
          | error e => rfl
          | ok ring' =>
            dsimp only
            rw [ih requests ring']
            cases processRingFrom detector (fun _ => alloc) context bound requests ring' <;> rfl

/-- Each request is answered with a buffer that is large enough, or with none. -/
def Honest (alloc : Nat → Framers.Allocator) : Prop :=
  ∀ requests size bufferSize, alloc requests size = some bufferSize → size ≤ bufferSize

def frames (outs : List Out) : List Bytes :=
  outs.filterMap fun
    | .dataOut frame _ => some frame
    | _ => none

theorem frames_append (outs outs' : List Out) : frames (outs ++ outs') = frames outs ++ frames outs' :=
  filterMap_append

def Serves (alloc : Framers.Allocator) : Prop :=
  ∀ size, ∃ bufferSize, alloc size = some bufferSize ∧ size ≤ bufferSize

section Runs

variable {detector : FrameDetector} {alloc : Nat → Framers.Allocator} {context : FrameContext}
  {ring : CircularBuffer}

theorem rotate_spec {amount : Nat} (h : amount ≤ ring.allocatedSize) :
    ∃ ring', rotate ring amount = .ok ring' ∧ ring'.contents = ring.contents.drop amount ∧
      ring'.getCapacity = ring.getCapacity := by
  obtain ⟨ring', hrotate, hring'⟩ := rotate_eq_ok h
  exact ⟨ring', by rw [rotate, hrotate]; rfl, hring'⟩

theorem verdict_of_large {capacity : Nat} {status : DetectorStatus}
    (h : status.sizeOut > capacity) : status.verdict capacity = .discard := by
  cases status with
  | frameDetected size | moreDataNeeded size => exact if_pos h
  | noFrameDetected => rfl

theorem contents_eq_nil : ring.contents = [] ↔ ring.allocatedSize = 0 := by
  rw [← length_eq_zero_iff, length_contents]

theorem scan_empty (h : ring.allocatedSize = 0) :
    (scanner detector ring.getCapacity).scan ring.contents = ([], ring.contents) := by
  rw [contents_eq_nil.mpr h, scan_nil]

theorem contents_cons (h : ring.allocatedSize ≠ 0) :
    ring.contents = ring.byteAt 0 :: ring.contents.drop 1 := by
  have hfirst := @map_byteAt ring 0 1 (by omega)
  rw [drop_zero] at hfirst
  calc ring.contents = ring.contents.take 1 ++ ring.contents.drop 1 :=
        (take_append_drop 1 ring.contents).symm
    _ = _ := by rw [← hfirst]; rfl

theorem free_pos_iff : 0 < ring.getFreeSize ↔ ring.contents.length < ring.getCapacity := by
  rw [length_contents, getFreeSize, getCapacity]
  omega

/-- What has been taken from a ring, with what is left in it, is what it held; and there is room
in it. -/
structure Settled (ring ring' : CircularBuffer) (happened : List Happening) : Prop where
  bytes : happened.flatMap Happening.bytes ++ ring'.contents = ring.contents
  room : 0 < ring'.getFreeSize
  capacity : ring'.getCapacity = ring.getCapacity

theorem Settled.cons {ring1 ring' : CircularBuffer} {happened : List Happening} {h : Happening}
    (hs : Settled ring1 ring' happened) (hbytes : h.bytes ++ ring1.contents = ring.contents)
    (hcap : ring1.getCapacity = ring.getCapacity) : Settled ring ring' (h :: happened) where
  bytes := by rw [flatMap_cons, append_assoc, hs.bytes, hbytes]
  room := hs.room
  capacity := hs.capacity.trans hcap

theorem Settled.self (h : ring.contents.length < ring.getCapacity) : Settled ring ring [] :=
  ⟨rfl, free_pos_iff.mpr h, rfl⟩

theorem Settled.empty (h : ring.allocatedSize = 0) : Settled ring ring [] :=
  .self (by rw [length_contents, h]; exact ring.capacity_pos)

/-- Processing comes through and loses nothing. As long as there are buffers, what is taken is what
the scanner takes. -/
def Handled (detector : FrameDetector) (alloc : Nat → Framers.Allocator) (ring : CircularBuffer)
    (result : Except Assertion (CircularBuffer × Nat × List Happening)) : Prop :=
  ∃ ring' requests' happened, result = .ok (ring', requests', happened) ∧
    Settled ring ring' happened ∧
    ((∀ requests size, (alloc requests size).isSome) →
      (scanner detector ring.getCapacity).scan ring.contents =
        (frames (happened.filterMap Happening.out), ring'.contents))

theorem Handled.behind {amount : Nat} {h : Happening}
    {next : CircularBuffer → Except Assertion (CircularBuffer × Nat × List Happening)}
    (hpos : 0 < amount) (hle : amount ≤ ring.allocatedSize)
    (hbytes : h.bytes = ring.contents.take amount)
    (hscan : (scanner detector ring.getCapacity).scan ring.contents =
      (frames h.out.toList ++
          ((scanner detector ring.getCapacity).scan (ring.contents.drop amount)).1,
        ((scanner detector ring.getCapacity).scan (ring.contents.drop amount)).2))
    (hnext : ∀ ring1 : CircularBuffer, ring1.contents.length < ring.contents.length →
      Handled detector alloc ring1 (next ring1)) :
    Handled detector alloc ring (do
      let ring' ← rotate ring amount
      let (ring', requests, rest) ← next ring'
      return (ring', requests, h :: rest)) := by
  have hlen := ring.length_contents
  obtain ⟨ring1, hrotate, hcontents, hcap⟩ := rotate_spec hle
  obtain ⟨ring', requests', happened, hrun, hs, htaken⟩ :=
    hnext ring1 (by rw [hcontents, length_drop]; omega)
  rw [hcontents, hcap] at htaken
  refine ⟨ring', requests', h :: happened, ?_, hs.cons ?_ hcap, fun hserves => ?_⟩
  · simp only [bind, Except.bind, hrotate, hrun]
    rfl
  · rw [hbytes, hcontents, take_append_drop]
  · rw [hscan, htaken hserves]
    cases hout : h.out with
    | none =>
      rw [filterMap_cons_none hout]
      rfl
    | some out =>
      rw [filterMap_cons_some hout]
      exact Prod.ext (frames_append [out] _).symm rfl

theorem Handled.starved {size requests : Nat} (hpos : 0 < size) (hle : size ≤ ring.allocatedSize)
    (hanswer : alloc requests size = none) :
    Handled detector alloc ring (if ring.getFreeSize = 0 then do
        let ring' ← rotate ring size
        return (ring', requests + 1, [.noBuffer, .dropped (ring.contents.take size)])
      else return (ring, requests + 1, [.noBuffer])) := by
  have hstarved : ¬ ∀ requests size, (alloc requests size).isSome := fun hserves => by
    have hsome := hserves requests size
    rw [hanswer] at hsome
    cases hsome
  split
  · obtain ⟨ring1, hrotate, hcontents, hcap⟩ := rotate_spec hle
    refine ⟨ring1, requests + 1, [.noBuffer, .dropped (ring.contents.take size)], ?_, ?_,
      fun hserves => absurd hserves hstarved⟩
    · rw [hrotate]
      rfl
    · refine ⟨?_, free_pos_iff.mpr ?_, hcap⟩
      · rw [hcontents]
        simp [Happening.bytes]
      · have hlen := ring.length_contents
        have hfits : ring.allocatedSize ≤ ring.getCapacity := ring.fits
        rw [hcontents, length_drop, hcap]
        omega
  · next hfull =>
    exact ⟨ring, requests + 1, [.noBuffer], rfl, ⟨rfl, pos_of_ne_zero hfull, rfl⟩,
      fun hserves => absurd hserves hstarved⟩

/-- A bound of the number of bytes is never reached with the ring full, and no assertion fails. -/
theorem processRingFrom_spec (halloc : Honest alloc) {bound : Nat} (requests : Nat)
    (hbound : ring.contents.length ≤ bound) :
    Handled detector alloc ring (processRingFrom detector alloc context bound requests ring) := by
  induction bound generalizing requests ring with
  | zero =>
    rw [length_contents] at hbound
    have hzero : ring.allocatedSize = 0 := by omega
    exact ⟨ring, requests, [], rfl, .empty hzero, fun _ => scan_empty hzero⟩
  | succ bound ih =>
    unfold processRingFrom
    by_cases hzero : ring.allocatedSize = 0
    · exact ⟨ring, requests, [], if_pos hzero, .empty hzero, fun _ => scan_empty hzero⟩
    have hne := mt contents_eq_nil.mp hzero
    have hwindow : ring.contents.take (scanner detector ring.getCapacity).window =
        ring.contents :=
      take_of_length_le (by rw [length_contents]; exact ring.fits)
    have hlen := ring.length_contents
    have hfits : ring.allocatedSize ≤ ring.getCapacity := ring.fits
    have hreliable := reliable_detectIn detector ring.getCapacity
    have hnext : ∀ requests (ring1 : CircularBuffer),
        ring1.contents.length < ring.contents.length → Handled detector alloc ring1
          (processRingFrom detector alloc context bound requests ring1) :=
      fun requests _ hless => ih requests (by omega)
    have hfirst : [ring.byteAt 0] = ring.contents.take 1 := by
      rw [contents_cons hzero]
      rfl
    -- dropping a byte and going on is what the scanner does as well
    have hdiscard : (detector.detectIn ring.getCapacity ring.contents).verdict ring.getCapacity =
        .discard → (scanner detector ring.getCapacity).scan ring.contents =
          (scanner detector ring.getCapacity).scan (ring.contents.drop 1) := by
      intro hverdict
      rw [scan_of_discard hne (by rw [hwindow]; exact hverdict), drop_one]
    rw [if_neg hzero, detect_eq]
    cases hstatus : detector.detectIn ring.getCapacity ring.contents with
    | noFrameDetected =>
      exact .behind one_pos (by omega) hfirst (hdiscard (by rw [hstatus]; rfl)) (hnext requests)
    | moreDataNeeded size =>
      by_cases hlarge : (DetectorStatus.moreDataNeeded size).sizeOut > ring.getCapacity
      · simp only [bind, Except.bind, if_pos hlarge]
        refine .behind one_pos (by omega) hfirst (hdiscard ?_) (hnext requests)
        rw [hstatus]
        exact verdict_of_large hlarge
      · have hmore := hreliable.wait hstatus
        have hsmall : size ≤ ring.getCapacity := not_lt.mp hlarge
        refine ⟨ring, requests, [], ?_, .self (by omega), fun _ => scan_of_wait ?_⟩
        · simp only [bind, Except.bind, if_neg hlarge]
          rw [if_neg (by omega)]
          rfl
        · rw [hwindow]
          exact verdict_eq_wait.mpr ⟨size, hstatus, hsmall⟩
    | frameDetected size =>
      obtain ⟨hpos, hle⟩ := hreliable.frame hstatus
      have hsmall : ¬ (DetectorStatus.frameDetected size).sizeOut > ring.getCapacity := by
        change ¬ size > ring.getCapacity
        omega
      simp only [bind, Except.bind, if_neg hsmall]
      rw [if_neg (by omega)]
      cases hanswer : alloc requests size with
      | none => exact .starved hpos (by omega) hanswer
      | some bufferSize =>
        have hsize := halloc requests size bufferSize hanswer
        dsimp only
        rw [if_neg (by omega), peekBytes_eq_ok (by omega)]
        refine .behind hpos (by omega) rfl ?_ (hnext (requests + 1))
        exact scan_of_take hne (by
          rw [hwindow]
          exact verdict_eq_take.mpr ⟨hstatus, by omega⟩)

theorem processRing_spec {alloc : Framers.Allocator} (halloc : Serves alloc) {bound : Nat}
    (hbound : ring.contents.length ≤ bound) :
    ∃ ring' outs, processRing detector alloc context bound ring = .ok (ring', outs) ∧
      (scanner detector ring.getCapacity).scan ring.contents = (frames outs, ring'.contents) ∧
      ring'.getCapacity = ring.getCapacity := by
  have hhonest : Honest fun _ => alloc := by
    intro _ size bufferSize h
    obtain ⟨_, hsome, hle⟩ := halloc size
    cases hsome.symm.trans h
    exact hle
  obtain ⟨ring', requests, happened, hrun, hs, hscan⟩ :=
    @processRingFrom_spec detector (fun _ => alloc) context ring hhonest bound 0 hbound
  refine ⟨ring', happened.filterMap Happening.out, ?_, hscan fun _ size => ?_, hs.capacity⟩
  · rw [processRingFrom_out detector alloc context bound 0, hrun]
    rfl
  · obtain ⟨_, hsome, -⟩ := halloc size
    exact Option.isSome_of_eq_some hsome

def Waits (detector : FrameDetector) (ring : CircularBuffer) : Prop :=
  (scanner detector ring.getCapacity).scan ring.contents = ([], ring.contents)

theorem Waits.free_pos (h : Waits detector ring) : 0 < ring.getFreeSize := by
  have hlt := (@rest_spec _ (scanner detector ring.getCapacity) ring.contents
    ring.capacity_pos).1
  rw [h, length_contents] at hlt
  exact Nat.sub_pos_of_lt hlt

theorem feedRing_spec {alloc : Framers.Allocator} (halloc : Serves alloc) {bound : Nat} {data : Bytes}
    (hwaits : Waits detector ring) (hbound : data.length ≤ bound) :
    ∃ ring' outs, feedRing detector alloc context bound ring data = .ok (ring', [], outs) ∧
      (scanner detector ring.getCapacity).scan (ring.contents ++ data) =
        (frames outs, ring'.contents) ∧
      ring'.getCapacity = ring.getCapacity := by
  induction bound generalizing ring data with
  | zero =>
    have hnil := length_eq_zero_iff.mp (le_zero.mp hbound)
    subst hnil
    exact ⟨ring, [], rfl, by rw [append_nil]; exact hwaits, rfl⟩
  | succ bound ih =>
    unfold feedRing
    by_cases hdata : data = []
    · subst hdata
      exact ⟨ring, [], if_pos (.inl rfl), by rw [append_nil]; exact hwaits, rfl⟩
    have hpos := length_pos_iff.mpr hdata
    have hfree := hwaits.free_pos
    obtain ⟨ring1, hserialize, hcontents, hcap⟩ := serialize_eq_ok
      (show (data.take (min ring.getFreeSize data.length)).length ≤ ring.getFreeSize by
        rw [length_take]; omega)
    obtain ⟨ring2, outs, hprocess, hscan, hcap'⟩ :=
      @processRing_spec detector context ring1 alloc halloc ring1.getCapacity
        (by rw [length_contents]; exact ring1.fits)
    rw [hcap] at hscan hcap'
    rw [hcontents] at hscan
    have hwaits' : Waits detector ring2 := by
      have hrest := (@rest_spec _ (scanner detector ring.getCapacity)
        (ring.contents ++ data.take (min ring.getFreeSize data.length)) ring.capacity_pos).2
      rw [hscan] at hrest
      rw [Waits, hcap', hrest]
    obtain ⟨ring', outs', hrun, hscan', hcap''⟩ :=
      @ih ring2 (data.drop (min ring.getFreeSize data.length)) hwaits'
        (by rw [length_drop]; omega)
    refine ⟨ring', outs ++ outs', ?_, ?_, hcap''.trans hcap'⟩
    · rw [if_neg (by omega)]
      simp only [bind, Except.bind, hserialize, Runs.mapError_ok, hprocess, hrun]
      rfl
    · rw [hcap'] at hscan'
      rw [← take_append_drop (min ring.getFreeSize data.length) data, ← append_assoc,
        scan_append ring.capacity_pos, hscan]
      dsimp only
      rw [hscan', frames_append]

theorem dataIn_spec {alloc : Framers.Allocator} (halloc : Serves alloc) (hwaits : Waits detector ring) (data : Bytes)
    (context : FrameContext) :
    ∃ ring' outs, dataIn detector alloc ring data context = .ok (ring', outs) ∧
      (scanner detector ring.getCapacity).scan (ring.contents ++ data) =
        (frames outs, ring'.contents) ∧
      ring'.getCapacity = ring.getCapacity := by
  unfold dataIn
  by_cases hdata : data = []
  · subst hdata
    refine ⟨ring, _, if_pos rfl, ?_, rfl⟩
    rw [append_nil]
    exact hwaits
  · obtain ⟨ring', outs, hrun, hscan, hcap⟩ := @feedRing_spec detector context ring alloc halloc
      data.length data hwaits le_rfl
    refine ⟨ring', outs ++ [.dataReturnOut data context], ?_, ?_, hcap⟩
    · rw [if_neg hdata, processBuffer]
      simp only [bind, Except.bind, hrun]
      rfl
    · rw [hscan, frames_append]
      simp [frames]

end Runs

structure Call where
  data : Bytes
  context : FrameContext
  alloc : Framers.Allocator

def step (w : CircularBuffer × List Out) (call : Call) :
    Except Assertion (CircularBuffer × List Out) := do
  let (ring, outs) ← dataIn detector call.alloc w.1 call.data call.context
  return (ring, w.2 ++ outs)

def run (calls : List Call) :
    Except Assertion (CircularBuffer × List Out) :=
  calls.foldlM (step detector) (ring, [])

/-- What the calls so far have led to is what the scanner makes of their chunks. -/
def Scanned (size : Nat) (past : List Call)
    (w : CircularBuffer × List Out) : Prop :=
  w.1.getCapacity = size ∧
    (scanner detector size).scan (past.flatMap Call.data) = (frames w.2, w.1.contents)

theorem Scanned.step {detector : FrameDetector} {size : Nat} {past : List Call}
    {w : CircularBuffer × List Out} (h : Scanned detector size past w) {call : Call}
    (hserves : Serves call.alloc) :
    ∃ w', step detector w call = .ok w' ∧ Scanned detector size (past ++ [call]) w' := by
  obtain ⟨rfl, hscan⟩ := h
  have hwaits : Waits detector w.1 := by
    have hrest := (@rest_spec _ (scanner detector w.1.getCapacity)
      (past.flatMap Call.data) w.1.capacity_pos).2
    rwa [hscan] at hrest
  obtain ⟨ring, outs, hrun, hscan', hcap⟩ := dataIn_spec hserves hwaits call.data call.context
  refine ⟨(ring, w.2 ++ outs), ?_, hcap, ?_⟩
  · rw [FrameAccumulator.step, hrun]
    rfl
  · rw [flatMap_append, flatMap_singleton, scan_append w.1.capacity_pos, hscan]
    dsimp only
    rw [hscan', frames_append]

/-- Whatever the chunks, the accumulator takes the frames that the scanner takes from all of the
stream, and leaves in its ring what the scanner leaves. -/
theorem run_spec {size : Nat} (hsize : 0 < size) (calls : List Call)
    (hserves : ∀ call ∈ calls, Serves call.alloc) :
    ∃ ring outs, run detector (.new size hsize) calls = .ok (ring, outs) ∧
      (scanner detector size).scan (calls.flatMap Call.data) = (frames outs, ring.contents) := by
  have hnew : Scanned detector size [] (.new size hsize, []) :=
    ⟨length_replicate, scan_nil⟩
  obtain ⟨⟨ring, outs⟩, hrun, -, hscan⟩ := Runs.total_runM
    (I := Scanned detector size) (C := fun _ call => Serves call.alloc)
    (fun past w call h hserves => h.step hserves) hnew
    (Runs.alongM_of_forall (fun call hcall _ => hserves call hcall) _)
  exact ⟨ring, outs, hrun, hscan⟩

/-- Two ways to cut one stream into chunks lead to the same frames and the same bytes in the
ring. -/
theorem frames_independent_of_chunks (size : Nat) (hsize : 0 < size)
    (calls calls' : List Call) (hserves : ∀ call ∈ calls ++ calls', Serves call.alloc)
    (hstream : calls.flatMap Call.data = calls'.flatMap Call.data) :
    ∃ ring outs ring' outs', run detector (.new size hsize) calls = .ok (ring, outs) ∧
      run detector (.new size hsize) calls' = .ok (ring', outs') ∧
      frames outs = frames outs' ∧ ring.contents = ring'.contents := by
  obtain ⟨ring, outs, hrun, hscan⟩ := run_spec detector hsize calls
    fun call hcall => hserves call (mem_append_left _ hcall)
  obtain ⟨ring', outs', hrun', hscan'⟩ := run_spec detector hsize calls'
    fun call hcall => hserves call (mem_append_right _ hcall)
  rw [hstream, hscan', Prod.mk.injEq] at hscan
  exact ⟨ring, outs, ring', outs', hrun, hrun', hscan.1.symm, hscan.2.symm⟩

def noisyFrame : Bytes :=
  0 :: frame [7]

theorem frames_independent_of_chunks_noisy :
    Serves some ∧ ∃ ring outs ring' outs',
      run .fprime (.new 16 (by decide)) [⟨noisyFrame, {}, some⟩] = .ok (ring, outs) ∧
      run .fprime (.new 16 (by decide)) (noisyFrame.map fun byte => ⟨[byte], {}, some⟩) =
        .ok (ring', outs') ∧
      frames outs = frames outs' ∧ ring.contents = ring'.contents := by
  have hserves : Serves some := fun size => ⟨size, rfl, le_rfl⟩
  refine ⟨hserves, frames_independent_of_chunks .fprime 16 (by decide) _ _ ?_ ?_⟩
  · intro call hcall
    simp only [mem_append, mem_singleton, mem_map] at hcall
    rcases hcall with rfl | ⟨byte, -, rfl⟩ <;> exact hserves
  · simp [flatMap_map]

end Fprime.Svc.FrameAccumulator
