import Fprime.Svc.AosDeframer

/-!
# The AOS deframer takes any frames

Whatever the frames hold and whatever the allocator answers, no assertion fails and no index is out
of range, every frame goes back once, and no packet buffer is lost or used twice.
-/

namespace Fprime.Svc.AosDeframer

open Fw Utils Ccsds Lib.Bytes List Nat Option SpacePacketHeader

/-! ## Sizes

A header of which the first bytes do not tell a size either tells none with more bytes, or tells
one that goes beyond those first bytes. -/

def packetSize (config : Config) (packet : Bytes) : Nat :=
  let pvn := getPacketVersion (packet.getD 0 0)
  if ~~~config.pvnMask &&& ((1 : UInt8) <<< pvn) ≠ 0 then 0
  else if pvn = 0 then sizeSppPacket packet
  else sizeEppPacket packet

section
variable {p q : Bytes}

theorem getD_zero_append (hp : p ≠ []) : (p ++ q).getD 0 0 = p.getD 0 0 := by
  obtain ⟨b, p, rfl⟩ := exists_cons_of_ne_nil hp
  rfl

theorem take_drop_append {first size : Nat} (h : first + size ≤ p.length) :
    ((p ++ q).drop first).take size = (p.drop first).take size := by
  rw [drop_append_of_le_length (by omega),
    take_append_of_le_length (by rw [length_drop]; omega)]

theorem sizeSppPacket_append (h : sizeSppPacket p = 0) :
    sizeSppPacket (p ++ q) = 0 ∨ p.length < sizeSppPacket (p ++ q) := by
  by_cases hp : 6 ≤ p.length
  · -- The header is complete, so more bytes do not change it.
    have hsame : deserialize (p ++ q) = deserialize p := by
      simp only [deserialize, u16At]
      rw [take_drop_append (by omega), take_drop_append (by omega), take_drop_append (by omega)]
    have hlength : ∀ {r : Bytes}, 6 ≤ r.length → ¬ r.length < serializedSize :=
      fun h => by simpa [serializedSize] using h
    rw [sizeSppPacket, if_neg (hlength hp)] at h
    rw [sizeSppPacket, if_neg (hlength (by rw [length_append]; omega)), hsame]
    exact .inl h
  · have hsize : ∀ r, sizeSppPacket r = 0 ∨ 6 < sizeSppPacket r := by
      intro r
      simp only [sizeSppPacket]
      split
      · exact .inl rfl
      · split
        · exact .inl rfl
        · exact .inr (by simp only [serializedSize]; omega)
    exact (hsize (p ++ q)).imp_right fun hlt => by omega

theorem eppLengthField_pos (first : UInt8) : 0 < (eppLengthField first).1 := by
  simp only [eppLengthField]
  split
  · decide
  · split
    · decide
    · exact one_pos

theorem sizeEppPacket_append (hp : p ≠ []) (h : sizeEppPacket p = 0) :
    sizeEppPacket (p ++ q) = 0 ∨ p.length < sizeEppPacket (p ++ q) := by
  simp only [sizeEppPacket, getD_zero_append hp] at h ⊢
  generalize p.getD 0 0 = first at h ⊢
  have hpos := eppLengthField_pos first
  split at h
  · rename_i hidle
    exact .inl (if_pos hidle)
  · rename_i hidle
    rw [if_neg hidle]
    split at h
    · split
      · exact .inl rfl
      · exact .inr (by omega)
    · omega

theorem packetSize_append (config : Config) (hp : p ≠ []) (h : packetSize config p = 0) :
    packetSize config (p ++ q) = 0 ∨ p.length < packetSize config (p ++ q) := by
  simp only [packetSize, getD_zero_append hp] at h ⊢
  split_ifs at h ⊢
  · exact .inl rfl
  · exact sizeSppPacket_append h
  · exact sizeEppPacket_append hp h

end

theorem pvn_of_mask : ∀ (mask : Fin 256) (pvn : Fin 8),
    UInt8.ofFin mask &&& ~~~validPvnMask = 0 →
    ~~~UInt8.ofFin mask &&& ((1 : UInt8) <<< UInt8.ofNat pvn) = 0 → pvn = 0 ∨ pvn = 7 := by
  decide +kernel

theorem pvn_of_enabled {config : Config} (hconfig : config.Valid) {first : UInt8}
    (h : ¬ ~~~config.pvnMask &&& ((1 : UInt8) <<< getPacketVersion first) ≠ 0) :
    getPacketVersion first = 0 ∨ getPacketVersion first = 7 := by
  have hlt : (getPacketVersion first).toNat < 8 := by
    have := first.toNat_lt
    simp only [getPacketVersion, UInt8.toNat_shiftRight, shiftRight_eq_div_pow]
    simp
    omega
  have hmask := pvn_of_mask config.pvnMask.toFin ⟨_, hlt⟩ hconfig.onlyPvn
    (by simpa using not_not.mp h)
  rw [← UInt8.toNat_inj, ← UInt8.toNat_inj]
  simpa [Fin.ext_iff] using hmask

namespace Out

def obtained : Out → Option Nat
  | .allocate _ (some buffer) => some buffer.request
  | _ => none

def sent : Out → Option Nat
  | .dataOut buffer _ => some buffer.request
  | _ => none

def freed : Out → Option Nat
  | .deallocate buffer => some buffer.request
  | _ => none

def returned : Out → Option (Bytes × FrameContext)
  | .dataReturnOut data context => some (data, context)
  | _ => none

end Out

/-- The frames went back in order; each buffer obtained was sent on, given back or is held, and that
once. -/
structure Ledger (frames : List (Bytes × FrameContext)) (requests : Nat) (outs : List Out)
    (held : Option Nat) : Prop where
  returned : outs.filterMap Out.returned = frames
  fresh : ∀ i ∈ outs.filterMap Out.obtained, i < requests
  nodup : (outs.filterMap Out.obtained).Nodup
  perm : (outs.filterMap Out.obtained).Perm
    (outs.filterMap Out.sent ++ outs.filterMap Out.freed ++ held.toList)

namespace Ledger

variable {frames : List (Bytes × FrameContext)} {requests : Nat} {outs : List Out}
  {held : Option Nat} {out : Out}

theorem quiet (h : Ledger frames requests outs held) (hobtained : out.obtained = none)
    (hsent : out.sent = none) (hfreed : out.freed = none) (hreturned : out.returned = none) :
    Ledger frames requests (outs ++ [out]) held := by
  constructor <;> simp only [filterMap_append, filterMap_cons, filterMap_nil,
    hobtained, hsent, hfreed, hreturned, append_nil]
  exacts [h.returned, h.fresh, h.nodup, h.perm]

theorem giveBack (h : Ledger frames requests outs held) (data : Bytes)
    (context : FrameContext) :
    Ledger (frames ++ [(data, context)]) requests (outs ++ [.dataReturnOut data context]) held := by
  constructor <;> simp only [filterMap_append, filterMap_cons, filterMap_nil,
    Out.obtained, Out.sent, Out.freed, Out.returned, append_nil]
  exacts [by rw [h.returned], h.fresh, h.nodup, h.perm]

theorem refused (h : Ledger frames requests outs held) (size : Nat) :
    Ledger frames (requests + 1) (outs ++ [.allocate size none]) held := by
  have hquiet : Ledger frames requests (outs ++ [.allocate size none]) held :=
    h.quiet rfl rfl rfl rfl
  exact { hquiet with fresh := fun i hi => lt_succ_of_lt (hquiet.fresh i hi) }

theorem obtain (h : Ledger frames requests outs none) (size : Nat) (bytes : Bytes) :
    Ledger frames (requests + 1) (outs ++ [.allocate size (some ⟨requests, bytes⟩)])
      (some requests) := by
  have hnew : requests ∉ outs.filterMap Out.obtained := fun hi => lt_irrefl _ (h.fresh _ hi)
  constructor <;> simp only [filterMap_append, filterMap_cons, filterMap_nil,
    Out.obtained, Out.sent, Out.freed, Out.returned, append_nil]
  · exact h.returned
  · intro i hi
    rcases mem_append.mp hi with hi | hi
    · exact lt_succ_of_lt (h.fresh i hi)
    · exact mem_singleton.mp hi ▸ lt_succ_self _
  · exact nodup_append.mpr ⟨h.nodup, nodup_singleton _, fun a ha b hb hab =>
      hnew (mem_singleton.mp hb ▸ hab ▸ ha)⟩
  · exact (by simpa using h.perm : List.Perm _ _).append_right _

theorem send {buffer : Buffer} (h : Ledger frames requests outs (some buffer.request))
    (context : FrameContext) :
    Ledger frames requests (outs ++ [.dataOut buffer context]) none := by
  constructor <;> simp only [filterMap_append, filterMap_cons, filterMap_nil,
    Out.obtained, Out.sent, Out.freed, Out.returned, append_nil]
  · exact h.returned
  · exact h.fresh
  · exact h.nodup
  · refine h.perm.trans ?_
    simp only [toList_some, toList_none, append_nil, append_assoc]
    exact perm_append_comm.append_left _

theorem free {buffer : Buffer} (h : Ledger frames requests outs (some buffer.request)) :
    Ledger frames requests (outs ++ [.deallocate buffer]) none := by
  constructor <;> simp only [filterMap_append, filterMap_cons, filterMap_nil,
    Out.obtained, Out.sent, Out.freed, Out.returned, append_nil]
  · exact h.returned
  · exact h.fresh
  · exact h.nodup
  · simpa using h.perm

end Ledger

section
variable {bytes data : Bytes} {a b first last : Nat} {p : Prop} [Decidable p]

@[simp] theorem require_eq_ok (h : p) (assertion : Assertion) : require p assertion = .ok () :=
  if_pos h

@[simp] theorem checkedSub_eq_ok (h : b ≤ a) : checkedSub a b = .ok (a - b) :=
  if_pos h

@[simp] theorem slice_eq_ok (h : first ≤ last) (hlast : last ≤ bytes.length) :
    slice bytes first last = .ok ((bytes.drop first).take (last - first)) :=
  if_pos ⟨h, hlast⟩

@[simp] theorem copyInto_eq_ok (h : a + data.length ≤ bytes.length) :
    copyInto bytes a data = .ok (copyAt bytes a data) :=
  if_pos h

end

/-- A packet with a buffer has not filled it; one without has a header that does not tell its
size. -/
structure Steady (config : Config) (p : SpanningPacketState) : Prop where
  header : p.headerBuf.length = headerBufSize
  unfilled : ∀ b, p.buffer = some b → p.bytesReceived < b.bytes.length
  unsized : p.buffer = none → p.bytesReceived ≤ headerBufSize ∧
    (0 < p.bytesReceived → packetSize config (p.headerBuf.take p.bytesReceived) = 0)

namespace State

variable {env : Env} {s : State} {frames : List (Bytes × FrameContext)}
  {input data : Bytes} {context : FrameContext} {pos size : Nat}

def Balanced (frames : List (Bytes × FrameContext)) (s : State) : Prop :=
  Ledger frames s.requests s.outs (s.spanning.buffer.map (·.request))

structure Sound (env : Env) (frames : List (Bytes × FrameContext)) (s : State) : Prop where
  balanced : s.Balanced frames
  steady : Steady env.config s.spanning

theorem Sound.event (h : s.Sound env frames) (event : Event) :
    (s.log (.event event)).Sound env frames :=
  ⟨h.balanced.quiet rfl rfl rfl rfl, h.steady⟩

theorem Sound.notifyError (h : s.Sound env frames) (error : FrameError) :
    (s.notifyErrorIfConnected env error).Sound env frames := by
  unfold notifyErrorIfConnected
  split
  · exact ⟨h.balanced.quiet rfl rfl rfl rfl, h.steady⟩
  · exact h

theorem Sound.giveBack (h : s.Sound env frames) (data : Bytes) (context : FrameContext) :
    (s.log (.dataReturnOut data context)).Sound env (frames ++ [(data, context)]) :=
  ⟨h.balanced.giveBack data context, h.steady⟩

theorem abandon_spanning : (s.abandonSpanningPacket env).spanning = { s.spanning with
    buffer := none
    bytesReceived := 0
    context := { s.spanning.context with pvn := .invalidUninitialized } } := by
  unfold abandonSpanningPacket
  split <;> rename_i hbuffer
  · rfl
  · simp [modSpanning, setPvn, hbuffer]

theorem abandon_sound (h : s.Balanced frames)
    (hheader : s.spanning.headerBuf.length = headerBufSize) :
    (s.abandonSpanningPacket env).Sound env frames where
  balanced := by
    unfold abandonSpanningPacket
    split <;> rename_i hbuffer
    · rw [Balanced, hbuffer] at h
      exact Ledger.free (h.quiet rfl rfl rfl rfl)
    · exact h
  steady := by
    rw [abandon_spanning]
    exact ⟨hheader, fun _ hb => (nomatch hb), fun _ => ⟨zero_le _, fun h => (nomatch h)⟩⟩

theorem Sound.abandon (h : s.Sound env frames) : (s.abandonSpanningPacket env).Sound env frames :=
  abandon_sound h.balanced h.steady.header

theorem fillBody_sound {b : Buffer} (h : s.Balanced frames)
    (hheader : s.spanning.headerBuf.length = headerBufSize) (hb : s.spanning.buffer = some b)
    (hroom : s.spanning.bytesReceived ≤ b.bytes.length) (hsize : 0 < b.bytes.length)
    (hpos : pos ≤ input.length) :
    ∃ s' n, s.fillBody env input pos = .ok (s', n) ∧ s'.Sound env frames := by
  set toBody := min (input.length - pos) (b.bytes.length - s.spanning.bytesReceived) with hto
  have hpart : ((input.drop pos).take toBody).length = toBody := by
    rw [length_take, length_drop]
    omega
  set bytes := copyAt b.bytes s.spanning.bytesReceived ((input.drop pos).take toBody) with hbytes
  have hfits : s.spanning.bytesReceived + ((input.drop pos).take toBody).length ≤
      b.bytes.length := by
    rw [hpart]
    omega
  have hlength : bytes.length = b.bytes.length := length_copyAt hfits
  let filled : State := s.modSpanning fun p =>
    { p with buffer := some { b with bytes }, bytesReceived := s.spanning.bytesReceived + toBody }
  have hbalanced : filled.Balanced frames := by
    rw [Balanced, hb] at h
    exact h
  have hfill : s.fillBody env input pos =
      if b.bytes.length ≤ s.spanning.bytesReceived + toBody then
        .ok ((((filled.log (.dataOut { b with bytes } s.spanning.context)).modSpanning
          fun p => { p with buffer := none }).abandonSpanningPacket env), pos + toBody)
      else .ok (filled, pos + toBody) := by
    simp only [fillBody, hb, map_some, getD_some, checkedSub_eq_ok hpos,
      checkedSub_eq_ok hroom, bind, Except.bind, ← hto]
    rw [slice_eq_ok (by omega) (by omega), Nat.add_sub_cancel_left]
    dsimp only
    rw [copyInto_eq_ok hfits]
    simp only [filled, modSpanning, hsize, true_and, ge_iff_le]
    rfl
  rw [hfill]
  split
  · exact ⟨_, _, rfl, abandon_sound (Ledger.send hbalanced _) hheader⟩
  · rename_i hshort
    refine ⟨_, _, rfl, hbalanced, hheader, fun b' hb' => ?_, fun hnone => (nomatch hnone)⟩
    cases hb'
    simp only [filled, modSpanning, hlength]
    omega

theorem allocFailed_sound {buffer : Option Buffer}
    (h : Ledger frames s.requests s.outs (buffer.map (·.request)))
    (hheader : s.spanning.headerBuf.length = headerBufSize)
    (hreceived : s.spanning.bytesReceived ≤ size) (hpos : pos ≤ input.length) :
    ∃ s' n, s.allocFailed env input size pos buffer = .ok (s', n) ∧ s'.Sound env frames := by
  simp only [allocFailed]
  rw [checkedSub_eq_ok (by exact hreceived), checkedSub_eq_ok hpos]
  exact ⟨_, _, rfl, abandon_sound (Ledger.quiet h rfl rfl rfl rfl) hheader⟩

theorem loadHeader_eq_ok {b : Buffer} (hheader : s.spanning.headerBuf.length = headerBufSize)
    (hshort : s.spanning.bytesReceived ≤ headerBufSize)
    (hroom : s.spanning.bytesReceived ≤ b.bytes.length) :
    ∃ bytes : Bytes, bytes.length = b.bytes.length ∧ s.loadHeader b =
      .ok (s.modSpanning fun p => { p with buffer := some { b with bytes } }) := by
  have hfits : 0 + ((s.spanning.headerBuf.drop 0).take (s.spanning.bytesReceived - 0)).length ≤
      b.bytes.length := by
    rw [length_take]
    omega
  refine ⟨_, length_copyAt hfits, ?_⟩
  simp only [loadHeader, require_eq_ok hshort, require_eq_ok hroom, bind, Except.bind]
  rw [slice_eq_ok (zero_le _) (by omega)]
  dsimp only
  rw [copyInto_eq_ok hfits]
  rfl

theorem startPacket_sound (h : s.Balanced frames)
    (hheader : s.spanning.headerBuf.length = headerBufSize) (hb : s.spanning.buffer = none)
    (hshort : s.spanning.bytesReceived ≤ headerBufSize)
    (hreceived : s.spanning.bytesReceived ≤ size) (hpos : pos ≤ input.length) :
    ∃ s' n, s.startPacket env input size pos = .ok (s', n) ∧ s'.Sound env frames := by
  rw [Balanced, hb] at h
  simp only [startPacket, allocate]
  cases hanswer : (env.alloc s.requests size).filter (· ≠ []) with
  | none => exact allocFailed_sound (h.refused size) hheader hreceived hpos
  | some bytes =>
    have hvalid : 0 < bytes.length := by
      have := (filter_eq_some_iff.mp hanswer).2
      exact length_pos_iff.mpr (by simpa using this)
    have hobtained := h.obtain size bytes
    simp only [map_some]
    split
    · rename_i hroom
      obtain ⟨loaded, hlength, hload⟩ := @loadHeader_eq_ok (({ s with requests := s.requests + 1 } :
        State).log (.allocate size (some ⟨s.requests, bytes⟩))) ⟨s.requests, bytes⟩ hheader hshort
        (hreceived.trans hroom)
      rw [hload]
      refine fillBody_sound (b := ⟨s.requests, loaded⟩) hobtained hheader rfl ?_ ?_ hpos
      · exact hlength ▸ hreceived.trans hroom
      · exact hlength ▸ hvalid
    · exact allocFailed_sound hobtained hheader hreceived hpos

theorem sizePacket_eq_ok (hconfig : env.config.Valid) {packet : Bytes} (hne : packet ≠ []) :
    ∃ s' pvn, sizePacket env s packet = .ok (s', packetSize env.config packet) ∧
      s'.spanning = { s.spanning with context := { s.spanning.context with pvn } } ∧
      (s.Balanced frames → s'.Balanced frames) := by
  simp only [sizePacket, packetSize, require_eq_ok hne, bind, Except.bind]
  split
  · exact ⟨_, _, rfl, rfl, fun h => h.quiet rfl rfl rfl rfl⟩
  · rename_i henabled
    rcases pvn_of_enabled hconfig henabled with hpvn | hpvn
    · simp only [hpvn, if_true]
      exact ⟨_, _, rfl, rfl, id⟩
    · simp only [hpvn, if_neg (by decide : ¬ (7 : UInt8) = 0), if_true]
      exact ⟨_, _, rfl, rfl, id⟩

theorem takeHeader_eq_ok (hheader : s.spanning.headerBuf.length = headerBufSize)
    (hshort : s.spanning.bytesReceived ≤ headerBufSize) {toHeader : Nat}
    (hto : toHeader = min input.length (headerBufSize - s.spanning.bytesReceived)) :
    ∃ headerBuf : Bytes, headerBuf.length = headerBufSize ∧
      headerBuf.take (s.spanning.bytesReceived + toHeader) =
        s.spanning.headerBuf.take s.spanning.bytesReceived ++ input.take toHeader ∧
      s.takeHeader input = .ok (s.modSpanning fun p => { p with
        headerBuf, bytesReceived := s.spanning.bytesReceived + toHeader }, toHeader) := by
  simp only [takeHeader, checkedSub_eq_ok hshort, bind, Except.bind, ← hto]
  by_cases hzero : toHeader = 0
  · refine ⟨s.spanning.headerBuf, hheader, by simp [hzero], ?_⟩
    rw [if_pos hzero, hzero]
    rfl
  · have htaken : (input.take toHeader).length = toHeader := by
      rw [length_take]
      omega
    have hfits : s.spanning.bytesReceived + (input.take toHeader).length ≤
        s.spanning.headerBuf.length := by omega
    refine ⟨copyAt s.spanning.headerBuf s.spanning.bytesReceived (input.take toHeader),
      (length_copyAt hfits).trans hheader, ?_, ?_⟩
    · rw [copyAt, take_left']
      rw [length_append, length_take, htaken]
      omega
    · rw [if_neg hzero, require_eq_ok (by omega), copyInto_eq_ok hfits]
      rfl

theorem giveBack_eq_ok {toHeader : Nat} (h : s.spanning.bytesReceived - size ≤ toHeader) :
    s.giveBack size toHeader = .ok (s.modSpanning fun p =>
      { p with bytesReceived := min size s.spanning.bytesReceived },
      toHeader - (s.spanning.bytesReceived - size)) := by
  simp only [giveBack, require_eq_ok h]
  split
  · rename_i hlt
    rw [min_eq_left hlt.le]
    rfl
  · rename_i hle
    have hnone : s.spanning.bytesReceived - size = 0 := by omega
    rw [min_eq_right (by omega), hnone]
    rfl

/-- More header bytes never tell a size that ends within those there were before, so what is too
much was taken just now. -/
theorem surplus_le {received toHeader : Nat} {headerBuf : Bytes}
    (hlength : received ≤ headerBuf.length)
    (hunsized : 0 < received → packetSize env.config (headerBuf.take received) = 0)
    (hsize : packetSize env.config (headerBuf.take received ++ input) ≠ 0) :
    received + toHeader - packetSize env.config (headerBuf.take received ++ input) ≤ toHeader := by
  rcases Nat.eq_zero_or_pos received with rfl | hpos
  · omega
  · have htaken : (headerBuf.take received).length = received := length_take_of_le hlength
    have hne : headerBuf.take received ≠ [] := by
      rw [← length_pos_iff, htaken]
      exact hpos
    have hgrown := packetSize_append (q := input) env.config hne (hunsized hpos)
    omega

theorem appendToSpanningPacket_sound (hconfig : env.config.Valid) (h : s.Sound env frames)
    (hinput : input ≠ []) :
    ∃ s' n, s.appendToSpanningPacket env input = .ok (s', n) ∧ s'.Sound env frames := by
  have hheader := h.steady.header
  have height : headerBufSize = 8 := rfl
  simp only [appendToSpanningPacket, require_eq_ok hinput, bind, Except.bind]
  cases hb : s.spanning.buffer with
  | some b =>
    have hroom := h.steady.unfilled b hb
    rw [if_pos isSome_some]
    exact fillBody_sound h.balanced hheader hb hroom.le (by omega) (zero_le _)
  | none =>
    obtain ⟨hshort, hunsized⟩ := h.steady.unsized hb
    have hlength := length_pos_iff.mpr hinput
    generalize hto : min input.length (headerBufSize - s.spanning.bytesReceived) = toHeader
    obtain ⟨headerBuf, hlen, hread, htake⟩ := takeHeader_eq_ok hheader hshort hto.symm
    have hle : s.spanning.bytesReceived + toHeader ≤ headerBuf.length := by omega
    have hne : headerBuf.take (s.spanning.bytesReceived + toHeader) ≠ [] := by
      rw [← length_pos_iff, length_take]
      omega
    generalize hs1 : (s.modSpanning fun p =>
      { p with headerBuf, bytesReceived := s.spanning.bytesReceived + toHeader }) = s1 at htake
    have hspanning1 : s1.spanning = { s.spanning with headerBuf, bytesReceived :=
      s.spanning.bytesReceived + toHeader } := by rw [← hs1]; rfl
    have hbalanced1 : s1.Balanced frames := by rw [← hs1]; exact h.balanced
    obtain ⟨s2, pvn, hsize, hspanning2, hbalanced2⟩ :=
      @sizePacket_eq_ok env s1 frames hconfig _ hne
    rw [if_neg (by simp), htake]
    simp only [hspanning1, slice_eq_ok (Nat.zero_le _) hle, drop_zero, Nat.sub_zero, hsize]
    rw [hspanning1] at hspanning2
    split
    · rename_i hzero
      refine ⟨_, _, rfl, hbalanced2 hbalanced1, ?_⟩
      rw [hspanning2]
      have hheld : s.spanning.bytesReceived + toHeader ≤ headerBufSize := by omega
      exact ⟨hlen, fun b hb' => (nomatch hb.symm.trans hb'), fun _ => ⟨hheld, fun _ => hzero⟩⟩
    · rename_i hnonzero
      rw [hread] at hnonzero ⊢
      have hsurplus := @surplus_le env _ _ toHeader _ (by omega) hunsized hnonzero
      rw [giveBack_eq_ok (by rw [hspanning2]; exact hsurplus)]
      refine startPacket_sound (hbalanced2 hbalanced1) ?_ ?_ ?_ ?_ ?_ <;>
        simp only [modSpanning, hspanning2]
      · exact hlen
      · exact hb
      · omega
      · omega
      · omega

theorem extractLoop_sound (hconfig : env.config.Valid) (zone : Bytes) (bound current : Nat)
    (h : s.Sound env frames) :
    ∃ s', s.extractLoop env zone bound current = .ok s' ∧ s'.Sound env frames := by
  induction bound generalizing current s with
  | zero => exact ⟨s, rfl, h⟩
  | succ bound ih =>
    simp only [extractLoop]
    split
    · rename_i hlt
      obtain ⟨s1, n, happend, h1⟩ := appendToSpanningPacket_sound hconfig h.abandon
        (by simpa using hlt : zone.drop current ≠ [])
      simp only [happend, bind, Except.bind]
      split
      · exact ⟨s1, rfl, h1⟩
      · exact ih _ h1
    · exact ⟨s, rfl, h⟩

theorem finishSpanningPacket_sound (hconfig : env.config.Valid) {zone : Bytes} {fhp : Nat}
    (hfhp : fhp ≤ zone.length) (h : s.Sound env frames) :
    ∃ s', s.finishSpanningPacket env zone fhp = .ok s' ∧ s'.Sound env frames := by
  unfold finishSpanningPacket
  split
  · rename_i hboth
    obtain ⟨s1, n, happend, h1⟩ := appendToSpanningPacket_sound hconfig h
      (by rw [← length_pos_iff, length_take, length_drop]; omega :
        (zone.drop 0).take (fhp - 0) ≠ [])
    rw [slice_eq_ok (zero_le _) hfhp]
    simp only [happend, bind, Except.bind]
    exact ⟨_, rfl, h1.abandon⟩
  · exact ⟨s, rfl, h⟩

theorem extractPackets_sound (hconfig : env.config.Valid)
    (hdata : env.config.fixedFrameSize ≤ data.length) (h : s.Sound env frames) :
    ∃ s', s.extractPackets env data = .ok s' ∧ s'.Sound env frames := by
  have hmin := hconfig.min
  simp only [extractPackets]
  generalize (if env.config.fecfEnabled then aosTrailerSize else 0) = trailer at hmin ⊢
  simp only [aosHeaderSize, mPduHeaderSize] at hmin ⊢
  rw [slice_eq_ok (by omega) (by omega), checkedSub_eq_ok (by omega)]
  simp only [bind, Except.bind]
  rw [slice_eq_ok (by omega) (by omega)]
  have hzone : (data.drop (6 + 2)).take (env.config.fixedFrameSize - trailer - (6 + 2)) ≠ [] := by
    rw [← length_pos_iff, length_take, length_drop]
    omega
  generalize (data.drop (6 + 2)).take (env.config.fixedFrameSize - trailer - (6 + 2)) = zone at hzone
  generalize u16At _ 0 = fhp
  dsimp only
  split
  · exact ⟨_, rfl, h.event _⟩
  split
  · split
    · obtain ⟨s1, n, happend, h1⟩ := appendToSpanningPacket_sound hconfig h hzone
      simp only [happend]
      exact ⟨_, rfl, h1⟩
    · exact ⟨_, rfl, h⟩
  split
  · exact ⟨_, rfl, ((h.event _).notifyError _).abandon⟩
  · rename_i hinside
    obtain ⟨s1, hfinish, h1⟩ := finishSpanningPacket_sound hconfig (le_of_not_ge hinside) h
    simp only [hfinish]
    exact extractLoop_sound hconfig _ _ _ h1

theorem checkFrameCount_sound (h : s.Sound env frames) (signaling : UInt32) :
    (s.checkFrameCount env signaling).Sound env frames := by
  have hchecked : ∀ {s1 : State} {received : UInt32}, s1.Sound env frames →
      ({ s1 with vcFrameCount := received } : State).Sound env frames :=
    fun h1 => ⟨h1.balanced, h1.steady⟩
  have hgap : ∀ {p : Prop} [Decidable p] (received expected : UInt32),
      (if p then ((s.log (.event (.vcFrameCountGap env.config.vcId received expected))
        ).notifyErrorIfConnected env .aosVcFrameCountGap).abandonSpanningPacket env
      else s).Sound env frames := by
    intro p _ received expected
    split
    · exact ((h.event _).notifyError _).abandon
    · exact h
  exact hchecked (hgap _ _)

theorem parseAndValidateHeader_sound (hdata : aosHeaderSize ≤ data.length)
    (h : s.Sound env frames) : ∃ s' accepted,
      s.parseAndValidateHeader env data = .ok (s', accepted) ∧ s'.Sound env frames := by
  simp only [parseAndValidateHeader, slice_eq_ok (zero_le _) hdata, Lib.Runs.mapError_ok, bind,
    Except.bind]
  split
  · exact ⟨_, _, rfl, (h.event _).notifyError _⟩
  split
  · exact ⟨_, _, rfl, (h.event _).notifyError _⟩
  split
  · exact ⟨_, _, rfl, (h.event _).notifyError _⟩
  · exact ⟨_, _, rfl, checkFrameCount_sound h _⟩

theorem validateFecf_sound (hsize : aosTrailerSize ≤ env.config.fixedFrameSize)
    (hdata : env.config.fixedFrameSize ≤ data.length) (h : s.Sound env frames) :
    ∃ s' valid, s.validateFecf env data = .ok (s', valid) ∧ s'.Sound env frames := by
  simp only [validateFecf, checkedSub_eq_ok hsize, bind, Except.bind]
  rw [slice_eq_ok (zero_le _) (by omega), slice_eq_ok (by omega) (by omega)]
  simp only [Lib.Runs.mapError_ok]
  split
  · exact ⟨_, _, rfl, (h.event _).notifyError _⟩
  · exact ⟨_, _, rfl, h⟩

theorem acceptFrame_sound (hconfig : env.config.Valid)
    (hdata : env.config.fixedFrameSize ≤ data.length) (context : FrameContext)
    (h : s.Sound env frames) : ∃ s', s.acceptFrame env data context = .ok s' ∧
      s'.Sound env (frames ++ [(data, context)]) := by
  have hnoted : ∀ context, (if s.spanning.buffer.isNone then
      s.modSpanning fun p => { p with context } else s).Sound env frames := by
    intro context
    split
    · exact ⟨h.balanced, h.steady.header, h.steady.unfilled, h.steady.unsized⟩
    · exact h
  obtain ⟨s1, hextract, h1⟩ := extractPackets_sound hconfig hdata
    (hnoted { context with vcId := env.config.vcId })
  simp only [acceptFrame, hextract, bind, Except.bind]
  have hback := h1.giveBack data context
  exact ⟨_, rfl, hback.balanced, hback.steady⟩

theorem dataIn_sound (hconfig : env.config.Valid) (data : Bytes) (context : FrameContext)
    (h : s.Sound env frames) : ∃ s', s.dataIn env data context = .ok s' ∧
      s'.Sound env (frames ++ [(data, context)]) := by
  have hmin := hconfig.min
  unfold dataIn
  split
  · exact ⟨_, rfl, ((h.event _).notifyError _).giveBack data context⟩
  · rename_i hsize
    have hdata : env.config.fixedFrameSize ≤ data.length := Nat.le_of_not_lt hsize
    obtain ⟨s1, valid, hvalid, h1⟩ : ∃ s1 valid, (if env.config.fecfEnabled then
        s.validateFecf env data else .ok (s, true)) = .ok (s1, valid) ∧ s1.Sound env frames := by
      split
      · rename_i hfecf
        rw [if_pos hfecf] at hmin
        exact validateFecf_sound (by omega) hdata h
      · exact ⟨_, _, rfl, h⟩
    obtain ⟨s2, accepted, haccepted, h2⟩ := @parseAndValidateHeader_sound env s1 frames data
      (by omega) h1
    simp only [hvalid, haccepted, bind, Except.bind]
    split
    · exact ⟨_, rfl, h1.giveBack data context⟩
    split
    · exact ⟨_, rfl, h2.giveBack data context⟩
    · exact acceptFrame_sound hconfig hdata context h2

theorem configure_sound (hconfig : env.config.Valid) :
    ∃ s, ({} : State).configure env = .ok s ∧ s.Sound env [] := by
  have hempty : ({} : State).Balanced [] :=
    ⟨rfl, fun _ hi => (nomatch hi), nodup_nil, List.Perm.refl _⟩
  refine ⟨_, if_pos hconfig, abandon_sound hempty rfl⟩

end State

/-- Whatever the frames and the allocator's answers, no assertion fails and no index is out of
range; the frames go back in order; and each buffer obtained is accounted for. -/
theorem frames_and_buffers_conserved (env : Env) (hconfig : env.config.Valid)
    (frames : List (Bytes × FrameContext)) :
    ∃ s, run env frames = .ok s ∧ s.outs.filterMap Out.returned = frames ∧
      (s.outs.filterMap Out.obtained).Nodup ∧
      (s.outs.filterMap Out.obtained).Perm (s.outs.filterMap Out.sent ++
        s.outs.filterMap Out.freed ++ (s.spanning.buffer.map (·.request)).toList) := by
  obtain ⟨s0, hconfigure, h0⟩ := State.configure_sound hconfig
  obtain ⟨s, hrun, h⟩ := Lib.Runs.total_runM (C := fun _ _ => True)
    (I := fun past s => State.Sound env past s)
    (fun _ _ frame h _ => State.dataIn_sound hconfig frame.1 frame.2 h) h0
    (Lib.Runs.alongM_of_forall (fun _ (_ : _ ∈ frames) _ => trivial) _)
  refine ⟨s, ?_, h.balanced.returned, h.balanced.nodup, h.balanced.perm⟩
  simp only [run, hconfigure, bind, Except.bind]
  exact hrun

/-- A packet of eight bytes in frames with room for three of them, and a frame that is too short. -/
theorem frames_and_buffers_conserved_spanning :
    ∃ s, run ⟨⟨11, false, 0, 0, 1⟩, true, fun _ size => some (replicate size 0)⟩
      [([0x40, 0, 0, 0, 0, 0, 0, 0, 8, 1, 0xC0], {}), ([1], {}),
        ([0x40, 0, 0, 0, 1, 0, 0xFF, 0xFF, 0, 0, 1], {})] = .ok s ∧
      s.outs.filterMap Out.returned = [([0x40, 0, 0, 0, 0, 0, 0, 0, 8, 1, 0xC0], {}), ([1], {}),
        ([0x40, 0, 0, 0, 1, 0, 0xFF, 0xFF, 0, 0, 1], {})] ∧
      (s.outs.filterMap Out.obtained).Nodup ∧
      (s.outs.filterMap Out.obtained).Perm (s.outs.filterMap Out.sent ++
        s.outs.filterMap Out.freed ++ (s.spanning.buffer.map (·.request)).toList) :=
  frames_and_buffers_conserved _ (by decide) _

end Fprime.Svc.AosDeframer
