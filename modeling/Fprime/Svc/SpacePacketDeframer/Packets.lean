import Fprime.Svc.SpacePacketDeframer

/-!
# One space packet

What the table of sequence counts holds, what the fields of a header say of the context they were
built from, and what the framer and the deframer make of one packet.
-/

namespace Fprime.Svc

open Fw Lib.Bytes Ccsds List Function UInt16 SpacePacketHeader

namespace Framers.ApidState

/-- The slots in use come first, one for each identifier, and there is one for all of them. -/
structure Packed (state : ApidState) (live : List (Apid × UInt16)) : Prop where
  entries : ∃ free, state.entries = live.map some ++ replicate free none ∧
    live.length + free = Apid.constants.length
  nodup : (live.map Prod.fst).Nodup

variable {state : ApidState} {live : List (Apid × UInt16)} {apid : Apid} {seqCount : UInt16}
  {sent : Apid → Nat}

theorem Packed.find (h : state.Packed live) (apid : Apid) :
    state.find apid = (live.find? fun entry => entry.1 = apid).map Prod.snd := by
  obtain ⟨free, heq, -⟩ := h.entries
  have hlive : (live.map some ++ replicate free none).filterMap id = live := by
    rw [filterMap_append, filterMap_map]
    simp
  rw [ApidState.find, heq, hlive]

def overwrite (apid : Apid) (seqCount : UInt16) (live : List (Apid × UInt16)) :
    List (Apid × UInt16) :=
  live.map fun entry => if entry.1 = apid then (entry.1, seqCount) else entry

theorem overwrite_keys (apid : Apid) (seqCount : UInt16) (live : List (Apid × UInt16)) :
    (overwrite apid seqCount live).map Prod.fst = live.map Prod.fst := by
  rw [overwrite, map_map]
  refine map_congr_left fun entry _ => ?_
  dsimp only [comp]
  split <;> rfl

theorem find_overwrite (h : apid ∈ live.map Prod.fst) (a : Apid) :
    ((overwrite apid seqCount live).find? fun entry => entry.1 = a).map Prod.snd =
      if a = apid then some seqCount else (live.find? fun entry => entry.1 = a).map Prod.snd := by
  rw [overwrite, find?_map]
  have hkey : (fun entry : Apid × UInt16 => decide (entry.1 = a)) ∘
      (fun entry => if entry.1 = apid then (entry.1, seqCount) else entry) =
      fun entry => decide (entry.1 = a) := by
    funext entry
    dsimp only [comp]
    split <;> rfl
  rw [hkey, Option.map_map]
  cases hfind : live.find? fun entry => entry.1 = a with
  | none =>
    obtain ⟨entry, hentry, rfl⟩ := mem_map.mp h
    have hne : a ≠ entry.1 := fun he => by
      simpa [he] using find?_eq_none.mp hfind entry hentry
    rw [if_neg hne]
    rfl
  | some entry =>
    have hentry : entry.1 = a := by simpa using find?_some hfind
    dsimp only [Option.map_some, comp]
    rw [hentry]
    split <;> rfl

theorem insertSlot_of_mem (rest : List (Option (Apid × UInt16)))
    (hnodup : (live.map Prod.fst).Nodup) (h : apid ∈ live.map Prod.fst) :
    insertSlot apid seqCount (live.map some ++ rest) =
      some ((overwrite apid seqCount live).map some ++ rest) := by
  induction live with
  | nil => cases h
  | cons entry live ih =>
    obtain ⟨hhead, htail⟩ := nodup_cons.mp hnodup
    by_cases heq : entry.1 = apid
    · have hrest : overwrite apid seqCount live = live := by
        refine (map_congr_left fun e he => if_neg fun hke => hhead ?_).trans (map_id _)
        rw [heq, ← hke]
        exact mem_map_of_mem he
      have hcons : overwrite apid seqCount (entry :: live) = (entry.1, seqCount) :: live := by
        rw [overwrite, map_cons, if_pos heq, ← overwrite, hrest]
      rw [hcons]
      exact if_pos heq
    · have hmem : apid ∈ live.map Prod.fst := (mem_cons.mp h).resolve_left (Ne.symm heq)
      have hcons : overwrite apid seqCount (entry :: live) =
          entry :: overwrite apid seqCount live := by
        rw [overwrite, map_cons, if_neg heq, ← overwrite]
      rw [hcons, map_cons, cons_append, insertSlot, if_neg heq, ih htail hmem]
      rfl

theorem insertSlot_of_not_mem (rest : List (Option (Apid × UInt16))) (h : apid ∉ live.map Prod.fst) :
    insertSlot apid seqCount (live.map some ++ none :: rest) =
      some ((live ++ [(apid, seqCount)]).map some ++ rest) := by
  induction live with
  | nil => rfl
  | cons entry live ih =>
    rw [map_cons, mem_cons, not_or] at h
    rw [map_cons, cons_append, insertSlot, if_neg (Ne.symm h.1), ih h.2]
    rfl

theorem mem_constants (apid : Apid) : apid ∈ Apid.constants := by
  cases apid <;> decide

theorem Packed.insert (h : state.Packed live) (apid : Apid) (seqCount : UInt16) :
    ∃ state' live', state.insert apid seqCount = some state' ∧ state'.Packed live' ∧
      ∀ a, state'.find a = if a = apid then some seqCount else state.find a := by
  obtain ⟨free, heq, hlen⟩ := h.entries
  by_cases hmem : apid ∈ live.map Prod.fst
  · have hp : Packed ⟨(overwrite apid seqCount live).map some ++ replicate free none⟩
        (overwrite apid seqCount live) :=
      ⟨⟨free, rfl, by rw [overwrite, length_map, hlen]⟩, by
        rw [overwrite_keys]
        exact h.nodup⟩
    refine ⟨_, _, ?_, hp, fun a => ?_⟩
    · rw [ApidState.insert, heq, insertSlot_of_mem _ h.nodup hmem]
      rfl
    · rw [hp.find, h.find]
      exact find_overwrite hmem a
  · have hfree : free ≠ 0 := by
      rintro rfl
      have hsub : (apid :: live.map Prod.fst).Nodup := nodup_cons.mpr ⟨hmem, h.nodup⟩
      have hle := (hsub.subperm fun a _ => mem_constants a).length_le
      rw [length_cons, length_map] at hle
      omega
    obtain ⟨free, rfl⟩ := Nat.exists_eq_succ_of_ne_zero hfree
    have hp : Packed ⟨(live ++ [(apid, seqCount)]).map some ++ replicate free none⟩
        (live ++ [(apid, seqCount)]) := by
      refine ⟨⟨free, rfl, ?_⟩, ?_⟩
      · rw [length_append, length_singleton]
        omega
      · rw [map_append]
        exact nodup_append.mpr ⟨h.nodup, nodup_singleton _, fun a ha b hb hab => by
          have hb' : b = apid := mem_singleton.mp hb
          exact hmem (hb' ▸ hab ▸ ha)⟩
    refine ⟨_, _, ?_, hp, fun a => ?_⟩
    · rw [ApidState.insert, heq, replicate_succ, insertSlot_of_not_mem _ hmem]
      rfl
    · rw [hp.find, h.find, find?_append]
      by_cases ha : a = apid
      · subst ha
        have hnone : (live.find? fun entry => entry.1 = a) = none := by
          refine find?_eq_none.mpr fun entry hentry heq => hmem ?_
          rw [← of_decide_eq_true heq]
          exact mem_map_of_mem hentry
        simp [hnone]
      · simp [ha, Ne.symm ha]

def wrap (n : Nat) : UInt16 :=
  ofNat (n % 2 ^ 14)

theorem toNat_wrap (n : Nat) : (wrap n).toNat = n % 2 ^ 14 := by
  rw [wrap, toNat_ofNat']
  omega

theorem wrap_eq_iff {m n : Nat} : wrap m = wrap n ↔ m % 2 ^ 14 = n % 2 ^ 14 := by
  rw [← UInt16.toNat_inj, toNat_wrap, toNat_wrap]

theorem calculateNextSeqCount_wrap (n : Nat) : calculateNextSeqCount (wrap n) = wrap (n + 1) := by
  rw [calculateNextSeqCount, toNat_wrap, wrap, Nat.mod_add_mod]

/-- The table counts, modulo what a count can hold, these numbers of packets. -/
structure Counts (state : ApidState) (sent : Apid → Nat) : Prop where
  packed : ∃ live, state.Packed live
  find : ∀ apid, (state.find apid).getD 0 = wrap (sent apid)

theorem counts_new : Counts .new fun _ => 0 where
  packed := ⟨[], ⟨⟨Apid.constants.length, rfl, Nat.zero_add _⟩, nodup_nil⟩⟩
  find apid := by cases apid <;> decide

theorem Counts.insert (h : state.Counts sent) (apid : Apid) (n : Nat) :
    ∃ state', state.insert apid (wrap n) = some state' ∧
      state'.Counts (update sent apid n) := by
  obtain ⟨live, hp⟩ := h.packed
  obtain ⟨state', live', hins, hp', hfind⟩ := hp.insert apid (wrap n)
  refine ⟨state', hins, ⟨live', hp'⟩, fun a => ?_⟩
  rw [hfind]
  by_cases ha : a = apid
  · rw [if_pos ha, ha, update_self]
    rfl
  · rw [if_neg ha, update_of_ne ha]
    exact h.find a

theorem Counts.getAndIncrement (h : state.Counts sent) (apid : Apid) :
    ∃ state', state.getAndIncrement apid = .ok (wrap (sent apid), state') ∧
      state'.Counts (update sent apid (sent apid + 1)) := by
  obtain ⟨state', hins, hc⟩ := h.insert apid (sent apid + 1)
  refine ⟨state', ?_, hc⟩
  rw [ApidState.getAndIncrement, h.find, calculateNextSeqCount_wrap, hins]

theorem Counts.validate (h : state.Counts sent) (apid : Apid) (n : Nat) :
    ∃ state', SpacePacketDeframer.validateApidSeqCount state apid (wrap n) =
      .ok (state', if wrap n = wrap (sent apid) then none else some (wrap (sent apid))) ∧
      state'.Counts (update sent apid (n + 1)) := by
  obtain ⟨state1, hget, hc⟩ := h.getAndIncrement apid
  rw [SpacePacketDeframer.validateApidSeqCount, hget]
  dsimp only [bind, Except.bind]
  by_cases heq : wrap n = wrap (sent apid)
  · rw [if_pos heq, if_pos heq]
    refine ⟨state1, rfl, hc.packed, fun a => ?_⟩
    rw [hc.find a]
    by_cases ha : a = apid
    · rw [ha, update_self, update_self, ← calculateNextSeqCount_wrap, ← heq,
        calculateNextSeqCount_wrap]
    · rw [update_of_ne ha, update_of_ne ha]
  · obtain ⟨state', hins, hc'⟩ := hc.insert apid (n + 1)
    rw [if_neg heq, if_neg heq, calculateNextSeqCount_wrap, hins]
    refine ⟨state', rfl, ?_⟩
    rwa [update_idem] at hc'

end Framers.ApidState

namespace SpacePacketHeader

open Framers.SpacePacketFramer

theorem u16At_encodeBE {front rest : Bytes} {v : Nat} (h : v < 2 ^ 16) :
    u16At (front ++ (encodeBE 2 v ++ rest)) front.length = ofNat v := by
  rw [u16At, drop_left, take_left' (encodeBE_length 2 v), decodeBE_encodeBE]
  congr 1
  omega

theorem deserialize_packet (context : FrameContext) (count : UInt16) {payload : Bytes}
    (hlen : payload.length ≤ 2 ^ 16 - 1) :
    deserialize (packet context count payload) =
      ⟨buildPacketIdentification 0 0 context.hasSecHdr context.apid.asRepr,
        buildPacketSequenceControl context.sequenceFlags count,
        UInt16.ofNat (payload.length - 1)⟩ := by
  generalize hid : buildPacketIdentification 0 0 context.hasSecHdr context.apid.asRepr = id
  generalize hctl : buildPacketSequenceControl context.sequenceFlags count = ctl
  have hfirst := @u16At_encodeBE [] (encodeBE 2 ctl.toNat ++
    (encodeBE 2 (payload.length - 1) ++ payload)) id.toNat id.toNat_lt
  have hsecond := @u16At_encodeBE (encodeBE 2 id.toNat)
    (encodeBE 2 (payload.length - 1) ++ payload) ctl.toNat ctl.toNat_lt
  have hthird := @u16At_encodeBE (encodeBE 2 id.toNat ++ encodeBE 2 ctl.toNat) payload
    (payload.length - 1) (by omega)
  simp only [length_append, encodeBE_length, nil_append, length_nil,
    UInt16.ofNat_toNat] at hfirst hsecond hthird
  simp only [deserialize, packet, hid, hctl, append_assoc] at hthird ⊢
  rw [hfirst, hsecond, hthird]

theorem identification_word (hasSec : Bool) {apid : Apid} (h : apid.asRepr >>> 11 = 0) :
    let word := buildPacketIdentification 0 0 hasSec apid.asRepr
    ((word &&& 0xE000) >>> 13).toUInt8.toUInt16 = 0 ∧ (word &&& 0x0800 != 0) = hasSec ∧
      Apid.tryFrom (word &&& 0x07FF) = some apid := by
  cases apid <;> cases hasSec <;> revert h <;> decide

theorem or_and_distrib (a b mask : UInt16) : (a ||| b) &&& mask = a &&& mask ||| b &&& mask := by
  rw [← UInt16.toNat_inj]
  simp only [UInt16.toNat_and, UInt16.toNat_or, Nat.and_or_distrib_right]

theorem count_word (flags : UInt8) {count : UInt16} (h : count.toNat < 2 ^ 14) :
    buildPacketSequenceControl flags count &&& 0x3FFF = count := by
  have hmask : ∀ word : UInt16, (word &&& 0xC000) &&& 0x3FFF = 0 := by
    intro word
    rw [UInt16.and_assoc]
    exact UInt16.and_zero
  have hcount : count &&& 0x3FFF = count := by
    rw [← UInt16.toNat_inj, UInt16.toNat_and]
    show count.toNat &&& (2 ^ 14 - 1) = _
    rw [Nat.and_two_pow_sub_one_eq_mod]
    omega
  rw [buildPacketSequenceControl, or_and_distrib, hmask, UInt16.zero_or, hcount, hcount]

theorem flags_word (flags : UInt8) (count : UInt16) :
    ((buildPacketSequenceControl flags count &&& 0xC000) >>> 14).toUInt8 = flags &&& 3 := by
  have hmask : (count &&& 0x3FFF) &&& 0xC000 = 0 := by
    rw [UInt16.and_assoc]
    exact UInt16.and_zero
  have hall : ∀ n < 256, ((((UInt8.ofNat n).toUInt16 <<< 14 &&& 0xC000) &&& 0xC000) >>> 14).toUInt8 =
      UInt8.ofNat n &&& 3 := by
    decide +kernel
  have hflags := hall flags.toNat flags.toNat_lt
  rw [UInt8.ofNat_toNat] at hflags
  rw [buildPacketSequenceControl, or_and_distrib, hmask, UInt16.or_zero, hflags]

end SpacePacketHeader

section Packet

open Framers Framers.ApidState SpacePacketDeframer

variable {context arrival : FrameContext} {payload : Bytes} {connected : Bool}

theorem length_packet (context : FrameContext) (count : UInt16) (payload : Bytes) :
    (SpacePacketFramer.packet context count payload).length = 6 + payload.length := by
  simp only [SpacePacketFramer.packet, length_append, encodeBE_length]

theorem payload_packet (context : FrameContext) (count : UInt16) (payload : Bytes) :
    (SpacePacketFramer.packet context count payload).drop 6 = payload := by
  rw [SpacePacketFramer.packet]
  exact drop_left' (by simp only [length_append, encodeBE_length])

theorem dataIn_packet {state : ApidState} {received : Apid → Nat} (h : state.Counts received)
    (hapid : context.apid.asRepr >>> 11 = 0) (hpos : 0 < payload.length)
    (hlen : payload.length ≤ 2 ^ 16 - 1) (n : Nat) :
    ∃ state', SpacePacketDeframer.dataIn connected state
        (SpacePacketFramer.packet context (wrap n) payload) arrival =
      .ok (state', (if wrap n = wrap (received context.apid) then []
          else [.unexpectedSequenceCount (wrap n) (wrap (received context.apid))]) ++
        [.dataOut payload { arrival with
          apid := context.apid
          hasSecHdr := context.hasSecHdr
          sequenceFlags := context.sequenceFlags &&& 3
          sequenceCount := wrap n }]) ∧
      state'.Counts (update received context.apid (n + 1)) := by
  have hheader := deserialize_packet context (wrap n) hlen
  obtain ⟨hpvn, hsec, hid⟩ := identification_word context.hasSecHdr hapid
  have hcount := @count_word context.sequenceFlags (wrap n) (by
    rw [toNat_wrap]
    omega)
  have hflags := flags_word context.sequenceFlags (wrap n)
  obtain ⟨state', hval, hc⟩ := h.validate context.apid n
  refine ⟨state', ?_, hc⟩
  have htoken : (ofNat (payload.length - 1)).toNat + 1 = payload.length := by
    rw [toNat_ofNat']
    omega
  simp only [SpacePacketDeframer.dataIn, hheader, length_packet, pvn,
    hasSecHdr, apidValue, sequenceFlags,
    sequenceCount, dataFieldLength,
    serializedSize, hpvn, hsec, hid, hcount, hflags, htoken, payload_packet]
  rw [if_neg (by omega), if_neg (by simp), if_neg (by omega), take_length]
  simp only [Option.getD_some, hval, bind, Except.bind]
  by_cases heq : wrap n = wrap (received context.apid)
  · rw [if_pos heq, if_pos heq]
    rfl
  · rw [if_neg heq, if_neg heq]
    rfl

theorem framer_dataIn {throttle : Nat} {state : ApidState} {sent : Apid → Nat} {alloc : Allocator}
    {data : ComQueue.Buffer} (h : state.Counts sent) (hapid : context.apid.asRepr >>> 11 = 0)
    (hpos : 0 < data.bytes.length) (hlen : data.bytes.length ≤ 2 ^ 16 - 1)
    (halloc : ∃ size, alloc (6 + data.bytes.length) = some size ∧ 6 + data.bytes.length ≤ size) :
    ∃ state', SpacePacketFramer.dataIn throttle state alloc data context =
        .ok (throttle, state',
          [.dataOut (SpacePacketFramer.packet context (wrap (sent context.apid)) data.bytes)
            context, .dataReturnOut data context]) ∧
      state'.Counts (update sent context.apid (sent context.apid + 1)) := by
  obtain ⟨size, hsize, hle⟩ := halloc
  obtain ⟨state', hget, hc⟩ := h.getAndIncrement context.apid
  refine ⟨state', ?_, hc⟩
  have hhead : SpacePacketFramer.headerSize = 6 := rfl
  simp only [SpacePacketFramer.dataIn, hhead, hsize, hget, bind, Except.bind]
  rw [if_pos (by omega), if_neg (by omega), if_neg (by simpa using hapid), if_pos hlen]
  rfl

end Packet

end Fprime.Svc
