import Fprime.Svc.SpacePacketDeframer.Packets

/-!
# Space packets from end to end

Payloads go through the framer, some of the packets are lost, and the rest goes through the
deframer: what comes out, and what it tells of the packets that were lost.
-/

namespace Fprime.Svc

open Framers.SpacePacketFramer

open Fw List Function

/-- A payload that is sent, whether its packet gets through, and the context it arrives with. -/
structure Passage where
  data : ComQueue.Buffer
  context : FrameContext
  alloc : Framers.Allocator
  kept : Bool
  arrival : FrameContext

namespace Passage

/-- A payload is not empty and not too long, and its identifier is declared with eleven bits. -/
structure Sendable (p : Passage) : Prop where
  nonempty : 0 < p.data.bytes.length
  length : p.data.bytes.length ≤ 65535
  apid : p.context.apid.asRepr.toNat < 2 ^ 11

/-- There is a buffer for the packet. Without one the payload is dropped, and no packet sent. -/
def served (p : Passage) : Bool :=
  (p.alloc (6 + p.data.bytes.length)).any (6 + p.data.bytes.length ≤ ·)

def ofApid (apid : Apid) (sent : List Passage) : List Passage :=
  sent.filter fun p => p.context.apid = apid

def predecessorLost (apid : Apid) (sent : List Passage) : Bool :=
  (ofApid apid sent).getLast?.any fun p => !p.kept

/-- How many packets of an identifier, to the last one, did not get through. -/
def lostRun (apid : Apid) (sent : List Passage) : Nat :=
  ((ofApid apid sent).reverse.takeWhile fun p => !p.kept).length

end Passage

open Framers (ApidState Assertion)

def sendAll : Nat → ApidState → List Passage → Except Assertion (List Bytes)
  | _, _, [] => .ok []
  | throttle, apids, p :: rest => do
    let (throttle, apids, outs) ←
      dataIn throttle apids p.alloc p.data p.context
    let packets ← sendAll throttle apids rest
    return (outs.filterMap fun
      | .dataOut frame _ => some frame
      | _ => none) ++ packets

def survivors (packets : List Bytes) (passages : List Passage) :
    List (Bytes × FrameContext) :=
  ((packets.zip passages).filter fun x => x.2.kept).map fun x => (x.1, x.2.arrival)

def receiveAll (connected : Bool) : ApidState → List (Bytes × FrameContext) →
    Except Assertion (List SpacePacketDeframer.Out)
  | _, [] => .ok []
  | apids, x :: rest => do
    let (apids, outs) ← SpacePacketDeframer.dataIn connected apids x.1 x.2
    let outs' ← receiveAll connected apids rest
    return outs ++ outs'

namespace Passage

open Framers.ApidState (wrap)

/-- What is to come out for a packet: its payload and fields, and a report where the packet before
it was lost. -/
def report (sent : List Passage) (p : Passage) : List SpacePacketDeframer.Out :=
  let apid := p.context.apid
  let count := (ofApid apid sent).length
  (if predecessorLost apid sent then
    [.unexpectedSequenceCount (wrap count) (wrap (count - lostRun apid sent))] else []) ++
  [.dataOut p.data.bytes { p.arrival with
    apid := apid
    hasSecHdr := p.context.hasSecHdr
    sequenceFlags := p.context.sequenceFlags &&& 3
    sequenceCount := wrap count }]

def reports : List Passage → List Passage → List SpacePacketDeframer.Out
  | _, [] => []
  | sent, p :: rest => (if p.kept then report sent p else []) ++ reports (sent ++ [p]) rest

/-- The packets of an identifier that were sent, and those to the last one that got through. -/
def sentOf (sent : List Passage) (apid : Apid) : Nat :=
  (ofApid apid sent).length

def receivedOf (sent : List Passage) (apid : Apid) : Nat :=
  sentOf sent apid - lostRun apid sent

variable (apid : Apid)

theorem ofApid_snoc (sent : List Passage) (p : Passage) :
    ofApid apid (sent ++ [p]) =
      if p.context.apid = apid then ofApid apid sent ++ [p] else ofApid apid sent := by
  rw [ofApid, filter_append]
  split
  · next h => simp [ofApid, h]
  · next h => simp [ofApid, h]

theorem sentOf_snoc (sent : List Passage) (p : Passage) :
    sentOf (sent ++ [p]) =
      update (sentOf sent) p.context.apid (sentOf sent p.context.apid + 1) := by
  funext apid
  rw [sentOf, ofApid_snoc]
  by_cases h : apid = p.context.apid
  · rw [if_pos h.symm, h, update_self, length_append]
    rfl
  · rw [if_neg (Ne.symm h), update_of_ne h]
    rfl

theorem lostRun_snoc (sent : List Passage) (p : Passage) :
    lostRun apid (sent ++ [p]) = if p.context.apid = apid then
      (if p.kept then 0 else lostRun apid sent + 1) else lostRun apid sent := by
  rw [lostRun, ofApid_snoc]
  split
  · rw [reverse_append, reverse_singleton, singleton_append]
    cases hkept : p.kept <;> simp [hkept, lostRun]
  · rfl

theorem lostRun_le (sent : List Passage) : lostRun apid sent ≤ sentOf sent apid :=
  (takeWhile_sublist _).length_le.trans_eq length_reverse

variable {p : Passage} {rest sent : List Passage}

theorem receivedOf_kept (sent : List Passage) (h : p.kept = true) :
    receivedOf (sent ++ [p]) =
      update (receivedOf sent) p.context.apid (sentOf sent p.context.apid + 1) := by
  funext apid
  rw [receivedOf, sentOf_snoc, lostRun_snoc]
  by_cases ha : apid = p.context.apid
  · rw [if_pos ha.symm, if_pos h, ha, update_self, update_self]
    rfl
  · rw [if_neg (Ne.symm ha), update_of_ne ha, update_of_ne ha]
    rfl

theorem receivedOf_lost (sent : List Passage) (h : p.kept = false) :
    receivedOf (sent ++ [p]) = receivedOf sent := by
  funext apid
  rw [receivedOf, sentOf_snoc, lostRun_snoc]
  by_cases ha : apid = p.context.apid
  · rw [if_pos ha.symm, h, if_neg Bool.false_ne_true, ha, update_self, receivedOf]
    omega
  · rw [if_neg (Ne.symm ha), update_of_ne ha]
    rfl

theorem predecessorLost_eq (sent : List Passage) :
    predecessorLost apid sent = decide (0 < lostRun apid sent) := by
  rw [predecessorLost, lostRun, ← head?_reverse]
  cases (ofApid apid sent).reverse with
  | nil => rfl
  | cons p rest => cases hkept : p.kept <;> simp [hkept]

/-- While fewer packets are lost in a row than there are counts, the count tells the loss. -/
theorem wrap_eq_iff_not_lost {apid : Apid} (h : lostRun apid sent < 2 ^ 14 - 1) :
    wrap (sentOf sent apid) = wrap (receivedOf sent apid) ↔ predecessorLost apid sent = false := by
  have hle := lostRun_le apid sent
  rw [Framers.ApidState.wrap_eq_iff, predecessorLost_eq, receivedOf, decide_eq_false_iff_not]
  omega

theorem report_eq (p : Passage) (h : lostRun p.context.apid sent < 2 ^ 14 - 1) :
    (if wrap (sentOf sent p.context.apid) = wrap (receivedOf sent p.context.apid) then []
      else [SpacePacketDeframer.Out.unexpectedSequenceCount (wrap (sentOf sent p.context.apid))
        (wrap (receivedOf sent p.context.apid))]) ++
      [.dataOut p.data.bytes { p.arrival with
        apid := p.context.apid
        hasSecHdr := p.context.hasSecHdr
        sequenceFlags := p.context.sequenceFlags &&& 3
        sequenceCount := wrap (sentOf sent p.context.apid) }] = report sent p := by
  rw [report]
  dsimp only
  cases hlost : predecessorLost p.context.apid sent with
  | false =>
    rw [if_pos ((wrap_eq_iff_not_lost h).mpr hlost), if_neg Bool.false_ne_true]
    rfl
  | true =>
    rw [if_neg fun heq => by simp [(wrap_eq_iff_not_lost h).mp heq] at hlost, if_pos rfl]
    rfl

theorem survivors_kept {packet : Bytes} {packets : List Bytes} (h : p.kept = true) :
    survivors (packet :: packets) (p :: rest) = (packet, p.arrival) :: survivors packets rest := by
  simp [survivors, h]

theorem survivors_lost {packet : Bytes} {packets : List Bytes} (h : p.kept = false) :
    survivors (packet :: packets) (p :: rest) = survivors packets rest := by
  simp [survivors, h]

theorem sendAll_unserved (hp : p.Sendable) (h : p.served = false) (throttle : Nat)
    (sender : ApidState) (rest : List Passage) :
    ∃ throttle', sendAll throttle sender (p :: rest) = sendAll throttle' sender rest := by
  have hhead : headerSize = 6 := rfl
  have hpos := hp.nonempty
  have hlen := hp.length
  have hdrop : ∃ buffer, dataIn throttle sender p.alloc p.data p.context =
      .ok ((Framers.dropFrame throttle buffer p.data p.context).1, sender,
        (Framers.dropFrame throttle buffer p.data p.context).2) := by
    rw [dataIn, hhead, if_pos (by omega)]
    cases hsize : p.alloc (6 + p.data.bytes.length) with
    | none => exact ⟨none, rfl⟩
    | some size =>
      have hsmall : size < 6 + p.data.bytes.length := by
        simpa [served, hsize] using h
      exact ⟨some size, if_pos hsmall⟩
  obtain ⟨buffer, hdata⟩ := hdrop
  refine ⟨(Framers.dropFrame throttle buffer p.data p.context).1, ?_⟩
  have hnone : ((Framers.dropFrame throttle buffer p.data p.context).2.filterMap fun
      | .dataOut frame _ => some frame
      | _ => none) = [] := by
    by_cases hfull : Framers.noBufferAvailableThrottle ≤ throttle
    · simp only [Framers.dropFrame, if_pos hfull]
      cases buffer <;> rfl
    · simp only [Framers.dropFrame, if_neg hfull]
      cases buffer <;> rfl
  simp only [sendAll, hdata, bind, Except.bind, hnone, nil_append]
  cases sendAll (Framers.dropFrame throttle buffer p.data p.context).1 sender rest <;> rfl

theorem link_from (connected : Bool) {throttle : Nat} {sender receiver : ApidState}
    (hs : sender.Counts (sentOf sent)) (hr : receiver.Counts (receivedOf sent))
    (hsend : ∀ p ∈ rest, p.Sendable)
    (hloss : ∀ mid post, rest.filter served = mid ++ post → ∀ apid, lostRun apid (sent ++ mid) < 2 ^ 14 - 1) :
    ∃ packets, sendAll throttle sender rest = .ok packets ∧
      packets.length = (rest.filter served).length ∧
      receiveAll connected receiver (survivors packets (rest.filter served)) =
        .ok (reports sent (rest.filter served)) := by
  induction rest generalizing sent throttle sender receiver with
  | nil => exact ⟨[], rfl, rfl, rfl⟩
  | cons p rest ih =>
    obtain ⟨hp, hrest⟩ := forall_mem_cons.mp hsend
    by_cases hserved : p.served = true
    swap
    · rw [filter_cons_of_neg hserved] at hloss ⊢
      obtain ⟨throttle', heq⟩ :=
        sendAll_unserved hp (Bool.eq_false_iff.mpr hserved) throttle sender rest
      rw [heq]
      exact ih hs hr hrest hloss
    rw [filter_cons_of_pos hserved] at hloss ⊢
    have halloc : ∃ size, p.alloc (6 + p.data.bytes.length) = some size ∧
        6 + p.data.bytes.length ≤ size := by
      simpa [served, Option.any_eq_true] using hserved
    have hapid : p.context.apid.asRepr >>> 11 = 0 := by
      have := hp.apid
      revert this
      cases p.context.apid <;> decide
    obtain ⟨sender', hframe, hs'⟩ := @framer_dataIn p.context throttle sender (sentOf sent) p.alloc
      p.data hs hapid hp.nonempty hp.length halloc
    rw [← sentOf_snoc] at hs'
    have hloss' : ∀ mid post, rest.filter served = mid ++ post → ∀ apid,
        lostRun apid (sent ++ [p] ++ mid) < 2 ^ 14 - 1 := by
      intro mid post heq apid
      rw [append_assoc]
      exact hloss ([p] ++ mid) post (by rw [heq]; rfl) apid
    have hsent : ∀ packets, sendAll throttle sender' rest = .ok packets →
        sendAll throttle sender (p :: rest) = .ok
          (packet p.context (wrap (sentOf sent p.context.apid))
            p.data.bytes :: packets) := by
      intro packets hpackets
      simp only [sendAll, hframe, hpackets, bind, Except.bind]
      rfl
    cases hkept : p.kept with
    | false =>
      obtain ⟨packets, hpackets, hlen, hout⟩ := ih hs' (receivedOf_lost sent hkept ▸ hr) hrest hloss'
      refine ⟨_, hsent packets hpackets, by simp [hlen], ?_⟩
      rw [survivors_lost hkept, reports, hkept]
      exact hout
    | true =>
      obtain ⟨receiver', hdeframe, hr'⟩ := @dataIn_packet p.context p.arrival p.data.bytes connected
        receiver (receivedOf sent) hr hapid hp.nonempty hp.length (sentOf sent p.context.apid)
      rw [← receivedOf_kept sent hkept] at hr'
      obtain ⟨packets, hpackets, hlen, hout⟩ := ih hs' hr' hrest hloss'
      refine ⟨_, hsent packets hpackets, by simp [hlen], ?_⟩
      have hbefore : lostRun p.context.apid sent < 2 ^ 14 - 1 := by
        simpa using hloss [] (p :: rest.filter served) rfl p.context.apid
      rw [report_eq p hbefore] at hdeframe
      rw [survivors_kept hkept, reports, if_pos hkept]
      simp only [receiveAll, hdeframe, hout, bind, Except.bind]
      rfl

end Passage

/-- What gets through comes out of the deframer as it went in, with its count, and is reported
exactly where the packet before it was lost. -/
theorem loss_reported_exactly (connected : Bool) (throttle : Nat) (passages : List Passage)
    (hsend : ∀ p ∈ passages, p.Sendable)
    (hloss : ∀ sent rest, passages.filter Passage.served = sent ++ rest →
      ∀ apid, Passage.lostRun apid sent < 2 ^ 14 - 1) :
    ∃ packets, sendAll throttle .new passages = .ok packets ∧
      packets.length = (passages.filter Passage.served).length ∧
      receiveAll connected .new (survivors packets (passages.filter Passage.served)) =
        .ok (Passage.reports [] (passages.filter Passage.served)) :=
  Passage.link_from connected Framers.ApidState.counts_new Framers.ApidState.counts_new hsend
    hloss

def telemetry (kept : Bool) : Passage :=
  ⟨⟨none, [7]⟩, { apid := .fwPacketTelem }, some, kept, {}⟩

/-- The second of three packets is lost, and the third reported. -/
theorem loss_reported_exactly_telemetry :
    ∃ packets, sendAll 0 .new [telemetry true, telemetry false, telemetry true] = .ok packets ∧
      packets.length = 3 ∧
      receiveAll true .new
          (survivors packets [telemetry true, telemetry false, telemetry true]) =
        .ok [.dataOut [7] { apid := .fwPacketTelem },
          .unexpectedSequenceCount 2 1,
          .dataOut [7] { apid := .fwPacketTelem, sequenceCount := 2 }] := by
  have hsend : ∀ kept, (telemetry kept).Sendable := fun kept =>
    ⟨Nat.one_pos, (by decide : 1 ≤ 65535), (by decide : Apid.fwPacketTelem.asRepr.toNat < 2 ^ 11)⟩
  refine loss_reported_exactly true 0 [telemetry true, telemetry false, telemetry true] ?_ ?_
  · simp [hsend]
  · intro sent rest heq apid
    have hlen : 3 = (sent ++ rest).length := congrArg length heq
    have hle := Passage.lostRun_le apid sent
    have hfilter : Passage.sentOf sent apid ≤ sent.length := length_filter_le _ _
    rw [length_append] at hlen
    omega

end Fprime.Svc
