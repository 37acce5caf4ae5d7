import Mathlib.Data.List.Pairwise
import Fprime.Lib.Lists
import Fprime.Svc.CmdDispatcher

/-!
# Replies reach the caller of their command

Runs of the dispatcher with its callers and the components it commands. Every call on `seqCmdStatus`
is put down to the packet that was received, or to the one whose command was completed.
-/

namespace Fprime.Svc.CmdDispatcher

open Fw Lib List UInt32 Prod

/-- A packet with why it was refused, what its command went out with, and the response to the
command. -/
structure Packet where
  port : Fin sequencePorts
  opCode : UInt32
  context : UInt32
  refusal : Option CmdResponse
  sent : Option (UInt32 × UInt32)
  completion : Option CmdResponse
  deriving DecidableEq

def Packet.waiting (p : Packet) : Bool :=
  p.sent.isSome && p.completion.isNone

def Packet.complete (p : Packet) (response : CmdResponse) : Packet :=
  { p with completion := some response }

def advancing : Option CmdResponse → Bool
  | none | some .invalidOpcode => true
  | _ => false

structure World where
  disp : State
  packets : List Packet
  log : List (Nat × List Reply)

/-- Registrations, packets of callers, completions of the command of a packet, packets lost to a
full queue, and the dispatcher's own commands. -/
inductive Act where
  | register (port : Fin commandPorts) (opCode : UInt32)
  | packet (port : Fin sequencePorts) (data : ComBuffer) (context : UInt32)
  | complete (i : Nat) (response : CmdResponse)
  | overflow
  | command (opCode cmdSeq : UInt32) (args : Bytes)

def replies (out : List Out) : List Reply :=
  out.filterMap fun
    | .seqCmdStatus reply => some reply
    | _ => none

def sentOf (out : List Out) : Option (UInt32 × UInt32) :=
  out.findSome? fun
    | .compCmdSend _ opCode cmdSeq _ => some (opCode, cmdSeq)
    | _ => none

variable (wiring : Wiring)

/-- Why a packet is refused: malformed, for no connected component, or one too many. -/
def refusalOf (w : World) (port : Fin sequencePorts) (data : ComBuffer) : Option CmdResponse :=
  let (stat, cmdPkt) := CmdPacket.new.deserializeFrom data.val
  if stat ≠ .ok then some .validationError
  else if connectedTarget wiring w.disp cmdPkt.opcode = none then some .invalidOpcode
  else if wiring.seqCmdStatus port ∧
      w.packets.countP (fun p => wiring.seqCmdStatus p.port && p.waiting) = sequencerTableSize then
    some .executionError
  else none

def World.receive (w : World) (port : Fin sequencePorts) (data : ComBuffer) (context : UInt32) :
    World :=
  let (disp, out) := seqCmdBuff wiring w.disp port data context
  { disp := disp
    packets := w.packets ++ [
      { port := port
        opCode := (CmdPacket.new.deserializeFrom data.val).2.opcode
        context := context
        refusal := refusalOf wiring w port data
        sent := sentOf out
        completion := none }]
    log := w.log ++ [(w.packets.length, replies out)] }

def World.complete (w : World) (i : Nat) (response : CmdResponse) : World :=
  match w.packets[i]? with
  | none => w
  | some p =>
    match p.sent with
    | none => w
    | some (opCode, cmdSeq) =>
      let (disp, out) := compCmdStat wiring w.disp opCode cmdSeq response
      { disp := disp
        packets := w.packets.set i (p.complete response)
        log := w.log ++ [(i, replies out)] }

def World.step (w : World) : Act → World
  | .register port opCode => { w with disp := (compCmdReg w.disp port opCode).1 }
  | .packet port data context => w.receive wiring port data context
  | .complete i response => w.complete wiring i response
  | .overflow => { w with disp := seqCmdBuffOverflowHook w.disp }
  | .command opCode cmdSeq args =>
    { w with disp := (CmdDispatcher.command wiring w.disp opCode cmdSeq args).1 }

def World.start : World :=
  ⟨.new, [], []⟩

def World.run (acts : List Act) : World :=
  acts.foldl (World.step wiring) .start

/-- Only a command that is out is completed, and only once; a packet comes only while `moves` holds
of fewer than 2^32 packets since each command that is out; and the tracker is never cleared. -/
def Fair (moves : Packet → Bool) (w : World) : Act → Prop
  | .register _ _ => True
  | .packet _ _ _ => ∀ i p, w.packets[i]? = some p → p.waiting →
      (w.packets.drop i).countP moves < 2 ^ 32
  | .complete i _ => ∃ p, w.packets[i]? = some p ∧ p.waiting
  | .overflow => True
  | .command opCode _ _ => opCode - wiring.idBase ≠ opcodeCmdClearTracking

def World.answersTo (w : World) (i : Nat) : List Reply :=
  (w.log.filter (·.1 = i)).flatMap (·.2)

def Packet.answers (p : Packet) : List Reply :=
  match wiring.seqCmdStatus p.port, p.refusal.or p.completion with
  | true, some response => [⟨p.port, p.opCode, p.context, response⟩]
  | _, _ => []

def advancesBefore (ps : List Packet) (i : Nat) : Nat :=
  (ps.take i).countP fun p => advancing p.refusal

variable {ps : List Packet} {p p' : Packet} {i j : Nat}

theorem advancesBefore_append (qs : List Packet) (h : i ≤ ps.length) :
    advancesBefore (ps ++ qs) i = advancesBefore ps i := by
  rw [advancesBefore, take_append_of_le_length h, advancesBefore]

theorem advancesBefore_length_append (p : Packet) :
    advancesBefore (ps ++ [p]) (ps ++ [p]).length =
      advancesBefore ps ps.length + if advancing p.refusal then 1 else 0 := by
  simp only [advancesBefore, take_length, countP_append, countP_singleton]

theorem advancesBefore_set (k : Nat) (hp : ps[i]? = some p) (h : p'.refusal = p.refusal) :
    advancesBefore (ps.set i p') k = advancesBefore ps k := by
  have hmap : (ps.set i p').map Packet.refusal = ps.map Packet.refusal := by
    have hlt : i < ps.length := (List.getElem?_eq_some_iff.mp hp).1
    apply ext_getElem?
    intro k
    by_cases hk : i = k
    · subst hk
      rw [getElem?_map, getElem?_map, getElem?_set_self hlt, hp]
      exact congrArg some h
    · rw [getElem?_map, getElem?_map, getElem?_set_ne hk]
  have hcount : ∀ qs : List Packet,
      advancesBefore qs k = ((qs.map Packet.refusal).take k).countP advancing := by
    intro qs
    rw [← map_take, countP_map]
    rfl
  rw [hcount, hmap, ← hcount]

theorem advancesBefore_lt (hij : i < j) (hp : ps[i]? = some p) (h : advancing p.refusal) :
    advancesBefore ps i < advancesBefore ps j := by
  have hsucc : advancesBefore ps (i + 1) = advancesBefore ps i + 1 := by
    rw [advancesBefore, take_add_one, hp, countP_append]
    simp [advancesBefore, h]
  have hle : advancesBefore ps (i + 1) ≤ advancesBefore ps j :=
    (take_sublist_take_left hij).countP_le
  omega

theorem advancesBefore_add_drop (i : Nat) :
    advancesBefore ps i + (ps.drop i).countP (fun p => advancing p.refusal) =
      advancesBefore ps ps.length := by
  rw [advancesBefore, ← countP_append, take_append_drop, advancesBefore,
    take_length]

theorem ofNat_ne {a b : Nat} (h : a < b) (hnear : b < a + 2 ^ 32) :
    ofNat a ≠ ofNat b := by
  intro heq
  have hmod := congrArg toNat heq
  simp only [toNat_ofNat'] at hmod
  omega

def Packet.tracked (p : Packet) : Option (UInt32 × SequenceTrackerEntry) :=
  match p.sent with
  | none => none
  | some (_, cmdSeq) =>
    if wiring.seqCmdStatus p.port && p.completion.isNone then
      some (cmdSeq, ⟨p.opCode, p.context, p.port⟩)
    else none

theorem isSome_tracked (p : Packet) :
    (p.tracked wiring).isSome = (wiring.seqCmdStatus p.port && p.waiting) := by
  unfold Packet.tracked Packet.waiting
  cases p.sent with
  | none => simp
  | some sent => cases wiring.seqCmdStatus p.port <;> cases p.completion <;> rfl

theorem length_tracked (ps : List Packet) :
    (ps.filterMap (Packet.tracked wiring)).length =
      ps.countP fun p => wiring.seqCmdStatus p.port && p.waiting := by
  rw [length_filterMap_eq_countP]
  congr 1
  funext p
  exact isSome_tracked wiring p

/-- The state of the dispatcher and the log agree with what has become of the packets. -/
structure Routed (w : World) : Prop where
  seq : w.disp.seq = .ofNat (advancesBefore w.packets w.packets.length)
  sent : ∀ i (p : Packet), w.packets[i]? = some p → p.sent =
    if p.refusal = none then some (p.opCode, .ofNat (advancesBefore w.packets i)) else none
  near : ∀ i j (p q : Packet), i < j → w.packets[i]? = some p → w.packets[j]? = some q → p.waiting →
    q.waiting → advancesBefore w.packets j < advancesBefore w.packets i + 2 ^ 32
  tracker : w.disp.sequenceTracker.live.Perm (w.packets.filterMap (Packet.tracked wiring))
  answers : ∀ i (p : Packet), w.packets[i]? = some p → w.answersTo i = p.answers wiring
  log_lt : ∀ entry ∈ w.log, entry.1 < w.packets.length

variable {wiring}

theorem tracked_eq_some {a : UInt32 × SequenceTrackerEntry} (h : p.tracked wiring = some a) :
    p.waiting ∧ ∃ opCode, p.sent = some (opCode, a.1) := by
  unfold Packet.tracked at h
  cases hs : p.sent with
  | none => simp [hs] at h
  | some sent =>
    simp only [hs, Option.ite_none_right_eq_some, Bool.and_eq_true] at h
    obtain ⟨⟨-, hc⟩, ha⟩ := h
    cases ha
    exact ⟨by simp [Packet.waiting, hs, hc], sent.1, rfl⟩

namespace Routed

variable {w : World} {q : Packet}

theorem sent_of_waiting (h : Routed wiring w) (hp : w.packets[i]? = some p) (hw : p.waiting) :
    p.refusal = none ∧ p.sent = some (p.opCode, .ofNat (advancesBefore w.packets i)) := by
  have hs := h.sent i p hp
  by_cases hr : p.refusal = none
  · exact ⟨hr, by rw [hs, if_pos hr]⟩
  · rw [if_neg hr] at hs
    simp [Packet.waiting, hs] at hw

theorem cmdSeq_ne (h : Routed wiring w) (hij : i ≠ j) (hp : w.packets[i]? = some p)
    (hq : w.packets[j]? = some q) (hpw : p.waiting) (hqw : q.waiting) :
    ofNat (advancesBefore w.packets i) ≠ .ofNat (advancesBefore w.packets j) := by
  wlog hlt : i < j generalizing i j p q
  · exact (this hij.symm hq hp hqw hpw (by omega)).symm
  · obtain ⟨hr, -⟩ := h.sent_of_waiting hp hpw
    exact ofNat_ne (advancesBefore_lt hlt hp (by rw [hr]; rfl)) (h.near i j p q hlt hp hq hpw hqw)

theorem exists_of_mem_live (h : Routed wiring w) {a : UInt32 × SequenceTrackerEntry}
    (ha : a ∈ w.disp.sequenceTracker.live) :
    ∃ i p, w.packets[i]? = some p ∧ p.tracked wiring = some a ∧ p.waiting ∧
      a.1 = .ofNat (advancesBefore w.packets i) := by
  obtain ⟨p, hmem, hpa⟩ := mem_filterMap.mp (h.tracker.mem_iff.mp ha)
  obtain ⟨i, hi⟩ := getElem?_of_mem hmem
  obtain ⟨hpw, _, hps⟩ := tracked_eq_some hpa
  rw [(h.sent_of_waiting hi hpw).2] at hps
  simp only [Option.some.injEq, mk.injEq] at hps
  exact ⟨i, p, hi, hpa, hpw, hps.2.symm⟩

theorem keys_nodup (h : Routed wiring w) :
    (w.disp.sequenceTracker.live.map fst).Nodup := by
  refine (h.tracker.map fst).nodup_iff.mpr ?_
  rw [List.Nodup, pairwise_map, pairwise_filterMap, pairwise_iff_getElem]
  intro i j hi hj hij a ha b hb
  have hp : w.packets[i]? = some w.packets[i] := getElem?_eq_getElem hi
  have hq : w.packets[j]? = some w.packets[j] := getElem?_eq_getElem hj
  obtain ⟨hpw, _, hps⟩ := tracked_eq_some ha
  obtain ⟨hqw, _, hqs⟩ := tracked_eq_some hb
  have hne := h.cmdSeq_ne hij.ne hp hq hpw hqw
  rw [(h.sent_of_waiting hp hpw).2] at hps
  rw [(h.sent_of_waiting hq hqw).2] at hqs
  simp only [Option.some.injEq, mk.injEq] at hps hqs
  rwa [← hps.2, ← hqs.2]

theorem seq_not_mem (h : Routed wiring w)
    (hfair : ∀ i p, w.packets[i]? = some p → p.waiting →
      (w.packets.drop i).countP (fun p => advancing p.refusal) < 2 ^ 32) :
    w.disp.seq ∉ w.disp.sequenceTracker.live.map fst := by
  intro hmem
  obtain ⟨a, ha, hseq⟩ := List.mem_map.mp hmem
  obtain ⟨i, p, hi, -, hpw, hcount⟩ := h.exists_of_mem_live ha
  obtain ⟨hr, -⟩ := h.sent_of_waiting hi hpw
  have hlt := advancesBefore_lt (List.getElem?_eq_some_iff.mp hi).1 hi (by rw [hr]; rfl)
  have hdrop := hfair i p hi hpw
  have hsum := @advancesBefore_add_drop w.packets i
  refine ofNat_ne hlt (by omega) ?_
  rw [← hcount, hseq, h.seq]

theorem track_eq_none_iff (h : Routed wiring w)
    (hseq : w.disp.seq ∉ w.disp.sequenceTracker.live.map fst) (port : Fin sequencePorts)
    (opCode context : UInt32) :
    track wiring w.disp port opCode context = none ↔ wiring.seqCmdStatus port ∧
      w.packets.countP (fun p => wiring.seqCmdStatus p.port && p.waiting) =
        sequencerTableSize := by
  unfold track
  by_cases hport : wiring.seqCmdStatus port
  · rw [if_pos hport, ArrayMap.insert_eq_none_iff hseq, h.tracker.length_eq, length_tracked]
    simp [hport]
  · simp [hport]

theorem track_perm (hseq : w.disp.seq ∉ w.disp.sequenceTracker.live.map fst)
    {port : Fin sequencePorts} {opCode context : UInt32} {tracker : SequenceTracker}
    (ht : track wiring w.disp port opCode context = some tracker) :
    tracker.live.Perm ((if wiring.seqCmdStatus port then
      [(w.disp.seq, ⟨opCode, context, port⟩)] else []) ++ w.disp.sequenceTracker.live) := by
  unfold track at ht
  by_cases hport : wiring.seqCmdStatus port
  · rw [if_pos hport] at ht ⊢
    exact ArrayMap.insert_perm hseq ht
  · rw [if_neg hport] at ht ⊢
    cases ht
    rfl

end Routed

@[simp] theorem replies_log (e : Event) (out : List Out) :
    replies (.log e :: out) = replies out := rfl

@[simp] theorem replies_seqStatusReply (port : Fin sequencePorts) (opCode context : UInt32)
    (response : CmdResponse) :
    replies (seqStatusReply wiring port opCode context response) =
      if wiring.seqCmdStatus port then [⟨port, opCode, context, response⟩] else [] := by
  unfold seqStatusReply
  split <;> rfl

@[simp] theorem sentOf_log (e : Event) (out : List Out) : sentOf (.log e :: out) = sentOf out := rfl

@[simp] theorem sentOf_seqStatusReply (port : Fin sequencePorts) (opCode context : UInt32)
    (response : CmdResponse) :
    sentOf (seqStatusReply wiring port opCode context response) = none := by
  unfold seqStatusReply
  split <;> rfl

variable {w : World}

theorem seqCmdBuff_spec (h : Routed wiring w)
    (hseq : w.disp.seq ∉ w.disp.sequenceTracker.live.map fst) (port : Fin sequencePorts)
    (data : ComBuffer) (context : UInt32) :
    let opCode := (CmdPacket.new.deserializeFrom data.val).2.opcode
    let refusal := refusalOf wiring w port data
    let (s, out) := seqCmdBuff wiring w.disp port data context
    s.seq = w.disp.seq + (if advancing refusal then 1 else 0) ∧
    (match refusal with
      | some response => sentOf out = none ∧ s.sequenceTracker = w.disp.sequenceTracker ∧
          replies out =
            if wiring.seqCmdStatus port then [⟨port, opCode, context, response⟩] else []
      | none => sentOf out = some (opCode, w.disp.seq) ∧ replies out = [] ∧
          s.sequenceTracker.live.Perm ((if wiring.seqCmdStatus port then
            [(w.disp.seq, ⟨opCode, context, port⟩)] else []) ++ w.disp.sequenceTracker.live)) := by
  unfold refusalOf seqCmdBuff
  generalize CmdPacket.new.deserializeFrom data.val = decoded
  obtain ⟨stat, cmdPkt⟩ := decoded
  by_cases hstat : stat = .ok
  · simp only [hstat, ne_eq, not_true_eq_false, if_false]
    cases htarget : connectedTarget wiring w.disp cmdPkt.opcode with
    | none => simp [advancing]
    | some entryPort =>
      simp only [reduceCtorEq, if_false]
      have hfull := h.track_eq_none_iff hseq port cmdPkt.opcode context
      cases htrack : track wiring w.disp port cmdPkt.opcode context with
      | none =>
        rw [if_pos (hfull.mp htrack)]
        simp [advancing]
      | some tracker =>
        have hroom := mt hfull.mpr (by simp [htrack])
        rw [if_neg hroom]
        exact ⟨by simp [advancing], rfl, rfl, Routed.track_perm hseq htrack⟩
  · simp [hstat, advancing]

theorem answersTo_snoc (w : World) (disp : State) (ps : List Packet) (k i : Nat)
    (rs : List Reply) :
    World.answersTo ⟨disp, ps, w.log ++ [(k, rs)]⟩ i =
      w.answersTo i ++ if k = i then rs else [] := by
  unfold World.answersTo
  rw [filter_append, flatMap_append]
  by_cases hk : k = i <;> simp [hk]

theorem Routed.answersTo_length (h : Routed wiring w) :
    w.answersTo w.packets.length = [] := by
  unfold World.answersTo
  rw [filter_eq_nil_iff.mpr]
  · rfl
  · intro entry hentry
    have hlt := h.log_lt entry hentry
    simp only [decide_eq_true_eq]
    omega

theorem Routed.snoc {disp : State} {rs : List Reply} (h : Routed wiring w)
    (hfair : ∀ i p, w.packets[i]? = some p → p.waiting → (w.packets.drop i).countP (fun p => advancing p.refusal) < 2 ^ 32)
    (hseq : disp.seq = w.disp.seq + if advancing p.refusal then 1 else 0)
    (hsent : p.sent = if p.refusal = none then some (p.opCode, w.disp.seq) else none)
    (htracker : disp.sequenceTracker.live.Perm ((p.tracked wiring).toList ++ w.disp.sequenceTracker.live))
    (hreplies : rs = p.answers wiring) :
    Routed wiring ⟨disp, w.packets ++ [p], w.log ++ [(w.packets.length, rs)]⟩ := by
  have hlt : ∀ {i : Nat} {q : Packet}, w.packets[i]? = some q → i < w.packets.length :=
    fun hq => (List.getElem?_eq_some_iff.mp hq).1
  have hbefore : ∀ {i : Nat}, i ≤ w.packets.length →
      advancesBefore (w.packets ++ [p]) i = advancesBefore w.packets i :=
    fun hi => advancesBefore_append [p] hi
  constructor
  case seq =>
    show disp.seq = .ofNat (advancesBefore (w.packets ++ [p]) (w.packets ++ [p]).length)
    rw [advancesBefore_length_append, hseq, h.seq]
    split <;> simp
  case sent =>
    intro i q hq
    rcases Lists.getElem?_concat_eq_some.mp hq with hq | ⟨rfl, rfl⟩
    · rw [hbefore (hlt hq).le]
      exact h.sent i q hq
    · rw [hbefore le_rfl, hsent, h.seq]
  case near =>
    intro i j q q' hij hq hq' hw hw'
    rcases Lists.getElem?_concat_eq_some.mp hq' with hq' | ⟨rfl, rfl⟩
    · rcases Lists.getElem?_concat_eq_some.mp hq with hq | ⟨rfl, -⟩
      · rw [hbefore (hlt hq).le, hbefore (hlt hq').le]
        exact h.near i j q q' hij hq hq' hw hw'
      · exact absurd (hlt hq') (by omega)
    · rcases Lists.getElem?_concat_eq_some.mp hq with hq | ⟨rfl, -⟩
      · have hdrop := hfair i q hq hw
        have hsum := @advancesBefore_add_drop w.packets i
        rw [hbefore (hlt hq).le, hbefore le_rfl]
        omega
      · exact absurd hij (by omega)
  case tracker =>
    show disp.sequenceTracker.live.Perm ((w.packets ++ [p]).filterMap (Packet.tracked wiring))
    rw [filterMap_append]
    have hlast : [p].filterMap (Packet.tracked wiring) = (p.tracked wiring).toList := by
      cases ht : p.tracked wiring <;> simp [ht]
    rw [hlast]
    exact htracker.trans ((h.tracker.append_left _).trans perm_append_comm)
  case answers =>
    intro i q hq
    rw [answersTo_snoc]
    rcases Lists.getElem?_concat_eq_some.mp hq with hq | ⟨rfl, rfl⟩
    · have hne : ¬ w.packets.length = i := by have := hlt hq; omega
      rw [if_neg hne, append_nil]
      exact h.answers i q hq
    · rw [if_pos rfl, h.answersTo_length, nil_append, hreplies]
  case log_lt =>
    intro entry hentry
    show entry.1 < (w.packets ++ [p]).length
    rw [length_append, length_singleton]
    rcases mem_append.mp hentry with hentry | hentry
    · have := h.log_lt entry hentry
      omega
    · rw [mem_singleton.mp hentry]
      omega

theorem Routed.receive (h : Routed wiring w)
    (hfair : ∀ i p, w.packets[i]? = some p → p.waiting → (w.packets.drop i).countP (fun p => advancing p.refusal) < 2 ^ 32)
    (port : Fin sequencePorts) (data : ComBuffer) (context : UInt32) :
    Routed wiring (w.receive wiring port data context) := by
  have hspec := seqCmdBuff_spec h (h.seq_not_mem hfair) port data context
  unfold World.receive
  generalize seqCmdBuff wiring w.disp port data context = result at hspec ⊢
  obtain ⟨disp, out⟩ := result
  generalize refusalOf wiring w port data = refusal at hspec ⊢
  generalize (CmdPacket.new.deserializeFrom data.val).2.opcode = opCode at hspec ⊢
  cases refusal with
  | none =>
    obtain ⟨hseq, hsent, hreplies, htracker⟩ := hspec
    refine h.snoc hfair hseq (by simpa using hsent) ?_ ?_
    · refine htracker.trans (.of_eq ?_)
      congr 1
      simp only [Packet.tracked, hsent]
      cases wiring.seqCmdStatus port <;> rfl
    · rw [hreplies]
      cases hport : wiring.seqCmdStatus port <;> simp [Packet.answers, hport]
  | some response =>
    obtain ⟨hseq, hsent, htracker, hreplies⟩ := hspec
    refine h.snoc hfair hseq (by simpa using hsent) ?_ ?_
    · simp [Packet.tracked, hsent, htracker]
    · rw [hreplies]
      cases hport : wiring.seqCmdStatus port <;> simp [Packet.answers, hport]

theorem compCmdStat_spec (wiring : Wiring) (s : State) (opCode cmdSeq : UInt32) (response : CmdResponse) :
    let (s', out) := compCmdStat wiring s opCode cmdSeq response
    s'.seq = s.seq ∧ s'.sequenceTracker = (s.sequenceTracker.remove cmdSeq).2 ∧
    replies out =
      match (s.sequenceTracker.remove cmdSeq).1 with
      | none => []
      | some entry =>
        if opCode = entry.opCode ∧ wiring.seqCmdStatus entry.callerPort then
          [⟨entry.callerPort, opCode, entry.context, response⟩]
        else [] := by
  unfold compCmdStat
  by_cases hr : response = .ok
  all_goals
    simp only [hr, if_true, if_false]
    generalize s.sequenceTracker.remove cmdSeq = removed
    obtain ⟨tracked, tracker⟩ := removed
    cases tracked with
    | none => exact ⟨rfl, rfl, rfl⟩
    | some entry =>
      by_cases hop : opCode = entry.opCode
      · simp [hop]
      · simp [hop, replies]

theorem Routed.remove (h : Routed wiring w) (hp : w.packets[i]? = some p) (hw : p.waiting)
    (response : CmdResponse) :
    let removed := w.disp.sequenceTracker.remove (.ofNat (advancesBefore w.packets i))
    removed.1 = (if wiring.seqCmdStatus p.port then some ⟨p.opCode, p.context, p.port⟩ else none) ∧
      removed.2.live.Perm ((w.packets.set i (p.complete response)).filterMap
        (Packet.tracked wiring)) := by
  obtain ⟨-, hsent⟩ := h.sent_of_waiting hp hw
  have hcompletion : p.completion = none := by simpa [Packet.waiting, hsent] using hw
  have hdone : (p.complete response).tracked wiring = none := by
    simp [Packet.tracked, Packet.complete, hsent]
  by_cases hport : wiring.seqCmdStatus p.port
  · have htracked : p.tracked wiring =
        some (.ofNat (advancesBefore w.packets i), ⟨p.opCode, p.context, p.port⟩) := by
      simp [Packet.tracked, hsent, hport, hcompletion]
    have hmem := h.tracker.mem_iff.mpr
      (mem_filterMap.mpr ⟨p, mem_of_getElem? hp, htracked⟩)
    obtain ⟨hfound, hperm⟩ := ArrayMap.remove_of_mem h.keys_nodup hmem
    refine ⟨by rw [if_pos hport]; exact hfound, ?_⟩
    refine (perm_cons _).mp (hperm.symm.trans (h.tracker.trans ?_))
    exact Lists.filterMap_set_perm hp htracked hdone
  · have hnot : ofNat (advancesBefore w.packets i) ∉
        w.disp.sequenceTracker.live.map fst := by
      intro hmem
      obtain ⟨a, ha, hkey⟩ := mem_map.mp hmem
      obtain ⟨j, q, hq, hqa, hqw, hcount⟩ := h.exists_of_mem_live ha
      have hij : i ≠ j := by
        rintro rfl
        obtain rfl : p = q := Option.some.inj (hp.symm.trans hq)
        have hsome := isSome_tracked wiring p
        simp [hqa, hport] at hsome
      exact h.cmdSeq_ne hij hp hq hw hqw (hkey ▸ hcount)
    simp only [ArrayMap.remove_of_not_mem hnot, if_neg hport, true_and]
    refine h.tracker.trans (.of_eq (Lists.filterMap_set_eq hp ?_).symm)
    rw [hdone]
    simp [Packet.tracked, hsent, hport]

theorem Routed.complete (h : Routed wiring w) (hp : w.packets[i]? = some p) (hw : p.waiting)
    (response : CmdResponse) : Routed wiring (w.complete wiring i response) := by
  obtain ⟨hrefusal, hsent⟩ := h.sent_of_waiting hp hw
  have hcompletion : p.completion = none := by simpa [Packet.waiting, hsent] using hw
  have hspec := compCmdStat_spec wiring w.disp p.opCode (.ofNat (advancesBefore w.packets i))
    response
  obtain ⟨hfound, hperm⟩ := h.remove hp hw response
  unfold World.complete
  simp only [hp, hsent]
  generalize compCmdStat wiring w.disp p.opCode (.ofNat (advancesBefore w.packets i)) response =
    result at hspec ⊢
  obtain ⟨disp, out⟩ := result
  obtain ⟨hseq, htracker, hreplies⟩ := hspec
  have hbefore : ∀ k, advancesBefore (w.packets.set i (p.complete response)) k =
      advancesBefore w.packets k := fun k => advancesBefore_set k hp rfl
  constructor
  case seq =>
    simp only [hbefore, length_set]
    exact hseq.trans h.seq
  case sent =>
    intro k q hq
    simp only [hbefore]
    rcases Lists.getElem?_set_eq_some hq with ⟨rfl, rfl⟩ | ⟨-, hq⟩
    · exact h.sent k p hp
    · exact h.sent k q hq
  case near =>
    intro k j q q' hkj hq hq' hqw hqw'
    simp only [hbefore]
    rcases Lists.getElem?_set_eq_some hq with ⟨rfl, rfl⟩ | ⟨-, hq⟩
    · simp [Packet.waiting, Packet.complete] at hqw
    · rcases Lists.getElem?_set_eq_some hq' with ⟨rfl, rfl⟩ | ⟨-, hq'⟩
      · simp [Packet.waiting, Packet.complete] at hqw'
      · exact h.near k j q q' hkj hq hq' hqw hqw'
  case tracker =>
    rw [htracker]
    exact hperm
  case answers =>
    intro k q hq
    rw [answersTo_snoc]
    rcases Lists.getElem?_set_eq_some hq with ⟨rfl, rfl⟩ | ⟨hne, hq⟩
    · rw [h.answers k p hp, if_pos rfl, hreplies, hfound]
      cases hport : wiring.seqCmdStatus p.port <;>
        simp [Packet.answers, Packet.complete, hrefusal, hcompletion, hport]
    · rw [if_neg (Ne.symm hne), append_nil]
      exact h.answers k q hq
  case log_lt =>
    intro entry hentry
    simp only [length_set]
    rcases mem_append.mp hentry with hentry | hentry
    · exact h.log_lt entry hentry
    · rw [mem_singleton.mp hentry]
      exact (List.getElem?_eq_some_iff.mp hp).1

theorem Routed.of_disp (h : Routed wiring w) {disp : State} (hseq : disp.seq = w.disp.seq)
    (htracker : disp.sequenceTracker = w.disp.sequenceTracker) :
    Routed wiring { w with disp := disp } :=
  ⟨hseq.trans h.seq, h.sent, h.near, by rw [htracker]; exact h.tracker, h.answers, h.log_lt⟩

theorem compCmdReg_quiet (s : State) (port : Fin commandPorts) (opCode : UInt32) :
    (compCmdReg s port opCode).1.seq = s.seq ∧
      (compCmdReg s port opCode).1.sequenceTracker = s.sequenceTracker := by
  unfold compCmdReg
  split <;> split <;> exact ⟨rfl, rfl⟩

theorem withArgs_fst {α : Type} (s : State) (opCode cmdSeq : UInt32) (args : Bytes)
    (read : Bytes → Except SerializeStatus (α × Bytes)) (out : α → List Out) :
    (withArgs s opCode cmdSeq args read fun a => (s, out a)).1 = s := by
  unfold withArgs
  split <;> rfl

theorem command_fst (s : State) {opCode : UInt32} (cmdSeq : UInt32) (args : Bytes)
    (h : opCode - wiring.idBase ≠ opcodeCmdClearTracking) :
    (command wiring s opCode cmdSeq args).1 = s := by
  simp only [command, if_neg h]
  split
  · exact withArgs_fst s opCode cmdSeq args _ _
  · split
    · exact withArgs_fst s opCode cmdSeq args _ _
    · split
      · exact withArgs_fst s opCode cmdSeq args _ fun (a : UInt32 × UInt32 × UInt8) =>
          [.log (.testCmd1Args a.1 a.2.1 a.2.2)]
      · rfl

theorem Routed.step (h : Routed wiring w) {act : Act}
    (hfair : Fair wiring (fun p => advancing p.refusal) w act) :
    Routed wiring (w.step wiring act) := by
  cases act with
  | register port opCode =>
    obtain ⟨hseq, htracker⟩ := compCmdReg_quiet w.disp port opCode
    exact h.of_disp hseq htracker
  | packet port data context => exact h.receive hfair port data context
  | complete i response =>
    obtain ⟨p, hp, hw⟩ := hfair
    exact h.complete hp hw response
  | overflow => exact h.of_disp rfl rfl
  | command opCode cmdSeq args =>
    have hsame := command_fst w.disp cmdSeq args hfair
    exact h.of_disp (congrArg State.seq hsame) (congrArg State.sequenceTracker hsame)

theorem routed_start : Routed wiring .start := by
  constructor <;> simp [World.start, State.new, advancesBefore]

/-- Every packet has the one reply it should have by then, on its own port, and every reply is put
down to a packet. -/
theorem reply_routing (wiring : Wiring) (acts : List Act)
    (hfair : Runs.Along (World.step wiring) (Fair wiring fun p => advancing p.refusal) .start
      acts) :
    let w := World.run wiring acts
    (∀ i p, w.packets[i]? = some p →
      w.answersTo i = p.answers wiring ∧ (p.sent.isSome ↔ p.refusal = none)) ∧
    ∀ entry ∈ w.log, entry.1 < w.packets.length := by
  have h : Routed wiring (World.run wiring acts) :=
    Runs.invariant (I := Routed wiring) (fun _ _ hw hf => hw.step hf) routed_start hfair
  refine ⟨fun i p hp => ⟨h.answers i p hp, ?_⟩, h.log_lt⟩
  rw [h.sent i p hp]
  split <;> simp [*]

def fullyWired : Wiring :=
  ⟨fun _ => true, fun _ => true, 0⟩

def twoCallers : List Act :=
  [.register 0 7, .packet 2 ⟨[0, 0, 0, 0, 0, 7], by decide⟩ 5,
    .packet 1 ⟨[0, 0, 0, 0, 0, 7], by decide⟩ 6, .complete 1 .ok, .complete 0 .busy]

theorem fair_of_few {moves : Packet → Bool} (h : w.packets.length < 2 ^ 32)
    (port : Fin sequencePorts) (data : ComBuffer) (context : UInt32) :
    Fair wiring moves w (.packet port data context) := by
  intro i p _ _
  have hdrop : (w.packets.drop i).countP moves ≤ (w.packets.drop i).length := countP_le_length
  rw [length_drop] at hdrop
  omega

/-- The commands are completed in the other order, and each caller has the reply to its own. -/
theorem reply_routing_two_callers :
    (World.run fullyWired twoCallers).answersTo 0 = [⟨2, 7, 5, .busy⟩] ∧
      (World.run fullyWired twoCallers).answersTo 1 = [⟨1, 7, 6, .ok⟩] := by
  have h := reply_routing fullyWired twoCallers ⟨trivial, fair_of_few (by decide) _ _ _,
    fair_of_few (by decide) _ _ _, ⟨_, rfl, by decide⟩, ⟨_, rfl, by decide⟩, trivial⟩
  exact ⟨(h.1 0 _ rfl).1, (h.1 1 _ rfl).1⟩

def unknown : Act :=
  .packet 0 ⟨[0, 0, 0, 0, 0, 9], by decide⟩ 0

def unknownPacket : Packet :=
  ⟨0, 9, 0, some .invalidOpcode, none, none⟩

theorem step_unknown (h : w.disp.entryTable.lookup 9 = none) :
    w.step fullyWired unknown =
      ⟨{ w.disp with numCmdErrors := w.disp.numCmdErrors + 1, seq := w.disp.seq + 1 },
        w.packets ++ [unknownPacket],
        w.log ++ [(w.packets.length, [⟨0, 9, 0, .invalidOpcode⟩])]⟩ := by
  have hdecode : CmdPacket.new.deserializeFrom [0, 0, 0, 0, 0, 9] = (.ok, ⟨9, []⟩) := by decide
  have htarget : connectedTarget fullyWired w.disp 9 = none := by simp [connectedTarget, h]
  have hport : fullyWired.seqCmdStatus 0 = true := rfl
  simp [World.step, unknown, World.receive, seqCmdBuff, refusalOf, hdecode, htarget,
    seqStatusReply, hport, replies, sentOf, unknownPacket]

theorem flood (n : Nat) (htable : w.disp.entryTable.lookup 9 = none) (hne : 0 < w.packets.length)
    (hcount : w.packets.countP (·.sent.isSome) < 2 ^ 32) :
    Runs.Along (World.step fullyWired) (Fair fullyWired (·.sent.isSome)) w
        (replicate n unknown) ∧
      let w' := (replicate n unknown).foldl (World.step fullyWired) w
      w'.disp.seq = w.disp.seq + .ofNat n ∧ w'.disp.entryTable = w.disp.entryTable ∧
        w'.disp.sequenceTracker = w.disp.sequenceTracker ∧
        w'.packets = w.packets ++ replicate n unknownPacket ∧
        w'.answersTo 0 = w.answersTo 0 := by
  induction n generalizing w with
  | zero => simp [Runs.Along]
  | succ n ih =>
    have hstep := step_unknown htable
    obtain ⟨halong, hseq, htable', htracker, hpackets, hanswers⟩ :=
      @ih (w.step fullyWired unknown) (by rw [hstep]; exact htable) (by rw [hstep]; simp)
        (by rw [hstep]; simpa [unknownPacket] using hcount)
    have hfair : Fair fullyWired (·.sent.isSome) w unknown := by
      intro i p _ _
      exact lt_of_le_of_lt ((drop_sublist i w.packets).countP_le) hcount
    refine ⟨⟨hfair, halong⟩, ?_⟩
    simp only [replicate_succ, foldl_cons]
    refine ⟨?_, ?_, ?_, ?_, ?_⟩
    · rw [hseq, hstep, UInt32.ofNat_add, UInt32.add_comm (.ofNat n), ← UInt32.add_assoc]
      rfl
    · rw [htable', hstep]
    · rw [htracker, hstep]
    · rw [hpackets, hstep]
      simp
    · rw [hanswers, hstep, answersTo_snoc, if_neg (by omega), append_nil]

def firstPacket : Packet :=
  ⟨0, 7, 1, none, some (7, 0), none⟩

def firstActs : List Act :=
  [.register 0 7, .packet 0 ⟨[0, 0, 0, 0, 0, 7], by decide⟩ 1]

def secondPacket : Act :=
  .packet 1 ⟨[0, 0, 0, 0, 0, 7], by decide⟩ 2

theorem step_secondPacket (hseq : w.disp.seq = 0) (htable : w.disp.entryTable = [(7, 0)])
    (htracker : w.disp.sequenceTracker = (World.run fullyWired firstActs).disp.sequenceTracker)
    (hfirst : w.packets[0]? = some firstPacket) :
    let w' := w.step fullyWired secondPacket
    w'.packets[0]? = some firstPacket ∧ w'.answersTo 0 = w.answersTo 0 ∧
      (w'.disp.sequenceTracker.remove 0).1 = some ⟨7, 2, 1⟩ := by
  have hdecode : CmdPacket.new.deserializeFrom [0, 0, 0, 0, 0, 7] = (.ok, ⟨7, []⟩) := by decide
  have htarget : connectedTarget fullyWired w.disp 7 = some 0 := by
    simp [connectedTarget, htable, fullyWired]
  obtain ⟨tracker, htrack, hremove⟩ : ∃ tracker, track fullyWired w.disp 1 7 2 = some tracker ∧
      (tracker.remove 0).1 = some ⟨7, 2, 1⟩ := by
    simp only [track, hseq, htracker]
    exact ⟨_, rfl, by decide⟩
  have hlt : 0 < w.packets.length := (List.getElem?_eq_some_iff.mp hfirst).1
  simp only [World.step, secondPacket, World.receive, seqCmdBuff, hdecode, htarget, htrack]
  refine ⟨?_, ?_, hremove⟩
  · rw [getElem?_append_left hlt]
    exact hfirst
  · rw [answersTo_snoc, if_neg (by omega), append_nil]

theorem step_complete (hfirst : w.packets[0]? = some firstPacket)
    (htracker : (w.disp.sequenceTracker.remove 0).1 = some ⟨7, 2, 1⟩) :
    let w' := w.step fullyWired (.complete 0 .ok)
    w'.packets[0]? = some (firstPacket.complete .ok) ∧
      w'.answersTo 0 = w.answersTo 0 ++ [⟨1, 7, 2, .ok⟩] := by
  have hspec := compCmdStat_spec fullyWired w.disp 7 0 .ok
  simp only [World.step, World.complete, hfirst, firstPacket]
  generalize compCmdStat fullyWired w.disp 7 0 .ok = result at hspec ⊢
  obtain ⟨disp, out⟩ := result
  obtain ⟨-, -, hreplies⟩ := hspec
  refine ⟨List.getElem?_set_self (List.getElem?_eq_some_iff.mp hfirst).1, ?_⟩
  rw [answersTo_snoc, if_pos rfl, hreplies, htracker]
  rfl

theorem crossed_after (n : Nat) (hn : 1 + ofNat n = 0) :
    ∃ acts, Runs.Along (World.step fullyWired) (Fair fullyWired (·.sent.isSome)) .start acts ∧
      let w := World.run fullyWired acts
      ∃ p, w.packets[0]? = some p ∧ p.answers fullyWired = [⟨0, 7, 1, .ok⟩] ∧
        w.answersTo 0 = [⟨1, 7, 2, .ok⟩] := by
  obtain ⟨hflood, hseq, htable, htracker, hpackets, hanswers⟩ := @flood
    (World.run fullyWired firstActs) n (by decide) (by decide) (by decide)
  generalize hw : (replicate n unknown).foldl (World.step fullyWired)
    (World.run fullyWired firstActs) = w at hseq htable htracker hpackets hanswers
  have hone : (World.run fullyWired firstActs).packets = [firstPacket] := by decide
  rw [hone] at hpackets
  have hfirst : w.packets[0]? = some firstPacket := by rw [hpackets]; rfl
  have hstart : (World.run fullyWired firstActs).disp.seq = 1 := by decide
  have hround : w.disp.seq = 0 := by rw [hseq, hstart, hn]
  obtain ⟨hfirst', hanswers', hremove⟩ := step_secondPacket hround (htable.trans rfl) htracker
    hfirst
  obtain ⟨hlast, hcrossed⟩ := step_complete hfirst' hremove
  refine ⟨firstActs ++ (replicate n unknown ++ [secondPacket, .complete 0 .ok]),
    Runs.along_append ?_ (Runs.along_append hflood ?_), firstPacket.complete .ok, ?_, rfl, ?_⟩
  · exact ⟨trivial, fun i p hp => by simp [World.step, World.start] at hp, trivial⟩
  · show Runs.Along _ _ (foldl (World.step fullyWired) (World.run fullyWired firstActs) _) _
    rw [hw]
    refine ⟨fun i p hp hwait => ?_, ⟨_, hfirst', rfl⟩, trivial⟩
    calc (w.packets.drop i).countP (·.sent.isSome)
        ≤ w.packets.countP (·.sent.isSome) := (drop_sublist i w.packets).countP_le
      _ = 1 := by rw [hpackets]; simp [countP_replicate, unknownPacket, firstPacket]
      _ < 2 ^ 32 := by decide
  · simp only [World.run, foldl_append, foldl_cons, foldl_nil] at hw hlast ⊢
    rw [hw]
    exact hlast
  · simp only [World.run, foldl_append, foldl_cons, foldl_nil] at hw hcrossed ⊢
    rw [hw, hcrossed, hanswers', hanswers]
    decide

/-- Two commands go out under one sequence number, and the first is answered to the second's caller.
A wrong descriptor is answered with opcode 0. -/
theorem crossed_replies :
    (∃ acts, Runs.Along (World.step fullyWired) (Fair fullyWired (·.sent.isSome)) .start acts ∧
      let w := World.run fullyWired acts
      ∃ p, w.packets[0]? = some p ∧ p.answers fullyWired = [⟨0, 7, 1, .ok⟩] ∧
        w.answersTo 0 = [⟨1, 7, 2, .ok⟩]) ∧
    (World.run fullyWired [.packet 0 ⟨[0, 1, 0, 0, 0, 7], by decide⟩ 1]).answersTo 0 =
      [⟨0, 0, 1, .validationError⟩] :=
  ⟨crossed_after (2 ^ 32 - 1) (by decide), by decide⟩

end Fprime.Svc.CmdDispatcher
