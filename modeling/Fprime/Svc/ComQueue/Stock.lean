import Fprime.Svc.ComQueue

/-!
# What the com queue holds

The tokens in the buffer queues, with the buffers in escrow that they stand for, and what the
handlers do to them.
-/

namespace Fprime.Svc.ComQueue

open Fprime.Comp Fw Utils Lib List Function

theorem bufferPort_comQueueNum (n : Fin comPorts) : bufferPort (comQueueNum n) = none :=
  dif_pos (show (comQueueNum n).val < comPorts from n.isLt)

theorem bufferPort_bufferQueueNum (n : Fin bufferPorts) :
    bufferPort (bufferQueueNum n) = some n := by
  unfold bufferPort bufferQueueNum
  rw [dif_neg (by simp)]
  congr 1
  apply Fin.ext
  simp

theorem queue_cases {motive : Fin totalPorts → Prop} (hcom : ∀ n, motive (comQueueNum n))
    (hbuffer : ∀ n, motive (bufferQueueNum n)) (i : Fin totalPorts) : motive i :=
  Fin.addCases hcom hbuffer i

theorem comQueueNum_ne (n : Fin comPorts) (m : Fin bufferPorts) :
    bufferQueueNum m ≠ comQueueNum n := by
  intro h
  have := congrArg bufferPort h
  simp [bufferPort_comQueueNum, bufferPort_bufferQueueNum] at this

theorem bufferQueueNum_inj {n m : Fin bufferPorts} (h : bufferQueueNum n = bufferQueueNum m) :
    n = m := by
  have := congrArg bufferPort h
  simpa [bufferPort_bufferQueueNum] using this

@[simp] theorem State.setQueue_self (s : State) (i : Fin totalPorts) (queue : Queue Record) :
    (s.setQueue i queue).queues i = queue := by
  simp [State.setQueue]

theorem State.setQueue_of_ne (s : State) {i j : Fin totalPorts} (h : j ≠ i) (queue : Queue Record) :
    (s.setQueue i queue).queues j = s.queues j := by
  simp [State.setQueue, h]

def contextPort (context : FrameContext) : Option (Fin bufferPorts) :=
  let port := context.comQueueIndex - comPorts
  if h : 0 ≤ port ∧ port < bufferPorts then some ⟨port.toNat, by omega⟩ else none

theorem contextPort_of_index (apid : Apid) (i : Fin totalPorts) :
    contextPort (queueContext apid i) = bufferPort i := by
  have hi := i.isLt
  simp only [totalPorts] at hi
  unfold contextPort bufferPort queueContext
  dsimp only
  by_cases h : i.val < comPorts
  · rw [dif_pos h, dif_neg (by omega)]
  · rw [dif_neg h, dif_pos (by omega)]
    congr 1
    apply Fin.ext
    simp only
    omega

def sentOf (out : List Out) : List (Buffer × FrameContext) :=
  out.filterMap fun
    | .dataOut data context => some (data, context)
    | _ => none

/-- The buffers that leave through the output ports, by the port they came from. -/
def released (out : List Out) : List (Fin bufferPorts × Buffer) :=
  out.filterMap fun
    | .dataOut data context => (contextPort context).map (·, data)
    | .bufferReturnOut port buffer => some (port, buffer)
    | _ => none

abbrev Tokens := List (Token × Buffer)

def queued (held : Fin bufferPorts → Tokens) :
    List (Fin bufferPorts × Buffer) :=
  (finRange bufferPorts).flatMap fun n => (held n).map fun x => (n, x.2)

/-- The queues of buffers hold the tokens in `held` and the escrow their buffers, besides those in
`pending`; the others hold com packets. -/
structure Stocked (least : Nat) (pending : Tokens)
    (held : Fin bufferPorts → Tokens) (s : State) : Prop where
  com : ∀ n, ∀ m ∈ (s.queues (comQueueNum n)).messages,
    ∃ bytes, m = .com bytes ∧ least ≤ bytes.length
  buffer : ∀ n, (s.queues (bufferQueueNum n)).messages = (held n).map fun x => .buffer x.1
  holds : s.escrow.Holds (pending ++ (finRange bufferPorts).flatMap held)
  long : ∀ x ∈ pending ++ (finRange bufferPorts).flatMap held, least ≤ x.2.bytes.length

def ledger (held : Fin bufferPorts → Tokens) (s : State) :
    List (Fin bufferPorts × Buffer) :=
  queued held ++ released s.out

variable {least : Nat} {pending pending' : Tokens} {held : Fin bufferPorts → Tokens}
  {s s' : State} {n : Fin bufferPorts} {xs : Tokens}

theorem flatMap_held (held : Fin bufferPorts → Tokens) (n : Fin bufferPorts)
    (xs : Tokens) :
    ((finRange bufferPorts).flatMap (update held n xs)).Perm
      (xs ++ (finRange bufferPorts).flatMap (update held n [])) :=
  Lists.flatMap_update_perm (nodup_finRange _) (mem_finRange n) held xs

theorem queued_update (held : Fin bufferPorts → Tokens) (n : Fin bufferPorts)
    (xs : Tokens) :
    (queued (update held n xs)).Perm
      (xs.map (fun x => (n, x.2)) ++ queued (update held n [])) := by
  have hmap : ∀ ys, (fun m => (update held n ys m).map fun x => (m, x.2)) =
      update (fun m => (held m).map fun x => (m, x.2)) n
        (ys.map fun x => (n, x.2)) := by
    intro ys
    funext m
    exact apply_update (fun m (l : Tokens) => l.map fun x => (m, x.2))
      held n ys m
  unfold queued
  rw [hmap, hmap]
  exact Lists.flatMap_update_perm (nodup_finRange _) (mem_finRange n) _ _

namespace Stocked

theorem setQueue (h : Stocked least pending held s) {queue : Queue Record}
    (hqueue : queue.messages = xs.map fun x => .buffer x.1)
    (hperm : (pending ++ held n).Perm (pending' ++ xs)) :
    Stocked least pending' (update held n xs) (s.setQueue (bufferQueueNum n) queue) := by
  have hall : (pending ++ (finRange bufferPorts).flatMap held).Perm
      (pending' ++ (finRange bufferPorts).flatMap (update held n xs)) := by
    have hself := flatMap_held held n (held n)
    rw [update_eq_self] at hself
    refine (hself.append_left pending).trans
      (.trans ?_ ((flatMap_held held n xs).symm.append_left _))
    rw [← append_assoc, ← append_assoc]
    exact hperm.append_right _
  constructor
  · intro m
    rw [s.setQueue_of_ne (comQueueNum_ne m n).symm]
    exact h.com m
  · intro m
    by_cases hm : m = n
    · subst hm
      rw [State.setQueue_self, update_self, hqueue]
    · rw [update_of_ne hm, s.setQueue_of_ne fun he => hm (bufferQueueNum_inj he)]
      exact h.buffer m
  · exact h.holds.perm hall
  · intro x hx
    exact h.long x (hall.mem_iff.mpr hx)

theorem setComQueue (h : Stocked least pending held s) {n : Fin comPorts} {queue : Queue Record}
    (hqueue : ∀ m ∈ queue.messages, ∃ bytes, m = .com bytes ∧ least ≤ bytes.length) :
    Stocked least pending held (s.setQueue (comQueueNum n) queue) := by
  constructor
  · intro m
    by_cases hm : comQueueNum m = comQueueNum n
    · rw [hm, State.setQueue_self]
      exact hqueue
    · rw [s.setQueue_of_ne hm]
      exact h.com m
  · intro m
    rw [s.setQueue_of_ne (comQueueNum_ne n m)]
    exact h.buffer m
  · exact h.holds
  · exact h.long

theorem of_eq (h : Stocked least pending held s) (hqueues : s'.queues = s.queues)
    (hescrow : s'.escrow = s.escrow) : Stocked least pending held s' :=
  ⟨by rw [hqueues]; exact h.com, by rw [hqueues]; exact h.buffer, by rw [hescrow]; exact h.holds,
    h.long⟩

theorem claimRecord {token : Token} {b : Buffer} (h : Stocked least ((token, b) :: pending) held s) :
    ∃ escrow, s.claimRecord (.buffer token) = .ok (b, { s with escrow := escrow }) ∧
      Stocked least pending held { s with escrow := escrow } := by
  obtain ⟨escrow, hclaim, hholds⟩ := BufferEscrow.Holds.claim h.holds
  refine ⟨escrow, ?_, h.com, h.buffer, hholds, fun x hx => h.long x (mem_cons_of_mem _ hx)⟩
  simp [State.claimRecord, hclaim]

theorem deposit (h : Stocked least pending held s) (b : Buffer) (hb : least ≤ b.bytes.length) :
    Stocked least (((s.escrow.deposit b).1, b) :: pending) held
      { s with escrow := (s.escrow.deposit b).2 } :=
  ⟨h.com, h.buffer, h.holds.deposit b, forall_mem_cons.mpr ⟨hb, h.long⟩⟩

theorem popMessage (h : Stocked least pending held s) {queue : Queue Record} {record : Record}
    (hpop : (s.queues (bufferQueueNum n)).messages = record :: queue.messages ∨
      (s.queues (bufferQueueNum n)).messages = queue.messages ++ [record]) :
    ∃ token b xs, record = .buffer token ∧ ((held n).Perm ((token, b) :: xs)) ∧
      Stocked least ((token, b) :: pending) (update held n xs)
        (s.setQueue (bufferQueueNum n) queue) := by
  rw [h.buffer n] at hpop
  obtain ⟨x, xs, hrecord, hqueue, hperm⟩ : ∃ x xs, record = .buffer x.1 ∧
      queue.messages = xs.map (fun x => .buffer x.1) ∧ (held n).Perm (x :: xs) := by
    rcases hpop with hpop | hpop
    · obtain ⟨x, xs, hheld, hx, hxs⟩ := map_eq_cons_iff.mp hpop
      exact ⟨x, xs, hx.symm, hxs.symm, .of_eq hheld⟩
    · obtain ⟨xs, ys, hheld, hxs, hys⟩ := map_eq_append_iff.mp hpop
      obtain ⟨x, rfl, hx⟩ := map_eq_singleton_iff.mp hys
      exact ⟨x, xs, hx.symm, hxs.symm, by rw [hheld]; exact perm_append_singleton x xs⟩
  refine ⟨x.1, x.2, xs, hrecord, hperm, h.setQueue hqueue ?_⟩
  exact (hperm.append_left pending).trans perm_middle

end Stocked

theorem released_append (out out' : List Out) :
    released (out ++ out') = released out ++ released out' :=
  filterMap_append

theorem sendPrepared_eq_ok {b : Buffer} {i : Fin totalPorts} (h : s.sendPrepared b i = .ok s') :
    s.bufferState = .owned ∧ ∃ apid,
      s' = { s.emit (.dataOut b (queueContext apid i)) with
        bufferState := .unowned, sendState := .waiting } := by
  unfold State.sendPrepared at h
  split at h
  · cases h
  · split at h
    · rename_i howned
      cases h
      exact ⟨howned, _, rfl⟩
    · cases h

/-- The buffer that goes out for a record of a queue, and the escrow without it. -/
def Taken (s : State) (i : Fin totalPorts) : Record → Buffer → BufferEscrow Buffer → Prop
  | .com bytes, b, escrow => b = ⟨none, bytes⟩ ∧ escrow = s.escrow ∧ bufferPort i = none
  | .buffer token, b, escrow => s.escrow.claim token = some (b, escrow) ∧ bufferPort i ≠ none

theorem sendRecord_eq_ok {record : Record} {i : Fin totalPorts}
    (h : s.sendRecord record i = .ok s') :
    s.bufferState = .owned ∧ ∃ b apid escrow, Taken s i record b escrow ∧
      s' = { s.emit (.dataOut b (queueContext apid i)) with
        bufferState := .unowned, sendState := .waiting, escrow := escrow } := by
  unfold State.sendRecord at h
  cases hport : bufferPort i with
  | none =>
    cases record with
    | com bytes =>
      simp only [hport] at h
      split at h
      · obtain ⟨howned, apid, rfl⟩ := sendPrepared_eq_ok h
        exact ⟨howned, _, apid, s.escrow, ⟨rfl, rfl, hport⟩, rfl⟩
      · cases h
    | buffer token =>
      simp only [hport] at h
      cases h
  | some port =>
    cases record with
    | com bytes =>
      simp only [hport] at h
      cases h
    | buffer token =>
      simp only [hport, State.claimRecord] at h
      cases hclaim : s.escrow.claim token with
      | none =>
        rw [hclaim] at h
        cases h
      | some claimed =>
        rw [hclaim] at h
        obtain ⟨howned, apid, rfl⟩ := sendPrepared_eq_ok h
        exact ⟨howned, claimed.1, apid, claimed.2, ⟨hclaim, by simp [hport]⟩, rfl⟩

theorem processQueue_eq_ok (h : s.processQueue = .ok s') :
    s.sendState = .ready ∧
    ((RoundRobin.serve QueueMetadata.rank (fun e => (s.queues e.index).getQueueSize ≠ 0)
        s.prioritized = none ∧ s' = s) ∨
      ∃ entry prioritized record queue s1,
        RoundRobin.serve QueueMetadata.rank (fun e => (s.queues e.index).getQueueSize ≠ 0)
          s.prioritized = some (entry, prioritized) ∧
        (s.queues entry.index).dequeue = some (record, queue) ∧
        (s.setQueue entry.index queue).sendRecord record entry.index = .ok s1 ∧
        s' = { s1 with
          throttle := update s1.throttle entry.index false
          prioritized := prioritized }) := by
  unfold State.processQueue at h
  split at h
  · rename_i hready
    refine ⟨hready, ?_⟩
    split at h
    · rename_i hnone
      cases h
      exact .inl ⟨hnone, rfl⟩
    · rename_i entry prioritized hserve
      split at h
      · cases h
      · rename_i record queue hdequeue
        obtain ⟨s1, hsend, h⟩ := Runs.bind_eq_ok.mp h
        cases h
        exact .inr ⟨entry, prioritized, record, queue, s1, hserve, hdequeue, hsend, rfl⟩
  · cases h

theorem dequeue_ends {q q' : Queue Record} {record : Record} (h : q.dequeue = some (record, q')) :
    q.messages = record :: q'.messages ∨ q.messages = q'.messages ++ [record] := by
  have hm := (Queue.dequeue_eq_some h).1
  cases hmode : q.mode with
  | fifo =>
    rw [hmode] at hm
    exact .inl hm
  | lifo =>
    rw [hmode] at hm
    exact .inr hm

theorem Stocked.processQueue (h : Stocked least pending held s) (hs : s.processQueue = .ok s') :
    ∃ held', Stocked least pending held' s' ∧ (ledger held' s').Perm (ledger held s) := by
  obtain ⟨-, ⟨-, rfl⟩ | ⟨entry, prioritized, record, queue, s1, -, hdequeue, hsend, rfl⟩⟩ :=
    processQueue_eq_ok hs
  · exact ⟨held, h, .refl _⟩
  · obtain ⟨-, b, apid, escrow, htaken, rfl⟩ := sendRecord_eq_ok hsend
    have hends := dequeue_ends hdequeue
    clear hdequeue hsend
    generalize entry.index = i at htaken hends ⊢
    induction i using queue_cases with
    | hcom n =>
      have hmem : ∀ m, m = record ∨ m ∈ queue.messages →
          m ∈ (s.queues (comQueueNum n)).messages := by
        rcases hends with hends | hends <;> simp [hends, or_comm]
      obtain ⟨bytes, rfl, -⟩ := h.com n record (hmem record (.inl rfl))
      obtain ⟨rfl, rfl, -⟩ := htaken
      have hset : Stocked least pending held (s.setQueue (comQueueNum n) queue) :=
        h.setComQueue fun m hm => h.com n m (hmem m (.inr hm))
      refine ⟨held, hset.of_eq rfl rfl, ?_⟩
      unfold ledger
      refine List.Perm.append_left _ (.of_eq ?_)
      simp only [State.emit, State.setQueue, released_append]
      simp [released, contextPort_of_index, bufferPort_comQueueNum]
    | hbuffer n =>
      obtain ⟨token, c, xs, rfl, hperm, hstocked⟩ := h.popMessage hends
      obtain ⟨hclaim, -⟩ := htaken
      obtain ⟨escrow', hclaim', hdone⟩ := hstocked.claimRecord
      have heq : s.escrow.claim token = some (c, escrow') := by
        simp only [State.claimRecord, State.setQueue] at hclaim'
        split at hclaim'
        · cases hclaim'
        · rename_i claimed hsome
          cases hclaim'
          exact hsome
      simp only [State.setQueue] at hclaim
      obtain ⟨rfl, rfl⟩ : c = b ∧ escrow' = escrow := by
        rw [heq] at hclaim
        simpa using hclaim
      refine ⟨_, hdone.of_eq rfl rfl, ?_⟩
      have hself := queued_update held n (held n)
      rw [update_eq_self] at hself
      have hout : released (s.out ++ [Out.dataOut c (queueContext apid (bufferQueueNum n))]) =
          released s.out ++ [(n, c)] := by
        rw [released_append]
        simp [released, contextPort_of_index, bufferPort_bufferQueueNum]
      unfold ledger
      simp only [State.emit, State.setQueue, hout]
      refine .trans ?_ ((hself.trans ((hperm.map _).append_right _)).symm.append_right _)
      refine ((queued_update held n xs).append_right _).trans ?_
      rw [map_cons, ← append_assoc]
      exact perm_append_singleton _ _

end Fprime.Svc.ComQueue
