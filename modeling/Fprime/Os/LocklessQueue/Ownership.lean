import Mathlib.Algebra.BigOperators.Fin
import Fprime.Lib.Lists
import Fprime.Lib.Runs
import Fprime.Os.LocklessQueue

/-!
# Who owns a slot

Every slot is free, being written by one thread, ready with a published message, or being read by
one thread.
-/

namespace Fprime.Os.LocklessQueue

open Lib Function Nat LocklessSlotState

variable {cfg : Config} {σ σ' : System cfg}

theorem asRepr_inj {a b : LocklessSlotState} (h : a.asRepr = b.asRepr) : a = b := by
  cases a <;> cases b <;> first | rfl | cases h

theorem le_chunks_mul {n : Nat} (h : n ≤ cfg.messageSize) : n ≤ cfg.chunks n * cfg.word := by
  have hword := cfg.word_pos
  have hmono : (n + cfg.word - 1) / cfg.word ≤ (cfg.messageSize + cfg.word - 1) / cfg.word :=
    Nat.div_le_div_right (by omega)
  rw [Config.chunks, min_eq_right hmono]
  have hdiv := div_add_mod (n + cfg.word - 1) cfg.word
  have hmod := mod_lt (n + cfg.word - 1) hword
  rw [mul_comm] at hdiv
  omega

theorem take_toWord (bytes : Bytes) (k : Nat) :
    (toWord cfg (chunk cfg bytes k)).take (min cfg.word (bytes.length - k * cfg.word)) =
      chunk cfg bytes k := by
  refine List.take_left' ?_
  simp [chunk]

theorem take_append_chunk (bytes : Bytes) (k : Nat) :
    bytes.take (k * cfg.word) ++ chunk cfg bytes k = bytes.take ((k + 1) * cfg.word) := by
  rw [succ_mul, List.take_add]
  rfl

def Written (cfg : Config) (bytes : Bytes) (k : Nat) (slot : Slot) : Prop :=
  ∀ j, j < k → slot.payload j = toWord cfg (chunk cfg bytes j)

structure Filled (cfg : Config) (m : Message) (slot : Slot) : Prop where
  written : Written cfg m.1 (cfg.chunks m.1.length) slot
  size : slot.size = m.1.length
  priority : slot.priority = m.2

def SendAt.owned {depth : Nat} : SendAt depth → Option (Fin depth)
  | .storeWord i .. => some i
  | .storeSize i _ => some i
  | .storePriority i _ => some i
  | .fetchSequence i _ => some i
  | .storeSequence i .. => some i
  | .fetchCount i _ => some i
  | .publish i .. => some i
  | _ => none

def ReceiveAt.owned {depth : Nat} : ReceiveAt depth → Option (Fin depth)
  | .fetchAvailable i _ => some i
  | .loadSize i _ => some i
  | .loadWord i .. => some i
  | .loadStored i .. => some i
  | .fetchCount i .. => some i
  | .release i .. => some i
  | _ => none

def Proc.owned {depth : Nat} : Proc depth → Option (Fin depth)
  | .idle => none
  | .send _ _ pos => pos.owned
  | .receive _ _ pos => pos.owned

def Proc.counted {depth : Nat} : Proc depth → Bool
  | .send _ _ (.publish ..) => true
  | .send .. => false
  | .receive _ _ (.release ..) => false
  | .receive .. => true
  | .idle => false

/-- What a send knows of the slot it owns, or of the word it has seen. -/
def SendAt.Facts (slots : Fin cfg.depth → Slot) (op : SendOp) : SendAt cfg.depth → Prop
  | .scan _ => True
  | .claim _ packed => stateOf packed = free.asRepr
  | .storeWord i _ k => Written cfg op.buffer k (slots i)
  | .storeSize i _ => Written cfg op.buffer (cfg.chunks op.buffer.length) (slots i)
  | .storePriority i _ =>
    Written cfg op.buffer (cfg.chunks op.buffer.length) (slots i) ∧
      (slots i).size = op.buffer.length
  | .fetchSequence i _ => Filled cfg (op.buffer, op.priority) (slots i)
  | .storeSequence i .. => Filled cfg (op.buffer, op.priority) (slots i)
  | .fetchCount i _ => Filled cfg (op.buffer, op.priority) (slots i)
  | .publish i _ nextCount =>
    Filled cfg (op.buffer, op.priority) (slots i) ∧ nextCount.toNat ≤ cfg.depth
  | .fetchAvailable nextCount => nextCount.toNat ≤ cfg.depth
  | .loadMark nextCount => nextCount.toNat ≤ cfg.depth
  | .raiseMark nextCount .. => nextCount.toNat ≤ cfg.depth

def SendAt.published {depth : Nat} : SendAt depth → Bool
  | .fetchAvailable _ => true
  | .loadMark _ => true
  | .raiseMark .. => true
  | _ => false

def Candidate.Seen {depth : Nat} (best : Option (Candidate depth)) : Prop :=
  ∀ c, best = some c → stateOf c.packed = ready.asRepr

def ReceiveAt.Seen {depth : Nat} : ReceiveAt depth → Prop
  | .scan _ best => Candidate.Seen best
  | .loadPriority _ packed best => stateOf packed = ready.asRepr ∧ Candidate.Seen best
  | .loadSequence _ packed _ best => stateOf packed = ready.asRepr ∧ Candidate.Seen best
  | .reload c best => stateOf c.packed = ready.asRepr ∧ Candidate.Seen best
  | .claim c => stateOf c.packed = ready.asRepr
  | _ => True

def ReceiveAt.Facts (m : Message) : ReceiveAt cfg.depth → Prop
  | .loadWord _ _ size k bytes =>
    size = m.1.length ∧ bytes = m.1.take (k * cfg.word) ∧ k < cfg.chunks size
  | .loadStored _ _ bytes => bytes = m.1
  | .fetchCount _ _ message => message = m
  | .release _ _ message => message = m
  | _ => True

/-- The phases of a slot, with the thread that owns it and the send whose message it holds. -/
inductive Status where
  | free
  | writing (t : Nat)
  | ready (n : Nat)
  | reading (t n : Nat)

def Status.owner : Status → Option Nat
  | .writing t => some t
  | .reading t _ => some t
  | _ => none

def Status.message : Status → Option Nat
  | .ready n => some n
  | .reading _ n => some n
  | _ => none

def Status.weight {depth : Nat} (procs : Nat → Proc depth) : Status → Nat
  | .free => 0
  | .ready _ => 1
  | .writing t => (procs t).counted.toNat
  | .reading t _ => (procs t).counted.toNat

def Stored (σ : System cfg) (i : Fin cfg.depth) (n : Nat) : Prop :=
  ∃ m, σ.sends[n]? = some m ∧ m.1.length ≤ cfg.messageSize ∧ Filled cfg m (σ.slots i)

def SlotOk (σ : System cfg) (i : Fin cfg.depth) : Status → Prop
  | .free => stateOf (σ.slots i).stateTag = free.asRepr
  | .writing t => stateOf (σ.slots i).stateTag = writing.asRepr ∧
      (σ.procs t).owned = some i
  | .ready n => stateOf (σ.slots i).stateTag = ready.asRepr ∧ Stored σ i n
  | .reading t n => stateOf (σ.slots i).stateTag = reading.asRepr ∧
      (σ.procs t).owned = some i ∧ Stored σ i n

def ProcOk (σ : System cfg) (status : Fin cfg.depth → Status) (t : Nat) : Proc cfg.depth → Prop
  | .idle => True
  | .send op _ pos =>
    σ.sends[op.id]? = some (op.buffer, op.priority) ∧ op.buffer.length ≤ cfg.messageSize ∧
      pos.Facts σ.slots op ∧ (∀ i, pos.owned = some i → status i = .writing t) ∧
      (op.id ∈ σ.published ↔ pos.published = true)
  | .receive _ _ pos => pos.Seen ∧ ∀ i, pos.owned = some i →
      ∃ n m, status i = .reading t n ∧ σ.sends[n]? = some m ∧ pos.Facts m

def Proc.sendId {depth : Nat} : Proc depth → Option Nat
  | .send op _ _ => some op.id
  | _ => none

/-- Every slot is as its status says, and every thread knows its own. -/
structure Local (σ : System cfg) (status : Fin cfg.depth → Status) : Prop where
  slot : ∀ i, SlotOk σ i (status i)
  proc : ∀ t, ProcOk σ status t (σ.procs t)
  distinct : ∀ t t' n, (σ.procs t).sendId = some n → (σ.procs t').sendId = some n → t = t'

variable {status : Fin cfg.depth → Status} {t : Nat}

variable {i : Fin cfg.depth} {p : Proc cfg.depth}

theorem Local.owner (h : Local σ status) (ht : (σ.procs t).owned = some i) :
    (status i).owner = some t := by
  have hproc := h.proc t
  cases hp : σ.procs t with
  | idle =>
    rw [hp] at ht
    cases ht
  | send op pass pos =>
    rw [hp] at hproc ht
    rw [hproc.2.2.2.1 i ht]
    rfl
  | receive op pass pos =>
    rw [hp] at hproc ht
    obtain ⟨n, m, hstatus, -, -⟩ := hproc.2 i ht
    rw [hstatus]
    rfl

theorem Local.status_free (h : Local σ status)
    (hi : stateOf (σ.slots i).stateTag = free.asRepr) : status i = .free := by
  have hok := h.slot i
  cases hst : status i with
  | free => rfl
  | writing t' | ready n | reading t' n =>
    rw [hst] at hok
    exact absurd (asRepr_inj (hi.symm.trans hok.1)) (by decide)

theorem Local.status_ready (h : Local σ status)
    (hi : stateOf (σ.slots i).stateTag = ready.asRepr) :
    ∃ n, status i = .ready n ∧ Stored σ i n := by
  have hok := h.slot i
  cases hst : status i with
  | free =>
    rw [hst] at hok
    exact absurd (asRepr_inj (hi.symm.trans hok)) (by decide)
  | writing t' | reading t' n =>
    rw [hst] at hok
    exact absurd (asRepr_inj (hi.symm.trans hok.1)) (by decide)
  | ready n =>
    rw [hst] at hok
    exact ⟨n, rfl, hok.2⟩

theorem SendAt.facts_congr {slots slots' : Fin cfg.depth → Slot} {op : SendOp}
    {pos : SendAt cfg.depth} (h : ∀ i, pos.owned = some i → slots' i = slots i)
    (hfacts : pos.Facts slots op) : pos.Facts slots' op := by
  cases pos <;> simp only [SendAt.owned, Option.some.injEq, forall_eq'] at h <;>
    simp only [SendAt.Facts, h] at hfacts ⊢ <;> exact hfacts

theorem Stored.congr {n : Nat} (h : Stored σ i n) (hsends : σ'.sends = σ.sends)
    (hslot : σ'.slots i = σ.slots i) : Stored σ' i n := by
  unfold Stored
  rw [hsends, hslot]
  exact h

theorem Local.act {status' : Fin cfg.depth → Status} (dirty : Fin cfg.depth → Prop)
    (h : Local σ status) (hprocs : σ'.procs = update σ.procs t p)
    (hclean : ∀ j, ¬ dirty j → σ'.slots j = σ.slots j ∧ status' j = status j)
    (hsends : σ'.sends = σ.sends)
    (hpublished : ∀ t' n, t' ≠ t → (σ.procs t').sendId = some n → (n ∈ σ'.published ↔ n ∈ σ.published))
    (hid : p.sendId = none ∨ p.sendId = (σ.procs t).sendId)
    (hothers : ∀ j t', dirty j → (status j).owner = some t' → t' = t)
    (hown : ∀ j, (σ.procs t).owned = some j → dirty j)
    (hslot : ∀ j, dirty j → SlotOk σ' j (status' j)) (hproc : ProcOk σ' status' t p) :
    Local σ' status' := by
  have hother : ∀ t', t' ≠ t → σ'.procs t' = σ.procs t' := by
    intro t' hne
    rw [hprocs, update_of_ne hne]
  constructor
  · intro j
    by_cases hj : dirty j
    · exact hslot j hj
    · -- the owner of a slot that is not touched is another thread
      obtain ⟨hslots, hstatus⟩ := hclean j hj
      have hok := h.slot j
      have howner : ∀ t', (σ.procs t').owned = some j → σ'.procs t' = σ.procs t' := by
        intro t' ht'
        refine hother t' fun heq => hj (hown j ?_)
        rw [← heq]
        exact ht'
      rw [hstatus]
      cases hst : status j with
      | free =>
        rw [hst] at hok
        simp only [SlotOk, hslots]
        exact hok
      | writing t' =>
        rw [hst] at hok
        obtain ⟨hword, hown'⟩ := hok
        simp only [SlotOk, hslots, howner t' hown']
        exact ⟨hword, hown'⟩
      | ready n =>
        rw [hst] at hok
        refine ⟨?_, hok.2.congr hsends hslots⟩
        rw [hslots]
        exact hok.1
      | reading t' n =>
        rw [hst] at hok
        obtain ⟨hword, hown', hstored⟩ := hok
        refine ⟨?_, ?_, hstored.congr hsends hslots⟩
        · rw [hslots]
          exact hword
        · rw [howner t' hown']
          exact hown'
  · intro t'
    by_cases ht' : t' = t
    · subst ht'
      rw [hprocs, update_self]
      exact hproc
    · have hok := h.proc t'
      -- what the thread owns is not touched
      have hkept : ∀ i, (σ.procs t').owned = some i → ¬ dirty i := fun i hi hdirty =>
        ht' (hothers i t' hdirty (h.owner hi))
      rw [hother t' ht']
      cases hp : σ.procs t' with
      | idle => trivial
      | send op pass pos =>
        rw [hp] at hok hkept
        obtain ⟨hmsg, hlen, hfacts, howned, hpub⟩ := hok
        refine ⟨by rw [hsends]; exact hmsg, hlen, ?_, ?_, ?_⟩
        · exact SendAt.facts_congr (fun i hi => (hclean i (hkept i hi)).1) hfacts
        · intro i hi
          rw [(hclean i (hkept i hi)).2]
          exact howned i hi
        · rw [hpublished t' op.id ht' (by rw [hp]; rfl)]
          exact hpub
      | receive op pass pos =>
        rw [hp] at hok hkept
        refine ⟨hok.1, fun i hi => ?_⟩
        obtain ⟨n, m, hstatus, hmsg, hfacts⟩ := hok.2 i hi
        refine ⟨n, m, ?_, by rw [hsends]; exact hmsg, hfacts⟩
        rw [(hclean i (hkept i hi)).2]
        exact hstatus
  · intro t1 t2 n h1 h2
    have hback : ∀ t', (σ'.procs t').sendId = some n → (σ.procs t').sendId = some n := by
      intro t' ht'
      by_cases heq : t' = t
      · subst heq
        rw [hprocs, update_self] at ht'
        rcases hid with hid | hid
        · rw [hid] at ht'
          cases ht'
        · rw [← hid]
          exact ht'
      · rw [hother t' heq] at ht'
        exact ht'
    exact h.distinct t1 t2 n (hback t1 h1) (hback t2 h2)

theorem Local.stay (h : Local σ status) (hprocs : σ'.procs = update σ.procs t p)
    (hslots : σ'.slots = σ.slots) (hsends : σ'.sends = σ.sends)
    (hpublished : σ'.published = σ.published)
    (hid : p.sendId = none ∨ p.sendId = (σ.procs t).sendId) (hown : (σ.procs t).owned = none)
    (hproc : ProcOk σ' status t p) : Local σ' status :=
  h.act (fun _ => False) hprocs (fun j _ => ⟨by rw [hslots], rfl⟩) hsends
    (fun _ _ _ _ => by rw [hpublished]) hid (fun _ _ hf => hf.elim)
    (fun j hj => by rw [hown] at hj; cases hj) (fun _ hf => hf.elim) hproc

theorem Local.touch {st : Status} {slot : Slot} (h : Local σ status)
    (hprocs : σ'.procs = update σ.procs t p)
    (hslots : σ'.slots = update σ.slots i slot) (hsends : σ'.sends = σ.sends)
    (hpublished : ∀ t' n, t' ≠ t → (σ.procs t').sendId = some n → (n ∈ σ'.published ↔ n ∈ σ.published))
    (hid : p.sendId = none ∨ p.sendId = (σ.procs t).sendId)
    (hothers : ∀ t', (status i).owner = some t' → t' = t)
    (hown : ∀ j, (σ.procs t).owned = some j → j = i) (hslot : SlotOk σ' i st)
    (hproc : ProcOk σ' (update status i st) t p) :
    Local σ' (update status i st) := by
  refine h.act (fun j => j = i) hprocs (fun j hj => ?_) hsends hpublished hid
    (fun j t' hj howner => hothers t' (hj ▸ howner)) hown (fun j hj => ?_) hproc
  · rw [hslots, update_of_ne hj, update_of_ne hj]
    exact ⟨rfl, rfl⟩
  · rw [hj, update_self]
    exact hslot

end Fprime.Os.LocklessQueue
