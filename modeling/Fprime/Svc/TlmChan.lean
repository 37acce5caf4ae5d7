import Fprime.Fw.Tlm
import Fprime.Lib.Chains

/-!
# Telemetry channels

The latest value of every channel. Values are written into one of two hash tables; a run swaps the
two and packs what is new in the other one, one entry at a time, while values keep coming in.
-/

namespace Fprime.Svc

open Fw Lib.Chains

namespace TlmChan

def numTlmHashSlots : Nat := 15

def hashBuckets : Nat := 500

def maxEntriesPerRun : Nat := hashBuckets

def bucketPoolExhaustedThrottle : Nat := 10

structure TlmEntry where
  id : UInt32
  updated : Bool
  lastUpdate : Time
  buffer : TlmBuffer
  next : Option Nat
  used : Bool

def TlmEntry.default : TlmEntry :=
  ⟨0, false, .zero, .new, none, false⟩

/-- One of the two stores: the heads of the chains, the buckets, and how many of them are taken. -/
structure TlmSet where
  slots : List (Option Nat)
  buckets : List TlmEntry
  free : Nat

namespace TlmSet

def new : TlmSet :=
  ⟨List.replicate numTlmHashSlots none, List.replicate hashBuckets .default, 0⟩

variable (set : TlmSet)

def slot (index : Nat) : Option Nat :=
  set.slots.getD index none

def bucket (i : Nat) : TlmEntry :=
  set.buckets.getD i .default

def next (i : Nat) : Option Nat :=
  (set.bucket i).next

def key (i : Nat) : UInt32 :=
  (set.bucket i).id

def put (i : Nat) (entry : TlmEntry) : TlmSet :=
  { set with buckets := set.buckets.set i entry }

def link (i : Nat) (next : Option Nat) : TlmSet :=
  set.put i { set.bucket i with next := next }

def allocate : Option (Nat × TlmSet) :=
  if hashBuckets ≤ set.free then none else some (set.free, { set with free := set.free + 1 })

def findEntry (index : Nat) (id : UInt32) : Option Nat :=
  find set.next (fun i => set.key i = id) hashBuckets (set.slot index)

def clearUpdated : TlmSet :=
  { set with buckets := set.buckets.map fun entry => { entry with updated := false } }

end TlmSet

inductive Assertion where
  | noEntry
  | packetTooSmall

inductive Event where
  | bucketPoolExhausted (id : UInt32)
  | epochProcessingCapReached (numDeferred cumulative : UInt32)

inductive Out where
  | pktSend (packet : Bytes)
  | event (event : Event)

end TlmChan

open TlmChan

structure TlmChan where
  hashSeed : UInt32
  connected : Bool
  active : Bool
  first : TlmSet
  second : TlmSet
  procCapCount : UInt32
  throttle : Nat

namespace TlmChan

def new (hashSeed : UInt32) (connected : Bool) : TlmChan :=
  ⟨hashSeed, connected, false, .new, .new, 0, 0⟩

variable (s : TlmChan) (d : Drain)

def set : Bool → TlmSet
  | false => s.first
  | true => s.second

def putSet (which : Bool) (set : TlmSet) : TlmChan :=
  match which with
  | false => { s with first := set }
  | true => { s with second := set }

def doHash (seed id : UInt32) : Nat :=
  let h := id ^^^ seed
  let h := h ^^^ (h >>> 16)
  let h := h * 0x85EBCA6B
  let h := h ^^^ (h >>> 13)
  let h := h * 0xC2B2AE35
  let h := h ^^^ (h >>> 16)
  h.toNat % numTlmHashSlots

/-- The bucket for a channel, which is put at the end of its chain when it is new. Without a
result the pool is used up. -/
def TlmSet.entryToUse (set : TlmSet) (index : Nat) (id : UInt32) :
    Except Assertion (Option (Nat × TlmSet)) :=
  match set.slot index with
  | some head =>
    match walk set.next (fun i => set.key i = id) (hashBuckets + 1) head (some head) with
    | .found i => .ok (some (i, set))
    | .ended prev => .ok (set.allocate.map fun r => (r.1, (r.2.link prev (some r.1)).link r.1 none))
    | .lost => .error .noEntry
  | none =>
    .ok (set.allocate.map fun r =>
      (r.1, { r.2 with slots := r.2.slots.set index (some r.1) }.link r.1 none))

def TlmSet.record (set : TlmSet) (i : Nat) (id : UInt32) (timeTag : Time) (val : TlmBuffer) :
    TlmSet :=
  set.put i { set.bucket i with
    used := true
    id := id
    updated := true
    lastUpdate := timeTag
    buffer := val }

/-- Store a value in the active store; a new channel is dropped when the pool is used up. -/
def tlmRecvHandler (id : UInt32) (timeTag : Time) (val : TlmBuffer) :
    Except Assertion (TlmChan × List Out) := do
  match ← (s.set s.active).entryToUse (doHash s.hashSeed id) id with
  | some (i, set) => return (s.putSet s.active (set.record i id timeTag val), [])
  | none =>
    if s.throttle < bucketPoolExhaustedThrottle then
      return ({ s with throttle := s.throttle + 1 }, [.event (.bucketPoolExhausted id)])
    else return (s, [])

/-- Of two entries for a channel the one of the later time. -/
def choose (activeEntry inactiveEntry : TlmEntry) : TlmEntry :=
  match Time.compare inactiveEntry.lastUpdate activeEntry.lastUpdate with
  | .gt => inactiveEntry
  | .incomparable => if inactiveEntry.updated then inactiveEntry else activeEntry
  | _ => activeEntry

/-- Look a channel up in both stores; without a result it is invalid. -/
def tlmGetHandler (id : UInt32) : Option (Time × TlmBuffer) :=
  let index := doHash s.hashSeed id
  let activeSet := s.set s.active
  let inactiveSet := s.set (!s.active)
  let chosen :=
    match activeSet.findEntry index id, inactiveSet.findEntry index id with
    | some a, some i => some (choose (activeSet.bucket a) (inactiveSet.bucket i))
    | some a, none => some (activeSet.bucket a)
    | none, some i => some (inactiveSet.bucket i)
    | none, none => none
  chosen.map fun entry => (entry.lastUpdate, entry.buffer)

structure Drain where
  entryIdx : Nat
  processed : Nat
  deferred : UInt32
  pkt : TlmPacket

def beginRun : TlmChan × Option Drain :=
  if s.connected then
    let active := !s.active
    ({ s with active := active }.putSet active (s.set active).clearUpdated,
      some ⟨0, 0, 0, .reset⟩)
  else (s, none)

def finishRun : TlmChan × List Out :=
  let remnant := if 0 < d.pkt.numEntries then [.pktSend d.pkt.bytes] else []
  if 0 < d.deferred then
    let cumulative := s.procCapCount + 1
    ({ s with procCapCount := cumulative },
      remnant ++ [.event (.epochProcessingCapReached d.deferred cumulative)])
  else (s, remnant)

/-- One more critical section of a run: an entry is packed, or the packet is full and sent. -/
def stepRun : Except Assertion (TlmChan × Option Drain × List Out) :=
  if d.entryIdx < hashBuckets then
    let set := s.set (!s.active)
    let entry := set.bucket d.entryIdx
    if ¬(entry.updated ∧ entry.used) then .ok (s, some { d with entryIdx := d.entryIdx + 1 }, [])
    else if maxEntriesPerRun ≤ d.processed then
      .ok (s, some { d with entryIdx := d.entryIdx + 1, deferred := d.deferred + 1 }, [])
    else
      match d.pkt.addValue entry.id entry.lastUpdate entry.buffer with
      | some pkt =>
        .ok (s.putSet (!s.active) (set.put d.entryIdx { entry with updated := false }),
          some { d with entryIdx := d.entryIdx + 1, processed := d.processed + 1, pkt := pkt }, [])
      | none =>
        if 0 < d.pkt.numEntries then
          .ok (s, some { d with pkt := .reset }, [.pktSend d.pkt.bytes])
        else .error .packetTooSmall
  else
    let (s, outs) := s.finishRun d
    .ok (s, none, outs)

end TlmChan

end Fprime.Svc
