import Fprime.Cfdp.Chunk
import Fprime.Cfdp.Clist
import Fprime.Cfdp.Transaction
import Fprime.Cfdp.World

/-!
# Channels and sessions

A channel owns three pools (transactions, histories, chunk lists), their rings, and counters. A
`Session` is a channel with one of its transactions taken out.
-/

namespace Fprime.Cfdp

open Fprime.Os Fprime.Fw Function

def maxSimultaneousRx : Nat := 5
def maxCommandedPlaybackFiles : Nat := 10
def maxCommandedPlaybackDirectories : Nat := 2
def maxPollingDir : Nat := 5
def numTransactionsPerPlayback : Nat := 5
def numChunksPerTransaction : Nat := 58

theorem numChunksPerTransaction_pos : 0 < numChunksPerTransaction := by decide

def numTransactions : Nat :=
  maxCommandedPlaybackFiles + maxSimultaneousRx
    + (maxPollingDir + maxCommandedPlaybackDirectories) * numTransactionsPerPlayback

def maxIterations : Nat := numTransactions

def defaultStringSize : Nat := 256

structure Playback where
  dir : List Bytes
  cfdpClass : Class
  fnames : TxnFilenames
  numTs : Nat
  priority : UInt8
  destId : UInt32
  pendingFile : Bytes
  busy : Bool
  diropen : Bool
  keep : Keep

def Playback.default : Playback :=
  ⟨[], .class2, ⟨[], []⟩, 0, 0, 0, [], false, false, .delete⟩

structure PollDir where
  pb : Playback
  intervalTimer : Timer
  intervalSec : UInt32
  priority : UInt8
  cfdpClass : Class
  destEid : UInt32
  srcDir : Bytes
  dstDir : Bytes
  enabled : Bool

def PollDir.default : PollDir :=
  ⟨.default, .new, 0, 0, .class2, 0, [], [], false⟩

structure Channel where
  channelId : Nat
  qs : QueueId → ListHead
  cs : Direction → ListHead
  numCmdTx : Nat
  playback : Nat → Playback
  polldir : Nat → PollDir
  currentTxn : Option Nat
  tickType : Nat
  flowState : Flow
  outgoingCounter : Nat
  txns : Nat → Transaction
  txnLinks : CListLinks
  histories : Nat → History
  histLinks : CListLinks
  chunks : Nat → ChunkList
  chunkLinks : CListLinks
  world : World

def Channel.bare : Channel where
  channelId := 0
  qs _ := none
  cs _ := some 0
  numCmdTx := 0
  playback _ := .default
  polldir _ := .default
  currentTxn := none
  tickType := 0
  flowState := .notFrozen
  outgoingCounter := 0
  txns _ := .new 0
  txnLinks := .new
  histories _ := .default
  histLinks := .new
  chunks _ := .new numChunksPerTransaction numChunksPerTransaction_pos
  chunkLinks := .new
  world := ⟨fun _ => none, 0, 0, [], [], [], false⟩

namespace Channel

variable (c : Channel) (q : QueueId)

def assert (f : Fault) (p : Bool) : Channel :=
  { c with world := c.world.assert f p }

variable (t : Nat)

def removeFromQueue : Channel :=
  let c := c.assert .listEmpty (c.txnLinks.removeOk (c.qs q) t)
  let r := c.txnLinks.remove (c.qs q) t
  { c with txnLinks := r.1, qs := update c.qs q r.2 }

def insertBackTxn : Channel :=
  let c := c.assert .nodeAttached (c.txnLinks.detached t)
  let r := c.txnLinks.insertBack (c.qs q) t
  { c with txnLinks := r.1, qs := update c.qs q r.2 }

/-- Histories share the queue heads with the transactions, over rings of their own. -/
def insertBackInQueue (h : Nat) : Channel :=
  let c := c.assert .nodeAttached (c.histLinks.detached h)
  let r := c.histLinks.insertBack (c.qs q) h
  { c with histLinks := r.1, qs := update c.qs q r.2 }

def insertBackChunks (dir : Direction) (cw : Nat) : Channel :=
  let c := c.assert .nodeAttached (c.chunkLinks.detached cw)
  let r := c.chunkLinks.insertBack (c.cs dir) cw
  { c with chunkLinks := r.1, cs := update c.cs dir r.2 }

def findUnusedChunks (dir : Direction) : Channel × Option Nat :=
  match c.cs dir with
  | none => (c, none)
  | some h =>
    let c := c.assert .listEmpty (c.chunkLinks.removeOk (c.cs dir) h)
    let r := c.chunkLinks.remove (c.cs dir) h
    ({ c with chunkLinks := r.1, cs := update c.cs dir r.2 }, some h)

/-- The node behind which `insert_sort_prio` links in: the last of the queue whose priority
does not exceed `priority`. -/
def findPrio (priority : UInt8) : Option Nat × Bool :=
  let r := traverseR (fun _ : Option Nat => c.txnLinks) (c.qs q) maxIterations
    (fun found n => if (c.txns n).priority ≤ priority then (some n, false) else (found, true)) none
  (r.1, r.2)

def insertSortPrio (priority : UInt8) (q : QueueId) : Channel :=
  let r := c.findPrio q priority
  let c := c.assert .traverseBound r.2
  match r.1 with
  | some after =>
    let c := c.assert .insertPlace (after != t)
    { c with txnLinks := c.txnLinks.insertAfter after t }
  | none => c.insertBackTxn q t

/-- Two channels that differ in their rings, and in what failed, alone. -/
def Relinked (c c' : Channel) : Prop :=
  c' = { c with
    qs := c'.qs
    cs := c'.cs
    txnLinks := c'.txnLinks
    histLinks := c'.histLinks
    chunkLinks := c'.chunkLinks
    world := { c.world with faults := c'.world.faults } }

theorem Relinked.trans {c c' c'' : Channel} (h : c.Relinked c') (h' : c'.Relinked c'') :
    c.Relinked c'' := by
  rw [Relinked, h', h]

theorem assert_relinked (f : Fault) (p : Bool) : c.Relinked (c.assert f p) := by
  cases p <;> rfl

theorem removeFromQueue_relinked :
    c.Relinked (c.removeFromQueue q t) :=
  (c.assert_relinked _ _).trans rfl

theorem insertBackTxn_relinked :
    c.Relinked (c.insertBackTxn q t) :=
  (c.assert_relinked _ _).trans rfl

theorem insertSortPrio_relinked (priority : UInt8) (q : QueueId) :
    c.Relinked (c.insertSortPrio t priority q) := by
  have h := c.assert_relinked .traverseBound (c.findPrio q priority).2
  simp only [insertSortPrio]
  split
  · exact (h.trans (assert_relinked _ _ _)).trans rfl
  · exact h.trans (insertBackTxn_relinked _ _ _)

def getPduBuffer (mgr : Mgr) (c : Channel) : Channel × Status :=
  if (mgr.channel c.channelId).maxOutgoingPdusPerCycle.toNat ≤ c.outgoingCounter then
    (c, .sendPduNoBufAvailError)
  else
    let world := { c.world with allocs := c.world.allocs + 1 }
    if mgr.allocOk c.world.allocs then
      ({ c with world := world, outgoingCounter := c.outgoingCounter + 1 }, .success)
    else ({ c with world := world }, .sendPduNoBufAvailError)

def serializeAndSendPdu (mgr : Mgr) (c : Channel) (pdu : Pdu) : Channel × Status :=
  let r := getPduBuffer mgr c
  if r.2 ≠ .success then r
  else
    let encoded := pdu.serializeTo (SerBuf.empty pdu.getBufferSize)
    let c := r.1.assert .codec (!panics encoded)
    if (decoded encoded).isSome then
      ({ c with world := { c.world with sent := pdu :: c.world.sent } }, .success)
    else (c, .error)

/-- What sending a PDU does to a channel: it changes the trace and the budget alone, and reports
one of three statuses. -/
structure Sends (pdu : Pdu) (c c' : Channel) (st : Status) : Prop where
  rest : c' = { c with world := c'.world, outgoingCounter := c'.outgoingCounter }
  fs : c'.world.fs = c.world.fs
  osCalls : c'.world.osCalls = c.world.osCalls
  fileDone : c'.world.fileDone = c.world.fileDone
  hung : c'.world.hung = c.world.hung
  sent : c'.world.sent = if st = .success then pdu :: c.world.sent else c.world.sent
  status : st = .success ∨ st = .error ∨ st = .sendPduNoBufAvailError
  /-- Every status but a refusal uses up a unit of the budget. -/
  budget : c'.outgoingCounter =
    if st = .sendPduNoBufAvailError then c.outgoingCounter else c.outgoingCounter + 1

theorem serializeAndSendPdu_sends (mgr : Mgr) (c : Channel) (pdu : Pdu) :
    Sends pdu c (serializeAndSendPdu mgr c pdu).1 (serializeAndSendPdu mgr c pdu).2 := by
  by_cases hbudget : (mgr.channel c.channelId).maxOutgoingPdusPerCycle.toNat ≤ c.outgoingCounter
  · rw [show serializeAndSendPdu mgr c pdu = (c, .sendPduNoBufAvailError) by
      simp [serializeAndSendPdu, getPduBuffer, hbudget]]
    constructor <;> simp
  by_cases halloc : mgr.allocOk c.world.allocs
  · simp only [serializeAndSendPdu, getPduBuffer, if_neg hbudget, if_pos halloc, ne_eq,
      not_true_eq_false, if_false, assert, World.assert]
    by_cases hok : (decoded (pdu.serializeTo (SerBuf.empty pdu.getBufferSize))).isSome
    · simp only [if_pos hok]
      split <;> constructor <;> simp
    · simp only [if_neg hok]
      split <;> constructor <;> simp
  · rw [show serializeAndSendPdu mgr c pdu =
        ({ c with world := { c.world with allocs := c.world.allocs + 1 } },
          .sendPduNoBufAvailError) by
      simp [serializeAndSendPdu, getPduBuffer, hbudget, halloc]]
    constructor <;> simp

end Channel

end Fprime.Cfdp
