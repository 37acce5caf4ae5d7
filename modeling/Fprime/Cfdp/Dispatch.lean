import Fprime.Cfdp.TransactionTx

/-!
# Dispatching to a transaction

What a received PDU does by the transaction's state, the first PDU of a reception, and
cancellation.
-/

namespace Fprime.Cfdp.Session

open Fprime.Os Fprime.Fw

variable (mgr : Mgr) (s : Session)

/-- A finished transaction still acknowledges a repeated FIN. -/
def recvHold (data : Bytes) : Session :=
  if peekPduType data = .finished ∧ s.txn.txnClass = .class2 then
    let d := FinPdu.deserializeFrom ⟨data⟩
    let s := s.assert .codec (!panics d)
    match decoded d with
    | none => s
    | some fin =>
      (s.sendAck mgr .terminated .fin fin.conditionCode s.hist.peerEid s.hist.seqNum).1
  else s

def acquireChunks (dir : Direction) : Session :=
  if s.txn.chunks.isNone then
    let r := s.chan.findUnusedChunks dir
    { s with
      chan := r.1
      txn := { s.txn with chunks := r.2 }
      list := r.1.chunks (r.2.getD 0) }
  else s

/-- The first PDU decides what the reception becomes; the flag asks to dispatch it once more. -/
def recvFirst (data : Bytes) (txmMode : Class) : Session × Bool :=
  if s.txn.chunks.isNone then (s, false)
  else if peekPduType data = .fileData then
    if txmMode = .class1 then (s.modTxn fun x => { x with state := .drop }, false)
    else ((s.modTxn fun x => { x with state := .r2, txnClass := .class2 }).rInit mgr, true)
  else if peekPduType data = .metadata then
    let d := MetadataPdu.deserializeFrom ⟨data⟩
    let s := s.assert .codec (!panics d)
    match decoded d with
    | none => (s, false)
    | some md =>
      let s := ((s.recvMd md).modTxn fun x => { x with
        state := if txmMode = .class1 then .r1 else .r2, txnClass := txmMode }).modRx
          fun f => { f with mdRecv := true }
      (s.rInit mgr, false)
  else (s, false)

def recvInit (data : Bytes) : Session × Bool :=
  let d := PduHeader.fromSerialBuffer ⟨data⟩
  let s := s.assert .codec (!panics d)
  match decoded d with
  | none => (s, false)
  | some (header, _) =>
    let s := { s with hist := { s.hist with
      seqNum := header.transactionSeq, peerEid := header.sourceEid, srcEid := header.sourceEid } }
    let r := (s.acquireChunks .rx).recvFirst mgr data header.class_
    if r.1.txn.state = .init then (r.1.finishTransaction mgr false, r.2) else r

def dispatchOnce (data : Bytes) : Session × Bool :=
  match s.txn.state with
  | .init => s.recvInit mgr data
  | .r1 => (s.r1Recv mgr data, false)
  | .s1 => (s.s1Recv mgr data, false)
  | .r2 => (s.r2Recv mgr data, false)
  | .s2 => (s.s2Recv mgr data, false)
  | .hold => (s.recvHold mgr data, false)
  | _ => (s, false)

/-- Hand a received PDU to a transaction. Only `recv_init` asks for another round, and that is the
last. -/
def dispatchRecv (data : Bytes) : Session :=
  let r := s.dispatchOnce mgr data
  (if r.2 then (r.1.dispatchOnce mgr data).1 else r.1).armInactTimer mgr

def cancelTransaction : Session :=
  if s.txn.flags.com.canceled then s
  else
    let s := (s.modCom fun f => { f with canceled := true }).setTxnStatus .cancelRequestReceived
    match s.hist.dir with
    | .rx => s.rCancel mgr
    | .tx => s.sCancel

end Fprime.Cfdp.Session
