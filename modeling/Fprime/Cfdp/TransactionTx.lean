import Fprime.Cfdp.TransactionRx

/-!
# Sending

The class-1 and class-2 send state machines: what a turn on the active queue, each PDU, each
tick and a cancellation do to a sending transaction.
-/

namespace Fprime.Cfdp.Session

open Fprime.Os Fprime.Fw

variable (mgr : Mgr) (s : Session)

def sCancel : Session :=
  s.modSend fun d =>
    if d.subState = .metadata ∨ d.subState = .fileData then { d with subState := .eof } else d

def sSendEof : Session × Status :=
  (s.modCom fun f => { f with crcCalc := true }).sendEof mgr

def s1SubstateSendEof : Session :=
  (s.modTx fun f => { f with sendEof := true }).finishTransaction mgr true

/-- The EOF is sent by a tick; the transaction goes on to wait for its acknowledgment. -/
def s2SubstateSendEof : Session :=
  let s := (s.modTx fun f => { f with sendEof := true }).modSend
    fun d => { d with subState := .closeoutSync }
  (s.dequeueTransaction.insertSortPrio .txw).armAckTimer mgr

/-- The data bytes one PDU takes, by a PDU whose header is not filled in yet. -/
def maxDataBytes (bytesToRead : Nat) : Nat :=
  min (min bytesToRead mgr.outgoingFileChunkSize.toNat)
    (FileDataPdu.initialized .towardReceiver .class2 0 0 0 0 0 []).getMaxFileDataSize

def sSeek (pos : UInt32) : Session × Bool :=
  if s.txn.stateData.send.cachedPos ≠ pos then s.fdSeekAbsolute mgr pos.toNat else (s, true)

/-- Read from the file and send what was read as the data at `foffs`; the number tells the bytes
sent. -/
def sSendFileData (foffs : UInt32) (bytesToRead : Nat)
    (calcCrc : Bool) : Session × Status × Nat :=
  let r := s.sSeek mgr foffs
  if ¬ r.2 then (r.1, .error, 0)
  else
    let r := r.1.fdRead mgr (maxDataBytes mgr bytesToRead)
    match r.2 with
    | none => (r.1, .error, 0)
    | some data =>
      let s := r.1.modSend fun d => { d with cachedPos := d.cachedPos + UInt32.ofNat data.length }
      let fd := FileDataPdu.initialized .towardReceiver s.txn.txnClass mgr.localEid s.hist.seqNum
        s.hist.peerEid foffs (UInt16.ofNat data.length)
        (data ++ List.replicate (maxPduSize - data.length) 0)
      let r := s.sendFd mgr fd
      if r.2 = .success then
        let s := r.1.assert .dataEnd (decide (foffs.toNat + data.length ≤ r.1.txn.fsize.toNat))
        let s := if calcCrc then
          s.modTxn fun x => { x with crc := x.crc.update data foffs.toNat } else s
        (s, .success, data.length)
      else (r.1, r.2, 0)

def sSubstateSendFileData : Session :=
  let r := s.sSendFileData mgr s.txn.foffs (s.txn.fsize - s.txn.foffs).toNat true
  if r.2.1 = .sendPduNoBufAvailError then r.1.setCurrentTxn
  else if r.2.1 ≠ .success then
    (r.1.setTxnStatus .filestoreRejection).modSend fun d => { d with subState := .eof }
  else if 0 < r.2.2 then
    let s := r.1.assert .overflow (decide (r.1.txn.foffs.toNat + r.2.2 < 2 ^ 32))
    let s := s.modTxn fun x => { x with foffs := x.foffs + UInt32.ofNat r.2.2 }
    if s.txn.foffs = s.txn.fsize then s.modSend fun d => { d with subState := .eof } else s
  else r.1

/-- Answer the next requested range, or the request for metadata; the flag says whether there
was one to answer. -/
def sCheckAndRespondNak : Session × Status × Bool :=
  let s := s.assertChunks
  if s.txn.flags.tx.mdNeedSend then
    let r := s.sendMd mgr
    if r.2 = .error then (r.1, .error, false)
    else if r.2 = .success then
      (r.1.modTx fun f => { f with mdNeedSend := false }, .success, true)
    else (r.1.setCurrentTxn, .success, true)
  else
    match s.list.getFirstChunk with
    | none => (s, .success, false)
    | some chunk =>
      let r := s.sSendFileData mgr (UInt32.ofNat chunk.offset) chunk.size false
      if r.2.1 ≠ .success then (r.1, .error, false)
      else if 0 < r.2.2 then
        ({ r.1 with list := r.1.list.removeFromFirst r.2.2 }, .success, true)
      else (r.1, .success, false)

def s2SubstateSendFileData : Session :=
  let r := s.sCheckAndRespondNak mgr
  if r.2.1 ≠ .success then
    ((r.1.setTxnStatus .nakResponseError).modTx fun f => { f with sendEof := true }
      ).finishTransaction mgr true
  else if ¬ r.2.2 then r.1.sSubstateSendFileData mgr
  else r.1

def sOpenFile : Session × Bool :=
  if s.txn.fd.isSome then (s, true)
  else
    let r := s.fdOpenRead mgr s.hist.fnames.srcFilename
    if ¬ r.2 then (r.1, false)
    else
      let r := r.1.fdSize mgr
      let s := r.1.modTxn fun x => { x with fsize := UInt32.ofNat (r.2.getD 0) }
      (s, r.2.isSome && s.txn.fsize != 0)

def sSubstateSendMetadata : Session :=
  let r := s.sOpenFile mgr
  if r.2 then
    let r := r.1.sendMd mgr
    if r.2 = .error then (r.1.setTxnStatus .filestoreRejection).finishTransaction mgr true
    else if r.2 = .success then r.1.modSend fun d => { d with subState := .fileData }
    else r.1.setCurrentTxn
  else (r.1.setTxnStatus .filestoreRejection).finishTransaction mgr true

def s1Tx : Session :=
  match s.txn.stateData.send.subState with
  | .metadata => s.sSubstateSendMetadata mgr
  | .fileData => s.sSubstateSendFileData mgr
  | .eof => s.s1SubstateSendEof mgr
  | _ => s

def s2Tx : Session :=
  match s.txn.stateData.send.subState with
  | .metadata => s.sSubstateSendMetadata mgr
  | .fileData => s.s2SubstateSendFileData mgr
  | .eof => s.s2SubstateSendEof mgr
  | _ => s

def dispatchTx : Session :=
  let s := s.assert .txnState (s.txn.state != .invalid)
  match s.txn.state with
  | .s1 => s.s1Tx mgr
  | .s2 => s.s2Tx mgr
  | _ => s

def sSendFinAck : Session × Status :=
  s.sendAck mgr (getTxnStatus s.txn.state) .fin ⟨s.txn.stateData.send.s2.finCc⟩
    s.hist.peerEid s.hist.seqNum

def s2Fin (data : Bytes) : Session :=
  let d := FinPdu.deserializeFrom ⟨data⟩
  let s := s.assert .codec (!panics d)
  match decoded d with
  | none => s
  | some fin =>
    let s := s.modTx fun f => { f with sendFinAck := true }
    if ¬ s.txn.flags.tx.finRecv then
      let s := (s.modTx fun f => { f with finRecv := true }).modS2
        fun _ => ⟨fin.conditionCode.code, 0⟩
      (s.setTxnStatus (.fromConditionCode fin.conditionCode)).finishTransaction mgr true
    else s

def s2EarlyFin (data : Bytes) : Session :=
  ((s.setTxnStatus .earlyFin).modSend fun d => { d with subState := .closeoutSync }).s2Fin mgr data

/-- Take up one segment; `0` to `0` asks for the metadata, and segments outside the file are only
counted. -/
def recvSegment (sr : SegmentRequest) : Session :=
  if sr.offsetStart = 0 ∧ sr.offsetEnd = 0 then s.modTx fun f => { f with mdNeedSend := true }
  else if sr.offsetEnd < sr.offsetStart ∨ s.txn.fsize < sr.offsetEnd then s
  else
    let size := (sr.offsetEnd - sr.offsetStart).toNat
    let s := s.assertChunks.assert .chunkEnd (ChunkList.addOk sr.offsetStart.toNat size)
    { s with list := s.list.add sr.offsetStart.toNat size }

def s2Nak (data : Bytes) : Session :=
  let d := NakPdu.deserializeFrom ⟨data⟩
  let s := s.assert .codec (!panics d)
  match decoded d with
  | none => s
  | some nak => nak.segments.foldl recvSegment s

def s2NakArm (data : Bytes) : Session :=
  (s.armAckTimer mgr).s2Nak data

def s2EofAck (data : Bytes) : Session :=
  let d := AckPdu.deserializeFrom ⟨data⟩
  let s := s.assert .codec (!panics d)
  match decoded d with
  | none => s
  | some ack =>
    if ack.directiveCode = .endOfFile then
      let s := ((s.modTx fun f => { f with eofAckRecv := true }).modCom
        fun f => { f with ackTimerArmed := false }).modS2 fun d => { d with acknakCount := 0 }
      if s.txn.flags.com.canceled ∨ s.txn.flags.tx.finRecv then s.finishTransaction mgr true else s
    else s

inductive SRecv where
  | earlyFin
  | fin
  | nak
  | nakArm
  | eofAck

def s2Table (subState : TxSubState) (directive : FileDirective) : Option SRecv :=
  match subState with
  | .metadata => if directive = .fin then some .earlyFin else none
  | .fileData | .eof =>
    if directive = .fin then some .earlyFin else if directive = .nak then some .nak else none
  | .closeoutSync =>
    if directive = .fin then some .fin else if directive = .ack then some .eofAck
    else if directive = .nak then some .nakArm else none
  | .numStates => none

def sRecvDirective (data : Bytes) : Option SRecv → Session
  | some .earlyFin => s.s2EarlyFin mgr data
  | some .fin => s.s2Fin mgr data
  | some .nak => s.s2Nak data
  | some .nakArm => s.s2NakArm mgr data
  | some .eofAck => s.s2EofAck mgr data
  | none => s

def sDispatchRecv (data : Bytes)
    (table : TxSubState → FileDirective → Option SRecv) : Session :=
  let subState := s.txn.stateData.send.subState
  let s := s.assert .subState (subState != .numStates)
  if peekPduType data = .fileData then s
  else
    let s := s.assert .codec (!panics (PduHeader.fromSerialBuffer ⟨data⟩))
    s.sRecvDirective mgr data ((directiveOf data).bind (table subState))

def s1Recv (data : Bytes) : Session :=
  s.sDispatchRecv mgr data fun _ _ => none

def s2Recv (data : Bytes) : Session :=
  s.sDispatchRecv mgr data s2Table

def sAckTimerExpired : Session :=
  if (s.params mgr).ackLimit ≤ s.txn.stateData.send.s2.acknakCount then
    ((s.setTxnStatus .ackLimitNoEof).finishTransaction mgr true).modCom
      fun f => { f with ackTimerArmed := false }
  else
    let s := (s.assertByte s.txn.stateData.send.s2.acknakCount).modS2
      fun d => { d with acknakCount := d.acknakCount + 1 }
    if ¬ s.txn.flags.tx.eofAckRecv ∧ ¬ s.txn.flags.tx.finRecv then
      s.modTx fun f => { f with sendEof := true }
    else s.modCom fun f => { f with ackTimerArmed := false }

def sAckTimerTick : Session :=
  if s.txn.state ≠ .s2 ∨ ¬ s.txn.flags.com.ackTimerArmed then s
  else if s.txn.ackTimer.timerStatus = .running then s.runAckTimer
  else if s.txn.stateData.send.subState = .closeoutSync then
    let s := s.sAckTimerExpired mgr
    if s.txn.flags.com.ackTimerArmed then s.armAckTimer mgr else s
  else s.modCom fun f => { f with ackTimerArmed := false }

def sInactivity : Session :=
  if ¬ s.txn.flags.com.inactivityFired ∧ s.txn.inactivityTimer.timerStatus = .running then
    let s := s.runInactivityTimer
    if s.txn.inactivityTimer.timerStatus = .expired then
      let s := s.modCom fun f => { f with inactivityFired := true }
      if s.txn.state = .s2 ∧ ¬ s.txn.flags.com.canceled then
        s.setTxnStatus .inactivityDetected
      else s
    else s
  else s

def sTickSend : Session × Bool :=
  if s.txn.flags.tx.sendEof then
    let r := s.sSendEof mgr
    if r.2 = .success then (r.1.modTx fun f => { f with sendEof := false }, true)
    else if r.2 = .error then (r.1.modTx fun f => { f with sendEof := false }, false)
    else (r.1, true)
  else if s.txn.flags.tx.sendFinAck then
    let r := s.sSendFinAck mgr
    if r.2 = .success then (r.1.modTx fun f => { f with sendFinAck := false }, true)
    else if r.2 = .error then (r.1.modTx fun f => { f with sendFinAck := false }, false)
    else (r.1, true)
  else (s, false)

def sTick : Session :=
  let s := s.sInactivity
  let r := s.sTickSend mgr
  let e := r.1.countRetry mgr r.2
  if e.1.txn.flags.com.inactivityFired ∧ (¬ r.2 ∨ e.2) then e.1.recycleTransaction
  else e.1.sAckTimerTick mgr

/-- The retransmission part of a tick; the flag asks for another pass. -/
def sTickNak : Session × Bool :=
  if s.txn.txnClass = .class2 then
    let r := s.sCheckAndRespondNak mgr
    (r.1, decide (r.2.1 = .success) && r.2.2)
  else (s, false)

end Fprime.Cfdp.Session
