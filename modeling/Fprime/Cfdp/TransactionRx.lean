import Fprime.Cfdp.Session

/-!
# Receiving

The class-1 and class-2 receive state machines. Functions of the source that decode the received
bytes a second time get the PDU decoded before.
-/

namespace Fprime.Cfdp.Session

open Fprime.Os Fprime.Fw

def r2CrcChunkSize : UInt32 := 1024

variable (mgr : Mgr) (s : Session)

def r2SetFinTxnStatus (stat : TxnStatus) : Session :=
  (s.setTxnStatus stat).modRx fun f => { f with sendFin := true }

def r1Reset : Session :=
  s.finishTransaction mgr true

/-- Where there is nothing left to report the transaction ends; otherwise a FIN is due. -/
def r2Reset : Session :=
  if s.txn.stateData.receive.subState = .closeoutSync
      ∨ s.txn.stateData.receive.r2.eofCc ≠ ConditionCode.noError.code
      ∨ s.isError ∨ s.txn.flags.com.canceled then
    s.r1Reset mgr
  else s.modRx fun f => { f with sendFin := true }

def rCancel : Session :=
  if s.txn.state = .r2 ∧ (s.txn.stateData.receive.subState = .fileData
      ∨ s.txn.stateData.receive.subState = .eof) then
    s.modRx fun f => { f with sendFin := true }
  else s.r1Reset mgr

def rCheckCrc (expectedCrc : UInt32) : Bool :=
  s.txn.crc.value == expectedCrc

def decimal : Nat → Nat → Bytes
  | 0, _ => []
  | fuel + 1, n =>
    (if n < 10 then [] else decimal fuel (n / 10)) ++ [UInt8.ofNat (48 + n % 10)]

/-- The name `tmp_dir/eid:seq.tmp` of the file that takes data before the metadata arrives. -/
def tmpFilename (tmpDir : Bytes) (eid seq : UInt32) : Bytes :=
  (tmpDir ++ [slash] ++ decimal 10 eid.toNat ++ [58] ++ decimal 10 seq.toNat
    ++ [46, 116, 109, 112]).take defaultStringSize

def rInit : Session :=
  let s := if s.txn.state = .r2 then
      let s := if ¬ s.txn.flags.rx.mdRecv then
          { s with hist := { s.hist with fnames := { s.hist.fnames with
            dstFilename := tmpFilename (s.params mgr).tmpDir s.hist.srcEid s.hist.seqNum } } }
        else s
      s.armAckTimer mgr
    else s
  let r := s.fdOpenCreate mgr s.hist.fnames.dstFilename
  if ¬ r.2 then
    if r.1.txn.state = .r2 then r.1.r2SetFinTxnStatus .filestoreRejection else r.1.r1Reset mgr
  else r.1.modReceive fun d => { d with subState := .fileData }

def hasGap : Bool :=
  !(s.list.computeGaps 1 s.txn.fsize.toNat 0).isEmpty

/-- Count one more request for missing data, up to the limit. -/
def requestNak : Session × Bool :=
  let s := s.modR2 fun d => { d with acknakCount := d.acknakCount + 1 }
  if (s.params mgr).nackLimit ≤ s.txn.stateData.receive.r2.acknakCount then
    ((s.setTxnStatus .nakLimitReached).modR2 fun d => { d with acknakCount := 0 }, true)
  else (s.modRx fun f => { f with sendNak := true }, false)

def missing : Bool :=
  !s.txn.flags.rx.mdRecv || s.hasGap

def r2Complete (okToSendNak : Bool) : Session :=
  if s.isError then s
  else
    let s := if s.txn.flags.rx.mdRecv then s.assertChunks else s
    let r := if s.missing ∧ okToSendNak then s.requestNak mgr
      else (s, !s.missing && s.txn.flags.rx.eofRecv)
    let s := if r.2 then
        (r.1.modRx fun f => { f with complete := true }).r2SetFinTxnStatus .noError
      else r.1
    s.modReceive fun d => { d with subState := .fileData }

def recvMd (md : MetadataPdu) : Session :=
  { s with
    txn := { s.txn with fsize := md.fileSize }
    hist := { s.hist with fnames :=
      ⟨setBytes defaultStringSize md.sourceFilename, setBytes defaultStringSize md.destFilename⟩ } }

/-- Segment metadata is not supported. -/
def recvFd (fd : FileDataPdu) : Session × Status :=
  if fd.header.segmentMetadataFlag ≠ 0 then (s.setTxnStatus .protocolError, .error)
  else (s, .success)

def rSeek (pos : UInt32) : Session × Bool :=
  if s.txn.stateData.receive.cachedPos ≠ pos then s.fdSeekAbsolute mgr pos.toNat else (s, true)

def rProcessFd (fd : FileDataPdu) : Session × Status :=
  let bound := if s.txn.flags.rx.mdRecv then s.txn.fsize.toNat else 2 ^ 32 - 1
  if bound < fd.offset.toNat ∨ bound - fd.offset.toNat < fd.dataSize.toNat then
    (s.setTxnStatus .fileSizeError, .error)
  else if fd.dataSize = 0 then (s, .success)
  else
    let r := s.rSeek mgr fd.offset
    if ¬ r.2 then (r.1.setTxnStatus .fileSizeError, .error)
    else
      let r := r.1.fdWrite mgr fd.getData
      if ¬ r.2 then (r.1.setTxnStatus .filestoreRejection, .error)
      else
        (r.1.modReceive fun d => { d with cachedPos := fd.dataSize.toUInt32 + fd.offset }, .success)

def rSubstateRecvEof (eof : EofPdu) : Session × Status :=
  let ret := if s.txn.flags.rx.mdRecv ∧ eof.conditionCode = .noError ∧ eof.fileSize ≠ s.txn.fsize
    then .recPduFsizeMismatchError else .success
  let s := if eof.conditionCode ≠ .noError then
    s.setTxnStatus (.fromConditionCode eof.conditionCode) else s
  (s, ret)

def r1SubstateRecvEof (data : Bytes) : Session :=
  let d := EofPdu.deserializeFrom ⟨data⟩
  let s := s.assert .codec (!panics d)
  match decoded d with
  | none => s.r1Reset mgr
  | some eof =>
    let r := s.rSubstateRecvEof eof
    let s := if r.2 = .success ∧ eof.conditionCode = .noError ∧ r.1.rCheckCrc eof.checksum then
      r.1.modTxn fun x => { x with keep := .keep } else r.1
    s.r1Reset mgr

def r2SubstateRecvEof (data : Bytes) : Session :=
  if s.txn.flags.rx.eofRecv then s
  else
    let d := EofPdu.deserializeFrom ⟨data⟩
    let s := s.assert .codec (!panics d)
    match decoded d with
    | none => s.modReceive fun d => { d with subState := .fileData }
    | some eof =>
      let r := s.rSubstateRecvEof eof
      if r.2 = .success then
        let s := (r.1.modRx fun f => { f with eofRecv := true, sendEofAck := true }).modR2
          fun d => { d with
            eofCrc := eof.checksum, eofSize := eof.fileSize, eofCc := eof.conditionCode.code }
        if eof.conditionCode.code = ConditionCode.noError.code then s.r2Complete mgr true
        else (s.setTxnStatus (.fromConditionCode eof.conditionCode)).r2Reset mgr
      else r.1.r2SetFinTxnStatus .fileSizeError

def r1SubstateRecvFileData (data : Bytes) : Session :=
  let d := FileDataPdu.deserializeFrom ⟨data⟩
  let s := s.assert .codec (!panics d)
  match decoded d with
  | none => s.r1Reset mgr
  | some fd =>
    let r := s.recvFd fd
    let r := if r.2 = .success then r.1.rProcessFd mgr fd else r
    if r.2 = .success then
      r.1.modTxn fun x => { x with crc := x.crc.update fd.getData fd.offset.toNat }
    else r.1.r1Reset mgr

def r2RecordFd (fd : FileDataPdu) : Session :=
  let s := s.assertChunks.assert .chunkEnd (ChunkList.addOk fd.offset.toNat fd.dataSize.toNat)
  let s := { s with list := s.list.add fd.offset.toNat fd.dataSize.toNat }
  let s := if s.txn.flags.rx.fdNakSent then s.r2Complete mgr false else s
  let s := if ¬ s.txn.flags.rx.complete then s.armAckTimer mgr else s
  s.modR2 fun d => { d with acknakCount := 0 }

def r2SubstateRecvFileData (data : Bytes) : Session :=
  if 0 < s.txn.stateData.receive.r2.rxCrcCalcBytes then s
  else
    let d := FileDataPdu.deserializeFrom ⟨data⟩
    let s := s.assert .codec (!panics d)
    match decoded d with
    | none => s.r2Reset mgr
    | some fd =>
      let r := s.recvFd fd
      let r := if r.2 = .success then r.1.rProcessFd mgr fd else r
      if r.2 = .success then r.1.r2RecordFd mgr fd else r.1.r2Reset mgr

/-- The NAK that asks for every gap the list shows, or for the metadata alone. -/
def nakFor (gaps : List Chunk) : NakPdu :=
  gaps.foldl (fun nak g =>
      (nak.addSegment (UInt32.ofNat g.offset) (UInt32.ofNat (g.offset + g.size))).1)
    (NakPdu.initialized .towardSender s.txn.txnClass s.hist.peerEid s.hist.seqNum mgr.localEid 0 0)

/-- The gaps to report: a full list keeps one entry in reserve. -/
def nakGaps : List Chunk :=
  let gapLimit := if s.list.chunks.length < s.list.maxChunks then s.list.maxChunks
    else s.list.maxChunks - 1
  s.list.computeGaps gapLimit s.txn.fsize.toNat 0

def rSubstateSendNak : Session × Status :=
  if s.txn.flags.rx.mdRecv then
    let s := s.assertChunks
    let gaps := s.nakGaps
    let s := s.assert .gapSize (gaps.all fun g => decide (0 < g.size))
    if gaps = [] then (s.modRx fun f => { f with complete := true }, .success)
    else
      let r := s.sendNak mgr (s.nakFor mgr gaps)
      if r.2 = .success then (r.1.modRx fun f => { f with fdNakSent := true }, .success) else r
  else s.sendNak mgr ((s.nakFor mgr []).addSegment 0 0).1

/-- One slice of the checksum pass over the stored file. Without progress the loop of the source
does not end. -/
def crcLoop (mgr : Mgr) : Nat → UInt32 → Session → Session × Status
  | 0, _, s => (s.modWorld fun w => { w with hung := true }, .error)
  | fuel + 1, countBytes, s =>
    let done := s.txn.stateData.receive.r2.rxCrcCalcBytes
    let fsize := s.txn.fsize
    if countBytes < mgr.rxCrcCalcBytesPerCycle ∧ done < fsize then
      let readSize := if fsize < done + r2CrcChunkSize then fsize - done else r2CrcChunkSize
      let r := s.rSeek mgr done
      if ¬ r.2 then (r.1, .error)
      else
        let r := r.1.fdRead mgr readSize.toNat
        match r.2 with
        | none => (r.1.setTxnStatus .fileSizeError, .error)
        | some data =>
          let read := UInt32.ofNat data.length
          let s := (r.1.modTxn fun x => { x with crc := x.crc.update data done.toNat }).modReceive
            fun d => { d with
              r2 := { d.r2 with rxCrcCalcBytes := done + read }, cachedPos := done + read }
          crcLoop mgr fuel (countBytes + read) (s.armInactTimer mgr)
    else (s, .success)

/-- Before the first slice, go over from writing to reading. -/
def crcStart : Session × Status :=
  if s.txn.stateData.receive.r2.rxCrcCalcBytes = 0 then
    let s := (s.modTxn fun x => { x with crc := ⟨0⟩ }).fdClose
    let r := s.fdOpenRead mgr s.hist.fnames.dstFilename
    if ¬ r.2 then (r.1.setTxnStatus .fileSizeError, .error)
    else (r.1.modReceive fun d => { d with cachedPos := 0 }, .success)
  else (s, .success)

def crcEnd : Session × Status :=
  if s.txn.stateData.receive.r2.rxCrcCalcBytes = s.txn.fsize then
    let s := if s.rCheckCrc s.txn.stateData.receive.r2.eofCrc then
        (s.modTxn fun x => { x with keep := .keep }).modR2
          fun d => { d with dc := .complete, fs := .retained }
      else s.r2SetFinTxnStatus .fileChecksumFailure
    (s.modCom fun f => { f with crcCalc := true }, .success)
  else (s, .error)

def r2CalcCrcChunk : Session × Status :=
  let r := s.crcStart mgr
  let r := if r.2 = .success then crcLoop mgr mgr.fuel 0 r.1 else r
  if r.2 = .success then r.1.crcEnd else r

def r2SubstateSendFin : Session × Status :=
  let r := if ¬ s.isError ∧ ¬ s.txn.flags.com.crcCalc then s.r2CalcCrcChunk mgr else (s, .success)
  if r.2 ≠ .success then (r.1, .error)
  else
    let s := r.1
    let r2 := s.txn.stateData.receive.r2
    let r := s.sendFin mgr r2.dc r2.fs (txnStatusToConditionCode s.hist.txnStat)
    let s := r.1.modReceive fun d => { d with subState := .closeoutSync }
    if r.2 ≠ .success then (s, .error) else (s, .success)

def r2RecvFinAck (data : Bytes) : Session :=
  let d := AckPdu.deserializeFrom ⟨data⟩
  let s := s.assert .codec (!panics d)
  match decoded d with
  | none => s
  | some _ => s.r2Reset mgr

/-- Move what has been stored so far to its final name and go on writing there. -/
def r2AdoptFile (fname : Bytes) : Session :=
  let s := s.fdClose
  let dst := s.hist.fnames.dstFilename
  let r := s.moveFile mgr fname dst
  if ¬ r.2 then r.1.r2SetFinTxnStatus .filestoreRejection
  else
    let r := r.1.fdOpenWrite mgr dst
    if ¬ r.2 then r.1.r2SetFinTxnStatus .filestoreRejection
    else
      let s := (r.1.modReceive fun d => { d with cachedPos := 0 }).modRx
        fun f => { f with mdRecv := true }
      (s.modR2 fun d => { d with acknakCount := 0 }).r2Complete mgr true

def r2RecvMd (data : Bytes) : Session :=
  if s.txn.flags.rx.mdRecv then s
  else
    let fname := s.hist.fnames.dstFilename
    let d := MetadataPdu.deserializeFrom ⟨data⟩
    let s := s.assert .codec (!panics d)
    match decoded d with
    | none => s
    | some md =>
      let s := s.recvMd md
      if s.txn.flags.rx.eofRecv ∧ s.txn.stateData.receive.r2.eofSize ≠ s.txn.fsize then
        s.r2SetFinTxnStatus .fileSizeError
      else s.r2AdoptFile mgr fname

inductive RRecv where
  | r1Eof
  | r2Eof
  | r2Md
  | r2FinAck

def invalidMax : UInt8 := 13

def directiveOf (data : Bytes) : Option FileDirective :=
  match decoded (PduHeader.fromSerialBuffer ⟨data⟩) with
  | none => none
  | some (_, reader) =>
    match decoded reader.readU8 with
    | none => none
    | some (code, _) => if code < invalidMax then some ⟨code⟩ else none

def rRecvDirective (data : Bytes) : Option RRecv → Session
  | some .r1Eof => s.r1SubstateRecvEof mgr data
  | some .r2Eof => s.r2SubstateRecvEof mgr data
  | some .r2Md => s.r2RecvMd mgr data
  | some .r2FinAck => s.r2RecvFinAck mgr data
  | none => s

/-- Hand a PDU to the function its type selects; file data is dropped once an error is known. -/
def rDispatchRecv (data : Bytes) (class1 : Bool)
    (table : RxSubState → FileDirective → Option RRecv) : Session :=
  let subState := s.txn.stateData.receive.subState
  let s := s.assert .subState (subState != .numStates)
  if peekPduType data = .fileData then
    if s.isError then s
    else if class1 then s.r1SubstateRecvFileData mgr data
    else s.r2SubstateRecvFileData mgr data
  else
    let s := s.assert .codec (!panics (PduHeader.fromSerialBuffer ⟨data⟩))
    s.rRecvDirective mgr data ((directiveOf data).bind (table subState))

def r1Recv (data : Bytes) : Session :=
  s.rDispatchRecv mgr data true fun _ directive =>
    if directive = .endOfFile then some .r1Eof else none

def r2Table (subState : RxSubState) (directive : FileDirective) : Option RRecv :=
  if directive = .endOfFile then some .r2Eof
  else if (subState = .fileData ∨ subState = .eof) ∧ directive = .metadata then some .r2Md
  else if subState = .closeoutSync ∧ directive = .ack then some .r2FinAck
  else none

def r2Recv (data : Bytes) : Session :=
  s.rDispatchRecv mgr data false r2Table

def rAckTimerExpired : Session :=
  if ¬ s.txn.flags.rx.complete then s.r2Complete mgr true
  else if s.txn.stateData.receive.subState = .closeoutSync then
    let s := s.modR2 fun d => { d with acknakCount := d.acknakCount + 1 }
    if (s.params mgr).ackLimit ≤ s.txn.stateData.receive.r2.acknakCount then
      ((s.setTxnStatus .ackLimitNoFin).finishTransaction mgr true).modCom
        fun f => { f with ackTimerArmed := false }
    else s.modRx fun f => { f with sendFin := true }
  else s

def rAckTimerTick : Session :=
  if s.txn.state ≠ .r2 ∨ ¬ s.txn.flags.com.ackTimerArmed then s
  else if s.txn.ackTimer.timerStatus = .running then s.runAckTimer
  else
    let s := s.rAckTimerExpired mgr
    if s.txn.flags.com.ackTimerArmed then s.armAckTimer mgr else s

def rInactivity : Session :=
  if ¬ s.txn.flags.com.inactivityFired ∧ s.txn.inactivityTimer.timerStatus = .running then
    let s := s.runInactivityTimer
    if s.txn.inactivityTimer.timerStatus = .expired then
      let s := s.modCom fun f => { f with inactivityFired := true }
      if s.txn.state = .r2 ∧ ¬ s.txn.flags.com.canceled then
        s.r2SetFinTxnStatus .inactivityDetected
      else s
    else s
  else s

def rTickSend : Session × Bool :=
  if s.txn.flags.rx.sendEofAck then
    let r := s.sendAck mgr .active .endOfFile ⟨s.txn.stateData.receive.r2.eofCc⟩
      s.hist.peerEid s.hist.seqNum
    if r.2 = .success then (r.1.modRx fun f => { f with sendEofAck := false }, true)
    else if r.2 = .error then (r.1.modRx fun f => { f with sendEofAck := false }, false)
    else (r.1, true)
  else if s.txn.flags.rx.sendNak then
    let r := s.rSubstateSendNak mgr
    (if r.2 = .success then r.1.modRx fun f => { f with sendNak := false } else r.1, true)
  else if s.txn.flags.rx.sendFin then
    let r := s.r2SubstateSendFin mgr
    (if r.2 = .success then r.1.modRx fun f => { f with sendFin := false } else r.1, true)
  else (s, false)

/-- After inactivity, sends are retried a bounded number of times. -/
def countRetry (pendingSend : Bool) : Session × Bool :=
  if s.txn.flags.com.inactivityFired ∧ pendingSend then
    if mgr.postInactivitySendRetries ≤ s.txn.flags.com.postInactivitySendRetries then (s, true)
    else
      ((s.assertByte s.txn.flags.com.postInactivitySendRetries).modCom
        fun f => { f with postInactivitySendRetries := f.postInactivitySendRetries + 1 }, false)
  else (s, false)

def rTick : Session :=
  let s := s.rInactivity
  let r := s.rTickSend mgr
  let e := r.1.countRetry mgr r.2
  if e.1.txn.flags.com.inactivityFired ∧ (¬ r.2 ∨ e.2) then e.1.recycleTransaction
  else e.1.rAckTimerTick mgr

end Fprime.Cfdp.Session
