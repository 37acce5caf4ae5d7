import Fprime.Cfdp.Channel

/-!
# Working on one transaction

What the sending and the receiving state machines share: timers, file access, building and
sending PDUs, finishing and recycling.
-/

namespace Fprime.Cfdp

open Fprime.Os Fprime.Fw Function

structure Session where
  t : Nat
  txn : Transaction
  hist : History
  list : ChunkList
  chan : Channel

namespace Session

variable (mgr : Mgr) (s : Session)

def modTxn (f : Transaction → Transaction) : Session :=
  { s with txn := f s.txn }

def modCom (f : FlagsCommon → FlagsCommon) : Session :=
  { s with txn := { s.txn with flags := { s.txn.flags with com := f s.txn.flags.com } } }

def modRx (f : FlagsRx → FlagsRx) : Session :=
  { s with txn := { s.txn with flags := { s.txn.flags with rx := f s.txn.flags.rx } } }

def modTx (f : FlagsTx → FlagsTx) : Session :=
  { s with txn := { s.txn with flags := { s.txn.flags with tx := f s.txn.flags.tx } } }

def modSend (f : TxStateData → TxStateData) : Session :=
  { s with txn :=
    { s.txn with stateData := { s.txn.stateData with send := f s.txn.stateData.send } } }

def modReceive (f : RxStateData → RxStateData) : Session :=
  { s with txn :=
    { s.txn with stateData := { s.txn.stateData with receive := f s.txn.stateData.receive } } }

def modR2 (f : RxS2Data → RxS2Data) : Session :=
  s.modReceive fun r => { r with r2 := f r.r2 }

def modS2 (f : TxS2Data → TxS2Data) : Session :=
  s.modSend fun d => { d with s2 := f d.s2 }

def modWorld (f : World → World) : Session :=
  { s with chan := { s.chan with world := f s.chan.world } }

def assert (f : Fault) (p : Bool) : Session :=
  s.modWorld fun w => w.assert f p

/-- `chunk_list`'s assertion that the transaction has a chunk list. -/
def assertChunks : Session :=
  s.assert .chunksMissing s.txn.chunks.isSome

def params : ChannelParams :=
  mgr.channel s.txn.chanNum

def fdClose : Session :=
  s.modTxn fun x => { x with fd := none }

/-- Opening a file that is open already is refused. -/
def fdOpenRead (path : Path) : Session × Bool :=
  if s.txn.fd.isSome then (s, false)
  else
    let w := s.chan.world
    let fd := w.fs.openRead (w.nextOs mgr) path
    ((s.modTxn fun x => { x with fd := fd }).modWorld fun w => w.afterOs w.fs, fd.isSome)

def fdOpenWrite (path : Path) : Session × Bool :=
  if s.txn.fd.isSome then (s, false)
  else
    let w := s.chan.world
    let r := w.fs.openWrite (w.nextOs mgr) path
    ((s.modTxn fun x => { x with fd := r.2 }).modWorld fun w => w.afterOs r.1, r.2.isSome)

def fdOpenCreate (path : Path) : Session × Bool :=
  if s.txn.fd.isSome then (s, false)
  else
    let w := s.chan.world
    let r := w.fs.openCreate (w.nextOs mgr) path
    ((s.modTxn fun x => { x with fd := r.2 }).modWorld fun w => w.afterOs r.1, r.2.isSome)

def fdSeekAbsolute (pos : Nat) : Session × Bool :=
  let w := s.chan.world
  let r := File.seekAbsolute s.txn.fd (w.nextOs mgr) pos
  ((s.modTxn fun x => { x with fd := r.1 }).modWorld fun w => w.afterOs w.fs, r.2)

def fdRead (count : Nat) : Session × Option Bytes :=
  let w := s.chan.world
  let r := w.fs.read (w.nextOs mgr) s.txn.fd count
  ((s.modTxn fun x => { x with fd := r.1 }).modWorld fun w => w.afterOs w.fs, r.2)

def fdWrite (data : Bytes) : Session × Bool :=
  let w := s.chan.world
  let r := w.fs.write (w.nextOs mgr) s.txn.fd data
  ((s.modTxn fun x => { x with fd := r.2.1 }).modWorld fun w => w.afterOs r.1, r.2.2)

def fdSize : Session × Option Nat :=
  let w := s.chan.world
  (s.modWorld fun w => w.afterOs w.fs, w.fs.size (w.nextOs mgr) s.txn.fd)

def moveFile (src dst : Path) : Session × Bool :=
  let w := s.chan.world
  let r := w.fs.moveFile (w.nextOs mgr) src dst
  (s.modWorld fun w => w.afterOs r.1, r.2)

def removeFile (path : Path) : Session :=
  let w := s.chan.world
  s.modWorld fun w' => w'.afterOs (w.fs.removeFile (w.nextOs mgr) path)

def armAckTimer : Session :=
  (s.modTxn fun x => { x with ackTimer := .setTimer (s.params mgr).ackTimer }).modCom
    fun f => { f with ackTimerArmed := true }

def armInactTimer : Session :=
  let duration := if getTxnStatus s.txn.state = .active then (s.params mgr).inactivityTimer
    else (s.params mgr).ackTimer * 2
  s.modTxn fun x => { x with inactivityTimer := .setTimer duration }

def runAckTimer : Session :=
  (s.assert .timerRun s.txn.ackTimer.runOk).modTxn fun x => { x with ackTimer := x.ackTimer.run }

def runInactivityTimer : Session :=
  (s.assert .timerRun s.txn.inactivityTimer.runOk).modTxn
    fun x => { x with inactivityTimer := x.inactivityTimer.run }

/-- The first error status stays. -/
def setTxnStatus (stat : TxnStatus) : Session :=
  if txnStatusIsError s.hist.txnStat then s
  else { s with hist := { s.hist with txnStat := stat } }

def isError : Bool :=
  txnStatusIsError s.hist.txnStat

theorem setTxnStatus_of_error {s : Session} (h : s.isError) (stat : TxnStatus) :
    s.setTxnStatus stat = s :=
  if_pos h

theorem setTxnStatus_of_ok {s : Session} (h : ¬ s.isError) (stat : TxnStatus) :
    s.setTxnStatus stat = { s with hist := { s.hist with txnStat := stat } } :=
  if_neg h

def assertByte (n : UInt8) : Session :=
  s.assert .overflow (n != 255)

def send (pdu : Pdu) : Session × Status :=
  let r := Channel.serializeAndSendPdu mgr s.chan pdu
  ({ s with chan := r.1 }, r.2)

/-- Send the metadata; names longer than the PDU holds fail an assertion, and nothing goes out. -/
def sendMd : Session × Status :=
  let s := s.assert .metadataState (s.txn.state == .s1 || s.txn.state == .s2)
  let md := MetadataPdu.initialized .towardReceiver s.txn.txnClass mgr.localEid s.hist.seqNum
    s.hist.peerEid s.txn.fsize s.hist.fnames.srcFilename s.hist.fnames.dstFilename .modular
    (if s.txn.state = .s2 then 1 else 0)
  let s := s.assert .codec (!panics md)
  match decoded md with
  | some md => s.send mgr (.metadata md)
  | none => (s, .error)

def sendFd (fd : FileDataPdu) : Session × Status :=
  s.send mgr (.fileData fd)

def sendEof : Session × Status :=
  let cc := txnStatusToConditionCode s.hist.txnStat
  let eof := EofPdu.initialized .towardReceiver s.txn.txnClass mgr.localEid s.hist.seqNum
    s.hist.peerEid cc s.txn.crc.value s.txn.fsize
  s.send mgr (.eof (if cc ≠ .noError then
    (eof.appendTlv (Tlv.new.initializeEntityId mgr.localEid)).1 else eof))

def sendAck (ts : AckTxnStatus) (dirCode : FileDirective)
    (cc : ConditionCode) (peerEid tsn : UInt32) : Session × Status :=
  let s := s.assert .ackDirective (dirCode == .endOfFile || dirCode == .fin)
  let srcEid := if s.hist.dir = .tx then mgr.localEid else peerEid
  let dstEid := if s.hist.dir = .tx then peerEid else mgr.localEid
  let direction := if dirCode = .endOfFile then .towardSender else .towardReceiver
  s.send mgr (.ack (AckPdu.initialized direction s.txn.txnClass srcEid tsn dstEid dirCode 1 cc ts))

def sendFin (dc : FinDeliveryCode) (fs : FinFileStatus)
    (cc : ConditionCode) : Session × Status :=
  let fin := FinPdu.initialized .towardSender s.txn.txnClass s.hist.peerEid s.hist.seqNum
    mgr.localEid cc dc fs
  s.send mgr (.fin (if cc ≠ .noError then
    (fin.appendTlv (Tlv.new.initializeEntityId mgr.localEid)).1 else fin))

def sendNak (nak : NakPdu) : Session × Status :=
  (s.assert .nakClass (s.txn.txnClass == .class2)).send mgr (.nak nak)

def dequeueTransaction : Session :=
  { s with chan := s.chan.removeFromQueue s.txn.flags.com.qIndex s.t }

def insertSortPrio (q : QueueId) : Session :=
  { s with chan := s.chan.insertSortPrio s.t s.txn.priority q }.modCom
    fun f => { f with qIndex := q }

def setCurrentTxn : Session :=
  { s with chan := { s.chan with currentTxn := some s.t } }

def clearCurrentIfMatch : Session :=
  if s.chan.currentTxn = some s.t then { s with chan := { s.chan with currentTxn := none } } else s

def slash : UInt8 := 47

def srcDir (file : Bytes) : Bytes :=
  ((file.reverse.dropWhile (· ≠ slash)).drop 1).reverse

def isPollingDir (srcFile : Bytes) : Bool :=
  (List.range maxPollingDir).any fun i => (s.chan.polldir i).srcDir == srcDir srcFile

/-- Move a sent file away, or remove it when there is no place for it or the move fails. -/
def moveOrRemove (dir : Bytes) : Session :=
  let src := s.hist.fnames.srcFilename
  if dir ≠ [] then
    let r := s.moveFile mgr src dir
    if r.2 then r.1 else r.1.removeFile mgr src
  else s.removeFile mgr src

def handleNotKeepFile : Session :=
  if s.hist.dir = .tx then
    if ¬ s.isError then s.moveOrRemove mgr (mgr.channel s.chan.channelId).moveDir
    else if s.isPollingDir s.hist.fnames.srcFilename then
      s.moveOrRemove mgr (mgr.channel s.chan.channelId).failDir
    else s
  else s.removeFile mgr s.hist.fnames.dstFilename

def decrementCmdTxCounter : Session :=
  let s := s.assert .cmdTxCounter (decide (0 < s.chan.numCmdTx))
  { s with chan := { s.chan with numCmdTx := s.chan.numCmdTx - 1 } }

def sendFileComplete (status : SendFileStatus) : Session :=
  s.modWorld fun w => { w with fileDone := status :: w.fileDone }

/-- The part of finishing that settles the counters of a commanded or requested transfer. -/
def settle (keepHistory : Bool) : Session :=
  let s := if s.hist.dir = .tx ∧ s.txn.flags.tx.cmdTx then s.decrementCmdTxCounter else s
  let s := if s.txn.initType = .initByPort then
    s.sendFileComplete (if s.isError then .statusError else .statusOk) else s
  s.modCom fun f => { f with keepHistory := keepHistory }

end Session

def Channel.playbackRef (c : Channel) : PbRef → Playback
  | .playback i => c.playback i
  | .pollDir i => (c.polldir i).pb

def Channel.modPlayback (c : Channel) (pb : PbRef) (f : Playback → Playback) : Channel :=
  match pb with
  | .playback i => { c with playback := update c.playback i (f (c.playback i)) }
  | .pollDir i =>
    { c with polldir :=
      Function.update c.polldir i { c.polldir i with pb := f (c.polldir i).pb } }

namespace Session

variable (mgr : Mgr) (s : Session)

def releasePlayback (pb : PbRef) : Session :=
  let s := s.assert .playbackCounter (decide (0 < (s.chan.playbackRef pb).numTs))
  { s with chan := s.chan.modPlayback pb fun p => { p with numTs := p.numTs - 1 } }

def closeFile : Session :=
  if s.txn.fd.isSome then
    let s := s.fdClose
    if s.txn.keep = .delete then s.handleNotKeepFile mgr else s
  else s

def release (keepHistory : Bool) : Session :=
  let s := if s.txn.history.isSome then s.settle keepHistory else s
  let s := match s.txn.pb with
    | some pb => s.releasePlayback pb
    | none => s
  s.clearCurrentIfMatch

def leaveActive : Session :=
  if s.txn.flags.com.qIndex = .txa then s.dequeueTransaction.insertSortPrio .txw else s

/-- End the transfer: off the active queue, file closed. The transaction then holds until a tick
recycles it. -/
def finishTransaction (keepHistory : Bool) : Session :=
  if s.txn.flags.com.qIndex = .free then s
  else
    (((s.leaveActive.closeFile mgr).release keepHistory).modTxn
      fun x => { x with state := .hold }).armInactTimer mgr

def releaseChunks : Session :=
  match s.txn.chunks with
  | some c =>
    { s with
      list := s.list.reset
      chan := { s.chan with
        chunks := update s.chan.chunks c s.list.reset }.insertBackChunks s.hist.dir c
      txn := { s.txn with chunks := none } }
  | none => s

def releaseHistory (h : Nat) : Session :=
  let dest := if s.txn.flags.com.keepHistory then .hist else .histFree
  { s with
    chan := { s.chan with
      histories := update s.chan.histories h s.hist }.insertBackInQueue dest h
    txn := { s.txn with history := none } }

def freeTransaction : Session :=
  let s := s.modTxn Transaction.reset
  let c := { s.chan with txnLinks := s.chan.txnLinks.initNode s.t }
  { s with chan := c.insertBackTxn .free s.t }.modCom fun f => { f with qIndex := .free }

def recycleTransaction : Session :=
  let s := s.fdClose.dequeueTransaction
  let s := match s.txn.history with
    | some h => s.releaseChunks.releaseHistory h
    | none => s
  s.freeTransaction

theorem send_sends (pdu : Pdu) :
    Channel.Sends pdu s.chan (s.send mgr pdu).1.chan (s.send mgr pdu).2 :=
  Channel.serializeAndSendPdu_sends mgr s.chan pdu

theorem handleNotKeepFile_eq :
    ∃ fs n, s.handleNotKeepFile mgr = s.modWorld fun w => { w with fs := fs, osCalls := n } := by
  have hmove : ∀ dir, ∃ fs n, s.moveOrRemove mgr dir =
      s.modWorld fun w => { w with fs := fs, osCalls := n } := by
    intro dir
    simp only [moveOrRemove]
    split
    · split <;> exact ⟨_, _, rfl⟩
    · exact ⟨_, _, rfl⟩
  simp only [handleNotKeepFile]
  split
  · split
    · exact hmove _
    · split
      · exact hmove _
      · exact ⟨s.chan.world.fs, s.chan.world.osCalls, rfl⟩
  · exact ⟨_, _, rfl⟩

theorem closeFile_eq :
    ∃ fs n, s.closeFile mgr = s.fdClose.modWorld (fun w => { w with fs := fs, osCalls := n }) ∧
      (s.txn.keep = .keep → fs = s.chan.world.fs) := by
  simp only [closeFile]
  split
  · split
    · next hdel =>
      obtain ⟨fs, n, heq⟩ := s.fdClose.handleNotKeepFile_eq mgr
      refine ⟨fs, n, heq, fun hkeep => ?_⟩
      rw [show s.txn.keep = .delete from hdel] at hkeep
      cases hkeep
    · exact ⟨s.chan.world.fs, s.chan.world.osCalls, rfl, fun _ => rfl⟩
  · next hfd =>
    refine ⟨s.chan.world.fs, s.chan.world.osCalls, ?_, fun _ => rfl⟩
    have hnone : s.txn.fd = none := by simpa using hfd
    show s = { s with txn := { s.txn with fd := none } }
    rw [← hnone]

variable (keepHistory : Bool)

theorem settle_txn :
    (s.settle keepHistory).txn = (s.modCom fun f => { f with keepHistory := keepHistory }).txn := by
  simp only [settle]
  split <;> split <;> rfl

theorem release_txn :
    (s.release keepHistory).txn = if s.txn.history.isSome then
      (s.modCom fun f => { f with keepHistory := keepHistory }).txn else s.txn := by
  have hclear : ∀ s : Session, s.clearCurrentIfMatch.txn = s.txn := by
    intro s
    simp only [clearCurrentIfMatch]
    split <;> rfl
  have hpb : ∀ (s : Session) (pb : PbRef), (s.releasePlayback pb).txn = s.txn := by
    intro s pb
    cases pb <;> rfl
  simp only [release, hclear]
  split <;> split <;> simp only [hpb, settle_txn]

theorem finishTransaction_txn
    (h : s.txn.flags.com.qIndex ≠ .free) :
    (s.finishTransaction mgr keepHistory).txn = { s.txn with
      state := .hold
      fd := none
      inactivityTimer := .setTimer ((s.params mgr).ackTimer * 2)
      flags := { s.txn.flags with com := { s.txn.flags.com with
        qIndex := if s.txn.flags.com.qIndex = .txa then .txw else s.txn.flags.com.qIndex
        keepHistory := if s.txn.history.isSome then keepHistory
          else s.txn.flags.com.keepHistory } } } := by
  have hleave : s.leaveActive.txn = (s.modCom fun f => { f with
      qIndex := if f.qIndex = .txa then .txw else f.qIndex }).txn := by
    simp only [leaveActive, modCom]
    split
    · rfl
    · rfl
  obtain ⟨fs, n, hclose, -⟩ := s.leaveActive.closeFile_eq mgr
  have hclosed : (s.leaveActive.closeFile mgr).txn = { s.leaveActive.txn with fd := none } := by
    rw [hclose]
    rfl
  have hrel := (s.leaveActive.closeFile mgr).release_txn keepHistory
  rw [finishTransaction, if_neg h]
  simp only [armInactTimer, modTxn, params, hrel, modCom, hclosed, hleave]
  split
  · rfl
  · rfl

theorem recycleTransaction_world :
    s.recycleTransaction.chan.world =
      { s.chan.world with faults := s.recycleTransaction.chan.world.faults } := by
  have hfree : ∀ s : Session, s.freeTransaction.chan.world =
      { s.chan.world with faults := s.freeTransaction.chan.world.faults } := fun s =>
    s.chan.world.assert_eq _ _
  have hhist : ∀ (s : Session) (h : Nat), (s.releaseHistory h).chan.world =
      { s.chan.world with faults := (s.releaseHistory h).chan.world.faults } := fun s h =>
    s.chan.world.assert_eq _ _
  have hchunks : ∀ s : Session, s.releaseChunks.chan.world =
      { s.chan.world with faults := s.releaseChunks.chan.world.faults } := by
    intro s
    simp only [releaseChunks]
    split
    · exact s.chan.world.assert_eq _ _
    · rfl
  have hdequeue : ∀ s : Session, s.dequeueTransaction.chan.world =
      { s.chan.world with faults := s.dequeueTransaction.chan.world.faults } := fun s =>
    s.chan.world.assert_eq _ _
  simp only [recycleTransaction]
  split
  · rw [hfree, hhist, hchunks, hdequeue]
    rfl
  · rw [hfree, hdequeue]
    rfl

end Session

end Fprime.Cfdp
