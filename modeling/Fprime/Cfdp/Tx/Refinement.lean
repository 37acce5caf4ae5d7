import Fprime.Cfdp.Dispatch
import Fprime.Lib.Runs

/-!
# The send handlers refine an abstract sender

The abstract sender opens the source, answers requests and sends data from where it should. The
handlers take it some number of steps further, as long as a seek that they leave out was not needed.
-/

namespace Fprime.Cfdp

open Fprime.Os Fprime.Fw Lib Lib.Runs Lib.Span List UInt32

namespace Tx

def Carries (contents : Bytes) (pdu : FileDataPdu) : Prop :=
  pdu.getData.length = pdu.dataSize.toNat ∧
    pdu.getData = (contents.drop pdu.offset.toNat).take pdu.dataSize.toNat

/-- What fidelity is about: the requested ranges, the open file and the data sent. -/
structure View where
  gone : Bool
  state : TxnState
  dir : Direction
  fsize : UInt32
  list : ChunkList
  src : Path
  fd : File
  fs : FileSystem
  data : List FileDataPdu

inductive Step : View → View → Prop
  | requested {v : View} (offset size : Nat) (h : offset + size ≤ v.fsize.toNat) :
      Step v { v with list := v.list.add offset size }
  | served {v : View} (size : Nat) : Step v { v with list := v.list.removeFromFirst size }
  | opened {v : View} (fsize : UInt32) (hst : v.state = .s2)
      (hsize : fsize.toNat ≤ ((v.fs v.src).getD []).length) :
      Step v { v with fd := some ⟨v.src, .openRead, 0⟩, fsize := fsize }
  | moved {v : View} (h : Handle) (pos : Nat) (hfd : v.fd = some h) :
      Step v { v with fd := some { h with pos := pos } }
  | sent {v : View} (h : Handle) (pdu : FileDataPdu) (hfd : v.fd = some h)
      (hdata : Carries ((v.fs h.path).getD []) pdu) : Step v { v with data := pdu :: v.data }
  | finish {v : View} (fs : FileSystem) : Step v { v with state := .hold, fd := none, fs := fs }

/-- While the transaction is active, or its file open, the source is in place; no requested range
passes its end; and the data sent since `old` is the source's. -/
structure Sending (src : Bytes) (old : List FileDataPdu) (v : View) : Prop where
  file : v.state = .s2 → v.fs v.src = some src
  handle : ∀ h, v.fd = some h → h.path = v.src ∧ v.fs v.src = some src
  size : v.fsize.toNat ≤ src.length
  chunks : ∀ c ∈ v.list.chunks, c.stop ≤ src.length
  data : ∀ pdu ∈ v.data, pdu ∈ old ∨ Carries src pdu

variable {v w : View}

theorem Sending.step {src : Bytes} {old : List FileDataPdu} (h : Step v w)
    (hv : Sending src old v) : Sending src old w := by
  cases h with
  | requested offset size h => exact { hv with
      chunks := ChunkList.stop_le_of_mem_add hv.chunks (h.trans hv.size) }
  | served size => exact { hv with
      chunks := ChunkList.stop_le_of_mem_removeFromFirst hv.chunks size }
  | opened fsize hst hsize =>
    have hfile := hv.file hst
    rw [hfile] at hsize
    exact { hv with
      handle := by
        rintro _ ⟨⟩
        exact ⟨rfl, hfile⟩
      size := hsize }
  | moved h pos hfd => exact { hv with
      handle := by
        rintro _ ⟨⟩
        exact hv.handle h hfd }
  | sent h pdu hfd hdata =>
    obtain ⟨hpath, hfile⟩ := hv.handle h hfd
    rw [hpath, hfile] at hdata
    exact { hv with
      data := forall_mem_cons.2 ⟨.inr hdata, hv.data⟩ }
  | finish fs => exact { hv with
      file := nofun
      handle := nofun }

abbrev Steps : View → View → Prop :=
  Relation.ReflTransGen Step

theorem Sending.steps {src : Bytes} {old : List FileDataPdu} (h : Steps v w)
    (hv : Sending src old v) : Sending src old w :=
  kept_by_steps (fun _ _ hstep hv => hv.step hstep) h hv

theorem Steps.one (h : Step v w) : Steps v w :=
  Relation.ReflTransGen.single h

theorem Steps.of_eq (h : w = v) : Steps v w :=
  h ▸ .refl

theorem Steps.frame (h : Steps v w) :
    w.gone = v.gone ∧ w.dir = v.dir ∧ (w.state = v.state ∨ w.state = .hold) := by
  refine kept_by_steps (I := fun u => u.gone = v.gone ∧ u.dir = v.dir ∧
    (u.state = v.state ∨ u.state = .hold)) (fun _ _ hstep hu => ?_) h ⟨rfl, rfl, .inl rfl⟩
  cases hstep with
  | finish fs => exact ⟨hu.1, hu.2.1, .inr rfl⟩
  | _ => exact hu

theorem Steps.trans_eq {u : View} (h : Steps u v) (heq : w = v) : Steps u w :=
  heq ▸ h

end Tx

namespace Session

open Tx

def sentData (sent : List Pdu) : List FileDataPdu :=
  sent.filterMap fun
    | .fileData fd => some fd
    | _ => none

variable (mgr : Mgr) (s : Session)

def txView : Tx.View where
  gone := decide (s.txn.flags.com.qIndex = .free)
  state := s.txn.state
  dir := s.hist.dir
  fsize := s.txn.fsize
  list := s.list
  src := s.hist.fnames.srcFilename
  fd := s.txn.fd
  fs := s.chan.world.fs
  data := sentData s.chan.world.sent

@[simp] theorem txView_assert (f : Fault) (b : Bool) :
    (s.assert f b).txView = s.txView := by
  cases b <;> rfl

@[simp] theorem txView_assertChunks : s.assertChunks.txView = s.txView :=
  txView_assert _ _ _

@[simp] theorem txView_armAckTimer :
    (s.armAckTimer mgr).txView = s.txView := rfl

@[simp] theorem txView_runAckTimer : s.runAckTimer.txView = s.txView :=
  txView_assert s _ _

@[simp] theorem txView_runInactivityTimer :
    s.runInactivityTimer.txView = s.txView :=
  txView_assert s _ _

@[simp] theorem txView_setTxnStatus (stat : TxnStatus) :
    (s.setTxnStatus stat).txView = s.txView := by
  simp only [setTxnStatus]
  split <;> rfl

theorem txView_send (pdu : Pdu) :
    (s.send mgr pdu).1.txView = { s.txView with
      data := if (s.send mgr pdu).2 = .success then sentData (pdu :: s.chan.world.sent)
        else s.txView.data } := by
  have h := s.send_sends mgr pdu
  calc (s.send mgr pdu).1.txView = { s.txView with
        fs := (s.send mgr pdu).1.chan.world.fs
        data := sentData (s.send mgr pdu).1.chan.world.sent } := rfl
    _ = _ := by
      rw [h.fs, h.sent, apply_ite sentData]
      rfl

theorem txView_send_control {pdu : Pdu} (h : sentData [pdu] = []) :
    (s.send mgr pdu).1.txView = s.txView := by
  have hdata : sentData (pdu :: s.chan.world.sent) = s.txView.data := by
    rw [← singleton_append, sentData, filterMap_append]
    show sentData [pdu] ++ _ = _
    rw [h]
    rfl
  rw [txView_send, hdata, ite_self]

@[simp] theorem txView_sendMd : (s.sendMd mgr).1.txView = s.txView := by
  simp only [sendMd]
  split
  · rw [txView_send_control _ _ rfl, txView_assert, txView_assert]
  · rw [txView_assert, txView_assert]

@[simp] theorem txView_sendEof :
    (s.sendEof mgr).1.txView = s.txView :=
  txView_send_control _ _ rfl

@[simp] theorem txView_sendAck (ts : AckTxnStatus)
    (dirCode : FileDirective) (cc : ConditionCode) (peerEid tsn : UInt32) :
    (s.sendAck mgr ts dirCode cc peerEid tsn).1.txView = s.txView := by
  rw [sendAck, txView_send_control _ _ rfl, txView_assert]

@[simp] theorem txView_decrementCmdTxCounter :
    s.decrementCmdTxCounter.txView = s.txView :=
  txView_assert s .cmdTxCounter _

@[simp] theorem txView_settle (keepHistory : Bool) :
    (s.settle keepHistory).txView = s.txView := by
  simp only [settle]
  split <;> split <;> first | rfl | exact txView_decrementCmdTxCounter s

@[simp] theorem txView_releasePlayback (pb : PbRef) :
    (s.releasePlayback pb).txView = s.txView := by
  cases pb <;> exact txView_assert s .playbackCounter _

@[simp] theorem txView_clearCurrentIfMatch :
    s.clearCurrentIfMatch.txView = s.txView := by
  simp only [clearCurrentIfMatch]
  split <;> rfl

@[simp] theorem txView_release (keepHistory : Bool) :
    (s.release keepHistory).txView = s.txView := by
  simp only [release, txView_clearCurrentIfMatch]
  split <;> split <;> simp

theorem txView_relinked {c : Channel} (h : s.chan.Relinked c) :
    Session.txView { s with chan := c } = s.txView := by
  rw [h]
  rfl

@[simp] theorem txView_dequeueTransaction :
    s.dequeueTransaction.txView = s.txView :=
  s.txView_relinked (s.chan.removeFromQueue_relinked _ _)

theorem txView_insertSortPrio {q : QueueId}
    (h : q ≠ .free) (hq : s.txn.flags.com.qIndex ≠ .free) :
    (s.insertSortPrio q).txView = s.txView := by
  have hview := s.txView_relinked (s.chan.insertSortPrio_relinked s.t s.txn.priority q)
  have hgone : decide (q = .free) = decide (s.txn.flags.com.qIndex = .free) := by
    simp only [h, hq]
  calc (s.insertSortPrio q).txView
      = { Session.txView { s with chan := s.chan.insertSortPrio s.t s.txn.priority q } with
          gone := decide (q = .free) } := rfl
    _ = s.txView := by rw [hview, hgone]; rfl

theorem txView_leaveActive : s.leaveActive.txView = s.txView := by
  by_cases hq : s.txn.flags.com.qIndex = .txa
  · have hfree : s.dequeueTransaction.txn.flags.com.qIndex ≠ .free := by
      show s.txn.flags.com.qIndex ≠ .free
      rw [hq]
      decide
    rw [leaveActive, if_pos hq, txView_insertSortPrio _ (by decide) hfree,
      txView_dequeueTransaction]
  · rw [leaveActive, if_neg hq]

theorem steps_then_finish {s : Session} (keepHistory : Bool) {v : Tx.View}
    (h : Tx.Steps v s.txView) : Tx.Steps v (s.finishTransaction mgr keepHistory).txView := by
  by_cases hfree : s.txn.flags.com.qIndex = .free
  · rw [finishTransaction, if_pos hfree]
    exact h
  · obtain ⟨fs, n, hclose, -⟩ := s.leaveActive.closeFile_eq mgr
    rw [finishTransaction, if_neg hfree, hclose]
    show Tx.Steps v { (Session.release _ keepHistory).txView with state := .hold }
    rw [txView_release]
    rw [← s.txView_leaveActive] at h
    exact h.tail (.finish fs)

def AtOffset (offset : UInt32) : Prop :=
  ∀ h ∈ s.txn.fd, h.pos = offset.toNat
  deriving Decidable

/-- A seek is left out only where the file is at the offset already. -/
def Positioned (offset : UInt32) : Prop :=
  s.txn.stateData.send.cachedPos = offset → s.AtOffset offset
  deriving Decidable

theorem txView_sSeek (offset : UInt32) :
    Tx.Steps s.txView (s.sSeek mgr offset).1.txView ∧
      ((s.sSeek mgr offset).2 = true → s.Positioned offset → (s.sSeek mgr offset).1.AtOffset offset) ∧
      (s.sSeek mgr offset).1 = { s with
        txn := { s.txn with fd := (s.sSeek mgr offset).1.txn.fd }
        chan := (s.sSeek mgr offset).1.chan } := by
  by_cases hpos : s.txn.stateData.send.cachedPos = offset
  · rw [show s.sSeek mgr offset = (s, true) from if_neg (not_not.2 hpos)]
    exact ⟨.refl, fun _ h => h hpos, rfl⟩
  · rw [show s.sSeek mgr offset = s.fdSeekAbsolute mgr offset.toNat from if_pos hpos]
    refine ⟨?_, ?_, rfl⟩
    · show Tx.Steps s.txView { s.txView with
        fd := (File.seekAbsolute s.txn.fd (s.chan.world.nextOs mgr) offset.toNat).1 }
      rcases File.seekAbsolute_cases s.txn.fd (s.chan.world.nextOs mgr) offset.toNat with
        ⟨h, hfd, heq⟩ | heq
      · rw [heq]
        exact .one (.moved h _ hfd)
      · rw [heq]
        exact .refl
    · intro hok _ h hh
      have hok' : (File.seekAbsolute s.txn.fd (s.chan.world.nextOs mgr) offset.toNat).2 = true := hok
      have hh' : (File.seekAbsolute s.txn.fd (s.chan.world.nextOs mgr) offset.toNat).1 = some h := hh
      rcases File.seekAbsolute_cases s.txn.fd (s.chan.world.nextOs mgr) offset.toNat with
        ⟨h0, -, heq⟩ | heq
      · rw [heq] at hh'
        cases hh'
        rfl
      · rw [heq] at hok'
        cases hok'

theorem maxDataBytes_lt (bytesToRead : Nat) : maxDataBytes mgr bytesToRead < 2 ^ 16 :=
  lt_of_le_of_lt (min_le_right _ _) (by decide)

theorem carries_read {contents data : Bytes} {offset : UInt32} {count : Nat}
    (hdata : data = (contents.drop offset.toNat).take count) (hcount : count < 2 ^ 16)
    (header : PduHeader) (pad : Bytes) :
    Carries contents ⟨header, offset, UInt16.ofNat data.length, data ++ pad⟩ := by
  have hlen : data.length ≤ count := by rw [hdata]; exact length_take_le _ _
  have hsize : (UInt16.ofNat data.length).toNat = data.length :=
    Nat.mod_eq_of_lt (lt_of_le_of_lt hlen hcount)
  have hget : FileDataPdu.getData ⟨header, offset, UInt16.ofNat data.length, data ++ pad⟩ = data := by
    simp only [FileDataPdu.getData, hsize, take_left]
  refine ⟨by rw [hget, hsize], ?_⟩
  rw [hget, hsize]
  simp only
  nth_rewrite 1 [hdata]
  rw [hdata, length_take, take_eq_take_iff]
  omega

theorem txView_fdRead (count : Nat) :
    (∃ h, s.txView.fd = some h ∧ ∃ data,
        data = (((s.txView.fs h.path).getD []).drop h.pos).take count ∧
        (s.fdRead mgr count).2 = some data ∧ (s.fdRead mgr count).1.txView =
          { s.txView with fd := some { h with pos := h.pos + data.length } }) ∨
      ((s.fdRead mgr count).2 = none ∧ (s.fdRead mgr count).1.txView = s.txView) := by
  have hview : (s.fdRead mgr count).1.txView = { s.txView with
    fd := (s.chan.world.fs.read (s.chan.world.nextOs mgr) s.txn.fd count).1 } := rfl
  have hdata : (s.fdRead mgr count).2 =
    (s.chan.world.fs.read (s.chan.world.nextOs mgr) s.txn.fd count).2 := rfl
  rw [hview, hdata]
  rcases FileSystem.read_cases s.chan.world.fs (s.chan.world.nextOs mgr) s.txn.fd count with
    ⟨h, hfd, -, heq⟩ | heq
  · rw [heq]
    exact .inl ⟨h, hfd, _, rfl, rfl, rfl⟩
  · exact .inr ⟨by rw [heq], by rw [heq]; rfl⟩

/-- What goes out is the file's. Nothing goes out with success only past the end of the file, or
where the limits say so. -/
theorem steps_sSendFileData (foffs : UInt32) (bytesToRead : Nat)
    (calcCrc : Bool) (hpos : s.Positioned foffs ∨ maxDataBytes mgr bytesToRead = 0) :
    Tx.Steps s.txView (s.sSendFileData mgr foffs bytesToRead calcCrc).1.txView ∧
      ((s.sSendFileData mgr foffs bytesToRead calcCrc).2.1 = .success →
        (s.sSendFileData mgr foffs bytesToRead calcCrc).2.2 = 0 →
        maxDataBytes mgr bytesToRead = 0 ∨
          ∃ h, (s.sSendFileData mgr foffs bytesToRead calcCrc).1.txView.fd = some h ∧
            (((s.sSendFileData mgr foffs bytesToRead calcCrc).1.txView.fs h.path).getD []).length
              ≤ foffs.toNat) := by
  simp only [sSendFileData]
  obtain ⟨hseek, hat, -⟩ := s.txView_sSeek mgr foffs
  generalize s.sSeek mgr foffs = r at hseek hat
  have hcount := maxDataBytes_lt mgr bytesToRead
  generalize maxDataBytes mgr bytesToRead = count at hpos hcount
  by_cases hok : r.2
  · rw [if_neg (not_not.2 hok)]
    rcases r.1.txView_fdRead mgr count with ⟨h, hfd, data, hdata, hread, hview⟩ | ⟨hread, hview⟩
    · simp only [hread]
      have hsrc : data = (((r.1.txView.fs h.path).getD []).drop foffs.toNat).take count := by
        rcases hpos with hpos | hzero
        · rw [hdata, hat hok hpos h hfd]
        · rw [hdata, hzero, take_zero, take_zero]
      have hmoved : Tx.Steps s.txView (r.1.fdRead mgr count).1.txView := by
        rw [hview]
        exact hseek.tail (.moved h _ hfd)
      generalize hs1 : ((r.1.fdRead mgr count).1.modSend fun d =>
        { d with cachedPos := d.cachedPos + ofNat data.length }) = s1
      have hv1 : s1.txView = { r.1.txView with
          fd := some { h with pos := h.pos + data.length } } := by
        rw [← hs1, ← hview]
        rfl
      have hsteps1 : Tx.Steps s.txView s1.txView := by
        rw [hv1, ← hview]
        exact hmoved
      generalize hpdu : FileDataPdu.initialized .towardReceiver s1.txn.txnClass mgr.localEid
        s1.hist.seqNum s1.hist.peerEid foffs (UInt16.ofNat data.length)
        (data ++ replicate (maxPduSize - data.length) 0) = pdu
      have hcarries : Carries ((s1.txView.fs h.path).getD []) pdu := by
        rw [← hpdu, hv1]
        exact carries_read hsrc hcount _ _
      have hfd1 : s1.txView.fd = some { h with pos := h.pos + data.length } := by rw [hv1]
      have hsend := s1.txView_send mgr (.fileData pdu)
      rw [sendFd]
      generalize s1.send mgr (.fileData pdu) = e at hsend
      by_cases hsucc : e.2 = .success
      · simp only [if_pos hsucc]
        rw [if_pos hsucc] at hsend
        generalize hs2 : Session.assert e.1 .dataEnd
          (decide (foffs.toNat + data.length ≤ e.1.txn.fsize.toNat)) = s2
        have hv2 : s2.txView = e.1.txView := by rw [← hs2, txView_assert]
        have hlast : Session.txView (if calcCrc then
            s2.modTxn fun x => { x with crc := x.crc.update data foffs.toNat } else s2) =
            e.1.txView := by
          rw [← hv2]
          split <;> rfl
        rw [hlast, hsend]
        refine ⟨hsteps1.tail (.sent _ pdu hfd1 hcarries), fun _ hzero => ?_⟩
        have hnil := length_eq_zero_iff.1 hzero
        rw [hsrc, take_eq_nil_iff, drop_eq_nil_iff] at hnil
        refine hnil.imp_right fun hend => ⟨_, hfd1, ?_⟩
        rw [hv1]
        exact hend
      · simp only [if_neg hsucc]
        rw [if_neg hsucc] at hsend
        rw [hsend]
        exact ⟨hsteps1, fun h => absurd h hsucc⟩
    · simp only [hread]
      exact ⟨by rw [hview]; exact hseek, nofun⟩
  · rw [if_pos hok]
    exact ⟨hseek, nofun⟩

def nextOffset : UInt32 :=
  match s.list.getFirstChunk with
  | some chunk => ofNat chunk.offset
  | none => s.txn.foffs

theorem steps_sSubstateSendFileData
    (hpos : s.Positioned s.txn.foffs ∨ ∀ n, maxDataBytes mgr n = 0) :
    Tx.Steps s.txView (s.sSubstateSendFileData mgr).txView := by
  have hsteps := (s.steps_sSendFileData mgr s.txn.foffs (s.txn.fsize - s.txn.foffs).toNat true
    (hpos.imp_right fun h => h _)).1
  simp only [sSubstateSendFileData]
  generalize s.sSendFileData mgr s.txn.foffs (s.txn.fsize - s.txn.foffs).toNat true = r at hsteps
  split
  · exact hsteps
  · split
    · exact hsteps.trans_eq (r.1.txView_setTxnStatus .filestoreRejection)
    · split
      · have hv := r.1.txView_assert .overflow (decide (r.1.txn.foffs.toNat + r.2.2 < 2 ^ 32))
        generalize r.1.assert .overflow (decide (r.1.txn.foffs.toNat + r.2.2 < 2 ^ 32)) = s1 at hv
        refine hsteps.trans_eq ?_
        rw [← hv]
        split <;> rfl
      · exact hsteps

theorem maxDataBytes_eq_zero {mgr : Mgr} {size : Nat} (hsize : 0 < size)
    (h : maxDataBytes mgr size = 0) (n : Nat) : maxDataBytes mgr n = 0 := by
  have hcap : 0 < (FileDataPdu.initialized .towardReceiver .class2 0 0 0 0 0 []).getMaxFileDataSize := by
    decide
  simp only [maxDataBytes] at h ⊢
  omega

variable {old : List FileDataPdu} {src : Bytes}

theorem firstChunk_inside {v : Tx.View} (hv : Sending src old v) {c : Chunk}
    (hc : v.list.getFirstChunk = some c) :
    0 < c.size ∧ (ofNat c.offset).toNat < src.length := by
  have hmem : c ∈ v.list.chunks := mem_of_mem_head? hc
  have hpos := v.list.valid.positive c hmem
  have hbound := v.list.valid.bounded c hmem
  have hstop := hv.chunks c hmem
  refine ⟨hpos, ?_⟩
  simp only [Span.stop] at hbound hstop
  rw [toNat_ofNat_of_lt' (show c.offset < 2 ^ 32 by omega)]
  omega

/-- Where nothing was to be answered there was no request, or the limits let no data go out at all.
-/
theorem steps_sCheckAndRespondNak (hv : Sending src old s.txView)
    (hpos : ¬ s.txn.flags.tx.mdNeedSend → ∀ c ∈ s.list.getFirstChunk, s.Positioned (ofNat c.offset)) :
    Tx.Steps s.txView (s.sCheckAndRespondNak mgr).1.txView ∧
      ((s.sCheckAndRespondNak mgr).2.1 = .success → (s.sCheckAndRespondNak mgr).2.2 = false →
        (¬ s.txn.flags.tx.mdNeedSend ∧ s.list.getFirstChunk = none ∧
          (s.sCheckAndRespondNak mgr).1.txn = s.txn) ∨ ∀ n, maxDataBytes mgr n = 0) := by
  have hv1 : s.assertChunks.txView = s.txView := s.txView_assertChunks
  simp only [sCheckAndRespondNak]
  by_cases hmd : s.txn.flags.tx.mdNeedSend
  · rw [if_pos (show s.assertChunks.txn.flags.tx.mdNeedSend from hmd)]
    have hsend : (s.assertChunks.sendMd mgr).1.txView = s.txView := by
      rw [txView_sendMd, txView_assertChunks]
    split
    · exact ⟨.of_eq hsend, nofun⟩
    · split <;> exact ⟨.of_eq hsend, fun _ => nofun⟩
  · rw [if_neg (show ¬ s.assertChunks.txn.flags.tx.mdNeedSend from hmd)]
    cases hchunk : s.assertChunks.list.getFirstChunk with
    | none => exact ⟨.of_eq hv1, fun _ _ => .inl ⟨hmd, hchunk, rfl⟩⟩
    | some c =>
      have hc : s.list.getFirstChunk = some c := hchunk
      obtain ⟨hsteps, hzero⟩ := s.assertChunks.steps_sSendFileData mgr (ofNat c.offset)
        c.size false (.inl (hpos hmd c hc))
      rw [hv1] at hsteps
      simp only
      generalize s.assertChunks.sSendFileData mgr (ofNat c.offset) c.size false = r
        at hsteps hzero
      split
      · exact ⟨hsteps, nofun⟩
      · next hsucc =>
        split
        · exact ⟨hsteps.tail (.served _), fun _ => nofun⟩
        · next hnone =>
          refine ⟨hsteps, fun _ _ => .inr ?_⟩
          obtain ⟨hsize, hin⟩ := firstChunk_inside hv hc
          rcases hzero (not_not.1 hsucc) (Nat.eq_zero_of_not_pos hnone) with h | ⟨h, hfd, hend⟩
          · exact maxDataBytes_eq_zero hsize h
          · -- The range lies inside the file, so there was something to read.
            have hr := hv.steps hsteps
            obtain ⟨hpath, hfile⟩ := hr.handle h hfd
            rw [hpath, hfile] at hend
            exact absurd hin (not_lt.2 hend)

theorem steps_s2SubstateSendFileData (hv : Sending src old s.txView)
    (hpos : ¬ s.txn.flags.tx.mdNeedSend → s.Positioned s.nextOffset) :
    Tx.Steps s.txView (s.s2SubstateSendFileData mgr).txView := by
  obtain ⟨hsteps, hnone⟩ := steps_sCheckAndRespondNak mgr s hv fun hmd c hc => by
    have h := hpos hmd
    rwa [nextOffset, hc] at h
  simp only [s2SubstateSendFileData]
  generalize s.sCheckAndRespondNak mgr = r at hsteps hnone
  split
  · exact steps_then_finish mgr true (hsteps.trans_eq (r.1.txView_setTxnStatus .nakResponseError))
  · next hsucc =>
    split
    · next hno =>
      refine hsteps.trans (r.1.steps_sSubstateSendFileData mgr ?_)
      rcases hnone (not_not.1 hsucc) (by simpa using hno) with ⟨hmd, hc, htxn⟩ | hzero
      · have h := hpos hmd
        rw [nextOffset, hc] at h
        left
        rwa [Positioned, AtOffset, htxn]
      · exact .inr hzero
    · exact hsteps

theorem steps_sOpenFile (hst : s.txn.state = .s2) :
    Tx.Steps s.txView (s.sOpenFile mgr).1.txView := by
  simp only [sOpenFile]
  split
  · exact .refl
  · next hfd =>
    rw [fdOpenRead, if_neg hfd]
    have hfd' : s.txn.fd = none := by simpa using hfd
    by_cases hok : s.chan.world.nextOs mgr ∧ (s.chan.world.fs s.hist.fnames.srcFilename).isSome
    · simp only [FileSystem.openRead, if_pos hok, Option.isSome_some, not_true_eq_false, if_false]
      refine .one (.opened _ hst ?_)
      show (ofNat (Option.getD (FileSystem.size s.chan.world.fs _ (some _)) 0)).toNat ≤ _
      rw [toNat_ofNat']
      refine (Nat.mod_le _ _).trans ?_
      simp only [FileSystem.size]
      split
      · exact le_rfl
      · exact Nat.zero_le _
    · simp only [FileSystem.openRead, if_neg hok, Option.isSome_none, Bool.false_eq_true,
        not_false_eq_true, if_true]
      refine .of_eq ?_
      show { s.txView with fd := none } = s.txView
      rw [← hfd']
      rfl

theorem steps_sSubstateSendMetadata (hst : s.txn.state = .s2) :
    Tx.Steps s.txView (s.sSubstateSendMetadata mgr).txView := by
  have hopen := s.steps_sOpenFile mgr hst
  simp only [sSubstateSendMetadata]
  generalize s.sOpenFile mgr = r at hopen
  have hfail : ∀ s' : Session, s'.txView = r.1.txView →
      Tx.Steps s.txView ((s'.setTxnStatus .filestoreRejection).finishTransaction mgr true).txView := by
    intro s' hs'
    refine steps_then_finish mgr true ?_
    rw [txView_setTxnStatus, hs']
    exact hopen
  split
  · have hmd := r.1.txView_sendMd mgr
    split
    · exact hfail _ hmd
    · split <;> exact hopen.trans_eq hmd
  · exact hfail _ rfl

theorem steps_s2SubstateSendEof (hq : s.txn.flags.com.qIndex ≠ .free) :
    Tx.Steps s.txView (s.s2SubstateSendEof mgr).txView := by
  refine .of_eq ?_
  simp only [s2SubstateSendEof, txView_armAckTimer]
  refine (txView_insertSortPrio _ (by decide) ?_).trans (txView_dequeueTransaction _)
  exact hq

theorem steps_dispatchTx (hv : Sending src old s.txView)
    (hst : s.txn.state = .s2 ∨ s.txn.state = .hold) (hq : s.txn.flags.com.qIndex ≠ .free)
    (hpos : s.txn.state = .s2 → s.txn.stateData.send.subState = .fileData → ¬ s.txn.flags.tx.mdNeedSend → s.Positioned s.nextOffset) :
    Tx.Steps s.txView (s.dispatchTx mgr).txView := by
  have hv1 := s.txView_assert .txnState (s.txn.state != .invalid)
  have htxn : (s.assert .txnState (s.txn.state != .invalid)).txn = s.txn := rfl
  have hlist : (s.assert .txnState (s.txn.state != .invalid)).list = s.list := rfl
  simp only [dispatchTx]
  generalize s.assert .txnState (s.txn.state != .invalid) = s1 at hv1 htxn hlist
  rw [← hv1] at hv ⊢
  rcases hst with hst | hst
  · have hst1 : s1.txn.state = .s2 := by rw [htxn, hst]
    simp only [hst1, s2Tx]
    cases hsub : s1.txn.stateData.send.subState with
    | metadata => exact s1.steps_sSubstateSendMetadata mgr hst1
    | fileData =>
      refine s1.steps_s2SubstateSendFileData mgr hv fun hmd => ?_
      rw [htxn] at hsub hmd
      have h := hpos hst hsub hmd
      rwa [Positioned, AtOffset, nextOffset, htxn, hlist]
    | eof => exact s1.steps_s2SubstateSendEof mgr (by rw [htxn]; exact hq)
    | closeoutSync | numStates => exact .refl
  · have hst1 : s1.txn.state = .hold := by rw [htxn, hst]
    simp only [hst1]
    exact .refl

variable (data : Bytes)

theorem steps_s2Fin :
    Tx.Steps s.txView (s.s2Fin mgr data).txView := by
  have hv := s.txView_assert .codec (!panics (FinPdu.deserializeFrom ⟨data⟩))
  simp only [s2Fin]
  generalize s.assert .codec (!panics (FinPdu.deserializeFrom ⟨data⟩)) = s1 at hv
  cases decoded (FinPdu.deserializeFrom ⟨data⟩) with
  | none => exact .of_eq hv
  | some fin =>
    simp only
    split
    · refine steps_then_finish mgr true (.of_eq ?_)
      rw [txView_setTxnStatus]
      exact hv
    · exact .of_eq hv

theorem steps_s2EarlyFin :
    Tx.Steps s.txView (s.s2EarlyFin mgr data).txView := by
  have hv : Session.txView ((s.setTxnStatus .earlyFin).modSend
      fun d => { d with subState := .closeoutSync }) = s.txView := s.txView_setTxnStatus .earlyFin
  rw [← hv]
  exact steps_s2Fin mgr _ data

theorem steps_recvSegment (sr : SegmentRequest) :
    Tx.Steps s.txView (s.recvSegment sr).txView := by
  simp only [recvSegment]
  split
  · exact .refl
  · split
    · exact .refl
    · next hin =>
      simp only [not_or, UInt32.not_lt, UInt32.le_iff_toNat_le] at hin
      generalize hs1 : Session.assert s.assertChunks .chunkEnd
        (ChunkList.addOk sr.offsetStart.toNat (sr.offsetEnd - sr.offsetStart).toNat) = s1
      have hv : s1.txView = s.txView := by rw [← hs1, txView_assert, txView_assertChunks]
      rw [← hv]
      refine .one (.requested _ _ ?_)
      rw [hv, UInt32.toNat_sub_of_le _ _ (UInt32.le_iff_toNat_le.2 hin.1)]
      show _ ≤ s.txn.fsize.toNat
      omega

theorem steps_foldl_recvSegment (segments : List SegmentRequest) (s : Session) :
    Tx.Steps s.txView (segments.foldl recvSegment s).txView := by
  induction segments generalizing s with
  | nil => exact .refl
  | cons sr srs ih => exact (s.steps_recvSegment sr).trans (ih _)

theorem steps_s2Nak :
    Tx.Steps s.txView (s.s2Nak data).txView := by
  have hv := s.txView_assert .codec (!panics (NakPdu.deserializeFrom ⟨data⟩))
  simp only [s2Nak]
  generalize s.assert .codec (!panics (NakPdu.deserializeFrom ⟨data⟩)) = s1 at hv
  cases decoded (NakPdu.deserializeFrom ⟨data⟩) with
  | none => exact .of_eq hv
  | some nak =>
    rw [← hv]
    exact steps_foldl_recvSegment nak.segments s1

theorem steps_s2EofAck :
    Tx.Steps s.txView (s.s2EofAck mgr data).txView := by
  have hv := s.txView_assert .codec (!panics (AckPdu.deserializeFrom ⟨data⟩))
  simp only [s2EofAck]
  generalize s.assert .codec (!panics (AckPdu.deserializeFrom ⟨data⟩)) = s1 at hv
  cases decoded (AckPdu.deserializeFrom ⟨data⟩) with
  | none => exact .of_eq hv
  | some ack =>
    simp only
    split
    · split
      · exact steps_then_finish mgr true (.of_eq hv)
      · exact .of_eq hv
    · exact .of_eq hv

theorem steps_s2Recv :
    Tx.Steps s.txView (s.s2Recv mgr data).txView := by
  have hv := s.txView_assert .subState (s.txn.stateData.send.subState != .numStates)
  simp only [s2Recv, sDispatchRecv]
  generalize s.assert .subState (s.txn.stateData.send.subState != .numStates) = s1 at hv
  split
  · exact .of_eq hv
  · have hv2 := s1.txView_assert .codec (!panics (PduHeader.fromSerialBuffer ⟨data⟩))
    generalize s1.assert .codec (!panics (PduHeader.fromSerialBuffer ⟨data⟩)) = s2 at hv2
    rw [hv] at hv2
    rw [← hv2]
    cases (directiveOf data).bind (s2Table s.txn.stateData.send.subState) with
    | none => exact .refl
    | some f =>
      cases f with
      | earlyFin => exact s2.steps_s2EarlyFin mgr data
      | fin => exact s2.steps_s2Fin mgr data
      | nak => exact s2.steps_s2Nak data
      | nakArm => exact (s2.armAckTimer mgr).steps_s2Nak data
      | eofAck => exact s2.steps_s2EofAck mgr data

theorem txView_recvHold :
    (s.recvHold mgr data).txView = s.txView := by
  simp only [recvHold]
  split
  · have hv := s.txView_assert .codec (!panics (FinPdu.deserializeFrom ⟨data⟩))
    generalize s.assert .codec (!panics (FinPdu.deserializeFrom ⟨data⟩)) = s1 at hv
    cases decoded (FinPdu.deserializeFrom ⟨data⟩) with
    | none => exact hv
    | some fin => simp only [txView_sendAck, hv]
  · rfl

theorem steps_dispatchRecv_tx
    (hst : s.txn.state = .s2 ∨ s.txn.state = .hold) :
    Tx.Steps s.txView (s.dispatchRecv mgr data).txView := by
  rcases hst with hst | hst
  · rw [dispatchRecv, dispatchOnce, hst]
    exact s.steps_s2Recv mgr data
  · rw [dispatchRecv, dispatchOnce, hst]
    exact .of_eq (s.txView_recvHold mgr data)

theorem txView_sInactivity : s.sInactivity.txView = s.txView := by
  simp only [sInactivity]
  have hv := s.txView_runInactivityTimer
  generalize s.runInactivityTimer = s1 at hv
  split
  · split
    · split
      · exact (txView_setTxnStatus _ _).trans hv
      · exact hv
    · exact hv
  · rfl

theorem txView_sTickSend : (s.sTickSend mgr).1.txView = s.txView := by
  have heof : (s.sSendEof mgr).1.txView = s.txView := txView_sendEof mgr _
  have hack : (s.sSendFinAck mgr).1.txView = s.txView := txView_sendAck _ _ _ _ _ _ _
  simp only [sTickSend]
  split
  · split
    · exact heof
    · split <;> exact heof
  · split
    · split
      · exact hack
      · split <;> exact hack
    · rfl

theorem txView_countRetry (pendingSend : Bool) :
    (s.countRetry mgr pendingSend).1.txView = s.txView := by
  simp only [countRetry]
  split
  · split
    · rfl
    · exact txView_assert s _ _
  · rfl

theorem steps_sAckTimerExpired :
    Tx.Steps s.txView (s.sAckTimerExpired mgr).txView := by
  simp only [sAckTimerExpired]
  split
  · exact steps_then_finish mgr true (.of_eq (s.txView_setTxnStatus .ackLimitNoEof))
  · have hv := s.txView_assert .overflow (s.txn.stateData.send.s2.acknakCount != 255)
    split <;> exact .of_eq hv

theorem steps_sAckTimerTick :
    Tx.Steps s.txView (s.sAckTimerTick mgr).txView := by
  simp only [sAckTimerTick]
  split
  · exact .refl
  · split
    · exact .of_eq s.txView_runAckTimer
    · split
      · have hsteps := s.steps_sAckTimerExpired mgr
        generalize s.sAckTimerExpired mgr = s1 at hsteps
        split <;> exact hsteps
      · exact .refl

theorem steps_sTick :
    Tx.Steps s.txView (s.sTick mgr).txView ∨ ∃ s' : Session,
      s'.txView = s.txView ∧ s.sTick mgr = s'.recycleTransaction := by
  rw [sTick]
  have he := txView_countRetry mgr (s.sInactivity.sTickSend mgr).1 (s.sInactivity.sTickSend mgr).2
  rw [txView_sTickSend, txView_sInactivity] at he
  generalize Session.countRetry mgr (s.sInactivity.sTickSend mgr).1
    (s.sInactivity.sTickSend mgr).2 = e at he
  split
  · exact .inr ⟨e.1, he, rfl⟩
  · rw [← he]
    exact .inl (e.1.steps_sAckTimerTick mgr)

theorem steps_cancelTransaction_tx (hdir : s.hist.dir = .tx) :
    Tx.Steps s.txView (s.cancelTransaction mgr).txView := by
  rw [cancelTransaction]
  split
  · exact .refl
  · lift_lets
    intro s1
    have hv : s1.txView = s.txView := txView_setTxnStatus _ _
    have hdir1 : s1.hist.dir = .tx := (congrArg Tx.View.dir hv).trans hdir
    simp only [hdir1]
    exact .of_eq hv

end Session

end Fprime.Cfdp
