import Fprime.Cfdp.TransactionTx
import Fprime.Cfdp.Pdu.Codec

/-!
# The size of file-data PDUs

How many bytes a PDU may carry is worked out for a header with identifiers of one byte each. A PDU
whose identifiers take more can be larger than the largest PDU.
-/

namespace Fprime.Cfdp

open Fprime.Os Fprime.Fw List Nat

theorem Pdu.Encodes.serializeTo_ok {p : Pdu} (h : p.Encodes) :
    ∃ b, p.serializeTo (.empty p.getBufferSize) = .ok b := by
  have hlen : (p.wireHeader.encoded ++ p.body).length = p.getBufferSize := by
    rw [length_append, PduHeader.encoded_length, h.size]
    rfl
  rw [h.serialize]
  exact ⟨_, SerBuf.writeRaw_empty hlen.le⟩

theorem Channel.serializeAndSendPdu_ok {mgr : Mgr} {c : Channel} {pdu : Pdu} {b : SerBuf}
    (hbudget : c.outgoingCounter < (mgr.channel c.channelId).maxOutgoingPdusPerCycle.toNat)
    (halloc : mgr.allocOk c.world.allocs = true)
    (hencode : pdu.serializeTo (.empty pdu.getBufferSize) = .ok b) :
    (c.serializeAndSendPdu mgr pdu).2 = .success := by
  simp only [serializeAndSendPdu, getPduBuffer, if_neg (not_le.mpr hbudget), if_pos halloc,
    hencode]
  rfl

namespace Session

def fileDataSize (localEid peerEid seqNum : UInt32) (count : Nat) : Nat :=
  (PduHeader.initialized .fileData .towardReceiver .class2 localEid seqNum peerEid).getBufferSize +
    4 + count

theorem maxDataBytes_eq (mgr : Mgr) (bytesToRead : Nat) :
    maxDataBytes mgr bytesToRead = min (min bytesToRead mgr.outgoingFileChunkSize.toNat) 1013 :=
  rfl

theorem fdRead_length {mgr : Mgr} {s : Session} {count : Nat} {data : Bytes}
    (h : (s.fdRead mgr count).2 = some data) : data.length ≤ count := by
  rcases FileSystem.read_cases s.chan.world.fs (s.chan.world.nextOs mgr) s.txn.fd count with
    ⟨handle, -, -, heq⟩ | heq
  · have hdata : (s.fdRead mgr count).2 = some ((((s.chan.world.fs handle.path).getD []).drop
        handle.pos).take count) := congrArg Prod.snd heq
    rw [h, Option.some.injEq] at hdata
    rw [hdata]
    exact length_take_le _ _
  · have hnone : (s.fdRead mgr count).2 = none := congrArg Prod.snd heq
    rw [hnone] at h
    cases h

def fileDataPdu (mgr : Mgr) (s : Session) (foffs : UInt32) (data : Bytes) : FileDataPdu :=
  FileDataPdu.initialized .towardReceiver s.txn.txnClass mgr.localEid s.hist.seqNum s.hist.peerEid
    foffs (UInt16.ofNat data.length) (data ++ replicate (maxPduSize - data.length) 0)

theorem fileDataPdu_size {mgr : Mgr} {s : Session} {foffs : UInt32} {data : Bytes}
    (hdata : data.length < 2 ^ 16) : (fileDataPdu mgr s foffs data).getBufferSize =
      fileDataSize mgr.localEid s.hist.peerEid s.hist.seqNum data.length := by
  have hsize : (UInt16.ofNat data.length).toNat = data.length := by
    rw [UInt16.toNat_ofNat']
    exact mod_eq_of_lt hdata
  rw [FileDataPdu.getBufferSize, fileDataSize]
  exact congrArg _ hsize

def afterRead (mgr : Mgr) (s : Session) (count : Nat) (data : Bytes) : Session :=
  (s.fdRead mgr count).1.modSend
    fun d => { d with cachedPos := d.cachedPos + UInt32.ofNat data.length }

section

variable {mgr : Mgr} {s : Session} {foffs : UInt32} {bytesToRead : Nat} {calcCrc : Bool}

theorem sSendFileData_of_read {r : Session × Bool} {data : Bytes}
    (hseek : s.sSeek mgr foffs = r) (hok : r.2 = true)
    (hread : (r.1.fdRead mgr (maxDataBytes mgr bytesToRead)).2 = some data) :
    (s.sSendFileData mgr foffs bytesToRead calcCrc).1.chan.world.sent =
      ((r.1.afterRead mgr (maxDataBytes mgr bytesToRead) data).sendFd mgr (fileDataPdu mgr
        (r.1.afterRead mgr (maxDataBytes mgr bytesToRead) data) foffs data)).1.chan.world.sent := by
  rw [sSendFileData, hseek]
  dsimp only
  rw [if_neg (not_not.2 hok), hread]
  dsimp only
  rw [← afterRead]
  generalize r.1.afterRead mgr (maxDataBytes mgr bytesToRead) data = s'
  have hfold : FileDataPdu.initialized .towardReceiver s'.txn.txnClass mgr.localEid
      s'.hist.seqNum s'.hist.peerEid foffs (UInt16.ofNat data.length)
      (data ++ replicate (maxPduSize - data.length) 0) = fileDataPdu mgr s' foffs data := rfl
  rw [hfold]
  generalize s'.sendFd mgr (fileDataPdu mgr s' foffs data) = e
  by_cases hsucc : e.2 = .success
  · rw [if_pos hsucc]
    cases calcCrc <;> exact World.assert_sent _ _ _
  · rw [if_neg hsucc]

theorem sSeek_frame : (s.sSeek mgr foffs).1.chan.world.sent = s.chan.world.sent ∧
    (s.sSeek mgr foffs).1.hist = s.hist := by
  rw [sSeek]
  split <;> exact ⟨rfl, rfl⟩

theorem sSendFileData_sent :
    (s.sSendFileData mgr foffs bytesToRead calcCrc).1.chan.world.sent = s.chan.world.sent ∨
      ∃ data s', data.length ≤ maxDataBytes mgr bytesToRead ∧ s'.hist = s.hist ∧
        (s.sSendFileData mgr foffs bytesToRead calcCrc).1.chan.world.sent =
          .fileData (fileDataPdu mgr s' foffs data) :: s.chan.world.sent := by
  obtain ⟨hsent, hhist⟩ := @sSeek_frame mgr s foffs
  generalize hseek : s.sSeek mgr foffs = r at hsent hhist
  by_cases hok : r.2 = true
  · cases hread : (r.1.fdRead mgr (maxDataBytes mgr bytesToRead)).2 with
    | none =>
      rw [sSendFileData, hseek]
      dsimp only
      rw [if_neg (not_not.2 hok), hread]
      exact .inl hsent
    | some data =>
      have hlen := fdRead_length hread
      rw [sSendFileData_of_read hseek hok hread]
      have hsent' : (r.1.afterRead mgr (maxDataBytes mgr bytesToRead) data).chan.world.sent =
        s.chan.world.sent := hsent
      have hhist' : (r.1.afterRead mgr (maxDataBytes mgr bytesToRead) data).hist = s.hist := hhist
      generalize r.1.afterRead mgr (maxDataBytes mgr bytesToRead) data = s' at hsent' hhist'
      have hsends := (s'.send_sends mgr (.fileData (fileDataPdu mgr s' foffs data))).sent
      rw [hsent'] at hsends
      rw [sendFd, hsends]
      split
      · exact .inr ⟨data, s', hlen, hhist', rfl⟩
      · exact .inl rfl
  · rw [sSendFileData, hseek]
    dsimp only
    rw [if_pos hok]
    exact .inl hsent

end

section Reading

variable (localEid peerEid seqNum chunkSize foffs : UInt32)

def amplyNamed : Mgr :=
  { Mgr.ample with localEid := localEid, outgoingFileChunkSize := chunkSize }

def reading : Session where
  t := 0
  txn := { Transaction.new 0 with
    state := .s2
    fd := some ⟨[], .openRead, foffs.toNat⟩
    stateData := { StateData.default with
      send := { StateData.default.send with subState := .fileData, cachedPos := foffs } } }
  hist := { History.default with peerEid := peerEid, seqNum := seqNum }
  list := .new 1 zero_lt_one
  chan := { Channel.bare with world := { Channel.bare.world with
    fs := fun _ => some (replicate (foffs.toNat + maxPduSize) 0) } }

theorem reading_sends (bytesToRead : Nat) :
    ∃ fd, ((reading peerEid seqNum foffs).sSendFileData (amplyNamed localEid chunkSize) foffs
        bytesToRead false).1.chan.world.sent = [.fileData fd] ∧
      fd.getBufferSize = fileDataSize localEid peerEid seqNum
        (min (min bytesToRead chunkSize.toNat) 1013) := by
  have hcount : maxDataBytes (amplyNamed localEid chunkSize) bytesToRead =
    min (min bytesToRead chunkSize.toNat) 1013 := rfl
  generalize hn : min (min bytesToRead chunkSize.toNat) 1013 = count at hcount
  have hle : count ≤ 1013 := hn ▸ min_le_right _ _
  have hread : ((reading peerEid seqNum foffs).fdRead (amplyNamed localEid chunkSize) count).2 =
      some (replicate count 0) := by
    show some (((replicate (foffs.toNat + 1024) (0 : UInt8)).drop foffs.toNat).take count) = _
    rw [drop_replicate, take_replicate, Nat.add_sub_cancel_left,
      min_eq_left (by omega)]
  have hlen : (replicate count (0 : UInt8)).length = count := length_replicate
  have hsent := @sSendFileData_of_read (amplyNamed localEid chunkSize)
    (reading peerEid seqNum foffs) foffs bytesToRead false (reading peerEid seqNum foffs, true)
    (replicate count 0) (if_neg (not_not.2 rfl)) rfl (hcount ▸ hread)
  rw [hsent, hcount]
  generalize hs : (reading peerEid seqNum foffs).afterRead (amplyNamed localEid chunkSize) count
    (replicate count 0) = s
  have hchan : s.chan.outgoingCounter = 0 ∧ s.chan.world.sent = [] ∧ s.hist.peerEid = peerEid ∧
      s.hist.seqNum = seqNum := by
    rw [← hs]
    exact ⟨rfl, rfl, rfl, rfl⟩
  obtain ⟨hcounter, hnone, hpeer, hseq⟩ := hchan
  have hsize : (UInt16.ofNat (replicate count (0 : UInt8)).length).toNat = count := by
    rw [hlen, UInt16.toNat_ofNat']
    omega
  have hbuilt : (Pdu.fileData (fileDataPdu (amplyNamed localEid chunkSize) s foffs
      (replicate count 0))).Built := by
    refine .fileData _ _ _ _ _ _ _ _ ?_ ?_
    · rw [hsize, length_append, hlen]
      exact le_add_right _ _
    · rw [hsize]
      omega
  obtain ⟨b, hb⟩ := hbuilt.encodes.serializeTo_ok
  have hsucc : (s.send (amplyNamed localEid chunkSize) _).2 = .success :=
    Channel.serializeAndSendPdu_ok (by
      rw [hcounter]
      exact (by decide : 0 < (64 : UInt32).toNat)) rfl hb
  have hsends := (s.send_sends (amplyNamed localEid chunkSize) (.fileData
    (fileDataPdu (amplyNamed localEid chunkSize) s foffs (replicate count 0)))).sent
  rw [if_pos hsucc, hnone] at hsends
  refine ⟨_, hsends, ?_⟩
  rw [fileDataPdu_size (by rw [hlen]; omega), hpeer, hseq, hlen]
  rfl

end Reading

/-- File-data PDUs keep to the largest size if and only if the header and the bytes that the
limits allow do. -/
theorem file_data_fits_iff (localEid peerEid seqNum chunkSize foffs : UInt32)
    (bytesToRead : Nat) :
    (∀ (mgr : Mgr) (s : Session) (calcCrc : Bool) (fd : FileDataPdu),
      mgr.localEid = localEid → mgr.outgoingFileChunkSize = chunkSize →
      s.hist.peerEid = peerEid → s.hist.seqNum = seqNum →
      (s.sSendFileData mgr foffs bytesToRead calcCrc).1.chan.world.sent =
        .fileData fd :: s.chan.world.sent → fd.getBufferSize ≤ maxPduSize) ↔
    fileDataSize localEid peerEid seqNum (min (min bytesToRead chunkSize.toNat) 1013) ≤
      maxPduSize := by
  constructor
  · intro h
    obtain ⟨fd, hsent, hsize⟩ := reading_sends localEid peerEid seqNum chunkSize foffs bytesToRead
    rw [← hsize]
    exact h _ _ _ fd rfl rfl rfl rfl hsent
  · rintro h mgr s calcCrc fd rfl rfl rfl rfl hsent
    rcases @sSendFileData_sent mgr s foffs bytesToRead calcCrc with
      hnone | ⟨data, s', hlen, hhist, hone⟩
    · rw [hnone] at hsent
      exact absurd hsent.symm (cons_ne_self _ _)
    · rw [hone] at hsent
      obtain ⟨hfd, -⟩ := cons.inj hsent
      cases hfd
      rw [maxDataBytes_eq] at hlen
      rw [fileDataPdu_size (by omega), hhist]
      refine le_trans ?_ h
      exact Nat.add_le_add_left hlen _

/-- With identifiers of two bytes, a full PDU is two bytes too long. -/
theorem file_data_too_long :
    ∃ (mgr : Mgr) (s : Session) (fd : FileDataPdu), mgr.localEid = 300 ∧
      mgr.outgoingFileChunkSize = 2000 ∧
      (s.sSendFileData mgr 0 5000 false).1.chan.world.sent = [.fileData fd] ∧
      fd.getBufferSize = 1026 ∧ maxPduSize = 1024 := by
  obtain ⟨fd, hsent, hsize⟩ := reading_sends 300 7 1 2000 0 5000
  exact ⟨amplyNamed 300 2000, reading 7 1 0, fd, rfl, rfl, hsent, hsize, rfl⟩

end Session

end Fprime.Cfdp
