import Fprime.Svc.FileDownlink

/-!
# One transfer

The packets of a transfer as a function of the request and of the bytes read: each buffer that comes
back leads to the next packet or to the end.
-/

namespace Fprime.Svc.FileDownlink

open Fw Utils Lib.Bytes Lib.Runs List Nat UInt32 FilePacket

open Os (FileStatus)

def comPacket (packet : FilePacket) : Bytes :=
  encodeBE 2 Apid.fwPacketFile.asRepr.toNat ++ packet.encoded

theorem length_comPacket (packet : FilePacket) :
    (comPacket packet).length = packet.bufferSize + 2 := by
  rw [comPacket, length_append, encodeBE_length, length_encoded, add_comm]

theorem maxDataSize_eq : maxDataSize = 499 := rfl

theorem length_drop_lt {bytes : Bytes} (h : bytes ≠ []) :
    (bytes.drop maxDataSize).length < bytes.length := by
  have hpos := length_pos_iff.mpr h
  rw [length_drop, maxDataSize_eq]
  omega

/-- The data packets for some bytes: all of the largest size but the last. -/
def dataPackets (seq offset : UInt32) (bytes : Bytes) : List FilePacket :=
  if bytes = [] then []
  else
    .initializeData seq offset (UInt16.ofNat (min bytes.length maxDataSize))
        (bytes.take maxDataSize) ::
      dataPackets (seq + 1) (offset + ofNat (min bytes.length maxDataSize))
        (bytes.drop maxDataSize)
termination_by bytes.length
decreasing_by exact length_drop_lt (by assumption)

section DataPackets

variable {seq offset : UInt32} {bytes more : Bytes}

@[simp] theorem dataPackets_nil : dataPackets seq offset [] = [] := by
  rw [dataPackets, if_pos rfl]

theorem dataPackets_single (hne : bytes ≠ []) (hlen : bytes.length ≤ maxDataSize) :
    dataPackets seq offset bytes =
      [.initializeData seq offset (UInt16.ofNat bytes.length) bytes] := by
  rw [dataPackets, if_neg hne, drop_of_length_le hlen, dataPackets_nil,
    min_eq_left hlen, take_of_length_le hlen]

theorem dataPackets_append (h : maxDataSize ∣ bytes.length) :
    dataPackets seq offset (bytes ++ more) = dataPackets seq offset bytes ++
      dataPackets (seq + ofNat (dataPackets seq offset bytes).length)
        (offset + ofNat bytes.length) more := by
  fun_induction dataPackets seq offset bytes with
  | case1 seq offset => simp
  | case2 seq offset bytes hne ih =>
    have hpos := length_pos_iff.mpr hne
    have hmax : maxDataSize ≤ bytes.length := le_of_dvd hpos h
    have hmin : min (bytes ++ more).length maxDataSize = maxDataSize := by
      rw [length_append]
      omega
    have hrest : maxDataSize ∣ (bytes.drop maxDataSize).length := by
      rw [length_drop]
      exact Nat.dvd_sub h (Nat.dvd_refl _)
    have hoffset : offset + ofNat maxDataSize +
        ofNat (bytes.drop maxDataSize).length = offset + ofNat bytes.length := by
      rw [UInt32.add_assoc, ← UInt32.ofNat_add, length_drop, Nat.add_sub_cancel' hmax]
    rw [min_eq_right hmax] at ih ⊢
    rw [dataPackets, if_neg (by simp [hne]), hmin, take_append_of_le_length hmax,
      drop_append_of_le_length hmax, ih hrest, hoffset, cons_append, length_cons,
      UInt32.ofNat_add, UInt32.add_comm (UInt32.ofNat _) (UInt32.ofNat 1), ← UInt32.add_assoc]
    rfl

end DataPackets

def startPacket (entry : FileEntry) (size : UInt32) : FilePacket :=
  .initializeStart size (FwString.setBytes logStringMaxSize entry.srcFilename.bytes).bytes
    (FwString.setBytes logStringMaxSize entry.destFilename.bytes).bytes

def body (entry : FileEntry) (size : UInt32) (data : Bytes) : List FilePacket :=
  startPacket entry size :: dataPackets 1 entry.offset data

def nextIndex (entry : FileEntry) (data : Bytes) : UInt32 :=
  1 + ofNat (dataPackets 1 entry.offset data).length

def checksumOf (entry : FileEntry) (data : Bytes) : Checksum :=
  Checksum.new.update data entry.offset.toNat

def transfer (entry : FileEntry) (size : UInt32) (data : Bytes) : List FilePacket :=
  body entry size data ++ [.end_ (nextIndex entry data) (checksumOf entry data).value]

def rangeEnd (entry : FileEntry) (size : UInt32) : Nat :=
  if entry.length = 0 then size.toNat else min (entry.offset.toNat + entry.length.toNat) size.toNat

/-- How many buffers have to come back before the answer, by the bytes left and the last packet. -/
def stepsLeft (entry : FileEntry) (size : UInt32) (data : Bytes) (last : FilePacketType) : Nat :=
  rangeEnd entry size - (entry.offset.toNat + data.length) +
    if last = .start ∨ last = .data then 2 else 1

theorem rangeEnd_le (entry : FileEntry) (size : UInt32) : rangeEnd entry size ≤ size.toNat := by
  unfold rangeEnd
  split
  · exact le_refl _
  · exact min_le_right _ _

variable {entry : FileEntry} {size : UInt32} {data : Bytes}

theorem rangeEnd_of_ne (h : entry.length.toNat ≠ 0) :
    rangeEnd entry size = min (entry.offset.toNat + entry.length.toNat) size.toNat :=
  if_neg (fun hzero => h (by rw [hzero]; rfl))

theorem body_append {more : Bytes} (h : maxDataSize ∣ data.length) :
    body entry size (data ++ more) = body entry size data ++
      dataPackets (nextIndex entry data) (entry.offset + ofNat data.length) more := by
  rw [body, dataPackets_append h]
  rfl

theorem body_append_chunk {chunk : Bytes} (h : maxDataSize ∣ data.length) (hne : chunk ≠ [])
    (hlen : chunk.length ≤ maxDataSize) :
    body entry size (data ++ chunk) = body entry size data ++
      [.initializeData (nextIndex entry data) (entry.offset + ofNat data.length)
        (UInt16.ofNat chunk.length) chunk] := by
  rw [body_append h, dataPackets_single hne hlen]

theorem nextIndex_append_chunk {chunk : Bytes} (h : maxDataSize ∣ data.length)
    (hne : chunk ≠ []) (hlen : chunk.length ≤ maxDataSize) :
    nextIndex entry (data ++ chunk) = nextIndex entry data + 1 := by
  rw [nextIndex, dataPackets_append h, dataPackets_single hne hlen, length_append,
    length_singleton, UInt32.ofNat_add, ← UInt32.add_assoc]
  rfl

theorem checksumOf_append (entry : FileEntry) (data chunk : Bytes) :
    checksumOf entry (data ++ chunk) =
      (checksumOf entry data).update chunk (entry.offset.toNat + data.length) :=
  (Checksum.update_append _ _).symm

def sends (outs : List Out) : List Buffer :=
  outs.filterMap fun
    | .bufferSendOut buffer => some buffer
    | _ => none

def responses (outs : List Out) : List Out :=
  outs.filter fun
    | .cmdResponse .. | .fileComplete _ => true
    | _ => false

variable (s : FileDownlink)

def Stocked : Prop :=
  ∀ storage ∈ s.freeStorage, storage = internalBufferSize

theorem stocked_pushStorage {s : FileDownlink} (h : Stocked s) (storage : Nat) :
    Stocked (s.pushStorage storage) := by
  unfold pushStorage
  split
  · next hsize =>
    intro x hx
    rcases mem_append.mp hx with hx | hx
    · exact h x hx
    · rw [mem_singleton.mp hx, hsize.1]
  · exact h

theorem pushStorage_eq (storage : Nat) :
    s.pushStorage storage = { s with freeStorage := (s.pushStorage storage).freeStorage } := by
  unfold pushStorage
  split <;> rfl

theorem sendFilePacket_eq {s : FileDownlink} (h : Stocked s) {packet : FilePacket}
    (hsize : packet.bufferSize + 2 ≤ internalBufferSize) (context : UInt32) :
    ∃ free, (∀ storage ∈ free, storage = internalBufferSize) ∧
      s.sendFilePacket packet context = .ok ({ s with freeStorage := free },
        [.bufferSendOut ⟨internalBufferSize, context, comPacket packet⟩]) := by
  have hser : ((SerBuf.empty internalBufferSize).serializeU16 Apid.fwPacketFile.asRepr >>=
      packet.serializeTo) = (SerBuf.empty internalBufferSize).writeRaw (comPacket packet) := by
    rw [funext (serializeTo_eq_writeRaw packet)]
    exact SerBuf.writeRaw_bind_writeRaw _ _ _
  have hfits : (comPacket packet).length ≤ internalBufferSize := by
    rw [length_comPacket]
    exact hsize
  have htake : (comPacket packet).take (packet.bufferSize + 2) = comPacket packet :=
    take_of_length_le (length_comPacket packet).le
  have hpop : ∃ free, (∀ storage ∈ free, storage = internalBufferSize) ∧
      s.popStorage = (internalBufferSize, { s with freeStorage := free }) := by
    rw [popStorage]
    cases hlast : s.freeStorage.getLast? with
    | none => exact ⟨s.freeStorage, h, rfl⟩
    | some storage =>
      refine ⟨s.freeStorage.dropLast, fun x hx => h x (dropLast_subset _ hx), ?_⟩
      rw [← h storage (mem_of_getLast? hlast)]
  obtain ⟨free, hfree, hpop⟩ := hpop
  refine ⟨free, hfree, ?_⟩
  simp only [sendFilePacket, hpop, hser, SerBuf.writeRaw_empty hfits, htake]
  exact if_neg (not_lt.mpr hsize)

theorem bufferSize_startPacket (file : DownlinkFile) :
    (initializeStart file.size file.sourceName.bytes file.destName.bytes).bufferSize
      + 2 ≤ internalBufferSize := by
  have hsource := file.sourceName.fits
  have hdest := file.destName.fits
  simp only [initializeStart, bufferSize, truncatePath, length_take,
    filePacketHeaderSize, internalBufferSize, logStringMaxSize] at hsource hdest ⊢
  omega

theorem bufferSize_data {seq offset : UInt32} {size : UInt16} (h : data.length ≤ maxDataSize) :
    (initializeData seq offset size data).bufferSize + 2 ≤ internalBufferSize := by
  simp only [initializeData, bufferSize, length_take,
    dataPacketHeaderSize, filePacketHeaderSize, internalBufferSize, maxDataSize_eq] at h ⊢
  omega

/-- How far a transfer has come, by the type of the last packet. -/
inductive Stage (entry : FileEntry) (size stop : UInt32) (data : Bytes) :
    FilePacketType → List FilePacket → Prop
  | more : entry.offset.toNat + data.length < stop.toNat → maxDataSize ∣ data.length →
      Stage entry size stop data .start (body entry size data)
  | last : entry.offset.toNat + data.length = stop.toNat →
      Stage entry size stop data .data (body entry size data)
  | ended : entry.offset.toNat + data.length = stop.toNat →
      Stage entry size stop data .end_ (transfer entry size data)
  | cancelled : entry.offset.toNat + data.length < stop.toNat → maxDataSize ∣ data.length →
      Stage entry size stop data .cancel
        (body entry size data ++ [.cancel (nextIndex entry data)])

/-- The packets have been sent for the request, with the bytes read for them, and the last buffer is
out. -/
structure Sending (s : FileDownlink) (entry : FileEntry) (data : Bytes)
    (packets : List FilePacket) : Prop where
  mode : s.mode = .wait ∨ s.mode = .cancel
  request : s.curEntry = entry
  isOpen : s.file.isOpen = true
  range : s.endOffset.toNat = rangeEnd entry s.file.size
  offset : s.byteOffset = entry.offset + ofNat data.length
  index : s.sequenceIndex = nextIndex entry data
  checksum : s.file.checksum = checksumOf entry data
  context : s.lastCompletedType ≠ .cancel → s.curContext + 1 = s.lastBufferId
  stage : Stage entry s.file.size s.endOffset data s.lastCompletedType packets

structure Resting (s : FileDownlink) : Prop where
  mode : s.mode = .idle ∨ s.mode = .cooldown
  closed : s.file.isOpen = false

def timing : UInt32 × UInt32 := (s.cooldown, s.cycleTime)

/-- The result of a handler that sends one more packet, of a type and for a file of a size, and
waits for its buffer. -/
def Advances (entry : FileEntry) (data : Bytes)
    (packets : List FilePacket) (last : FilePacketType) (size : UInt32)
    (result : Result) : Prop :=
  ∃ s' outs packet context, result = .ok (s', outs) ∧
    sends outs = [⟨internalBufferSize, context, comPacket packet⟩] ∧ responses outs = [] ∧
    context + 1 = s'.lastBufferId ∧ Sending s' entry data (packets ++ [packet]) ∧
    s'.mode = .wait ∧ s'.lastCompletedType = last ∧ s'.file.size = size ∧ Stocked s' ∧
    s'.fileQueue = s.fileQueue ∧ s'.timing = s.timing

def Concludes (entry : FileEntry)
    (result : Result) : Prop :=
  ∃ s' outs status, result = .ok (s', outs) ∧ sends outs = [] ∧
    responses outs = [entry.completion status] ∧ Resting s' ∧ Stocked s' ∧
    s'.fileQueue = s.fileQueue ∧ s'.timing = s.timing ∧ (s'.mode = .cooldown → s'.curTimer = 0)

theorem responses_completion (entry : FileEntry) (status : SendFileStatus) :
    responses [entry.completion status] = [entry.completion status] := by
  rw [FileEntry.completion]
  split <;> rfl

theorem sends_completion (entry : FileEntry) (status : SendFileStatus) :
    sends [entry.completion status] = [] := by
  rw [FileEntry.completion]
  split <;> rfl

section Steps

variable {s : FileDownlink} {entry : FileEntry} {data : Bytes} {packets : List FilePacket}
  {disk : Disk} {buffer : Buffer}

theorem Sending.cancel (h : Sending s entry data packets) :
    Sending { s with mode := .cancel } entry data packets :=
  ⟨.inr rfl, h.request, h.isOpen, h.range, h.offset, h.index, h.checksum, h.context, h.stage⟩

variable {file : DownlinkFile} {chunk : Bytes} {status : FileStatus}

theorem read_eq_ok {file' : DownlinkFile} {count : Nat} {byteOffset : UInt32}
    (h : file.read disk count byteOffset = .ok (file', chunk)) :
    chunk.length = count ∧ disk.read byteOffset.toNat count = (.opOk, chunk) ∧
      file' = { file with checksum := file.checksum.update chunk byteOffset.toNat } := by
  unfold DownlinkFile.read at h
  split_ifs at h
  dsimp only at h
  split_ifs at h with hstatus hlen
  simp only [ne_eq, Decidable.not_not] at hstatus hlen
  cases h
  exact ⟨hlen, Prod.ext hstatus rfl, rfl⟩

theorem read_eq_error {count : Nat} {byteOffset : UInt32}
    (h : file.read disk count byteOffset = .error status) :
    status ≠ .opOk := by
  unfold DownlinkFile.read at h
  split_ifs at h with hopen hseek
  · cases h
    decide
  · cases h
    exact hseek
  · dsimp only at h
    split_ifs at h with hstatus hlen
    · cases h
      exact hstatus
    · cases h
      decide

theorem concludes_event {s' answered : FileDownlink} {event : Event} {status : SendFileStatus}
    (hrequest : answered.curEntry = entry) (hrest : Resting s') (hstock : Stocked s')
    (hqueue : s'.fileQueue = s.fileQueue) (htiming : s'.timing = s.timing)
    (htimer : s'.mode = .cooldown → s'.curTimer = 0) :
    Concludes s entry (.ok (s', .event event :: answered.sendResponse status)) := by
  refine ⟨s', _, status, rfl, sends_completion _ _, ?_, hrest, hstock, hqueue, htiming, htimer⟩
  rw [← hrequest]
  exact responses_completion _ _

theorem concludes_finishHelper (hstock : Stocked s) (hrequest : s.curEntry = entry)
    (cancel : Bool) : Concludes s entry (.ok (s.finishHelper cancel)) :=
  concludes_event hrequest ⟨.inr rfl, rfl⟩ hstock rfl rfl fun _ => rfl

theorem Sending.bufferReturnHandler_eq (h : Sending s entry data packets)
    (hbuffer : buffer.context + 1 = s.lastBufferId) (disk : Disk) :
    ∃ free, (Stocked s → ∀ storage ∈ free, storage = internalBufferSize) ∧
      s.bufferReturnHandler disk buffer =
        (if s.lastCompletedType = .end_ ∨ s.lastCompletedType = .cancel then
          .ok ({ s with freeStorage := free }.finishHelper
            (decide (s.lastCompletedType = FilePacketType.cancel)))
        else if s.mode = .wait then
          { s with freeStorage := free, mode := .downlink }.downlinkPacket disk
        else { s with freeStorage := free }.downlinkPacket disk) := by
  refine ⟨(s.pushStorage buffer.storage).freeStorage,
    fun hstock => stocked_pushStorage hstock _, ?_⟩
  have hstale : ¬(s.lastBufferId ≠ buffer.context + 1 ∨ s.mode = .idle) := by
    rcases h.mode with hm | hm <;> simp [hm, hbuffer]
  have hmode : ¬(s.mode ≠ .wait ∧ s.mode ≠ .cancel) := by
    rcases h.mode with hm | hm <;> simp [hm]
  rw [bufferReturnHandler, pushStorage_eq]
  dsimp only
  rw [if_neg hstale, if_neg hmode]

theorem Sending.toNat_byteOffset (h : Sending s entry data packets)
    (hle : entry.offset.toNat + data.length ≤ s.endOffset.toNat) :
    s.byteOffset.toNat = entry.offset.toNat + data.length := by
  have hlt := s.endOffset.toNat_lt
  rw [h.offset, UInt32.toNat_add, UInt32.toNat_ofNat', add_mod_mod, mod_eq_of_lt (by omega)]

theorem Sending.stepsLeft_eq (h : Sending s entry data packets) :
    stepsLeft entry s.file.size data s.lastCompletedType =
      s.endOffset.toNat - s.byteOffset.toNat +
        if s.lastCompletedType = .start ∨ s.lastCompletedType = .data then 2 else 1 := by
  have hle : entry.offset.toNat + data.length ≤ s.endOffset.toNat := by
    have hstage := h.stage
    generalize s.lastCompletedType = last at hstage
    cases hstage with
    | more hlt | cancelled hlt => exact le_of_lt hlt
    | last hall | ended hall => exact hall.le
  rw [stepsLeft, ← h.range, h.toNat_byteOffset hle]

def chunkSize (s : FileDownlink) : Nat :=
  min (s.endOffset.toNat - s.byteOffset.toNat) maxDataSize

def typeMarked (s : FileDownlink) : FilePacketType :=
  if ofNat s.chunkSize + s.byteOffset = s.endOffset then .data else s.lastCompletedType

theorem markLast_eq (s : FileDownlink) :
    s.markLast s.chunkSize = { s with lastCompletedType := s.typeMarked } := by
  unfold markLast typeMarked
  split <;> rfl

theorem sendDataPacket_eq (hlt : s.byteOffset.toNat < s.endOffset.toNat) :
    s.sendDataPacket disk =
      match s.file.read disk s.chunkSize s.byteOffset with
      | .error status => .ok (status, { s with lastCompletedType := s.typeMarked },
          [.event (.fileReadError s.file.sourceName status)])
      | .ok (file, chunk) => do
        let (s', outs) ← { s with
          lastCompletedType := s.typeMarked
          file := file
          sequenceIndex := s.sequenceIndex + 1 }.sendFilePacket (.initializeData s.sequenceIndex
            s.byteOffset (UInt16.ofNat s.chunkSize) chunk) s.curContext
        return (.opOk, { s' with byteOffset := s'.byteOffset + ofNat s.chunkSize },
          outs) := by
  have hle : s.byteOffset ≤ s.endOffset := le_iff_toNat_le.mpr (le_of_lt hlt)
  have hsize : min (s.endOffset - s.byteOffset).toNat maxDataSize = s.chunkSize := by
    rw [UInt32.toNat_sub_of_le _ _ hle]
    rfl
  have hopen : ¬s.endOffset ≤ s.byteOffset := by
    rw [le_iff_toNat_le]
    omega
  rw [sendDataPacket, if_neg hopen, hsize]
  dsimp only
  have hmarked := markLast_eq s
  generalize s.markLast s.chunkSize = marked at hmarked
  subst hmarked
  rfl

theorem sendDataPacket_ok (hstock : Stocked s) (hlt : s.byteOffset.toNat < s.endOffset.toNat)
    (hread : s.file.read disk s.chunkSize s.byteOffset = .ok (file, chunk)) :
    ∃ free, (∀ storage ∈ free, storage = internalBufferSize) ∧
      s.sendDataPacket disk = .ok (.opOk, { s with
          lastCompletedType := s.typeMarked
          file := file
          sequenceIndex := s.sequenceIndex + 1
          byteOffset := s.byteOffset + ofNat s.chunkSize
          freeStorage := free },
        [.bufferSendOut ⟨internalBufferSize, s.curContext, comPacket (.initializeData
          s.sequenceIndex s.byteOffset (UInt16.ofNat s.chunkSize) chunk)⟩]) := by
  have hlen : chunk.length ≤ maxDataSize := by
    rw [(read_eq_ok hread).1]
    exact min_le_right _ _
  obtain ⟨free, hfree, hsend⟩ := @sendFilePacket_eq
    { s with
      lastCompletedType := s.typeMarked
      file := file
      sequenceIndex := s.sequenceIndex + 1 } hstock _ (bufferSize_data hlen) s.curContext
  refine ⟨free, hfree, ?_⟩
  rw [sendDataPacket_eq hlt, hread]
  dsimp only
  rw [hsend]
  rfl

theorem sendDataPacket_error (hlt : s.byteOffset.toNat < s.endOffset.toNat)
    (hread : s.file.read disk s.chunkSize s.byteOffset = .error status) :
    s.sendDataPacket disk = .ok (status, { s with lastCompletedType := s.typeMarked },
      [.event (.fileReadError s.file.sourceName status)]) := by
  rw [sendDataPacket_eq hlt, hread]

theorem downlinkPacket_cancel (hmode : s.mode = .cancel) (htype : s.lastCompletedType = .start) :
    s.downlinkPacket disk = (do
      let (s, outs) ← s.sendCancelPacket
      return ({ s with lastCompletedType := .cancel }.waitForReturn, outs)) := by
  rw [downlinkPacket, if_neg (by simp [htype]), if_neg (by simp [hmode]), if_pos ⟨hmode, htype⟩]

theorem downlinkPacket_data (hmode : s.mode = .downlink) (htype : s.lastCompletedType = .start) :
    s.downlinkPacket disk = (do
      let (status, s, outs) ← s.sendDataPacket disk
      if status ≠ .opOk then
        return (s.enterCooldown,
          outs ++ [.event (.sendDataFail s.file.sourceName s.byteOffset)] ++
            s.sendResponse (failureStatus .statusError))
      else return (s.waitForReturn, outs)) := by
  rw [downlinkPacket, if_neg (by simp [htype]), if_neg (by simp [hmode]), if_neg (by simp [hmode]),
    if_pos ⟨hmode, htype⟩]

theorem downlinkPacket_end (hmode : s.mode = .cancel ∨ s.mode = .downlink)
    (htype : s.lastCompletedType = .data) :
    s.downlinkPacket disk = (do
      let (s, outs) ← s.sendEndPacket
      return ({ s with lastCompletedType := .end_ }.waitForReturn, outs)) := by
  rw [downlinkPacket, if_neg (by simp [htype]), if_neg (by rcases hmode with h | h <;> simp [h]),
    if_neg (by simp [htype]), if_neg (by simp [htype]), if_pos htype]

section

variable (h : Sending s entry data packets)

include h

theorem Sending.more (htype : s.lastCompletedType = .start) :
    entry.offset.toNat + data.length < s.endOffset.toNat ∧ maxDataSize ∣ data.length ∧
      packets = body entry s.file.size data ∧
      s.byteOffset.toNat = entry.offset.toNat + data.length := by
  have hstage := h.stage
  rw [htype] at hstage
  cases hstage with
  | more hleft hfull => exact ⟨hleft, hfull, rfl, h.toNat_byteOffset (le_of_lt hleft)⟩

theorem Sending.stage_chunk
    (htype : s.lastCompletedType = .start) (hlen : chunk.length = s.chunkSize) :
    Stage entry s.file.size s.endOffset (data ++ chunk) s.typeMarked
      (packets ++ [.initializeData s.sequenceIndex s.byteOffset (UInt16.ofNat s.chunkSize)
        chunk]) := by
  obtain ⟨hleft, hfull, hpackets, hoffset⟩ := h.more htype
  have hmax := maxDataSize_eq
  have hend := s.endOffset.toNat_lt
  have hsize : s.chunkSize = min (s.endOffset.toNat - s.byteOffset.toNat) maxDataSize := rfl
  have hne : chunk ≠ [] := ne_nil_of_length_pos (by omega)
  rw [hpackets, h.index, h.offset, ← hlen, ← body_append_chunk hfull hne (by omega)]
  have hlast : ofNat s.chunkSize + s.byteOffset = s.endOffset ↔
      s.chunkSize + s.byteOffset.toNat = s.endOffset.toNat := by
    rw [← UInt32.toNat_inj, UInt32.toNat_add, UInt32.toNat_ofNat', mod_add_mod,
      mod_eq_of_lt (by omega)]
  by_cases hdone : s.chunkSize + s.byteOffset.toNat = s.endOffset.toNat
  · rw [typeMarked, if_pos (hlast.mpr hdone)]
    exact .last (by rw [length_append]; omega)
  · rw [typeMarked, if_neg (fun h => hdone (hlast.mp h)), htype]
    refine .more (by rw [length_append]; omega) ?_
    rw [length_append, hlen, show s.chunkSize = maxDataSize by omega]
    exact Nat.dvd_add hfull (Nat.dvd_refl _)

theorem Sending.data_sent
    (hbuffer : buffer.context + 1 = s.lastBufferId) (hstock : Stocked s) (hmode : s.mode = .wait)
    (htype : s.lastCompletedType = .start)
    (hread : s.file.read disk s.chunkSize s.byteOffset = .ok (file, chunk)) :
    Advances s entry (data ++ chunk) packets s.typeMarked s.file.size
      (s.bufferReturnHandler disk buffer) := by
  obtain ⟨hleft, hfull, -, hoffset⟩ := h.more htype
  obtain ⟨hlen, -, rfl⟩ := read_eq_ok hread
  have hmax := maxDataSize_eq
  have hsize : s.chunkSize = min (s.endOffset.toNat - s.byteOffset.toNat) maxDataSize := rfl
  have hne : chunk ≠ [] := ne_nil_of_length_pos (by omega)
  obtain ⟨free, hfree, heq⟩ := h.bufferReturnHandler_eq hbuffer disk
  obtain ⟨free', hfree', hdata⟩ := sendDataPacket_ok
    (s := { s with freeStorage := free, mode := .downlink }) (hfree hstock)
    (by dsimp only; omega) hread
  rw [heq, if_neg (by simp [htype]), if_pos hmode,
    downlinkPacket_data (s := { s with freeStorage := free, mode := .downlink }) rfl htype, hdata]
  refine ⟨_, _, _, s.curContext, rfl, rfl, rfl, h.context (by simp [htype]), ?_, rfl, rfl, rfl,
    hfree', rfl, rfl⟩
  have hplace : s.byteOffset + ofNat s.chunkSize =
      entry.offset + ofNat (data ++ chunk).length := by
    rw [h.offset, ← hlen, length_append, UInt32.ofNat_add, UInt32.add_assoc]
  have hindex : s.sequenceIndex + 1 = nextIndex entry (data ++ chunk) := by
    rw [h.index, nextIndex_append_chunk hfull hne (by omega)]
  have hsum : s.file.checksum.update chunk s.byteOffset.toNat =
      checksumOf entry (data ++ chunk) := by
    rw [checksumOf_append, ← hoffset, h.checksum]
  exact ⟨.inl rfl, h.request, h.isOpen, h.range, hplace, hindex, hsum,
    fun _ => h.context (by simp [htype]), h.stage_chunk htype hlen⟩

theorem Sending.data_failed
    (hbuffer : buffer.context + 1 = s.lastBufferId) (hstock : Stocked s) (hmode : s.mode = .wait)
    (htype : s.lastCompletedType = .start)
    (hread : s.file.read disk s.chunkSize s.byteOffset = .error status) :
    Concludes s entry (s.bufferReturnHandler disk buffer) := by
  obtain ⟨hleft, -, -, hoffset⟩ := h.more htype
  obtain ⟨free, hfree, heq⟩ := h.bufferReturnHandler_eq hbuffer disk
  have hdata := sendDataPacket_error (s := { s with freeStorage := free, mode := .downlink })
    (by dsimp only; omega) hread
  rw [heq, if_neg (by simp [htype]), if_pos hmode,
    downlinkPacket_data (s := { s with freeStorage := free, mode := .downlink }) rfl htype, hdata]
  refine ⟨_, _, failureStatus .statusError, if_pos (read_eq_error hread), ?_, ?_, ⟨.inr rfl, rfl⟩,
    hfree hstock, rfl, rfl, fun _ => rfl⟩
  · exact sends_completion _ _
  · rw [← h.request]
    exact responses_completion _ _

theorem Sending.cancel_sent
    (hbuffer : buffer.context + 1 = s.lastBufferId) (hstock : Stocked s) (hmode : s.mode = .cancel)
    (htype : s.lastCompletedType = .start) :
    Advances s entry data packets .cancel s.file.size (s.bufferReturnHandler disk buffer) := by
  obtain ⟨free, hfree, heq⟩ := h.bufferReturnHandler_eq hbuffer disk
  rw [heq, if_neg (by simp [htype]), if_neg (by simp [hmode]),
    downlinkPacket_cancel (s := { s with freeStorage := free }) hmode htype]
  obtain ⟨free', hfree', hsend⟩ := @sendFilePacket_eq
    { s with freeStorage := free, lastBufferId := s.lastBufferId + 1 } (hfree hstock)
    (.cancel s.sequenceIndex) (le_of_ble_eq_true rfl) s.lastBufferId
  rw [sendCancelPacket, hsend]
  refine ⟨_, _, .cancel s.sequenceIndex, s.lastBufferId, rfl, rfl, rfl, rfl, ?_, rfl, rfl,
    rfl, hfree', rfl, rfl⟩
  have hstage := h.stage
  rw [htype] at hstage
  cases hstage with
  | more hleft hfull =>
    refine ⟨.inl rfl, h.request, h.isOpen, h.range, h.offset, h.index, h.checksum,
      fun hne => absurd rfl hne, ?_⟩
    rw [h.index]
    exact .cancelled hleft hfull

theorem Sending.end_sent
    (hbuffer : buffer.context + 1 = s.lastBufferId) (hstock : Stocked s)
    (htype : s.lastCompletedType = .data) :
    Advances s entry data packets .end_ s.file.size (s.bufferReturnHandler disk buffer) := by
  obtain ⟨free, hfree, heq⟩ := h.bufferReturnHandler_eq hbuffer disk
  have hbranch : ∃ mode, (mode = .cancel ∨ mode = .downlink) ∧ s.bufferReturnHandler disk buffer =
      { s with freeStorage := free, mode := mode }.downlinkPacket disk := by
    rw [heq, if_neg (by simp [htype])]
    split
    · exact ⟨.downlink, .inr rfl, rfl⟩
    · next hwait => exact ⟨s.mode, .inl (h.mode.resolve_left hwait), rfl⟩
  obtain ⟨mode, hmode, heq⟩ := hbranch
  rw [heq, downlinkPacket_end (s := { s with freeStorage := free, mode := mode }) hmode htype]
  obtain ⟨free', hfree', hsend⟩ := @sendFilePacket_eq
    { s with freeStorage := free, mode := mode } (hfree hstock)
    (.end_ s.sequenceIndex s.file.checksum.value) (le_of_ble_eq_true rfl) s.curContext
  rw [sendEndPacket, hsend]
  refine ⟨_, _, .end_ s.sequenceIndex s.file.checksum.value, s.curContext, rfl, rfl, rfl,
    h.context (by simp [htype]), ?_, rfl, rfl, rfl, hfree', rfl, rfl⟩
  have hstage := h.stage
  rw [htype] at hstage
  cases hstage with
  | last hall =>
    refine ⟨.inl rfl, h.request, h.isOpen, h.range, h.offset, h.index, h.checksum,
      fun _ => h.context (by simp [htype]), ?_⟩
    rw [h.index, h.checksum]
    exact .ended hall

theorem Sending.finished
    (hbuffer : buffer.context + 1 = s.lastBufferId) (hstock : Stocked s)
    (htype : s.lastCompletedType = .end_ ∨ s.lastCompletedType = .cancel) :
    Concludes s entry (s.bufferReturnHandler disk buffer) := by
  obtain ⟨free, hfree, heq⟩ := h.bufferReturnHandler_eq hbuffer disk
  rw [heq, if_pos htype]
  exact concludes_finishHelper (s := { s with freeStorage := free }) (hfree hstock) h.request _

theorem Sending.stepsLeft_chunk (htype : s.lastCompletedType = .start)
    (hlen : chunk.length = s.chunkSize) :
    stepsLeft entry s.file.size (data ++ chunk) s.typeMarked <
      stepsLeft entry s.file.size data .start := by
  obtain ⟨hleft, -, -, hoffset⟩ := h.more htype
  have hmax := maxDataSize_eq
  have hsize : s.chunkSize = min (s.endOffset.toNat - s.byteOffset.toNat) maxDataSize := rfl
  have hmarked : s.typeMarked = .start ∨ s.typeMarked = .data := by
    rw [typeMarked, htype]
    split <;> simp
  rw [stepsLeft, stepsLeft, if_pos hmarked, if_pos (.inl rfl), ← h.range, length_append]
  omega

theorem Sending.bufferReturn
    (hbuffer : buffer.context + 1 = s.lastBufferId) (hstock : Stocked s) (disk : Disk) :
    (∃ data' last size,
        Advances s entry data' packets last size (s.bufferReturnHandler disk buffer) ∧
        stepsLeft entry size data' last < stepsLeft entry s.file.size data s.lastCompletedType) ∨
      Concludes s entry (s.bufferReturnHandler disk buffer) := by
  cases htype : s.lastCompletedType with
  | start =>
    rcases h.mode with hmode | hmode
    · cases hread : s.file.read disk s.chunkSize s.byteOffset with
      | ok r => exact .inl ⟨_, _, _, h.data_sent hbuffer hstock hmode htype hread,
          h.stepsLeft_chunk htype (read_eq_ok hread).1⟩
      | error status => exact .inr (h.data_failed hbuffer hstock hmode htype hread)
    · exact .inl ⟨data, _, _, h.cancel_sent hbuffer hstock hmode htype, by simp [stepsLeft]⟩
  | data => exact .inl ⟨data, _, _, h.end_sent hbuffer hstock htype, by simp [stepsLeft]⟩
  | end_ => exact .inr (h.finished hbuffer hstock (.inl htype))
  | cancel => exact .inr (h.finished hbuffer hstock (.inr htype))
  | none =>
    have hstage := h.stage
    rw [htype] at hstage
    cases hstage

end

theorem open_cases {file' : DownlinkFile} {source dest : FileNameString}
    (hclosed : file.isOpen = false) (h : file.open_ disk source dest = (status, file')) :
    (status = .opOk → file'.isOpen = true ∧ file'.checksum = .new ∧
        file'.sourceName = .setBytes _ source.bytes ∧ file'.destName = .setBytes _ dest.bytes ∧
        file'.size.toNat = disk.size.2.toNat) ∧
      (status ≠ .opOk → file'.isOpen = false) := by
  unfold DownlinkFile.open_ at h
  dsimp only at h
  split_ifs at h with htext hstatus hsize hlarge <;> cases h
  · exact ⟨fun h => absurd h hstatus, fun _ => hclosed⟩
  · exact ⟨fun h => absurd h (by decide), fun _ => rfl⟩
  · exact ⟨fun h => absurd h (by decide), fun _ => rfl⟩
  · have hsize : (ofNat disk.size.2.toNat).toNat = disk.size.2.toNat := by
      rw [toNat_ofNat', mod_eq_of_lt (by omega)]
    exact ⟨fun _ => ⟨rfl, rfl, rfl, rfl, hsize⟩, fun h => absurd rfl h⟩
  · exact ⟨fun h => absurd h (by decide), fun _ => hclosed⟩

theorem startTransfer_advances {length : UInt32} (hstock : Stocked s)
    (hrequest : s.curEntry = entry) (hopen : s.file.isOpen = true)
    (hnew : s.file.checksum = .new)
    (hsource : s.file.sourceName = .setBytes _ entry.srcFilename.bytes)
    (hdest : s.file.destName = .setBytes _ entry.destFilename.bytes)
    (hstart : entry.offset.toNat < s.file.size.toNat)
    (hend : entry.offset.toNat + length.toNat ≤ s.file.size.toNat)
    (hrange : rangeEnd entry s.file.size =
      if 0 < length then entry.offset.toNat + length.toNat else s.file.size.toNat) :
    Advances s entry [] [] .start s.file.size (s.startTransfer entry.offset length) := by
  obtain ⟨free, hfree, hsend⟩ := sendFilePacket_eq (s := s.getBuffer) hstock
    (bufferSize_startPacket s.getBuffer.file) s.getBuffer.curContext
  have hpacket : startPacket entry s.file.size =
      .initializeStart s.file.size s.file.sourceName.bytes s.file.destName.bytes := by
    rw [startPacket, hsource, hdest]
  have hsize := s.file.size.toNat_lt
  have hsum : s.file.checksum = checksumOf entry [] := by
    rw [hnew, checksumOf, Checksum.update_eq]
    rfl
  -- the state and the outputs differ only in the end of the range
  have hadvance : ∀ stop length', stop.toNat = rangeEnd entry s.file.size →
      s.startTransfer entry.offset length = .ok ({ s.getBuffer with
        freeStorage := free
        mode := .wait
        sequenceIndex := 1
        curTimer := 0
        byteOffset := entry.offset
        lastCompletedType := .start
        endOffset := stop }, [.bufferSendOut ⟨internalBufferSize, s.lastBufferId,
          comPacket (startPacket entry s.file.size)⟩,
          .event (.sendStarted length' s.file.sourceName s.file.destName)]) →
      Advances s entry [] [] .start s.file.size (s.startTransfer entry.offset length) := by
    intro stop length' hstop hresult
    rw [hresult]
    refine ⟨_, _, _, _, rfl, rfl, rfl, rfl, ?_, rfl, rfl, rfl, hfree, rfl, rfl⟩
    refine ⟨.inl rfl, hrequest, hopen, hstop, (UInt32.add_zero _).symm, ?_, hsum, fun _ => rfl, ?_⟩
    · rw [nextIndex, dataPackets_nil]
      rfl
    · have hmore : entry.offset.toNat + ([] : Bytes).length < stop.toNat := by
        rw [hstop, hrange, length_nil, add_zero]
        split
        · next hpos =>
          have := lt_iff_toNat_lt.mp hpos
          exact Nat.lt_add_of_pos_right this
        · exact hstart
      have hbody : body entry s.file.size [] = [startPacket entry s.file.size] := by
        rw [body, dataPackets_nil]
      rw [nil_append, ← hbody]
      exact .more hmore (dvd_zero _)
  by_cases hpos : 0 < length
  · refine hadvance (entry.offset + length) length ?_ ?_
    · rw [hrange, if_pos hpos, UInt32.toNat_add, mod_eq_of_lt (by omega)]
    · rw [startTransfer, sendStartPacket, hsend, hpacket]
      exact if_pos hpos
  · refine hadvance s.file.size (s.file.size - entry.offset) ?_ ?_
    · rw [hrange, if_neg hpos]
    · rw [startTransfer, sendStartPacket, hsend, hpacket]
      exact if_neg hpos

theorem Advances.cons_event {last : FilePacketType} {size : UInt32}
    {result : Result} {event : Event}
    (h : Advances s entry data packets last size result) :
    Advances s entry data packets last size (result.map fun r => (r.1, .event event :: r.2)) := by
  obtain ⟨s', outs, packet, context, hresult, hsends, hresponses, h⟩ := h
  exact ⟨s', .event event :: outs, packet, context, by rw [hresult]; rfl, hsends, hresponses, h⟩

theorem sendFile_advances (hstock : Stocked s) (hrequest : s.curEntry = entry)
    (hclosed : s.file.isOpen = false)
    (hopen : s.file.open_ disk entry.srcFilename entry.destFilename = (.opOk, file))
    (hlt : entry.offset.toNat < file.size.toNat) :
    Advances s entry [] [] .start file.size
      (s.sendFile disk entry.srcFilename entry.destFilename entry.offset entry.length) := by
  obtain ⟨hisOpen, hnew, hsource, hdest, -⟩ := (open_cases hclosed hopen).1 rfl
  have hzero : file.size ≠ 0 := by
    rintro hzero
    rw [hzero] at hlt
    exact not_lt_zero _ hlt
  have hpast : ¬file.size ≤ entry.offset := by
    rw [le_iff_toNat_le]
    omega
  have hsub : (file.size - entry.offset).toNat = file.size.toNat - entry.offset.toNat :=
    UInt32.toNat_sub_of_le _ _ (UInt32.le_iff_toNat_le.mpr (le_of_lt hlt))
  rw [FileDownlink.sendFile, hopen]
  dsimp only
  rw [if_neg (fun h => h rfl), if_neg hzero, if_neg hpast]
  by_cases hlong : file.size - entry.offset < entry.length
  · rw [if_pos hlong]
    have hlonger := lt_iff_toNat_lt.mp hlong
    have hrange : rangeEnd entry file.size = if 0 < file.size - entry.offset then
        entry.offset.toNat + (file.size - entry.offset).toNat else file.size.toNat := by
      rw [rangeEnd_of_ne (by omega),
        if_pos (lt_iff_toNat_lt.mpr (hsub ▸ Nat.sub_pos_of_lt hlt))]
      omega
    exact (@startTransfer_advances { s with file := file } entry (file.size - entry.offset)
      hstock hrequest hisOpen hnew hsource hdest hlt (by dsimp only; omega) hrange).cons_event
  · rw [if_neg hlong]
    have hfits : entry.length.toNat ≤ file.size.toNat - entry.offset.toNat :=
      hsub ▸ not_lt.mp (fun h => hlong (lt_iff_toNat_lt.mpr h))
    have hrange : rangeEnd entry file.size = if 0 < entry.length then
        entry.offset.toNat + entry.length.toNat else file.size.toNat := by
      by_cases hpos : 0 < entry.length
      · have hpos' := lt_iff_toNat_lt.mp hpos
        rw [if_pos hpos, rangeEnd_of_ne (ne_of_gt hpos')]
        omega
      · rw [if_neg hpos, rangeEnd, if_pos (UInt32.le_zero_iff.mp (UInt32.not_lt.mp hpos))]
    exact @startTransfer_advances { s with file := file } entry entry.length hstock hrequest hisOpen
      hnew hsource hdest hlt (by dsimp only; omega) hrange

theorem sendFile_concludes (hrest : Resting s) (hstock : Stocked s) (hrequest : s.curEntry = entry)
    (hsent : ¬∃ file, s.file.open_ disk entry.srcFilename entry.destFilename = (.opOk, file) ∧
      entry.offset.toNat < file.size.toNat) :
    Concludes s entry
      (s.sendFile disk entry.srcFilename entry.destFilename entry.offset entry.length) := by
  obtain ⟨⟨status, file⟩, hopen⟩ : ∃ r, s.file.open_ disk entry.srcFilename entry.destFilename = r :=
    ⟨_, rfl⟩
  rw [FileDownlink.sendFile, hopen]
  dsimp only
  by_cases hstatus : status ≠ .opOk
  · rw [if_pos hstatus]
    exact concludes_event hrequest ⟨.inl rfl, (open_cases hrest.closed hopen).2 hstatus⟩ hstock rfl
      rfl nofun
  obtain rfl := Decidable.not_not.mp hstatus
  rw [if_neg hstatus]
  by_cases hzero : file.size = 0
  · rw [if_pos hzero]
    exact concludes_event hrequest ⟨.inl rfl, rfl⟩ hstock rfl rfl nofun
  have hpast : file.size ≤ entry.offset := by
    rw [le_iff_toNat_le]
    exact not_lt.mp fun hlt => hsent ⟨file, hopen, hlt⟩
  rw [if_neg hzero, if_pos hpast]
  exact concludes_event hrequest ⟨.inr rfl, rfl⟩ hstock rfl rfl fun _ => rfl

theorem Resting.sendFile (hrest : Resting s) (hstock : Stocked s) (hrequest : s.curEntry = entry)
    (disk : Disk) :
    (∃ size, Advances s entry [] [] .start size
        (s.sendFile disk entry.srcFilename entry.destFilename entry.offset entry.length)) ∨
      Concludes s entry
        (s.sendFile disk entry.srcFilename entry.destFilename entry.offset entry.length) := by
  by_cases hsent : ∃ file, s.file.open_ disk entry.srcFilename entry.destFilename = (.opOk, file) ∧
      entry.offset.toNat < file.size.toNat
  · obtain ⟨file, hopen, hlt⟩ := hsent
    exact .inl ⟨_, sendFile_advances hstock hrequest hrest.closed hopen hlt⟩
  · exact .inr (sendFile_concludes hrest hstock hrequest hsent)

end Steps

end Fprime.Svc.FileDownlink
