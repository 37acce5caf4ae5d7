import Fprime.Svc.FileDownlink.Discipline

/-!
# Undisturbed transfers

Runs in which the source files keep their contents, every read succeeds and nothing is
cancelled: each request for a whole file is answered with the whole transfer sent.
-/

namespace Fprime.Svc.FileDownlink

open Fw Utils Lib.Runs List UInt32

open Os (FileStatus)

structure Disk.Reads (disk : Disk) (contents : Bytes) : Prop where
  openRead : disk.openRead = .opOk
  size : disk.size.1 = .opOk ∧ disk.size.2.toNat = contents.length
  seek : disk.seek = .opOk
  read : ∀ offset count, disk.read offset count = (.opOk, (contents.drop offset).take count)

/-- Every file is read with its contents, and no packet is cancelled. -/
def Undisturbed (files : FileNameString → Bytes) (w : World) : Input → Prop
  | .sendFile disk => ∀ entry ∈ w.taken, disk.Reads (files entry.srcFilename)
  | .bufferReturn disk _ => disk.Reads (files w.comp.curEntry.srcFilename)
  | .cmdIn opCode _ _ => w.comp.mode = .wait → opCode - w.comp.idBase ≠ opcodeCancel
  | _ => True

structure Sendable (files : FileNameString → Bytes) (entry : FileEntry) : Prop where
  offset : entry.offset = 0
  length : entry.length = 0
  text : FwString.isText entry.srcFilename.bytes = true
  nonempty : 0 < (files entry.srcFilename).length
  fits : (files entry.srcFilename).length ≤ 2 ^ 32 - 1

def wholeFile (files : FileNameString → Bytes) (entry : FileEntry) : List FilePacket :=
  transfer entry (ofNat (files entry.srcFilename).length) (files entry.srcFilename)

structure Copying (files : FileNameString → Bytes) (s : FileDownlink) (entry : FileEntry)
    (data : Bytes) (packets : List FilePacket) : Prop where
  sending : Sending s entry data packets
  mode : s.mode = .wait
  lastType : s.lastCompletedType ≠ .cancel
  size : s.file.size.toNat = (files entry.srcFilename).length
  data : data = ((files entry.srcFilename).drop entry.offset.toNat).take data.length

structure Faithful (files : FileNameString → Bytes) (w : World) (finished : List Transfer)
    (current : Option Transfer) : Prop where
  sound : Sound w finished current
  whole : ∀ t ∈ finished, Sendable files t.entry → t.packets = wholeFile files t.entry
  copying : ∀ t ∈ current, w.taken = none → ∃ data, Copying files w.comp t.entry data t.packets

section Steps

variable {files : FileNameString → Bytes} {s : FileDownlink} {entry : FileEntry}
  {data : Bytes} {packets : List FilePacket} {disk : Disk} {buffer : Buffer}

variable {file : DownlinkFile} {contents : Bytes}

theorem open_of_reads {source dest : FileNameString}
    {contents : Bytes} (hclosed : file.isOpen = false)
    (htext : FwString.isText source.bytes = true) (hfits : contents.length ≤ 2 ^ 32 - 1)
    (hdisk : disk.Reads contents) :
    ∃ file', file.open_ disk source dest = (.opOk, file') ∧
      file'.size.toNat = contents.length := by
  have hstatus : ∀ names : LogStringArg × LogStringArg, DownlinkFile.openStatus disk
      { file with sourceName := names.1, destName := names.2, checksum := .new } = .opOk := by
    intro names
    rw [DownlinkFile.openStatus, if_neg (by simp [hclosed]), hdisk.openRead]
  have hsize : (ofNat disk.size.2.toNat).toNat = contents.length := by
    rw [hdisk.size.2, toNat_ofNat', Nat.mod_eq_of_lt (by omega)]
  have hopen : file.open_ disk source dest = (.opOk, { file with
      sourceName := .setBytes _ source.bytes
      destName := .setBytes _ dest.bytes
      checksum := .new
      size := ofNat disk.size.2.toNat
      isOpen := true }) := by
    rw [DownlinkFile.open_]
    dsimp only
    rw [if_neg (by simp [htext]), if_neg (fun h => h (hstatus (_, _))),
      if_neg (fun h => h hdisk.size.1), if_neg (by rw [hdisk.size.2]; omega)]
  exact ⟨_, hopen, hsize⟩

theorem read_of_reads {count : Nat}
    {byteOffset : UInt32} (hopen : file.isOpen = true) (hdisk : disk.Reads contents)
    (hinside : byteOffset.toNat + count ≤ contents.length) :
    ∃ file', file.read disk count byteOffset =
      .ok (file', (contents.drop byteOffset.toNat).take count) := by
  have hlen : ((contents.drop byteOffset.toNat).take count).length = count := by
    rw [length_take, length_drop]
    omega
  rw [DownlinkFile.read, if_neg (by simp [hopen]), if_neg (fun h => h hdisk.seek), hdisk.read]
  dsimp only
  rw [if_neg (fun h => h rfl), if_neg (fun h => h hlen)]
  exact ⟨_, rfl⟩

theorem take_append_chunk {offset count : Nat}
    (hdata : data = (contents.drop offset).take data.length)
    (hinside : offset + data.length + count ≤ contents.length) :
    data ++ (contents.drop (offset + data.length)).take count =
      (contents.drop offset).take (data ++ (contents.drop (offset + data.length)).take count).length := by
  have hlen : ((contents.drop (offset + data.length)).take count).length = count := by
    rw [length_take, length_drop]
    omega
  rw [length_append, hlen, take_add, ← hdata, drop_drop]

theorem Copying.bufferReturn (h : Copying files s entry data packets)
    (hbuffer : buffer.context + 1 = s.lastBufferId) (hstock : Stocked s)
    (hdisk : disk.Reads (files entry.srcFilename)) :
    (∃ data' last, last ≠ FilePacketType.cancel ∧
        data' = ((files entry.srcFilename).drop entry.offset.toNat).take data'.length ∧
        Advances s entry data' packets last s.file.size (s.bufferReturnHandler disk buffer)) ∨
      Concludes s entry (s.bufferReturnHandler disk buffer) ∧
        (Sendable files entry → packets = wholeFile files entry) := by
  have hrange : s.endOffset.toNat ≤ (files entry.srcFilename).length := by
    rw [h.sending.range, ← h.size]
    exact rangeEnd_le _ _
  have hstage := h.sending.stage
  cases htype : s.lastCompletedType with
  | start =>
    obtain ⟨hleft, hfull, -, hoffset⟩ := h.sending.more htype
    have hinside : s.byteOffset.toNat + s.chunkSize ≤ (files entry.srcFilename).length := by
      have hsize : s.chunkSize = min (s.endOffset.toNat - s.byteOffset.toNat) maxDataSize := rfl
      omega
    obtain ⟨file, hread⟩ := read_of_reads h.sending.isOpen hdisk hinside
    refine .inl ⟨_, _, ?_, ?_, h.sending.data_sent hbuffer hstock h.mode htype hread⟩
    · rw [typeMarked, htype]
      split <;> simp
    · rw [hoffset] at hinside ⊢
      exact take_append_chunk h.data hinside
  | data => exact .inl ⟨data, .end_, by simp, h.data, h.sending.end_sent hbuffer hstock htype⟩
  | end_ =>
    refine .inr ⟨h.sending.finished hbuffer hstock (.inl htype), fun hsendable => ?_⟩
    rw [htype] at hstage
    cases hstage with
    | ended hall =>
      have hall' : data.length = (files entry.srcFilename).length := by
        rw [h.sending.range, rangeEnd, if_pos hsendable.length, h.size, hsendable.offset] at hall
        simpa using hall
      have hdata : data = files entry.srcFilename := by
        have := h.data
        rw [hsendable.offset, hall'] at this
        simpa using this
      rw [wholeFile, ← h.size, UInt32.ofNat_toNat, ← hdata]
  | cancel => exact absurd htype h.lastType
  | none =>
    rw [htype] at hstage
    cases hstage

theorem Copying.begins (h : Copying files s entry data packets) (hsendable : Sendable files entry) :
    packets <+: wholeFile files entry := by
  have hsize : s.file.size = UInt32.ofNat (files entry.srcFilename).length := by
    rw [← h.size, UInt32.ofNat_toNat]
  have hstop : s.endOffset.toNat = (files entry.srcFilename).length := by
    rw [h.sending.range, rangeEnd, if_pos hsendable.length, h.size]
  have hdata := h.data
  rw [hsendable.offset, UInt32.toNat_zero, drop_zero] at hdata
  have hall : entry.offset.toNat + data.length = s.endOffset.toNat →
      data = files entry.srcFilename := by
    intro hall
    rw [hsendable.offset, UInt32.toNat_zero, Nat.zero_add, hstop] at hall
    rw [hdata, hall, take_length]
  have hstage := h.sending.stage
  rw [hsize] at hstage
  rw [wholeFile, transfer]
  generalize hlast : s.lastCompletedType = last at hstage
  cases hstage with
  | more _ hfull =>
    have hsplit : files entry.srcFilename = data ++ (files entry.srcFilename).drop data.length := by
      conv_lhs => rw [← take_append_drop data.length (files entry.srcFilename), ← hdata]
    refine List.IsPrefix.trans ?_ (prefix_append _ _)
    conv_rhs => rw [hsplit, body_append hfull]
    rw [← hsplit]
    exact prefix_append _ _
  | last hlen =>
    rw [← hall hlen]
    exact prefix_append _ _
  | ended hlen =>
    rw [← hall hlen]
    exact prefix_refl _
  | cancelled => exact absurd hlast h.lastType

theorem Resting.sendFile_undisturbed (hrest : Resting s) (hstock : Stocked s)
    (hrequest : s.curEntry = entry) (hdisk : disk.Reads (files entry.srcFilename)) :
    (∃ size : UInt32, size.toNat = (files entry.srcFilename).length ∧
        Advances s entry [] [] .start size
          (s.sendFile disk entry.srcFilename entry.destFilename entry.offset entry.length)) ∨
      Concludes s entry
          (s.sendFile disk entry.srcFilename entry.destFilename entry.offset entry.length) ∧
        ¬Sendable files entry := by
  by_cases hsent : ∃ file, s.file.open_ disk entry.srcFilename entry.destFilename = (.opOk, file) ∧
      entry.offset.toNat < file.size.toNat
  · obtain ⟨file, hopen, hlt⟩ := hsent
    obtain ⟨-, -, -, -, hsize⟩ := (open_cases hrest.closed hopen).1 rfl
    exact .inl ⟨_, hsize.trans hdisk.size.2,
      sendFile_advances hstock hrequest hrest.closed hopen hlt⟩
  · refine .inr ⟨sendFile_concludes hrest hstock hrequest hsent, fun hsendable => hsent ?_⟩
    obtain ⟨file, hopen, hsize⟩ :=
      @open_of_reads disk s.file entry.srcFilename entry.destFilename _ hrest.closed hsendable.text
        hsendable.fits hdisk
    refine ⟨file, hopen, ?_⟩
    rw [hsize, hsendable.offset]
    exact hsendable.nonempty

variable {w : World} {finished : List Transfer} {current : Option Transfer}

theorem Copying.requested {s' : FileDownlink} {accepted : Option FileEntry}
    (h : Copying files s entry data packets) (hreq : Requested s s' accepted)
    (hmode : s'.mode = s.mode) : Copying files s' entry data packets :=
  ⟨hreq.sending _ _ _ h.sending, hmode.trans h.mode, hreq.lastType ▸ h.lastType,
    hreq.file ▸ h.size, h.data⟩

theorem Faithful.advance {size : UInt32} {last : FilePacketType}
    {result : Result}
    (h : Faithful files w finished (some ⟨entry, packets, none⟩)) (hlast : last ≠ .cancel)
    (hsize : size.toNat = (files entry.srcFilename).length)
    (hdata : data = ((files entry.srcFilename).drop entry.offset.toNat).take data.length)
    (hadv : Advances w.comp entry data packets last size result) :
    ∃ comp outs, result = .ok (comp, outs) ∧ ∃ current,
      Faithful files ({ w with taken := none, outstanding := [] }.emit comp outs) finished
        current := by
  obtain ⟨comp, outs, packet, hresult, hsound, hsending, hmode, rfl, rfl, -⟩ :=
    h.sound.advance hadv
  refine ⟨comp, outs, hresult, _, hsound, h.whole, fun t ht _ => ?_⟩
  cases ht
  exact ⟨data, hsending, hmode, hlast, hsize, hdata⟩

theorem Faithful.conclude {result : Result}
    (h : Faithful files w finished (some ⟨entry, packets, none⟩)) (hfollows : Follows entry packets)
    (hwhole : Sendable files entry → packets = wholeFile files entry)
    (hend : Concludes w.comp entry result) :
    ∃ comp outs, result = .ok (comp, outs) ∧ ∃ finished,
      Faithful files ({ w with taken := none, outstanding := [] }.emit comp outs) finished none := by
  obtain ⟨comp, outs, status, hresult, hsound, -⟩ := h.sound.conclude hfollows hend
  refine ⟨comp, outs, hresult, _, hsound, fun t ht => ?_, fun t ht => by cases ht⟩
  rcases mem_append.mp ht with ht | ht
  · exact h.whole t ht
  · rw [mem_singleton.mp ht]
    exact hwhole

theorem Faithful.step {input : Input} (h : Faithful files w finished current)
    (hinput : Undisturbed files w input) :
    ∃ w', w.step input = .ok w' ∧ ∃ finished current, Faithful files w' finished current := by
  have heffect := h.sound.effect input
  generalize w.step input = result at heffect ⊢
  cases heffect with
  | nothing => exact ⟨w, rfl, finished, current, h⟩
  | tick timer mode htaken htick =>
    refine ⟨_, rfl, finished, current, h.sound.tick htaken htick, h.whole, fun t ht _ => ?_⟩
    obtain ⟨data, hcopy⟩ := h.copying t ht htaken
    obtain ⟨hsame, hsending⟩ := @Sending.tick _ _ _ _ hcopy.sending timer mode htick
    exact ⟨data, hsending, hsame.trans hcopy.mode, hcopy.lastType, hcopy.size, hcopy.data⟩
  | take entry rest htaken hidle hqueue =>
    exact ⟨_, rfl, finished, _, h.sound.take htaken hidle hqueue, h.whole,
      fun _ _ hnone => by cases hnone⟩
  | sendFile disk entry htaken hrest hcur hcurrent =>
    subst hcurrent
    rcases hrest.sendFile_undisturbed h.sound.stock hcur (hinput entry htaken) with
      ⟨size, hsize, hadv⟩ | ⟨hend, hnot⟩
    · obtain ⟨comp, outs, hresult, current', hfaithful⟩ :=
        h.advance (by simp) hsize (by simp) hadv
      exact ⟨_, by rw [hresult]; rfl, finished, current', hfaithful⟩
    · obtain ⟨comp, outs, hresult, finished', hfaithful⟩ :=
        h.conclude (.inl rfl) (fun hsendable => absurd hsendable hnot) hend
      exact ⟨_, by rw [hresult]; rfl, finished', none, hfaithful⟩
  | bufferReturn disk i entry _ packets buffer htaken hbuffer _ hcurrent =>
    subst hcurrent
    obtain ⟨data, hcopy⟩ := h.copying _ rfl htaken
    have hrequest : w.comp.curEntry = entry := hcopy.sending.request
    have hreads : disk.Reads (files entry.srcFilename) := hrequest ▸ hinput
    rcases hcopy.bufferReturn hbuffer h.sound.stock hreads with
      ⟨data', last, hlast, hdata, hadv⟩ | ⟨hend, hwhole⟩
    · obtain ⟨comp, outs, hresult, current', hfaithful⟩ := h.advance hlast hcopy.size hdata hadv
      exact ⟨_, by rw [hresult]; rfl, finished, current', hfaithful⟩
    · obtain ⟨comp, outs, hresult, finished', hfaithful⟩ :=
        h.conclude hcopy.sending.follows hwhole hend
      exact ⟨_, by rw [hresult]; rfl, finished', none, hfaithful⟩
  | requested input comp accepted handled callers _ hreq hmode hproper haccepted =>
    refine ⟨_, rfl, finished, current, h.sound.requested hreq hproper haccepted, h.whole,
      fun t ht htaken => ?_⟩
    obtain ⟨data, hcopy⟩ := h.copying t ht htaken
    refine ⟨data, hcopy.requested hreq (hmode.resolve_left ?_)⟩
    rintro ⟨opCode, cmdSeq, args, rfl, hcancel⟩
    exact hinput hcopy.mode hcancel

end Steps

/-- In an undisturbed run every answered request for a whole file has had its file sent. -/
theorem whole_files_sent (files : FileNameString → Bytes) (idBase cooldown cycleTime : UInt32)
    (depth : Nat) {inputs : List Input}
    (h : AlongM World.step (Undisturbed files)
      (World.start (new idBase cooldown cycleTime depth)) inputs) :
    ∃ w finished current, (World.start (new idBase cooldown cycleTime depth)).run inputs = .ok w ∧
      Faithful files w finished current := by
  let Kept (_ : List Input) (w : World) : Prop :=
    ∃ finished current, Faithful files w finished current
  have hstart : Kept [] (.start (new idBase cooldown cycleTime depth)) :=
    ⟨[], none, sound_start idBase cooldown cycleTime depth,
      fun _ h => absurd h not_mem_nil, fun _ h => by cases h⟩
  obtain ⟨w, hrun, finished, current, hfaithful⟩ := total_runM
    (fun _ w input ⟨_, _, h⟩ hinput => h.step hinput) hstart h
  exact ⟨w, finished, current, hrun, hfaithful⟩

end Fprime.Svc.FileDownlink
