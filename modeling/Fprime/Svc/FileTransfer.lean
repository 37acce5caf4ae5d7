import Fprime.Svc.FileDownlink.Undisturbed
import Fprime.Svc.FileUplink

/-!
# From downlink to uplink

The packets of an undisturbed downlink are fed to an uplink, each of them any number of times in
a row, and the file arrives as it was.
-/

namespace Fprime.Svc

open Fw Utils Lib.Bytes Lib.Runs List Nat UInt32 FileDownlink FileUplink

open Os (FileStatus FileSystem)

open FileDownlink (comPacket dataPackets)

namespace FileUplink

def receiveAll : List (Disk × Bytes) → FileSystem → FileUplink →
    FileSystem × FileUplink × List (List Out)
  | [], fs, s => (fs, s, [])
  | (disk, buffer) :: rest, fs, s =>
    let (fs, s, outs) := s.bufferSendInHandler disk fs buffer
    let (fs, s, more) := receiveAll rest fs s
    (fs, s, outs :: more)

theorem receiveAll_append (front back : List (Disk × Bytes)) (fs : FileSystem)
    (s : FileUplink) :
    receiveAll (front ++ back) fs s =
      ((receiveAll back (receiveAll front fs s).1 (receiveAll front fs s).2.1).1,
        (receiveAll back (receiveAll front fs s).1 (receiveAll front fs s).2.1).2.1,
        (receiveAll front fs s).2.2 ++
          (receiveAll back (receiveAll front fs s).1 (receiveAll front fs s).2.1).2.2) := by
  induction front generalizing fs s with
  | nil => rfl
  | cons d front ih =>
    rw [cons_append, receiveAll, receiveAll]
    dsimp only
    rw [ih]
    rfl

/-- Every operation is performed, and a path names the same file all the time. -/
structure Disk.Performs (disk : Disk) (resolve : Bytes → Os.Path) : Prop where
  resolve : disk.resolve = resolve
  openWrite : disk.openWrite = .opOk
  seek : disk.seek = .opOk
  write : disk.write = .opOk
  room : 2 ^ 16 ≤ disk.room

/-- A stream with each element of the list any number of times in a row, but at least once. -/
inductive Repeats {α : Type} : List α → List α → Prop
  | nil : Repeats [] []
  | cons (a : α) (again : Nat) {rest stream : List α} : Repeats rest stream →
      Repeats (a :: rest) (replicate (again + 1) a ++ stream)

def events (outs : List Out) : List Event :=
  outs.filterMap fun
    | .event event => some event
    | _ => none

def Event.isFault : Event → Bool
  | badChecksum .. | packetOutOfOrder .. | packetOutOfBounds .. => true
  | _ => false

def Event.isReceived : Event → Bool
  | fileReceived _ => true
  | _ => false

def Quiet (events : List Event) : Prop :=
  ∀ event ∈ events, event.isFault = false ∧ event.isReceived = false

section Rules

variable {resolve : Bytes → Os.Path} {P Q R : FileSystem → FileUplink → Prop}
  {packet : FilePacket} {packets more : List FilePacket} {reports : List Event → Prop}

/-- From one kind of state the packet leads to another, with reports of a kind. -/
def Handles (resolve : Bytes → Os.Path) (P : FileSystem → FileUplink → Prop)
    (packet : FilePacket) (Q : FileSystem → FileUplink → Prop) (reports : List Event → Prop) : Prop :=
  ∀ disk fs s, disk.Performs resolve → P fs s →
    Q (s.bufferSendInHandler disk fs (comPacket packet)).1
        (s.bufferSendInHandler disk fs (comPacket packet)).2.1 ∧
      reports (events (s.bufferSendInHandler disk fs (comPacket packet)).2.2)

def Leads (resolve : Bytes → Os.Path) (P : FileSystem → FileUplink → Prop)
    (packets : List FilePacket) (Q : FileSystem → FileUplink → Prop)
    (reports : List Event → Prop) : Prop :=
  ∀ deliveries fs s, deliveries.map Prod.snd = packets.map comPacket →
    (∀ d ∈ deliveries, d.1.Performs resolve) → P fs s →
    Q (receiveAll deliveries fs s).1 (receiveAll deliveries fs s).2.1 ∧
      ∀ outs ∈ (receiveAll deliveries fs s).2.2, reports (events outs)

theorem Leads.nil (h : ∀ fs s, P fs s → Q fs s) : Leads resolve P [] Q reports := by
  intro deliveries fs s hmap _ hP
  rw [map_nil, map_eq_nil_iff] at hmap
  subst hmap
  exact ⟨h fs s hP, fun _ hout => absurd hout not_mem_nil⟩

theorem Leads.cons (hfirst : Handles resolve P packet Q reports)
    (hrest : Leads resolve Q packets R reports) : Leads resolve P (packet :: packets) R reports := by
  intro deliveries fs s hmap hperforms hP
  cases deliveries with
  | nil => cases hmap
  | cons d deliveries =>
    obtain ⟨disk, buffer⟩ := d
    rw [map_cons, map_cons, cons.injEq] at hmap
    obtain ⟨rfl, hmap⟩ := hmap
    obtain ⟨hQ, houts⟩ := hfirst disk fs s (hperforms _ mem_cons_self) hP
    obtain ⟨hR, hmore⟩ := hrest deliveries _ _ hmap
      (fun d hd => hperforms d (mem_cons_of_mem _ hd)) hQ
    exact ⟨hR, fun outs hout => (mem_cons.mp hout).elim (fun h => h ▸ houts) (hmore outs)⟩

theorem Leads.append (hfirst : Leads resolve P packets Q reports)
    (hrest : Leads resolve Q more R reports) : Leads resolve P (packets ++ more) R reports := by
  intro deliveries fs s hmap hperforms hP
  rw [map_append] at hmap
  obtain ⟨front, back, rfl, hfront, hback⟩ := map_eq_append_iff.mp hmap
  obtain ⟨hQ, houts⟩ :=
    hfirst front fs s hfront (fun d hd => hperforms d (mem_append_left _ hd)) hP
  obtain ⟨hR, hmore⟩ :=
    hrest back _ _ hback (fun d hd => hperforms d (mem_append_right _ hd)) hQ
  rw [receiveAll_append]
  exact ⟨hR, fun outs hout => (mem_append.mp hout).elim (houts outs) (hmore outs)⟩

theorem leads_again (hagain : Handles resolve Q packet Q reports) (n : Nat) :
    Leads resolve Q (replicate n packet) Q reports := by
  induction n with
  | zero => exact .nil fun _ _ h => h
  | succ n ih => exact .cons hagain ih

theorem leads_replicate (hfirst : Handles resolve P packet Q reports)
    (hagain : Handles resolve Q packet Q reports) (again : Nat) :
    Leads resolve P (replicate (again + 1) packet) Q reports :=
  .cons hfirst (leads_again hagain again)

end Rules

theorem bufferSendInHandler_comPacket (disk : Disk) (fs : FileSystem) (s : FileUplink)
    (packet : FilePacket) :
    s.bufferSendInHandler disk fs (comPacket packet) =
      ((s.handlePacket disk fs packet).1, (s.handlePacket disk fs packet).2.1,
        (s.handlePacket disk fs packet).2.2 ++ [.bufferSendOut (comPacket packet)]) := by
  rw [bufferSendInHandler]
  have hread : deserializeU16 (comPacket packet) =
      .ok (Apid.fwPacketFile.asRepr, packet.encoded) := deserializeU16_encode _ _
  rw [hread]
  dsimp only
  rw [if_neg (fun h => h rfl), FilePacket.fromBuffer_encoded]

theorem handles_of_packet {resolve : Bytes → Os.Path} {P Q : FileSystem → FileUplink → Prop}
    {packet : FilePacket} {reports : List Event → Prop}
    (h : ∀ disk fs s, disk.Performs resolve → P fs s →
      Q (s.handlePacket disk fs packet).1 (s.handlePacket disk fs packet).2.1 ∧
        reports (events (s.handlePacket disk fs packet).2.2)) :
    Handles resolve P packet Q reports := by
  intro disk fs s hdisk hP
  rw [bufferSendInHandler_comPacket]
  obtain ⟨hQ, houts⟩ := h disk fs s hdisk hP
  refine ⟨hQ, ?_⟩
  dsimp only
  rw [events, filterMap_append]
  exact (append_nil _).symm ▸ houts

structure OnlyFile (before : FileSystem) (path : Os.Path) (contents : Bytes)
    (fs : FileSystem) : Prop where
  contents : fs path = some contents
  others : ∀ p, p ≠ path → fs p = before p

/-- A start packet may come: no file is open in start mode, and the file is not there or empty. -/
structure Ready (before : FileSystem) (path : Os.Path) (fs : FileSystem) (s : FileUplink) :
    Prop where
  closed : s.receiveMode = .start → s.file.osFile = none
  contents : (fs path).getD [] = []
  others : ∀ p, p ≠ path → fs p = before p

structure Receiving (before : FileSystem) (path : Os.Path) (name : LogStringArg) (size : UInt32)
    (data : Bytes) (index : UInt32) (fs : FileSystem) (s : FileUplink) : Prop where
  mode : s.receiveMode = .data
  handle : ∃ pos, s.file.osFile = some ⟨path, .openWrite, pos⟩
  name : s.file.name = name
  size : s.file.size = size
  checksum : s.file.checksum = Checksum.new.update data 0
  index : s.lastSequenceIndex = index
  written : data ≠ [] → s.lastPacketWriteStatus = some .opOk
  file : OnlyFile before path data fs

structure Received (before : FileSystem) (path : Os.Path) (data : Bytes) (fs : FileSystem)
    (s : FileUplink) : Prop where
  mode : s.receiveMode = .start
  file : OnlyFile before path data fs

section Packets

variable {resolve : Bytes → Os.Path} {before : FileSystem} {size : UInt32}
  {name : LogStringArg} {path : Os.Path} {data : Bytes} {index : UInt32}

theorem warn_eq (s : FileUplink) (throttle : Throttle) (event : Event) :
    ∃ throttles, (s.warn throttle event).1 = { s with throttles := throttles } ∧
      (events (s.warn throttle event).2 = [] ∨ events (s.warn throttle event).2 = [event]) := by
  unfold warn
  split
  · exact ⟨s.throttles, rfl, .inl rfl⟩
  · exact ⟨_, rfl, .inr rfl⟩

variable {s : FileUplink} {chunk : Bytes}

theorem quiet_warn {throttle : Throttle} {event : Event}
    (h : event.isFault = false ∧ event.isReceived = false) :
    Quiet (events (s.warn throttle event).2) := by
  obtain ⟨-, -, houts | houts⟩ := warn_eq s throttle event
  · rw [houts]
    exact fun _ h => absurd h not_mem_nil
  · rw [houts]
    exact fun e he => mem_singleton.mp he ▸ h

theorem Receiving.restart {fs : FileSystem} (h : Receiving before path name size [] index fs s) :
    Ready before path fs s where
  closed hstart := absurd (h.mode.symm.trans hstart) (by decide)
  contents := by rw [h.file.contents]; rfl
  others := h.file.others

variable {disk : Disk} (fs : FileSystem)

theorem open_of_performs {file : UplinkFile}
    {dest : PathName} (hdisk : disk.Performs resolve) (htext : FwString.isText dest.1 = true)
    (hclosed : file.osFile = none) :
    file.open_ disk fs size dest = (.opOk,
      fs.update (resolve dest.1) (some ((fs (resolve dest.1)).getD [])),
      { size := size, name := .setBytes _ dest.1, checksum := .new,
        osFile := some ⟨resolve dest.1, .openWrite, 0⟩ }) := by
  have hfits : ¬dest.1.length > pathNameMaxLength := not_lt.mpr dest.2
  have hstatus : ∀ file : UplinkFile, file.osFile = none → file.openStatus disk = .opOk := by
    intro file hclosed
    rw [UplinkFile.openStatus, if_neg (by simp [hclosed]), hdisk.openWrite]
  rw [UplinkFile.open_, if_neg hfits]
  dsimp only
  rw [if_pos htext, if_pos (hstatus { file with
    size := size, name := .setBytes _ dest.1, checksum := .new } hclosed), hdisk.resolve]
  rfl

theorem update_self (path : Os.Path) (contents : Option Bytes) :
    fs.update path contents path = contents :=
  Function.update_self ..

theorem update_of_ne {path p : Os.Path} (h : p ≠ path)
    (contents : Option Bytes) : fs.update path contents p = fs p :=
  Function.update_of_ne h ..

theorem handles_start {seq : UInt32} {source dest : PathName}
    (htext : FwString.isText dest.1 = true) :
    Handles resolve (Ready before (resolve dest.1)) (.start seq size source dest)
      (Receiving before (resolve dest.1) (.setBytes _ dest.1) size [] 0) Quiet := by
  refine handles_of_packet fun disk fs s hdisk h => ?_
  -- the file is closed before it is opened again
  have hready : ∃ s' outs, (if s.clearThrottles.receiveMode ≠ .start then
      { s.clearThrottles with file := s.clearThrottles.file.close }.warn .invalidReceiveMode
        (.invalidReceiveMode .start s.clearThrottles.receiveMode)
      else (s.clearThrottles, [])) = (s', outs) ∧ s'.file.osFile = none ∧ Quiet (events outs) := by
    split
    · obtain ⟨throttles, hs, -⟩ := warn_eq
        { s.clearThrottles with file := s.clearThrottles.file.close } .invalidReceiveMode
        (.invalidReceiveMode .start s.clearThrottles.receiveMode)
      exact ⟨_, _, Prod.mk.eta.symm, by rw [hs]; rfl, quiet_warn ⟨rfl, rfl⟩⟩
    · next hmode =>
      exact ⟨_, _, rfl, h.closed (Decidable.not_not.mp hmode), fun _ h => absurd h not_mem_nil⟩
  obtain ⟨s', outs, hfirst, hclosed, hquiet⟩ := hready
  rw [handlePacket, handleStartPacket]
  dsimp only
  rw [hfirst]
  dsimp only
  rw [open_of_performs fs hdisk htext hclosed]
  dsimp only
  rw [if_pos rfl]
  refine ⟨⟨rfl, ⟨0, rfl⟩, rfl, rfl, ?_, rfl, fun h => absurd rfl h, ?_, fun p hp => ?_⟩, hquiet⟩
  · rw [Checksum.update_eq]
    rfl
  · exact (update_self _ _ _).trans (congrArg some h.contents)
  · exact (update_of_ne _ hp _).trans (h.others p hp)

theorem overwrite_end (contents chunk : Bytes) :
    Os.overwrite contents contents.length chunk = contents ++ chunk := by
  rw [Os.overwrite, Nat.sub_self, replicate_zero, append_nil, take_length,
    drop_of_length_le (le_add_right _ _), append_nil]

theorem write_of_performs {fs : FileSystem} {file : UplinkFile} {pos : Nat}
    {byteOffset : UInt32} (hdisk : disk.Performs resolve)
    (hhandle : file.osFile = some ⟨path, .openWrite, pos⟩) (hfile : OnlyFile before path data fs)
    (hoffset : byteOffset.toNat = data.length) (hne : chunk ≠ []) (hlen : chunk.length < 2 ^ 16) :
    ∃ fs' pos', OnlyFile before path (data ++ chunk) fs' ∧
      file.write disk fs chunk byteOffset = (.opOk, fs', { file with
        osFile := some ⟨path, .openWrite, pos'⟩
        checksum := file.checksum.update chunk data.length }) := by
  have hroom := hdisk.room
  have htake : chunk.take disk.room = chunk := take_of_length_le (by omega)
  refine ⟨fs.update path (some (data ++ chunk)), data.length + chunk.length,
    ⟨update_self _ _ _, fun p hp => (update_of_ne _ hp _).trans (hfile.others p hp)⟩, ?_⟩
  have hwrite : UplinkFile.writeAt fs ⟨path, .openWrite, data.length⟩ chunk =
      (fs.update path (some (data ++ chunk)),
        some ⟨path, .openWrite, data.length + chunk.length⟩) := by
    rw [UplinkFile.writeAt, if_neg hne, ← overwrite_end]
    simp [FileSystem.write, hfile.contents]
  rw [UplinkFile.write, hhandle]
  dsimp only
  rw [if_neg (fun h => h hdisk.seek), htake, hoffset, hwrite]
  dsimp only
  rw [if_neg (fun h => h hdisk.write), if_neg (by omega)]

theorem checkSequenceIndex_next (h : s.lastSequenceIndex = index) :
    s.checkSequenceIndex (index + 1) = ({ s with lastSequenceIndex := index + 1 }, []) := by
  rw [checkSequenceIndex, if_neg (by simp [h])]

theorem handles_data (hne : chunk ≠ []) (hlen : chunk.length < 2 ^ 16)
    (hsize : data.length + chunk.length ≤ size.toNat) :
    Handles resolve (Receiving before path name size data index)
      (.initializeData (index + 1) (ofNat data.length) (UInt16.ofNat chunk.length) chunk)
      (Receiving before path name size (data ++ chunk) (index + 1)) Quiet := by
  refine handles_of_packet fun disk fs s hdisk h => ?_
  have hlt := size.toNat_lt
  have hoffset : (ofNat data.length).toNat = data.length := by
    rw [toNat_ofNat', mod_eq_of_lt (by omega)]
  have hchunk : chunk.take (UInt16.ofNat chunk.length).toNat = chunk := by
    rw [UInt16.toNat_ofNat', mod_eq_of_lt hlen, take_length]
  have hnew : s.isDuplicate (index + 1) = false := by
    have hnext : index + 1 ≠ index := by grind
    simp [isDuplicate, h.index, hnext]
  have hinside : outOfBounds { s with lastSequenceIndex := index + 1 } (ofNat data.length)
      chunk.length = false := by
    simp only [outOfBounds, hoffset, h.size]
    simp
    omega
  obtain ⟨pos, hhandle⟩ := h.handle
  obtain ⟨fs', pos', hfile, hwrite⟩ := write_of_performs hdisk hhandle h.file hoffset hne hlen
  rw [FilePacket.initializeData, handlePacket]
  dsimp only
  rw [hchunk, handleDataPacket, if_neg (fun hne => hne h.mode), hnew, if_neg Bool.false_ne_true,
    checkSequenceIndex_next h.index]
  dsimp only
  rw [hinside, if_neg Bool.false_ne_true, hwrite]
  dsimp only
  rw [if_neg (fun h => h rfl)]
  refine ⟨⟨h.mode, ⟨pos', rfl⟩, h.name, h.size, ?_, rfl, fun _ => rfl, hfile⟩,
    fun _ h => absurd h not_mem_nil⟩
  dsimp only
  rw [h.checksum, ← Checksum.update_append, zero_add]

theorem handles_data_again {offset : UInt32} {dataSize : UInt16} (hne : data ≠ []) :
    Handles resolve (Receiving before path name size data index)
      (.initializeData index offset dataSize chunk)
      (Receiving before path name size data index) Quiet := by
  refine handles_of_packet fun disk fs s hdisk h => ?_
  have hdup : s.isDuplicate index = true := by
    simp [isDuplicate, h.index, h.written hne]
  obtain ⟨throttles, hs, -⟩ := warn_eq s .packetDuplicate (.packetDuplicate index)
  rw [FilePacket.initializeData, handlePacket, handleDataPacket, if_neg (fun hne => hne h.mode),
    if_pos hdup]
  refine ⟨?_, quiet_warn ⟨rfl, rfl⟩⟩
  dsimp only
  rw [hs]
  exact ⟨h.mode, h.handle, h.name, h.size, h.checksum, h.index, h.written, h.file⟩

theorem handles_end :
    Handles resolve (Receiving before path name size data index)
      (.end_ (index + 1) (Checksum.new.update data 0).value) (Received before path data)
      fun events => events = [.fileReceived name] := by
  refine handles_of_packet fun disk fs s hdisk h => ?_
  rw [handlePacket, handleEndPacket, if_pos h.mode, checkSequenceIndex_next h.index]
  dsimp only
  rw [if_pos (congrArg Checksum.value h.checksum), h.name]
  exact ⟨⟨rfl, h.file⟩, rfl⟩

theorem handles_end_again {seq checksumValue : UInt32} :
    Handles resolve (Received before path data) (.end_ seq checksumValue)
      (Received before path data) Quiet := by
  refine handles_of_packet fun disk fs s hdisk h => ?_
  rw [handlePacket, handleEndPacket, if_neg (by simp [h.mode])]
  exact ⟨⟨rfl, h.file⟩, quiet_warn ⟨rfl, rfl⟩⟩

end Packets

theorem Repeats.mem {α : Type} {list stream : List α} (h : Repeats list stream) {a : α}
    (ha : a ∈ stream) : a ∈ list := by
  induction h with
  | nil => exact ha
  | cons b again hrest ih =>
    rcases mem_append.mp ha with ha | ha
    · rw [eq_of_mem_replicate ha]
      exact mem_cons_self
    · exact mem_cons_of_mem _ (ih ha)

theorem Repeats.split {α : Type} {front back stream : List α} (h : Repeats (front ++ back) stream) :
    ∃ first second, stream = first ++ second ∧ Repeats front first ∧ Repeats back second := by
  induction front generalizing stream with
  | nil => exact ⟨[], stream, rfl, .nil, h⟩
  | cons a front ih =>
    cases h with
    | cons _ again hrest =>
      obtain ⟨first, second, rfl, hfront, hback⟩ := ih hrest
      exact ⟨_, second, (append_assoc ..).symm, .cons a again hfront, hback⟩

section Transfers

variable {resolve : Bytes → Os.Path} {before : FileSystem} {size : UInt32}
  {name : LogStringArg} {path : Os.Path} {contents : Bytes} {index : UInt32}
  {stream : List FilePacket}

theorem leads_data {sent bytes : Bytes}
    (h : Repeats (dataPackets (index + 1) (ofNat sent.length) bytes) stream)
    (hsize : sent.length + bytes.length ≤ size.toNat) :
    Leads resolve (Receiving before path name size sent index) stream
      (Receiving before path name size (sent ++ bytes) (index +
        ofNat (dataPackets (index + 1) (ofNat sent.length) bytes).length)) Quiet := by
  -- the bytes that are left get fewer with each packet
  induction hn : bytes.length using Nat.strong_induction_on generalizing sent bytes index stream with
  | _ n ih =>
    by_cases hnil : bytes = []
    · subst hnil
      rw [dataPackets_nil] at h ⊢
      cases h
      rw [append_nil]
      exact .nil fun fs s hs => by simpa using hs
    have hmax := maxDataSize_eq
    have hpos := length_pos_iff.mpr hnil
    have hlen : (bytes.take maxDataSize).length =
        min bytes.length maxDataSize := by
      rw [length_take, min_comm]
    have hne : bytes.take maxDataSize ≠ [] := ne_nil_of_length_pos (by omega)
    have hnext : ofNat sent.length + ofNat (min bytes.length maxDataSize) =
        ofNat (sent ++ bytes.take maxDataSize).length := by
      rw [length_append, hlen, ofNat_add]
    rw [dataPackets, if_neg hnil, hnext, ← hlen] at h ⊢
    have hsplit : sent ++ bytes = sent ++ bytes.take maxDataSize ++
        bytes.drop maxDataSize := by
      rw [append_assoc, take_append_drop]
    have hdrop := length_drop_lt hnil
    cases h with
    | cons _ again hrest =>
      have hfirst := @handles_data resolve before size name path sent index
        (bytes.take maxDataSize) hne (by omega) (by omega)
      have hagain := @handles_data_again resolve before size name path
        (sent ++ bytes.take maxDataSize) (index + 1)
        (bytes.take maxDataSize) (ofNat sent.length)
        (UInt16.ofNat (bytes.take maxDataSize).length) (by simp [hne])
      have hmore := ih _ (hn ▸ hdrop) hrest (by
        rw [length_append, length_drop, hlen]
        omega) rfl
      rw [← hsplit, UInt32.add_assoc, UInt32.add_comm 1, ← UInt32.ofNat_one, ← UInt32.ofNat_add]
        at hmore
      exact (leads_replicate hfirst hagain again).append hmore

theorem length_receiveAll (deliveries : List (Disk × Bytes)) (fs : FileSystem)
    (s : FileUplink) : (receiveAll deliveries fs s).2.2.length = deliveries.length := by
  induction deliveries generalizing fs s with
  | nil => rfl
  | cons d deliveries ih => exact congrArg (· + 1) (ih _ _)

/-- The file has the contents, no other file has changed, no fault is reported, and the file is
reported once. -/
structure Arrives (before : FileSystem) (path : Os.Path) (contents : Bytes)
    (name : LogStringArg) (stream : List FilePacket)
    (result : FileSystem × FileUplink × List (List Out)) : Prop where
  file : OnlyFile before path contents result.1
  faultless : ∀ outs ∈ result.2.2, ∀ event ∈ events outs, event.isFault = false
  once : ∃ front outs back, result.2.2 = front ++ outs :: back ∧
    front.length = (stream.takeWhile fun packet => packet.packetType ≠ .end_).length ∧
    events outs = [.fileReceived name] ∧
    ∀ outs ∈ front ++ back, ∀ event ∈ events outs, event.isReceived = false

theorem packetType_of_mem_dataPackets {seq offset : UInt32} {bytes : Bytes}
    {packet : FilePacket} (h : packet ∈ dataPackets seq offset bytes) :
    packet.packetType = .data := by
  fun_induction dataPackets seq offset bytes with
  | case1 => cases h
  | case2 seq offset bytes hne ih =>
    rcases mem_cons.mp h with rfl | h
    · rfl
    · exact ih h

/-- The packets of a file, each any number of times in a row, bring the file. -/
theorem transfer_arrives {source dest : PathName} (htext : FwString.isText dest.1 = true)
    (hsize : contents.length = size.toNat)
    (hstream : Repeats (.start 0 size source dest :: dataPackets 1 0 contents ++
      [.end_ (1 + ofNat (dataPackets 1 0 contents).length)
        (Checksum.new.update contents 0).value]) stream)
    {deliveries : List (Disk × Bytes)}
    (hdeliveries : deliveries.map Prod.snd = stream.map comPacket)
    (hperforms : ∀ d ∈ deliveries, d.1.Performs resolve) {fs : FileSystem} {s : FileUplink}
    (hready : Ready before (resolve dest.1) fs s) :
    Arrives before (resolve dest.1) contents (.setBytes _ dest.1) stream
      (receiveAll deliveries fs s) := by
  obtain ⟨body, ends, rfl, hbody, hends⟩ := hstream.split
  have hnoEnd : ∀ packet ∈ body, packet.packetType ≠ .end_ := by
    intro packet hmem
    rcases mem_cons.mp (hbody.mem hmem) with rfl | hmem
    · exact fun h => by cases h
    · rw [packetType_of_mem_dataPackets hmem]
      decide
  have hfront : Leads resolve (Ready before (resolve dest.1)) body
      (Receiving before (resolve dest.1) (.setBytes _ dest.1) size contents
        (0 + ofNat (dataPackets 1 0 contents).length)) Quiet := by
    cases hbody with
    | cons _ again hdata =>
      have hstart := @handles_start resolve before size 0 source dest htext
      refine (leads_replicate hstart (fun disk fs s hdisk h => hstart disk fs s hdisk h.restart)
        again).append ?_
      exact @leads_data resolve before size _ _ 0 _ [] contents hdata
        (by rw [length_nil, zero_add, hsize])
  rw [UInt32.add_comm 1, ← UInt32.zero_add (UInt32.ofNat _)] at hends
  cases hends with
  | cons _ again hnil =>
    cases hnil
    rw [append_nil] at hdeliveries ⊢
    rw [map_append] at hdeliveries
    obtain ⟨front, back, rfl, hfrontMap, hbackMap⟩ := map_eq_append_iff.mp hdeliveries
    cases back with
    | nil => cases hbackMap
    | cons d back =>
      obtain ⟨disk, buffer⟩ := d
      rw [replicate_succ, map_cons, map_cons, cons.injEq] at hbackMap
      obtain ⟨rfl, hbackMap⟩ := hbackMap
      obtain ⟨hreceiving, hquiet⟩ := hfront front fs s hfrontMap
        (fun d hd => hperforms d (mem_append_left _ hd)) hready
      obtain ⟨hreceived, hreport⟩ := handles_end disk _ _
        (hperforms _ (mem_append_right _ mem_cons_self)) hreceiving
      obtain ⟨hdone, hquietBack⟩ := leads_again handles_end_again again back _ _ hbackMap
        (fun d hd => hperforms d (mem_append_right _ (mem_cons_of_mem _ hd))) hreceived
      rw [receiveAll_append]
      refine ⟨hdone.file, fun outs houts event hevent => ?_, _, _, _, rfl, ?_, hreport,
        fun outs houts event hevent => ?_⟩
      · rcases mem_append.mp houts with houts | houts
        · exact (hquiet outs houts event hevent).1
        rcases mem_cons.mp houts with heq | houts
        · have hmem : event = .fileReceived (.setBytes _ dest.1) := by
            rw [← mem_singleton, ← hreport]
            rw [heq] at hevent
            exact hevent
          rw [hmem]
          rfl
        · exact (hquietBack outs houts event hevent).1
      · rw [length_receiveAll, takeWhile_append_of_pos (by simpa using hnoEnd),
          replicate_succ, takeWhile_cons_of_neg (by simp [FilePacket.packetType]),
          append_nil, ← length_map Prod.snd, hfrontMap, length_map]
      · rcases mem_append.mp houts with houts | houts
        · exact (hquiet outs houts event hevent).2
        · exact (hquietBack outs houts event hevent).2

end Transfers

def Parked (s : FileUplink) : Prop :=
  s.receiveMode = .start → s.file.osFile = none

theorem parked_goToStartMode (s : FileUplink) : Parked s.goToStartMode :=
  fun _ => rfl

variable {s : FileUplink}

theorem parked_of_data (h : s.receiveMode = .data) : Parked s :=
  fun hstart => absurd (h.symm.trans hstart) (by decide)

theorem warn_receiveMode (s : FileUplink) (throttle : Throttle) (event : Event) :
    (s.warn throttle event).1.receiveMode = s.receiveMode := by
  obtain ⟨_, hs, -⟩ := warn_eq s throttle event
  rw [hs]

theorem Parked.warn (h : Parked s) (throttle : Throttle) (event : Event) :
    Parked (s.warn throttle event).1 := by
  obtain ⟨_, hs, -⟩ := warn_eq s throttle event
  rw [hs]
  exact h

theorem checkSequenceIndex_receiveMode (s : FileUplink) (index : UInt32) :
    (s.checkSequenceIndex index).1.receiveMode = s.receiveMode := by
  rw [checkSequenceIndex]
  dsimp only
  split
  · exact warn_receiveMode s _ _
  · rfl

theorem Parked.handleDataPacket (h : Parked s) (disk : Disk) (fs : FileSystem)
    (index offset : UInt32) (data : Bytes) :
    Parked (s.handleDataPacket disk fs index offset data).2.1 := by
  unfold FileUplink.handleDataPacket
  split
  · exact h.warn _ _
  next hmode =>
  split
  · exact h.warn _ _
  have hdata : (s.checkSequenceIndex index).1.receiveMode = .data :=
    (checkSequenceIndex_receiveMode s index).trans (Decidable.not_not.mp hmode)
  dsimp only
  split
  · exact parked_of_data ((warn_receiveMode _ _ _).trans hdata)
  · refine parked_of_data ?_
    dsimp only
    split
    · exact (warn_receiveMode _ _ _).trans hdata
    · exact hdata

theorem Parked.handlePacket (h : Parked s) (disk : Disk) (fs : FileSystem) (packet : FilePacket) :
    Parked (s.handlePacket disk fs packet).2.1 := by
  cases packet with
  | start =>
    rw [FileUplink.handlePacket, handleStartPacket]
    dsimp only
    generalize (if s.clearThrottles.receiveMode ≠ .start then _ else _ : FileUplink × List Out) =
      closed
    split
    · exact parked_of_data rfl
    · exact parked_goToStartMode _
  | data => exact h.handleDataPacket _ _ _ _ _
  | end_ =>
    rw [FileUplink.handlePacket, handleEndPacket]
    split
    · dsimp only
      split <;> exact parked_goToStartMode _
    · exact parked_goToStartMode _
  | cancel => exact parked_goToStartMode _

theorem Parked.bufferSendIn (h : Parked s) (disk : Disk) (fs : FileSystem) (buffer : Bytes) :
    Parked (s.bufferSendInHandler disk fs buffer).2.1 := by
  unfold bufferSendInHandler
  split
  · exact h
  split
  · exact h
  split
  · exact h
  · exact h.handlePacket _ _ _

theorem Parked.receiveAll (h : Parked s) (deliveries : List (Disk × Bytes)) (fs : FileSystem) :
    Parked (receiveAll deliveries fs s).2.1 := by
  induction deliveries generalizing fs s with
  | nil => exact h
  | cons d deliveries ih => exact ih (h.bufferSendIn d.1 fs d.2) _

end FileUplink

open FileDownlink (FileEntry Transfer World Undisturbed Sendable wholeFile)

theorem startPacket_eq {entry : FileEntry} (size : UInt32)
    (hfits : entry.destFilename.bytes.length ≤ logStringMaxSize) :
    ∃ source dest, startPacket entry size = .start 0 size source dest ∧
      dest.1 = entry.destFilename.bytes := by
  refine ⟨_, _, rfl, ?_⟩
  have hname : (FwString.setBytes logStringMaxSize entry.destFilename.bytes).bytes =
      entry.destFilename.bytes := setBytes_eq_self hfits entry.destFilename.noNul
  have hmax : logStringMaxSize ≤ pathNameMaxLength := by decide
  rw [hname]
  exact take_of_length_le (le_trans hfits hmax)

theorem wholeFile_arrives {files : FileNameString → Bytes} {entry : FileEntry}
    (hsendable : Sendable files entry) (htext : FwString.isText entry.destFilename.bytes = true)
    (hfits : entry.destFilename.bytes.length ≤ logStringMaxSize)
    {resolve : Bytes → Os.Path} {fs : FileSystem} {s : FileUplink}
    (habsent : fs (resolve entry.destFilename.bytes) = none) (hparked : s.Parked)
    {stream : List FilePacket} (hstream : FileUplink.Repeats (wholeFile files entry) stream)
    {deliveries : List (FileUplink.Disk × Bytes)}
    (hdeliveries : deliveries.map Prod.snd = stream.map comPacket)
    (hperforms : ∀ d ∈ deliveries, d.1.Performs resolve) :
    FileUplink.Arrives fs (resolve entry.destFilename.bytes) (files entry.srcFilename)
      (.setBytes _ entry.destFilename.bytes) stream (receiveAll deliveries fs s) := by
  obtain ⟨source, dest, hstart, hdest⟩ :=
    startPacket_eq (ofNat (files entry.srcFilename).length) hfits
  have hsize : (files entry.srcFilename).length =
      (ofNat (files entry.srcFilename).length).toNat := by
    have := hsendable.fits
    rw [toNat_ofNat', mod_eq_of_lt (by omega)]
  rw [wholeFile, transfer, body, nextIndex,
    checksumOf, hsendable.offset, hstart] at hstream
  rw [← hdest] at habsent htext ⊢
  have hready : FileUplink.Ready fs (resolve dest.1) fs s :=
    ⟨hparked, by rw [habsent]; rfl, fun _ _ => rfl⟩
  exact transfer_arrives htext hsize hstream hdeliveries hperforms hready

/-- While the source files keep their contents, a file that was sent whole arrives as it was,
however often each packet is repeated. -/
theorem file_transfer_exact (files : FileNameString → Bytes)
    (idBase cooldown cycleTime : UInt32) (depth : Nat) {inputs : List FileDownlink.Input}
    (h : AlongM World.step (Undisturbed files)
      (.start (new idBase cooldown cycleTime depth)) inputs) :
    ∃ (w : World) (finished : List Transfer) (current : Option Transfer),
      World.run (.start (new idBase cooldown cycleTime depth)) inputs = .ok w ∧
      w.log = (finished ++ current.toList).flatMap Transfer.records ∧
      (finished ++ current.toList).map Transfer.entry ++ w.comp.fileQueue = w.accepted ∧
      (∀ t ∈ current, (w.taken = some t.entry ∨ w.outstanding ≠ []) ∧
        (Sendable files t.entry → t.packets <+: wholeFile files t.entry)) ∧
      ∀ t ∈ finished, Sendable files t.entry →
        FwString.isText t.entry.destFilename.bytes = true →
        t.entry.destFilename.bytes.length ≤ logStringMaxSize →
        ∀ (resolve : Bytes → Os.Path) (fs : FileSystem),
          fs (resolve t.entry.destFilename.bytes) = none →
        ∀ (earlier : List (FileUplink.Disk × Bytes)) (fsEarlier : FileSystem)
          (stream : List FilePacket) (deliveries : List (FileUplink.Disk × Bytes)),
          FileUplink.Repeats t.packets stream →
          deliveries.map Prod.snd = stream.map comPacket →
          (∀ d ∈ deliveries, d.1.Performs resolve) →
          FileUplink.Arrives fs (resolve t.entry.destFilename.bytes) (files t.entry.srcFilename)
            (.setBytes _ t.entry.destFilename.bytes) stream
            (receiveAll deliveries fs
              (receiveAll earlier fsEarlier .new).2.1) := by
  obtain ⟨w, finished, current, hrun, hfaithful⟩ :=
    whole_files_sent files idBase cooldown cycleTime depth h
  refine ⟨w, finished, current, hrun, hfaithful.sound.log, hfaithful.sound.queue, fun t ht => ?_,
    fun t ht hsendable htext hfits resolve fs habsent earlier fsEarlier stream deliveries hstream
      hdeliveries hperforms => ?_⟩
  · cases hfaithful.sound.phase with
    | resting => cases ht
    | taken entry htaken =>
      cases ht
      exact ⟨.inl htaken, fun _ => nil_prefix⟩
    | sending entry data packets buffer htaken hout =>
      cases ht
      obtain ⟨data, hcopy⟩ := hfaithful.copying _ rfl htaken
      exact ⟨.inr (by rw [hout]; exact cons_ne_nil _ _), hcopy.begins⟩
  · have hparked : (receiveAll earlier fsEarlier .new).2.1.Parked :=
      FileUplink.Parked.receiveAll (fun _ => rfl) earlier fsEarlier
    rw [hfaithful.whole t ht hsendable] at hstream
    exact wholeFile_arrives hsendable htext hfits habsent hparked hstream hdeliveries hperforms

/-! A command for a small file, with all its buffers returned. -/

def readingDisk (contents : Bytes) : FileDownlink.Disk :=
  ⟨.opOk, (.opOk, UInt64.ofNat contents.length), .opOk,
    fun offset count => (.opOk, (contents.drop offset).take count)⟩

def writingDisk : FileUplink.Disk :=
  ⟨id, .opOk, .opOk, .opOk, 2 ^ 16⟩

def sendSmall (args contents : Bytes) : List FileDownlink.Input :=
  .cmdIn 0 7 args :: .run :: .sendFile (readingDisk contents) ::
    replicate 3 (.bufferReturn (readingDisk contents) 0)

theorem sendSmall_undisturbed (args : Bytes) {contents : Bytes}
    (h : contents.length < 2 ^ 64) :
    AlongM World.step (Undisturbed fun _ => contents) (.start (new 0 0 0 1))
      (sendSmall args contents) := by
  have hreads : (readingDisk contents).Reads contents :=
    ⟨rfl, ⟨rfl, UInt64.toNat_ofNat_of_lt' h⟩, rfl, fun _ _ => rfl⟩
  have hidle : Undisturbed (fun _ => contents) (.start (new 0 0 0 1))
      (.cmdIn 0 7 args) := fun hwait => absurd hwait (by decide)
  refine ⟨hidle, fun w _ => alongM_of_forall (fun input hinput w => ?_) w⟩
  rcases mem_cons.mp hinput with rfl | hinput
  · trivial
  rcases mem_cons.mp hinput with rfl | hinput
  · exact fun _ _ => hreads
  · rw [eq_of_mem_replicate hinput]
    exact hreads

theorem repeats_once {α : Type} (list : List α) : FileUplink.Repeats list list := by
  induction list with
  | nil => exact .nil
  | cons a list ih => exact .cons a 0 ih

theorem file_transfer_exact_small :
    ∃ (w : World) (t : Transfer),
      World.run (.start (new 0 0 0 1)) (sendSmall [0, 1, 115, 0, 1, 100] [1, 2, 3]) =
        .ok w ∧
      w.accepted = [t.entry] ∧ w.log = t.records ∧ t.entry.destFilename.bytes = [100] ∧
      FileUplink.Arrives (fun _ => none) [100] [1, 2, 3] (.setBytes _ [100]) t.packets
        (receiveAll (t.packets.map fun packet => (writingDisk, comPacket packet))
          (fun _ => none) .new) := by
  obtain ⟨w, finished, current, hrun, hlog, hqueue, hcurrent, harrives⟩ :=
    file_transfer_exact (fun _ => [1, 2, 3]) 0 0 0 1
      (sendSmall_undisturbed [0, 1, 115, 0, 1, 100] (by decide))
  have heval : (World.run (.start (new 0 0 0 1))
      (sendSmall [0, 1, 115, 0, 1, 100] [1, 2, 3])).toOption.map
        (fun w => (w.accepted, w.comp.fileQueue, w.taken, w.outstanding)) =
      some ([⟨.setBytes _ [115], .setBytes _ [100], 0, 0, .command, 0, 7, 0xFFFFFFFF⟩], [], none,
        []) := by
    decide +kernel
  rw [hrun] at heval
  obtain ⟨haccepted, hempty, htaken, hout⟩ :
      w.accepted = [⟨.setBytes _ [115], .setBytes _ [100], 0, 0, .command, 0, 7, 0xFFFFFFFF⟩] ∧
        w.comp.fileQueue = [] ∧ w.taken = none ∧ w.outstanding = [] := by
    simpa [Except.toOption] using heval
  have hnone : current = none := by
    refine Option.eq_none_iff_forall_not_mem.mpr fun t ht => ?_
    rcases (hcurrent t ht).1 with h | h
    · rw [htaken] at h
      cases h
    · exact h hout
  subst hnone
  rw [hempty, haccepted, append_nil, Option.toList_none, append_nil,
    map_eq_singleton_iff] at hqueue
  obtain ⟨t, rfl, hentry⟩ := hqueue
  have hsendable : Sendable (fun _ => [1, 2, 3]) t.entry := by
    rw [hentry]
    exact ⟨rfl, rfl, by decide +kernel, by decide, by decide⟩
  have hdest : t.entry.destFilename.bytes = [100] := by
    rw [hentry]
    rfl
  refine ⟨w, t, hrun, by rw [haccepted, hentry], by simpa using hlog, hdest, ?_⟩
  rw [← hdest]
  refine harrives t mem_cons_self hsendable (by rw [hdest]; decide +kernel)
    (by rw [hdest]; decide) id (fun _ => none) rfl [] (fun _ => none) t.packets _
    (repeats_once _) (by rw [map_map]; rfl) fun d hd => ?_
  obtain ⟨packet, -, rfl⟩ := mem_map.mp hd
  exact ⟨rfl, rfl, rfl, rfl, le_refl _⟩

def sentBytes (w : World) : List Bytes :=
  w.log.filterMap fun
    | .sent packet => some packet
    | _ => none

/-- A destination that is not text is sent like any other and cannot be opened by the uplink, so
that no file arrives. -/
theorem destination_not_text :
    AlongM World.step (Undisturbed fun _ => [1]) (.start (new 0 0 0 1))
        (sendSmall [0, 1, 115, 0, 1, 255] [1]) ∧
      ∃ packets : List Bytes,
        (World.run (.start (new 0 0 0 1))
          (sendSmall [0, 1, 115, 0, 1, 255] [1])).toOption.map sentBytes = some packets ∧
        packets.length = 3 ∧ writingDisk.Performs id ∧
        (receiveAll (packets.map (writingDisk, ·)) (fun _ => none) .new).1 [255] = none ∧
        ∀ outs ∈ (receiveAll (packets.map (writingDisk, ·)) (fun _ => none) .new).2.2,
          ∀ event ∈ events outs, event.isReceived = false := by
  refine ⟨sendSmall_undisturbed _ (by decide), [comPacket (.start 0 1 ⟨[115], by decide⟩
    ⟨[255], by decide⟩), comPacket (.data 1 0 ⟨[1], by decide⟩), comPacket (.end_ 2 0x01000000)],
    ?_, rfl, ⟨rfl, rfl, rfl, rfl, le_refl _⟩, ?_, ?_⟩
  · decide +kernel
  · decide +kernel
  · decide +kernel

end Fprime.Svc
