import Fprime.Svc.GenericHub.Sending

/-!
# A pair of hubs is transparent

What one hub writes for a call its peer turns back into the same call. Whatever arrives is handled
without a failed assertion, and its buffer goes back.
-/

namespace Fprime.Svc.GenericHub

open Fw Lib Lib.Bytes List Nat UInt32 Runs

def accepts (conn : Connections) : Call → Bool
  | .event _ _ _ _ => conn.eventOut
  | .tlm _ _ _ => conn.tlmOut
  | .serial port _ => port < numSerialOutputPorts && conn.serialOut port
  | .buffer port _ => port < numBufferOutputPorts && conn.bufferOut port
  | .cmdDisp port _ _ => port < cmdDispatcherSequencePorts && conn.cmdDispOut port
  | .cmdResp port _ _ _ => port < cmdDispatcherSequencePorts && conn.cmdRespOut port

theorem deserializeHeader_header (hubType : HubType) (port : Nat) {size : Nat}
    (hsize : size < 2 ^ 16) (data : Bytes) :
    deserializeHeader (header hubType port size ++ data) =
      .ok (hubType, ofNat port, UInt16.ofNat size) := by
  have hlong : ¬(header hubType port size ++ data).length < headerSize := by
    rw [length_append, length_header]
    exact not_lt.mpr (le_add_right _ _)
  have hstored : (UInt16.ofNat size).toNat = size := by
    rw [UInt16.toNat_ofNat']
    exact mod_eq_of_lt hsize
  have hread := deserializeU16_encode (UInt16.ofNat size) data
  rw [hstored] at hread
  rw [deserializeHeader, if_neg hlong, header, append_assoc, append_assoc,
    deserializeU32_encode]
  dsimp only [bind, Except.bind]
  rw [HubType.fromWire_toWire]
  dsimp only
  rw [deserializeU32_encode]
  dsimp only
  rw [hread]
  rfl

theorem toNat_ofNat_port {port count : Nat} (h : port < count) (hcount : count ≤ 10) :
    (ofNat port).toNat = port := by
  rw [toNat_ofNat']
  omega

theorem connected_ofNat (ports : Nat → Bool) {port count inputs : Nat} (h : port < inputs)
    (hinputs : inputs ≤ 10) :
    connected ports count (ofNat port) = (decide (port < count) && ports port) := by
  rw [connected, toNat_ofNat_port h hinputs]

theorem unpack_payload (conn : Connections) {call : Call} (h : Sendable call)
    (hbuffer : hubType call ≠ .buffer) :
    unpack conn (hubType call) (ofNat (portOf call)) (payload call) =
      .ok (if accepts conn call then some call else none) := by
  cases call with
  | event id timeTag severity args =>
    have hargs : args.1.length ≤ 506 := args.2
    have hread := deserializeBuffer_encode args (by omega) []
    rw [append_nil] at hread
    rw [hubType, unpack, portOf, payload, receiveEvent, deserializeU32_encode]
    dsimp only [bind, Except.bind]
    rw [Time.deserialize_serialized]
    dsimp only
    rw [deserializeEnum_cons severity.tryFrom_asRepr]
    dsimp only
    rw [hread]
    cases hconn : conn.eventOut <;>
      simp [accepts, hconn, pure, Except.pure, Except.toOption]
  | tlm id timeTag val =>
    have hval : val.1.length ≤ 506 := val.2
    have hread := deserializeBuffer_encode val (by omega) []
    rw [append_nil] at hread
    rw [hubType, unpack, portOf, payload, receiveChannel, deserializeU32_encode]
    dsimp only [bind, Except.bind]
    rw [Time.deserialize_serialized]
    dsimp only
    rw [hread]
    cases hconn : conn.tlmOut <;>
      simp [accepts, hconn, pure, Except.pure, Except.toOption]
  | serial port bytes =>
    rw [hubType, unpack, portOf, connected_ofNat _ h.1 (by decide),
      toNat_ofNat_port h.1 (by decide)]
    rfl
  | buffer port buffer => exact absurd rfl hbuffer
  | cmdDisp port data context =>
    have hlen : data.1.length ≤ 512 := data.2
    have hpayload : (payload (.cmdDisp port data context)).length = data.1.length + 4 := by
      rw [payload, length_append, encodeBE_length]
    have hread := deserializeU32_encode context []
    rw [append_nil] at hread
    have htake : (payload (.cmdDisp port data context)).take data.1.length = data.1 :=
      take_left
    have hdrop : (payload (.cmdDisp port data context)).drop data.1.length =
        encodeBE 4 context.toNat := drop_left
    rw [hubType, unpack, receiveCmdDisp, hpayload, if_neg (by
      simp only [comBufferMaxSize]
      omega)]
    dsimp only
    rw [Nat.add_sub_cancel, dif_pos (by rw [htake]; exact data.2), if_neg (by omega), hdrop, hread]
    dsimp only
    rw [portOf, connected_ofNat _ h (by decide), toNat_ofNat_port h (by decide)]
    simp only [htake]
    rfl
  | cmdResp port opCode cmdSeq response =>
    rw [hubType, unpack, portOf, payload, receiveCmdResp, deserializeU32_encode]
    dsimp only [bind, Except.bind]
    rw [deserializeU32_encode]
    dsimp only
    rw [deserializeEnum_cons response.tryFrom_asRepr]
    dsimp only
    rw [connected_ofNat _ h (by decide), toNat_ofNat_port h (by decide)]
    simp [accepts, pure, Except.pure, Except.toOption]

def calls (outs : List Out) : List Call :=
  outs.filterMap fun
    | .call call => some call
    | _ => none

/-- The same call on the same port; a buffer has the same bytes in other storage. -/
def Same : Call → Call → Prop
  | .buffer port buffer, copy => ∃ buffer', copy = .buffer port buffer' ∧ buffer'.data = buffer.data
  | call, copy => copy = call

variable {incoming : Buffer} {data : Bytes} {conn : Connections} {call : Option Call}
  {port : UInt32}

theorem dispatch_message (conn : Connections) {hubType : HubType} {port : Nat}
    (hlen : data.length < 2 ^ 16) (hdata : incoming.data = header hubType port data.length ++ data) :
    dispatch conn incoming =
      if hubType = .buffer then do
        let buffer ← incoming.advance headerSize
        if connected conn.bufferOut numBufferOutputPorts (ofNat port) then
          return [.call (.buffer (ofNat port).toNat buffer)]
        else return [.fromBufferDriverReturn buffer]
      else do
        let call ← unpack conn hubType (ofNat port) data
        return (call.toList.map .call) ++ [.fromBufferDriverReturn incoming] := by
  have hsize : incoming.size = headerSize + data.length := by
    rw [← Buffer.length_data, hdata, length_append, length_header]
  have hstored : (UInt16.ofNat data.length).toNat = data.length := by
    rw [UInt16.toNat_ofNat']
    exact mod_eq_of_lt hlen
  have hmatch : ¬(UInt16.ofNat data.length).toNat ≠ incoming.size - headerSize := by
    rw [hstored, hsize, Nat.add_sub_cancel_left]
    exact fun h => h rfl
  have hdrop : incoming.data.drop headerSize = data := by
    rw [hdata, ← length_header hubType port data.length, drop_left]
  rw [dispatch, hdata, deserializeHeader_header hubType port hlen data]
  dsimp only
  rw [if_neg hmatch, ← hdata, hdrop]

theorem receive_call (conn : Connections) {call : Call} (h : Sendable call)
    (hbuffer : hubType call ≠ .buffer)
    (hdata : incoming.data = header (hubType call) (portOf call) (payload call).length ++ payload call) :
    ∃ outs, dispatch conn incoming = .ok outs ∧
      calls outs = if accepts conn call then [call] else [] := by
  rw [dispatch_message conn (length_payload_lt h) hdata, if_neg hbuffer,
    unpack_payload conn h hbuffer]
  refine ⟨_, rfl, ?_⟩
  cases accepts conn call <;> rfl

theorem receive_buffer (conn : Connections) {port : Nat} {buffer : Buffer}
    (h : Sendable (.buffer port buffer))
    (hdata : incoming.data = header .buffer port buffer.data.length ++ buffer.data) :
    ∃ outs buffer', dispatch conn incoming = .ok outs ∧ buffer'.data = buffer.data ∧
      calls outs = if accepts conn (.buffer port buffer) then [.buffer port buffer'] else [] := by
  have hsize : headerSize ≤ incoming.size := by
    rw [← Buffer.length_data, hdata, length_append, length_header]
    exact le_add_right _ _
  obtain ⟨buffer', hadvance, hrest, -⟩ := Buffer.advance_eq headerSize_pos hsize
  have hbytes : buffer'.data = buffer.data := by
    rw [hrest, hdata, ← length_header .buffer port buffer.data.length, drop_left]
  have haccepts : connected conn.bufferOut numBufferOutputPorts (ofNat port) =
      accepts conn (.buffer port buffer) := connected_ofNat _ h.1 (by decide)
  rw [dispatch_message conn (length_payload_lt h) hdata, if_pos rfl, hadvance,
    haccepts, toNat_ofNat_port h.1 (by decide)]
  dsimp only [bind, Except.bind]
  cases accepts conn (.buffer port buffer)
  · exact ⟨_, buffer', rfl, hbytes, rfl⟩
  · exact ⟨_, buffer', rfl, hbytes, rfl⟩

/-- At most one output is invoked, and the buffer goes back to the driver, at once or when its
consumer returns it. -/
inductive Delivery (conn : Connections) (incoming : Buffer) : List Out → Prop
  | dropped (buffer : Buffer) (hsame : incoming.SameStorage buffer) :
      Delivery conn incoming [.fromBufferDriverReturn buffer]
  | called (call : Call) (hcall : hubType call ≠ .buffer) (haccepts : accepts conn call) :
      Delivery conn incoming [.call call, .fromBufferDriverReturn incoming]
  | handed (port : Nat) (buffer : Buffer) (hsame : incoming.SameStorage buffer)
      (haccepts : accepts conn (.buffer port buffer))
      (hreturn : ∀ buffer, bufferOutReturnHandler port buffer =
        .ok [.fromBufferDriverReturn buffer]) :
      Delivery conn incoming [.call (.buffer port buffer)]

/-- What an output is invoked with came out of a message of its type. -/
def Unpacked (conn : Connections) (call : Option Call) : Prop :=
  ∀ c, call = some c → hubType c ≠ .buffer ∧ accepts conn c = true

theorem Unpacked.none (conn : Connections) : Unpacked conn none :=
  fun _ h => absurd h.symm (Option.some_ne_none _)

theorem Unpacked.ite {p : Prop} [Decidable p] {call : Call} (hcall : hubType call ≠ .buffer)
    (haccepts : p → accepts conn call = true) :
    Unpacked conn (if p then some call else .none) := by
  split
  · rename_i h
    intro c hc
    cases hc
    exact ⟨hcall, haccepts h⟩
  · exact .none conn

theorem Unpacked.join {r : Except SerializeStatus (Option Call)}
    (h : ∀ call, r = .ok call → Unpacked conn call) : Unpacked conn r.toOption.join := by
  cases r with
  | error _ => exact .none conn
  | ok call => exact h call rfl

theorem receiveEvent_unpacked (h : receiveEvent conn port data = .ok call) :
    Unpacked conn call := by
  obtain ⟨⟨id, _⟩, -, h⟩ := bind_eq_ok.mp h
  obtain ⟨⟨timeTag, _⟩, -, h⟩ := bind_eq_ok.mp h
  obtain ⟨⟨severity, _⟩, -, h⟩ := bind_eq_ok.mp h
  obtain ⟨⟨args, _⟩, -, h⟩ := bind_eq_ok.mp h
  cases h
  exact .ite HubType.noConfusion And.right

theorem receiveChannel_unpacked (h : receiveChannel conn port data = .ok call) :
    Unpacked conn call := by
  obtain ⟨⟨id, _⟩, -, h⟩ := bind_eq_ok.mp h
  obtain ⟨⟨timeTag, _⟩, -, h⟩ := bind_eq_ok.mp h
  obtain ⟨⟨val, _⟩, -, h⟩ := bind_eq_ok.mp h
  cases h
  exact .ite HubType.noConfusion And.right

theorem receiveCmdResp_unpacked (h : receiveCmdResp conn port data = .ok call) :
    Unpacked conn call := by
  obtain ⟨⟨opCode, _⟩, -, h⟩ := bind_eq_ok.mp h
  obtain ⟨⟨cmdSeq, _⟩, -, h⟩ := bind_eq_ok.mp h
  obtain ⟨⟨response, _⟩, -, h⟩ := bind_eq_ok.mp h
  cases h
  exact .ite HubType.noConfusion id

theorem receiveCmdDisp_unpacked (conn : Connections) (port : UInt32) (data : Bytes) :
    ∃ call, receiveCmdDisp conn port data = .ok call ∧ Unpacked conn call := by
  rw [receiveCmdDisp]
  split
  · exact ⟨_, rfl, .none conn⟩
  · rename_i hlen
    have htake : (data.take (data.length - 4)).length ≤ comBufferMaxSize := by
      rw [length_take]
      omega
    dsimp only
    rw [dif_pos htake, if_neg (by omega)]
    cases deserializeU32 (data.drop (data.length - 4)) with
    | error _ => exact ⟨_, rfl, .none conn⟩
    | ok r => exact ⟨_, rfl, .ite HubType.noConfusion id⟩

theorem unpack_unpacked (conn : Connections) (hubType : HubType) (port : UInt32)
    (data : Bytes) :
    ∃ call, unpack conn hubType port data = .ok call ∧ Unpacked conn call := by
  cases hubType with
  | port => exact ⟨_, rfl, .ite HubType.noConfusion id⟩
  | buffer => exact ⟨_, rfl, .none conn⟩
  | event => exact ⟨_, rfl, .join fun _ h => receiveEvent_unpacked h⟩
  | channel => exact ⟨_, rfl, .join fun _ h => receiveChannel_unpacked h⟩
  | cmdDisp => exact receiveCmdDisp_unpacked conn port data
  | cmdResp => exact ⟨_, rfl, .join fun _ h => receiveCmdResp_unpacked h⟩

theorem header_fits {hubType : HubType} {size : UInt16}
    (h : deserializeHeader data = .ok (hubType, port, size)) : headerSize ≤ data.length := by
  rw [deserializeHeader] at h
  split at h
  · cases h
  · rename_i hlong
    exact not_lt.mp hlong

theorem dispatch_delivery (conn : Connections) (incoming : Buffer) :
    ∃ outs, dispatch conn incoming = .ok outs ∧ Delivery conn incoming outs := by
  rw [dispatch]
  cases hheader : deserializeHeader incoming.data with
  | error _ => exact ⟨_, rfl, .dropped incoming ⟨rfl, rfl⟩⟩
  | ok r =>
    obtain ⟨hubType, port, size⟩ := r
    have hfits := header_fits hheader
    rw [Buffer.length_data] at hfits
    dsimp only
    split
    · exact ⟨_, rfl, .dropped incoming ⟨rfl, rfl⟩⟩
    · split
      · obtain ⟨buffer, hadvance, -, hsame⟩ := Buffer.advance_eq headerSize_pos hfits
        rw [hadvance]
        dsimp only [bind, Except.bind]
        split
        · rename_i hconnected
          refine ⟨_, rfl, .handed port.toNat buffer hsame hconnected fun buffer' => ?_⟩
          have hport : port.toNat < numBufferOutputPorts :=
            of_decide_eq_true (Bool.and_eq_true_iff.mp hconnected).1
          rw [bufferOutReturnHandler, assertPort_eq hport]
          rfl
        · exact ⟨_, rfl, .dropped buffer hsame⟩
      · obtain ⟨call, hcall, hunpacked⟩ :=
          unpack_unpacked conn hubType port (incoming.data.drop headerSize)
        rw [hcall]
        refine ⟨_, rfl, ?_⟩
        cases call with
        | none => exact .dropped incoming ⟨rfl, rfl⟩
        | some call =>
          obtain ⟨hne, haccepts⟩ := hunpacked call rfl
          exact .called call hne haccepts

/-- Each call on a hub is made once on the same port of the other, if that is connected. Any other
bytes do no harm, and each buffer goes back once. -/
theorem hub_pair_transparent {allocate : Nat → Buffer} (hallocate : ∀ n, n ≤ (allocate n).size) :
    (∀ call, Sendable call → ∃ transport,
      send allocate call = .ok (.toBufferDriver transport :: returned call) ∧
      ∀ (conn : Connections) (incoming : Buffer), incoming.data = transport.data →
        ∃ outs copy, fromBufferDriverHandler conn 0 incoming = .ok outs ∧ Same call copy ∧
          calls outs = if accepts conn call then [copy] else []) ∧
    ∀ (conn : Connections) (incoming : Buffer),
      ∃ outs, fromBufferDriverHandler conn 0 incoming = .ok outs ∧ Delivery conn incoming outs := by
  refine ⟨fun call h => ?_, dispatch_delivery⟩
  obtain ⟨transport, hsend, hdata⟩ := send_eq hallocate h
  refine ⟨transport, hsend, fun conn incoming hincoming => ?_⟩
  rw [← hincoming] at hdata
  by_cases hbuffer : hubType call = .buffer
  · cases call with
    | buffer port buffer =>
      obtain ⟨outs, buffer', houts, hbytes, hcalls⟩ := receive_buffer conn h hdata
      exact ⟨outs, .buffer port buffer', houts, ⟨buffer', rfl, hbytes⟩, hcalls⟩
    | event id timeTag severity args | tlm id timeTag val | serial port bytes
    | cmdDisp port data context | cmdResp port opCode cmdSeq response => cases hbuffer
  · obtain ⟨outs, houts, hcalls⟩ := receive_call conn h hbuffer hdata
    refine ⟨outs, call, houts, ?_, hcalls⟩
    cases call with
    | buffer port buffer => exact absurd rfl hbuffer
    | event id timeTag severity args | tlm id timeTag val | serial port bytes
    | cmdDisp port data context | cmdResp port opCode cmdSeq response => rfl

def allConnected : Connections :=
  ⟨true, true, fun _ => true, fun _ => true, fun _ => true, fun _ => true⟩

theorem hub_pair_transparent_allocate :
    (∀ n, n ≤ (Buffer.allocate n).size) ∧
    (∃ transport, send Buffer.allocate (.serial 3 [1, 2]) = .ok [.toBufferDriver transport] ∧
      ∀ incoming : Buffer, incoming.data = transport.data →
        ∃ outs, fromBufferDriverHandler allConnected 0 incoming = .ok outs ∧
          calls outs = [.serial 3 [1, 2]]) ∧
    ∃ outs, fromBufferDriverHandler allConnected 0 (.allocate 3) = .ok outs ∧
      Delivery allConnected (.allocate 3) outs := by
  obtain ⟨hsent, hany⟩ := @hub_pair_transparent Buffer.allocate fun n => le_refl n
  obtain ⟨transport, hsend, hreceive⟩ := hsent (.serial 3 [1, 2]) ⟨by decide, by decide⟩
  refine ⟨fun n => le_refl n, ⟨transport, hsend, fun incoming hincoming => ?_⟩, hany _ _⟩
  obtain ⟨outs, copy, houts, hsame, hcalls⟩ := hreceive allConnected incoming hincoming
  cases hsame
  exact ⟨outs, houts, hcalls⟩

/-- A buffer without storage has no bytes, but it is not sent. -/
theorem empty_buffer_asserts :
    Buffer.empty.size = 0 ∧ Buffer.empty.data = [] ∧
      send Buffer.allocate (.buffer 0 .empty) = .error .panic :=
  ⟨rfl, rfl, rfl⟩

end Fprime.Svc.GenericHub
