import Fprime.Svc.GenericHub

/-!
# What a hub sends

Each call is written as a header and a payload. The scratch buffers and the allocated buffer are
large enough for both, so that no assertion fails.
-/

namespace Fprime.Svc.GenericHub

open Fw Lib Lib.Bytes List Nat SerBuf

theorem assertOk_write_bind {α : Type} (b : SerBuf) (x y : Bytes) (k : SerBuf → Codec α) :
    (assertOk (b.writeRaw x) >>= fun b => assertOk (b.writeRaw y) >>= k) =
      assertOk (b.writeRaw (x ++ y)) >>= k := by
  rw [← writeRaw_bind_writeRaw]
  cases b.writeRaw x <;> rfl

theorem assertOk_write_empty {α : Type} {capacity : Nat} {bytes : Bytes}
    (h : bytes.length ≤ capacity) (k : SerBuf → Codec α) :
    (assertOk ((empty capacity).writeRaw bytes) >>= k) = k ⟨capacity, bytes, h⟩ := by
  rw [writeRaw_empty h]
  rfl

theorem serializeBuffer_eq (b : SerBuf) {val : Bytes} (hlen : val.length < 2 ^ 16) :
    b.serializeBuffer val = b.writeRaw (encodeBE 2 val.length ++ val) := by
  have hstored : (UInt16.ofNat val.length).toNat = val.length := by
    rw [UInt16.toNat_ofNat']
    exact mod_eq_of_lt hlen
  rw [serializeBuffer, serializeU16, hstored, writeRaw_bind_writeRaw]
  split
  · rw [writeRaw, dif_neg]
    rw [length_append, encodeBE_length]
    omega
  · rfl

def header (hubType : HubType) (port : Nat) (size : Nat) : Bytes :=
  encodeBE 4 hubType.toWire.toNat ++ (encodeBE 4 (UInt32.ofNat port).toNat ++ encodeBE 2 size)

theorem length_header (hubType : HubType) (port size : Nat) :
    (header hubType port size).length = headerSize := by
  simp only [header, length_append, encodeBE_length]
  rfl

def payload : Call → Bytes
  | .event id timeTag severity args => encodeBE 4 id.toNat ++ (timeTag.serialized ++
      (severity.asRepr :: (encodeBE 2 args.1.length ++ args.1)))
  | .tlm id timeTag val =>
      encodeBE 4 id.toNat ++ (timeTag.serialized ++ (encodeBE 2 val.1.length ++ val.1))
  | .serial _ bytes => bytes
  | .buffer _ buffer => buffer.data
  | .cmdDisp _ data context => data.1 ++ encodeBE 4 context.toNat
  | .cmdResp _ opCode cmdSeq response =>
      encodeBE 4 opCode.toNat ++ (encodeBE 4 cmdSeq.toNat ++ [response.asRepr])

def hubType : Call → HubType
  | .event _ _ _ _ => .event
  | .tlm _ _ _ => .channel
  | .serial _ _ => .port
  | .buffer _ _ => .buffer
  | .cmdDisp _ _ _ => .cmdDisp
  | .cmdResp _ _ _ _ => .cmdResp

def portOf : Call → Nat
  | .event _ _ _ _ => 0
  | .tlm _ _ _ => 0
  | .serial port _ => port
  | .buffer port _ => port
  | .cmdDisp port _ _ => port
  | .cmdResp port _ _ _ => port

/-- A call on a port that there is, with a payload whose size can be written. -/
def Sendable : Call → Prop
  | .event _ _ _ _ => True
  | .tlm _ _ _ => True
  | .serial port bytes => port < numSerialInputPorts ∧ bytes.length ≤ 65535
  | .buffer port buffer => port < numBufferInputPorts ∧ buffer.size ≤ 65535 ∧ buffer.storage ≠ []
  | .cmdDisp port _ _ => port < cmdDispatcherSequencePorts
  | .cmdResp port _ _ _ => port < cmdDispatcherSequencePorts

def returned : Call → List Out
  | .buffer port buffer => [.bufferInReturn port buffer]
  | _ => []

theorem assertPort_eq {port count : Nat} (h : port < count) : assertPort port count = .ok () := by
  rw [assertPort, fwAssert, if_pos (decide_eq_true h)]

theorem length_payload_lt {call : Call} (h : Sendable call) : (payload call).length < 2 ^ 16 := by
  cases call with
  | event id timeTag severity args =>
    have hargs : args.1.length ≤ 506 := args.2
    have htime : timeTag.serialized.length = 11 := timeTag.length_serialized
    simp only [payload, length_append, length_cons, encodeBE_length]
    omega
  | tlm id timeTag val =>
    have hval : val.1.length ≤ 506 := val.2
    have htime : timeTag.serialized.length = 11 := timeTag.length_serialized
    simp only [payload, length_append, encodeBE_length]
    omega
  | serial port bytes => exact lt_succ_of_le h.2
  | buffer port buffer =>
    rw [payload, Buffer.length_data]
    exact lt_succ_of_le h.2.1
  | cmdDisp port data context =>
    have hlen : data.1.length ≤ 512 := data.2
    simp only [payload, length_append, encodeBE_length]
    omega
  | cmdResp port opCode cmdSeq response =>
    simp only [payload, length_append, encodeBE_length, length_singleton]
    omega

theorem send_payload (allocate : Nat → Buffer) {call : Call} (h : Sendable call) :
    send allocate call = (do
      let transport ← sendData allocate (hubType call) (portOf call) (payload call)
      return .toBufferDriver transport :: returned call) := by
  cases call with
  | event id timeTag severity args =>
    have hargs : args.1.length ≤ 506 := args.2
    have hroom : (payload (.event id timeTag severity args)).length ≤ eventPayloadMax := by
      have htime : timeTag.serialized.length = 11 := timeTag.length_serialized
      have hmax : eventPayloadMax = 524 := rfl
      simp only [payload, length_append, length_cons, encodeBE_length]
      omega
    rw [send, eventInHandler, assertPort_eq zero_lt_one]
    simp only [Codec.ok_bind, serializeU32, serializeU8, Time.serializeTo_eq,
      serializeBuffer_eq _ (show args.1.length < 2 ^ 16 by omega), assertOk_write_bind,
      singleton_append]
    exact assertOk_write_empty hroom _
  | tlm id timeTag val =>
    have hval : val.1.length ≤ 506 := val.2
    have hroom : (payload (.tlm id timeTag val)).length ≤ channelPayloadMax := by
      have htime : timeTag.serialized.length = 11 := timeTag.length_serialized
      have hmax : channelPayloadMax = 523 := rfl
      simp only [payload, length_append, encodeBE_length]
      omega
    rw [send, tlmInHandler, assertPort_eq zero_lt_one]
    simp only [Codec.ok_bind, serializeU32, Time.serializeTo_eq,
      serializeBuffer_eq _ (show val.1.length < 2 ^ 16 by omega), assertOk_write_bind]
    exact assertOk_write_empty hroom _
  | serial port bytes =>
    rw [send, serialInHandler, assertPort_eq h.1]
    rfl
  | buffer port buffer =>
    rw [send, bufferInHandler, assertPort_eq h.1, decide_eq_true h.2.2, fwAssert_true]
    rfl
  | cmdDisp port data context =>
    have hroom : (payload (.cmdDisp port data context)).length ≤ cmdDispPayloadMax := by
      have hlen : data.1.length ≤ 512 := data.2
      have hmax : cmdDispPayloadMax = 516 := rfl
      simp only [payload, length_append, encodeBE_length]
      omega
    rw [send, cmdDispInHandler, assertPort_eq h]
    simp only [Codec.ok_bind, serializeU32, assertOk_write_bind]
    exact assertOk_write_empty hroom _
  | cmdResp port opCode cmdSeq response =>
    have hroom : (payload (.cmdResp port opCode cmdSeq response)).length ≤ cmdRespPayloadSize := by
      simp only [payload, length_append, encodeBE_length, length_singleton]
      decide
    rw [send, cmdRespInHandler, assertPort_eq h]
    simp only [Codec.ok_bind, serializeU32, serializeU8, assertOk_write_bind]
    exact assertOk_write_empty hroom _

section

variable {allocate : Nat → Buffer} (hallocate : ∀ n, n ≤ (allocate n).size)

include hallocate

theorem sendData_eq (hubType : HubType) (port : Nat) (data : Bytes)
    (hlen : data.length < 2 ^ 16) :
    ∃ b, sendData allocate hubType port data = .ok b ∧
      b.data = header hubType port data.length ++ data := by
  have hlength : data.length % 2 ^ 16 = data.length := mod_eq_of_lt hlen
  have hstored : (UInt16.ofNat data.length).toNat = data.length := by
    rw [UInt16.toNat_ofNat']
    exact hlength
  have hrequest : (data.length + headerSize) % 2 ^ 32 = headerSize + data.length := by
    rw [add_comm, mod_eq_of_lt]
    simp only [headerSize]
    omega
  have hroom := hallocate ((data.length + headerSize) % 2 ^ 32)
  rw [sendData, hlength]
  dsimp only
  rw [take_length]
  generalize allocate ((data.length + headerSize) % 2 ^ 32) = outgoing at hroom
  have hfits : (header hubType port data.length ++ data).length ≤ outgoing.size := by
    rw [length_append, length_header]
    exact hrequest ▸ hroom
  obtain ⟨b, hb⟩ := Buffer.setSize_overwrite hfits
  refine ⟨b, ?_, (Buffer.data_overwrite hfits hb).1⟩
  simp only [serializeU32, serializeU16, hstored, assertOk_write_bind]
  have hbytes : encodeBE 4 hubType.toWire.toNat ++ (encodeBE 4 (UInt32.ofNat port).toNat ++
      (encodeBE 2 data.length ++ data)) = header hubType port data.length ++ data := by
    rw [header, append_assoc, append_assoc]
  rw [hbytes]
  exact (assertOk_write_empty hfits _).trans ((dif_pos hfits).trans hb)

theorem send_eq {call : Call} (h : Sendable call) :
    ∃ transport, send allocate call = .ok (.toBufferDriver transport :: returned call) ∧
      transport.data = header (hubType call) (portOf call) (payload call).length ++
        payload call := by
  obtain ⟨transport, hsend, hdata⟩ :=
    sendData_eq hallocate (hubType call) (portOf call) (payload call) (length_payload_lt h)
  refine ⟨transport, ?_, hdata⟩
  rw [send_payload allocate h, hsend]
  rfl

end

end Fprime.Svc.GenericHub
