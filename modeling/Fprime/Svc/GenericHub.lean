import Fprime.Fw.Buffer
import Fprime.Fw.Log
import Fprime.Fw.Tlm

/-!
# The hub between two deployments

A hub writes the calls on its input ports into transport buffers for a driver, and turns the buffers
that arrive back into calls.
-/

namespace Fprime.Svc

open Fw Lib.Bytes

namespace GenericHub

inductive HubType where
  | port
  | buffer
  | event
  | channel
  | cmdDisp
  | cmdResp
  deriving DecidableEq

namespace HubType

def toWire : HubType → UInt32
  | port => 0
  | buffer => 1
  | event => 2
  | channel => 3
  | cmdDisp => 4
  | cmdResp => 5

def fromWire (value : UInt32) : Option HubType :=
  [port, buffer, event, channel, cmdDisp, cmdResp].find? fun t => t.toWire = value

theorem fromWire_toWire (t : HubType) : fromWire t.toWire = some t := by
  cases t <;> decide

end HubType

def numSerialInputPorts : Nat := 10

def numSerialOutputPorts : Nat := 10

def numBufferInputPorts : Nat := 10

def numBufferOutputPorts : Nat := 10

def cmdDispatcherSequencePorts : Nat := 5

def headerSize : Nat := 10

theorem headerSize_pos : 0 < headerSize := by
  decide

def eventPayloadMax : Nat := 4 + Time.serializedSize + 1 + 2 + logBufferMaxSize

def channelPayloadMax : Nat := 4 + Time.serializedSize + 2 + tlmBufferMaxSize

def cmdDispPayloadMax : Nat := comBufferMaxSize + 4

def cmdRespPayloadSize : Nat := 4 + 4 + 1

inductive Call where
  | event (id : UInt32) (timeTag : Time) (severity : LogSeverity) (args : LogBuffer)
  | tlm (id : UInt32) (timeTag : Time) (val : TlmBuffer)
  | serial (port : Nat) (bytes : Bytes)
  | buffer (port : Nat) (buffer : Buffer)
  | cmdDisp (port : Nat) (data : ComBuffer) (context : UInt32)
  | cmdResp (port : Nat) (opCode cmdSeq : UInt32) (response : CmdResponse)

inductive Out where
  | call (call : Call)
  | bufferInReturn (port : Nat) (buffer : Buffer)
  | toBufferDriver (buffer : Buffer)
  | fromBufferDriverReturn (buffer : Buffer)
  | deallocate (buffer : Buffer)

structure Connections where
  eventOut : Bool
  tlmOut : Bool
  serialOut : Nat → Bool
  bufferOut : Nat → Bool
  cmdDispOut : Nat → Bool
  cmdRespOut : Nat → Bool

def assertOk {α : Type} (r : Codec α) : Codec α :=
  r.mapError fun _ => .panic

def assertPort (port count : Nat) : Codec Unit :=
  fwAssert (port < count)

/-- The header and the payload with its length, in an allocated buffer. -/
def sendData (allocate : Nat → Buffer) (hubType : HubType) (port : Nat) (data : Bytes) :
    Codec Buffer := do
  let outgoing := allocate ((data.length + headerSize) % 2 ^ 32)
  let serializer := SerBuf.empty outgoing.size
  let serializer ← assertOk (serializer.serializeU32 hubType.toWire)
  let serializer ← assertOk (serializer.serializeU32 (UInt32.ofNat port))
  -- the size is cast to its type before the call
  let length := data.length % 2 ^ 16
  let serializer ← assertOk (serializer.serializeU16 (UInt16.ofNat length))
  let serializer ← assertOk (serializer.writeRaw (data.take length))
  if h : serializer.bytes.length ≤ outgoing.size then
    (outgoing.overwrite serializer.bytes h).setSize serializer.bytes.length
  else throw .panic

def eventInHandler (allocate : Nat → Buffer) (port : Nat) (id : UInt32) (timeTag : Time)
    (severity : LogSeverity) (args : LogBuffer) : Codec (List Out) := do
  assertPort port 1
  let serializer ← assertOk ((SerBuf.empty eventPayloadMax).serializeU32 id)
  let serializer ← assertOk (timeTag.serializeTo serializer)
  let serializer ← assertOk (serializer.serializeU8 severity.asRepr)
  let serializer ← assertOk (serializer.serializeBuffer args.1)
  let outgoing ← sendData allocate .event port serializer.bytes
  return [.toBufferDriver outgoing]

def tlmInHandler (allocate : Nat → Buffer) (port : Nat) (id : UInt32) (timeTag : Time)
    (val : TlmBuffer) : Codec (List Out) := do
  assertPort port 1
  let serializer ← assertOk ((SerBuf.empty channelPayloadMax).serializeU32 id)
  let serializer ← assertOk (timeTag.serializeTo serializer)
  let serializer ← assertOk (serializer.serializeBuffer val.1)
  let outgoing ← sendData allocate .channel port serializer.bytes
  return [.toBufferDriver outgoing]

def serialInHandler (allocate : Nat → Buffer) (port : Nat) (bytes : Bytes) :
    Codec (List Out) := do
  assertPort port numSerialInputPorts
  let outgoing ← sendData allocate .port port bytes
  return [.toBufferDriver outgoing]

/-- The data is copied and the buffer goes back at once. -/
def bufferInHandler (allocate : Nat → Buffer) (port : Nat) (buffer : Buffer) :
    Codec (List Out) := do
  assertPort port numBufferInputPorts
  fwAssert (buffer.storage ≠ [])
  let outgoing ← sendData allocate .buffer port buffer.data
  return [.toBufferDriver outgoing, .bufferInReturn port buffer]

/-- The command has no length of its own. -/
def cmdDispInHandler (allocate : Nat → Buffer) (port : Nat) (data : ComBuffer)
    (context : UInt32) : Codec (List Out) := do
  assertPort port cmdDispatcherSequencePorts
  let serializer ← assertOk ((SerBuf.empty cmdDispPayloadMax).writeRaw data.1)
  let serializer ← assertOk (serializer.serializeU32 context)
  let outgoing ← sendData allocate .cmdDisp port serializer.bytes
  return [.toBufferDriver outgoing]

def cmdRespInHandler (allocate : Nat → Buffer) (port : Nat) (opCode cmdSeq : UInt32)
    (response : CmdResponse) : Codec (List Out) := do
  assertPort port cmdDispatcherSequencePorts
  let serializer ← assertOk ((SerBuf.empty cmdRespPayloadSize).serializeU32 opCode)
  let serializer ← assertOk (serializer.serializeU32 cmdSeq)
  let serializer ← assertOk (serializer.serializeU8 response.asRepr)
  let outgoing ← sendData allocate .cmdResp port serializer.bytes
  return [.toBufferDriver outgoing]

def send (allocate : Nat → Buffer) : Call → Codec (List Out)
  | .event id timeTag severity args => eventInHandler allocate 0 id timeTag severity args
  | .tlm id timeTag val => tlmInHandler allocate 0 id timeTag val
  | .serial port bytes => serialInHandler allocate port bytes
  | .buffer port buffer => bufferInHandler allocate port buffer
  | .cmdDisp port data context => cmdDispInHandler allocate port data context
  | .cmdResp port opCode cmdSeq response => cmdRespInHandler allocate port opCode cmdSeq response

def toBufferDriverReturnHandler (port : Nat) (buffer : Buffer) : Codec (List Out) := do
  assertPort port 1
  return [.deallocate buffer]

def bufferOutReturnHandler (port : Nat) (buffer : Buffer) : Codec (List Out) := do
  assertPort port numBufferOutputPorts
  return [.fromBufferDriverReturn buffer]

def connected (ports : Nat → Bool) (count : Nat) (port : UInt32) : Bool :=
  port.toNat < count && ports port.toNat

def deserializeHeader (incoming : Bytes) :
    Except SerializeStatus (HubType × UInt32 × UInt16) :=
  if incoming.length < headerSize then .error .deserSizeMismatch
  else do
    let (typeIn, incoming) ← deserializeU32 incoming
    match HubType.fromWire typeIn with
    | none => throw .deserInvalidData
    | some hubType =>
      let (port, incoming) ← deserializeU32 incoming
      let (size, _) ← deserializeU16 incoming
      return (hubType, port, size)

variable (conn : Connections)

def receiveEvent (port : UInt32) (payload : Bytes) :
    Except SerializeStatus (Option Call) := do
  let (id, payload) ← deserializeU32 payload
  let (timeTag, payload) ← Time.deserialize payload
  let (severity, payload) ← deserializeEnum LogSeverity.tryFrom payload
  let (args, _) ← deserializeBuffer logBufferMaxSize payload
  return if port = 0 ∧ conn.eventOut then some (.event id timeTag severity args) else none

def receiveChannel (port : UInt32) (payload : Bytes) :
    Except SerializeStatus (Option Call) := do
  let (id, payload) ← deserializeU32 payload
  let (timeTag, payload) ← Time.deserialize payload
  let (val, _) ← deserializeBuffer tlmBufferMaxSize payload
  return if port = 0 ∧ conn.tlmOut then some (.tlm id timeTag val) else none

def receiveCmdResp (port : UInt32) (payload : Bytes) :
    Except SerializeStatus (Option Call) := do
  let (opCode, payload) ← deserializeU32 payload
  let (cmdSeq, payload) ← deserializeU32 payload
  let (response, _) ← deserializeEnum CmdResponse.tryFrom payload
  return if connected conn.cmdRespOut cmdDispatcherSequencePorts port then
      some (.cmdResp port.toNat opCode cmdSeq response)
    else none

/-- The bytes of the command are copied before they are skipped. -/
def receiveCmdDisp (port : UInt32) (payload : Bytes) :
    Codec (Option Call) :=
  if payload.length < 4 ∨ comBufferMaxSize < payload.length - 4 then .ok none
  else
    let cmdSize := payload.length - 4
    if h : (payload.take cmdSize).length ≤ comBufferMaxSize then
      if payload.length = 0 ∨ payload.length < cmdSize then .error .panic
      else
        match deserializeU32 (payload.drop cmdSize) with
        | .error _ => .ok none
        | .ok (context, _) =>
          .ok (if connected conn.cmdDispOut cmdDispatcherSequencePorts port then
              some (.cmdDisp port.toNat ⟨payload.take cmdSize, h⟩ context)
            else none)
    else .error .panic

/-- What a message other than a buffer is turned into; a message that cannot be read is dropped. -/
def unpack (hubType : HubType) (port : UInt32) (payload : Bytes) :
    Codec (Option Call) :=
  match hubType with
  | .port => .ok (if connected conn.serialOut numSerialOutputPorts port then
      some (.serial port.toNat payload) else none)
  | .event => .ok ((receiveEvent conn port payload).toOption.join)
  | .channel => .ok ((receiveChannel conn port payload).toOption.join)
  | .cmdDisp => receiveCmdDisp conn port payload
  | .cmdResp => .ok ((receiveCmdResp conn port payload).toOption.join)
  | .buffer => .ok none

/-- A buffer has arrived. One with a buffer for a connected port goes on; all others go back. -/
def dispatch (buffer : Buffer) : Codec (List Out) :=
  match deserializeHeader buffer.data with
  | .error _ => .ok [.fromBufferDriverReturn buffer]
  | .ok (hubType, port, size) =>
    if size.toNat ≠ buffer.size - headerSize then .ok [.fromBufferDriverReturn buffer]
    else if hubType = .buffer then do
      let buffer ← buffer.advance headerSize
      if connected conn.bufferOut numBufferOutputPorts port then
        return [.call (.buffer port.toNat buffer)]
      else return [.fromBufferDriverReturn buffer]
    else do
      let call ← unpack conn hubType port (buffer.data.drop headerSize)
      return (call.toList.map .call) ++ [.fromBufferDriverReturn buffer]

def fromBufferDriverHandler (portNum : Nat) (buffer : Buffer) : Codec (List Out) := do
  assertPort portNum 1
  dispatch conn buffer

end GenericHub

end Fprime.Svc
