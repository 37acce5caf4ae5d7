import Fprime.Fw.Com
import Fprime.Fw.Time

/-!
# Telemetry values and packets
-/

namespace Fprime.Fw

open Lib.Bytes

def tlmBufferMaxSize : Nat := comBufferMaxSize - 4 - 2

abbrev TlmBuffer := { bytes : Bytes // bytes.length ≤ tlmBufferMaxSize }

def TlmBuffer.new : TlmBuffer :=
  ⟨[], Nat.zero_le _⟩

structure TlmPacket where
  bytes : Bytes
  numEntries : Nat

namespace TlmPacket

def reset : TlmPacket :=
  ⟨encodeBE 2 Apid.fwPacketTelem.asRepr.toNat, 0⟩

def addValue (pkt : TlmPacket) (id : UInt32) (timeTag : Time) (val : TlmBuffer) :
    Option TlmPacket :=
  if 4 + Time.serializedSize + val.1.length > comBufferMaxSize - pkt.bytes.length then none
  else some ⟨pkt.bytes ++ encodeBE 4 id.toNat ++ timeTag.serialized ++ val.1, pkt.numEntries + 1⟩

end TlmPacket

end Fprime.Fw
