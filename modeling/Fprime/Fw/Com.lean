/-!
# Packet identifiers and frame contexts

What travels with a frame through the communication chain.
-/

namespace Fprime.Fw

/-- The packet descriptors, which are also the application identifiers of space packets. -/
inductive Apid where
  | fwPacketCommand
  | fwPacketTelem
  | fwPacketLog
  | fwPacketFile
  | fwPacketPacketizedTlm
  | fwPacketDp
  | fwPacketIdle
  | fwPacketParam
  | fwPacketHand
  | fwPacketUnknown
  | sppIdlePacket
  | invalidUninitialized
  deriving DecidableEq

namespace Apid

def asRepr : Apid → UInt16
  | fwPacketCommand => 0x0000
  | fwPacketTelem => 0x0001
  | fwPacketLog => 0x0002
  | fwPacketFile => 0x0003
  | fwPacketPacketizedTlm => 0x0004
  | fwPacketDp => 0x0005
  | fwPacketIdle => 0x0006
  | fwPacketParam => 0x0007
  | fwPacketHand => 0x00FE
  | fwPacketUnknown => 0x00FF
  | sppIdlePacket => 0x07FF
  | invalidUninitialized => 0x0800

def constants : List Apid :=
  [fwPacketCommand, fwPacketTelem, fwPacketLog, fwPacketFile, fwPacketPacketizedTlm, fwPacketDp,
    fwPacketIdle, fwPacketParam, fwPacketHand, fwPacketUnknown, sppIdlePacket,
    invalidUninitialized]

def tryFrom (repr : UInt16) : Option Apid :=
  constants.find? fun apid => apid.asRepr = repr

end Apid

inductive Pvn where
  | spacePacketProtocol
  | encapsulationPacketProtocol
  | invalidUninitialized

def saIndexUnset : UInt16 := 0xFFFF

structure FrameContext where
  comQueueIndex : Int := 0
  apid : Apid := .fwPacketUnknown
  hasSecHdr : Bool := false
  sequenceFlags : UInt8 := 3
  sequenceCount : UInt16 := 0
  vcId : UInt8 := 1
  pvn : Pvn := .invalidUninitialized
  sendNow : Bool := false
  saIndex : UInt16 := saIndexUnset
  firstHeaderPointer : UInt16 := 0

end Fprime.Fw
