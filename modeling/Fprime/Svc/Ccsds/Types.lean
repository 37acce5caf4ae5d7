import Fprime.Fw.Packets

/-!
# CCSDS data types

The checksum of transfer frames and the headers of telecommand frames.
-/

namespace Fprime.Svc.Ccsds

open Fw Lib.Bytes

namespace Crc16

def shiftBit (crc : UInt16) : UInt16 :=
  if crc &&& 0x8000 ≠ 0 then (crc <<< 1) ^^^ 0x1021 else crc <<< 1

def tableEntry (i : UInt8) : UInt16 :=
  (List.range 8).foldl (fun crc _ => shiftBit crc) (i.toUInt16 <<< 8)

def update (crc : UInt16) (newByte : UInt8) : UInt16 :=
  (crc <<< 8) ^^^ tableEntry ((crc >>> 8) ^^^ newByte.toUInt16).toUInt8

def compute (buffer : Bytes) : UInt16 :=
  buffer.foldl update 0xFFFF

-- the check value of CRC-16/CCITT-FALSE
example : compute [0x31, 0x32, 0x33, 0x34, 0x35, 0x36, 0x37, 0x38, 0x39] = 0x29B1 := by
  decide +kernel

end Crc16

def u16At (bytes : Bytes) (offset : Nat) : UInt16 :=
  UInt16.ofNat (decodeBE 0 ((bytes.drop offset).take 2))

structure TCHeader where
  flagsAndScId : UInt16
  vcIdAndLength : UInt16
  frameSequenceNum : UInt8

namespace TCHeader

def serializedSize : Nat := 5

def deserialize (bytes : Bytes) : TCHeader :=
  ⟨u16At bytes 0, u16At bytes 2, bytes.getD 4 0⟩

/-- The length field is one less than the number of octets. -/
def totalFrameLength (header : TCHeader) : UInt16 :=
  (header.vcIdAndLength &&& 0x03FF) + 1

end TCHeader

def tcTrailerSize : Nat := 2

/-- The flags and the spacecraft id that a frame has to carry: bypass set, control command clear. -/
def tcToken (spacecraftId : UInt16) : UInt16 :=
  0x2000 ||| spacecraftId

end Fprime.Svc.Ccsds
