import Fprime.Lib.Bytes

/-!
# The CRC-32 hash

The reflected table-driven CRC, with its table and its register.
-/

namespace Fprime.Utils.Hash

def shiftBit (crc : UInt32) : UInt32 :=
  if crc &&& 1 ≠ 0 then (crc >>> 1) ^^^ 0xEDB88320 else crc >>> 1

def tableEntry (i : UInt32) : UInt32 :=
  (List.range 8).foldl (fun crc _ => shiftBit crc) i

def update (handle : UInt32) (data : Bytes) : UInt32 :=
  data.foldl (fun crc byte => (crc >>> 8) ^^^ tableEntry ((crc ^^^ byte.toUInt32) &&& 0xFF)) handle

def hashU32 (data : Bytes) : UInt32 :=
  ~~~ update 0xFFFFFFFF data

-- the check value of CRC-32
example : hashU32 [0x31, 0x32, 0x33, 0x34, 0x35, 0x36, 0x37, 0x38, 0x39] = 0xCBF43926 := by
  decide +kernel

end Fprime.Utils.Hash
