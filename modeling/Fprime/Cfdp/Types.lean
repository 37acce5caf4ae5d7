import Mathlib.Tactic.TypeStar

/-!
# CFDP protocol types

The enumerations of the protocol and the configuration constants. Codes that come off the wire keep
any value of their byte, so they are wrappers of a byte.
-/

namespace Fprime.Cfdp

def maxFilePathSize : Nat := 200
def nakMaxSegments : Nat := 58
def maxTlv : Nat := 4
def maxPduSize : Nat := 1024

inductive Status where
  | success
  | error
  | pduMetadataError
  | shortPduError
  | recPduFsizeMismatchError
  | recPduBadEofError
  | sendPduNoBufAvailError
  deriving DecidableEq

inductive PduTypeEnum where
  | metadata
  | endOfFile
  | finished
  | acknowledgment
  | negativeAck
  | fileData
  | none
  deriving DecidableEq

/-- The transmission class; the repository encodes class 2 as 0. -/
inductive Class where
  | class2
  | class1
  deriving DecidableEq

def Class.asRepr : Class → UInt8
  | .class2 => 0
  | .class1 => 1

structure FileDirective where
  code : UInt8
  deriving DecidableEq

namespace FileDirective

def endOfFile : FileDirective := ⟨4⟩
def fin : FileDirective := ⟨5⟩
def ack : FileDirective := ⟨6⟩
def metadata : FileDirective := ⟨7⟩
def nak : FileDirective := ⟨8⟩

end FileDirective

structure ConditionCode where
  code : UInt8
  deriving DecidableEq

namespace ConditionCode

def noError : ConditionCode := ⟨0⟩
def inactivityDetected : ConditionCode := ⟨8⟩
def cancelRequestReceived : ConditionCode := ⟨15⟩

end ConditionCode

structure AckTxnStatus where
  code : UInt8
  deriving DecidableEq

namespace AckTxnStatus

def undefined : AckTxnStatus := ⟨0⟩
def active : AckTxnStatus := ⟨1⟩
def terminated : AckTxnStatus := ⟨2⟩
def invalid : AckTxnStatus := ⟨4⟩

end AckTxnStatus

inductive FinDeliveryCode where
  | complete
  | incomplete
  deriving DecidableEq

namespace FinDeliveryCode

def asRepr : FinDeliveryCode → UInt8
  | .complete => 0
  | .incomplete => 1

def fromBit (bit : UInt8) : FinDeliveryCode :=
  if bit &&& 0x01 = 1 then .incomplete else .complete

end FinDeliveryCode

inductive FinFileStatus where
  | discarded
  | discardedFilestore
  | retained
  | unreported
  deriving DecidableEq

namespace FinFileStatus

def asRepr : FinFileStatus → UInt8
  | .discarded => 0
  | .discardedFilestore => 1
  | .retained => 2
  | .unreported => 3

def fromBits (bits : UInt8) : FinFileStatus :=
  if bits &&& 0x03 = 0 then .discarded
  else if bits &&& 0x03 = 1 then .discardedFilestore
  else if bits &&& 0x03 = 2 then .retained
  else .unreported

end FinFileStatus

structure ChecksumType where
  code : UInt8
  deriving DecidableEq

def ChecksumType.modular : ChecksumType := ⟨0⟩

end Fprime.Cfdp
