import Fprime.Fw.Time

/-!
# Values of the event and command ports

The severities of events, the responses to commands and the length-prefixed buffers, as they are
written and read.
-/

namespace Fprime.Fw

open Lib.Bytes Lib.Runs

def logBufferMaxSize : Nat := comBufferMaxSize - 4 - 2

abbrev LogBuffer := { bytes : Bytes // bytes.length ≤ logBufferMaxSize }

/-- An enumeration by its representation; a value that is not declared cannot be read. -/
def deserializeEnum {α : Type} (tryFrom : UInt8 → Option α) (buf : Bytes) :
    Except SerializeStatus (α × Bytes) := do
  let (raw, buf) ← deserializeU8 buf
  match tryFrom raw with
  | some a => return (a, buf)
  | none => throw .deserFormatError

theorem deserializeEnum_cons {α : Type} {tryFrom : UInt8 → Option α} {a : α} {raw : UInt8}
    (h : tryFrom raw = some a) (rest : Bytes) :
    deserializeEnum tryFrom (raw :: rest) = .ok (a, rest) := by
  rw [deserializeEnum, deserializeU8_cons]
  dsimp only [bind, Except.bind]
  rw [h]
  rfl

inductive LogSeverity where
  | fatal
  | warningHi
  | warningLo
  | command
  | activityHi
  | activityLo
  | diagnostic
  deriving DecidableEq

namespace LogSeverity

def asRepr : LogSeverity → UInt8
  | fatal => 1
  | warningHi => 2
  | warningLo => 3
  | command => 4
  | activityHi => 5
  | activityLo => 6
  | diagnostic => 7

def constants : List LogSeverity :=
  [fatal, warningHi, warningLo, command, activityHi, activityLo, diagnostic]

def tryFrom (raw : UInt8) : Option LogSeverity :=
  constants.find? fun s => s.asRepr = raw

theorem tryFrom_asRepr (s : LogSeverity) : tryFrom s.asRepr = some s := by
  cases s <;> decide

end LogSeverity

namespace CmdResponse

def asRepr : CmdResponse → UInt8
  | ok => 0
  | invalidOpcode => 1
  | validationError => 2
  | formatError => 3
  | executionError => 4
  | busy => 5

def constants : List CmdResponse :=
  [ok, invalidOpcode, validationError, formatError, executionError, busy]

def tryFrom (raw : UInt8) : Option CmdResponse :=
  constants.find? fun r => r.asRepr = raw

theorem tryFrom_asRepr (r : CmdResponse) : tryFrom r.asRepr = some r := by
  cases r <;> decide

end CmdResponse

namespace TimeBase

theorem tryFrom_asRepr (base : TimeBase) : tryFrom base.asRepr = some base := by
  cases base <;> decide

end TimeBase

namespace Time

variable (b : SerBuf) (t : Time)

def serializeTo : Codec SerBuf := do
  let b ← b.serializeU16 t.timeBase.asRepr
  let b ← b.serializeU8 t.timeContext
  let b ← b.serializeU32 t.seconds
  b.serializeU32 t.useconds

theorem serializeTo_eq : serializeTo b t = b.writeRaw t.serialized := by
  simp only [serializeTo, SerBuf.serializeU16, SerBuf.serializeU8, SerBuf.serializeU32,
    SerBuf.writeRaw_bind_writeRaw]
  rw [serialized, List.append_assoc]
  rfl

def deserialize (buf : Bytes) : Except SerializeStatus (Time × Bytes) := do
  let (base, buf) ← deserializeTimeBase buf
  let (context, buf) ← deserializeU8 buf
  let (seconds, buf) ← deserializeU32 buf
  let (useconds, buf) ← deserializeU32 buf
  if h : useconds < 1000000 then return (⟨base, context, seconds, useconds, h⟩, buf)
  else throw .deserFormatError

theorem deserialize_serialized (rest : Bytes) :
    deserialize (t.serialized ++ rest) = .ok (t, rest) := by
  have hbase : deserializeTimeBase (t.serialized ++ rest) =
      .ok (t.timeBase, t.timeContext :: (encodeBE 4 t.seconds.toNat ++
        (encodeBE 4 t.useconds.toNat ++ rest))) := by
    rw [deserializeTimeBase, serialized, List.append_assoc, List.append_assoc, List.cons_append,
      deserializeU16_encode]
    dsimp only [bind, Except.bind]
    rw [TimeBase.tryFrom_asRepr]
    rfl
  rw [deserialize, hbase]
  dsimp only [bind, Except.bind]
  rw [deserializeU8_cons]
  dsimp only
  rw [deserializeU32_encode]
  dsimp only
  rw [deserializeU32_encode]
  dsimp only
  rw [dif_pos t.valid]
  rfl

theorem length_serialized : t.serialized.length = serializedSize := by
  simp only [serialized, List.length_append, List.length_cons, encodeBE_length]
  rfl

end Time

def SerBuf.serializeBuffer (b : SerBuf) (val : Bytes) : Codec SerBuf :=
  if b.capacity < b.bytes.length + val.length + 2 then .error (.status .noRoomLeft)
  else do
    let b ← b.serializeU16 (UInt16.ofNat val.length)
    b.writeRaw val

def deserializeBuffer (capacity : Nat) (buf : Bytes) :
    Except SerializeStatus ({ bytes : Bytes // bytes.length ≤ capacity } × Bytes) := do
  let (stored, buf) ← deserializeU16 buf
  if h : stored.toNat ≤ capacity ∧ stored.toNat ≤ buf.length then
    return (⟨buf.take stored.toNat, Nat.le_trans (List.length_take_le _ _) h.1⟩,
      buf.drop stored.toNat)
  else throw .deserSizeMismatch

theorem deserializeBuffer_encode {capacity : Nat}
    (val : { bytes : Bytes // bytes.length ≤ capacity }) (hlen : val.1.length < 2 ^ 16)
    (rest : Bytes) :
    deserializeBuffer capacity (encodeBE 2 val.1.length ++ (val.1 ++ rest)) = .ok (val, rest) := by
  have hstored : (UInt16.ofNat val.1.length).toNat = val.1.length := by
    rw [UInt16.toNat_ofNat']
    exact Nat.mod_eq_of_lt hlen
  have hread := deserializeU16_encode (UInt16.ofNat val.1.length) (val.1 ++ rest)
  rw [hstored] at hread
  rw [deserializeBuffer, hread]
  dsimp only [bind, Except.bind]
  rw [dif_pos]
  · congr 2
    · refine Subtype.ext ?_
      show (val.1 ++ rest).take (UInt16.ofNat val.1.length).toNat = val.1
      rw [hstored, List.take_left' rfl]
    · rw [hstored, List.drop_left' rfl]
  · rw [hstored, List.length_append]
    exact ⟨val.2, Nat.le_add_right _ _⟩

end Fprime.Fw
