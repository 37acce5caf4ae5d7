import Fprime.Fw.Serial

/-!
# Buffers

A buffer owns its storage and shows a window of it.
-/

namespace Fprime.Fw

open List

structure Buffer where
  storage : Bytes
  offset : Nat
  size : Nat
  context : UInt32
  fits : offset + size ≤ storage.length

namespace Buffer

def noContext : UInt32 := 0xFFFFFFFF

def empty : Buffer :=
  ⟨[], 0, 0, noContext, Nat.le_refl _⟩

theorem allocate_fits (size : Nat) : 0 + size ≤ (replicate size (0 : UInt8)).length := by
  rw [length_replicate, Nat.zero_add]

def allocate (size : Nat) : Buffer :=
  ⟨replicate size 0, 0, size, noContext, allocate_fits size⟩

variable (b : Buffer)

def data : Bytes :=
  (b.storage.drop b.offset).take b.size

@[simp] theorem length_data : b.data.length = b.size := by
  have h := b.fits
  rw [data, length_take, length_drop]
  omega

def SameStorage (b b' : Buffer) : Prop :=
  b'.storage = b.storage ∧ b'.context = b.context

def advance (amount : Nat) : Codec Buffer :=
  if h : b.storage ≠ [] ∧ amount ≤ b.size then
    .ok { b with
      offset := b.offset + amount
      size := b.size - amount
      fits := by have hfits := b.fits; omega }
  else .error .panic

def setSize (size : Nat) : Codec Buffer :=
  if h : b.offset + size ≤ b.storage.length then .ok { b with size := size, fits := h }
  else .error .panic

theorem length_overwrite {b : Buffer} {bytes : Bytes} (h : bytes.length ≤ b.size) :
    b.offset + b.size ≤ (b.storage.take b.offset ++ (bytes ++
      b.storage.drop (b.offset + bytes.length))).length := by
  have hfits := b.fits
  simp only [length_append, length_take, length_drop]
  omega

/-- What a serializer over the window has written is at its start. -/
def overwrite (bytes : Bytes) (h : bytes.length ≤ b.size) : Buffer :=
  { b with
    storage := b.storage.take b.offset ++ (bytes ++ b.storage.drop (b.offset + bytes.length))
    fits := length_overwrite h }

theorem data_overwrite {b b' : Buffer} {bytes : Bytes} (h : bytes.length ≤ b.size)
    (hsize : (b.overwrite bytes h).setSize bytes.length = .ok b') :
    b'.data = bytes ∧ b'.size = bytes.length := by
  have hfits := b.fits
  rw [setSize] at hsize
  split at hsize
  · cases hsize
    have hoffset : (b.storage.take b.offset).length = b.offset := by
      rw [length_take]
      omega
    refine ⟨?_, rfl⟩
    show ((b.storage.take b.offset ++ (bytes ++ _)).drop b.offset).take bytes.length = bytes
    rw [drop_left' hoffset, take_left' rfl]
  · cases hsize

theorem setSize_overwrite {b : Buffer} {bytes : Bytes} (h : bytes.length ≤ b.size) :
    ∃ b', (b.overwrite bytes h).setSize bytes.length = .ok b' := by
  have hfits := (b.overwrite bytes h).fits
  rw [setSize, dif_pos]
  · exact ⟨_, rfl⟩
  · show b.offset + bytes.length ≤ _
    have hsize : (b.overwrite bytes h).offset + (b.overwrite bytes h).size = b.offset + b.size :=
      rfl
    omega

theorem advance_eq {b : Buffer} {amount : Nat} (hpos : 0 < amount) (h : amount ≤ b.size) :
    ∃ b', b.advance amount = .ok b' ∧ b'.data = b.data.drop amount ∧ b.SameStorage b' := by
  have hfits := b.fits
  have hstorage : b.storage ≠ [] := by
    intro hnil
    rw [hnil, length_nil] at hfits
    omega
  rw [advance, dif_pos ⟨hstorage, h⟩]
  refine ⟨_, rfl, ?_, rfl, rfl⟩
  show (b.storage.drop (b.offset + amount)).take (b.size - amount) = _
  rw [data, drop_take, drop_drop]

end Buffer

end Fprime.Fw
