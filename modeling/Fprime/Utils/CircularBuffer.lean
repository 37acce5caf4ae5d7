import Fprime.Fw.Serial
import Mathlib.Data.List.Rotate

/-!
# Circular buffers

A byte ring over a store of fixed size, with the index of its first byte and the number of its
bytes. What it holds is read around the end of the store.
-/

namespace Fprime.Utils

open Fw Lib.Bytes List Nat

structure CircularBuffer where
  store : Bytes
  headIdx : Nat
  allocatedSize : Nat
  highWaterMark : Nat
  head_lt : headIdx < store.length
  fits : allocatedSize ≤ store.length

def copyAt (store : Bytes) (start : Nat) (bytes : Bytes) : Bytes :=
  store.take start ++ bytes ++ store.drop (start + bytes.length)

theorem length_copyAt {store bytes : Bytes} {start : Nat}
    (h : start + bytes.length ≤ store.length) :
    (copyAt store start bytes).length = store.length := by
  simp only [copyAt, length_append, length_take, length_drop]
  omega

theorem getElem?_copyAt {store bytes : Bytes} {start i : Nat}
    (h : start + bytes.length ≤ store.length) :
    (copyAt store start bytes)[i]? =
      if start ≤ i ∧ i < start + bytes.length then bytes[i - start]? else store[i]? := by
  have hfront : (store.take start).length = start := length_take_of_le (by omega)
  unfold copyAt
  split_ifs with hi
  · rw [getElem?_append_left (by rw [length_append]; omega),
      getElem?_append_right (by omega), hfront]
  · rcases lt_or_ge i start with hlt | hge
    · rw [append_assoc, getElem?_append_left (by omega), getElem?_take_of_lt hlt]
    · rw [getElem?_append_right (by rw [length_append]; omega), length_append,
        hfront, getElem?_drop]
      congr 1
      omega

namespace CircularBuffer

def new (size : Nat) (h : 0 < size) : CircularBuffer :=
  ⟨replicate size 0, 0, 0, 0, by simpa using h, zero_le _⟩

variable (b : CircularBuffer)

def advanceIdx (idx amount : Nat) : Nat :=
  (idx + amount) % b.store.length

def getFreeSize : Nat :=
  b.store.length - b.allocatedSize

def getCapacity : Nat :=
  b.store.length

theorem capacity_pos : 0 < b.getCapacity :=
  zero_lt_of_lt b.head_lt

theorem advanceIdx_lt (idx amount : Nat) :
    b.advanceIdx idx amount < b.store.length :=
  mod_lt _ b.capacity_pos

/-- The store with bytes behind the last one, in up to two segments. -/
def copyIn (buffer : Bytes) : Bytes :=
  let start := b.advanceIdx b.headIdx b.allocatedSize
  let first := min buffer.length (b.store.length - start)
  copyAt (copyAt b.store start (buffer.take first)) 0 (buffer.drop first)

section CopyIn

variable {b : CircularBuffer} {buffer : Bytes}

section

variable (h : buffer.length ≤ b.getFreeSize)

include h

theorem segments_fit :
    let start := b.advanceIdx b.headIdx b.allocatedSize
    let first := min buffer.length (b.store.length - start)
    start + (buffer.take first).length ≤ b.store.length ∧
      0 + (buffer.drop first).length ≤ (copyAt b.store start (buffer.take first)).length := by
  have hstart := b.advanceIdx_lt b.headIdx b.allocatedSize
  intro start first
  have hfirst : start + (buffer.take first).length ≤ b.store.length := by
    rw [length_take]
    omega
  refine ⟨hfirst, ?_⟩
  have hfree : buffer.length ≤ b.store.length := h.trans (sub_le _ _)
  rw [length_copyAt hfirst, length_drop]
  omega

theorem length_copyIn :
    (b.copyIn buffer).length = b.store.length := by
  obtain ⟨hfirst, hrest⟩ := segments_fit h
  rw [copyIn, length_copyAt hrest, length_copyAt hfirst]

theorem head_lt_copyIn :
    b.headIdx < (b.copyIn buffer).length := by
  rw [length_copyIn h]
  exact b.head_lt

theorem fits_copyIn :
    b.allocatedSize + buffer.length ≤ (b.copyIn buffer).length := by
  have hfits := b.fits
  rw [length_copyIn h]
  unfold getFreeSize at h
  omega

end

end CopyIn

def serialize (buffer : Bytes) :
    Except SerializeStatus CircularBuffer :=
  if h : buffer.length ≤ b.getFreeSize then
    .ok
      { store := b.copyIn buffer
        headIdx := b.headIdx
        allocatedSize := b.allocatedSize + buffer.length
        highWaterMark := max b.highWaterMark (b.allocatedSize + buffer.length)
        head_lt := head_lt_copyIn h
        fits := fits_copyIn h }
  else .error .noRoomLeft

def byteAt (offset : Nat) : UInt8 :=
  b.store.getD (b.advanceIdx b.headIdx offset) 0

def peekU8 (offset : Nat) : Except SerializeStatus UInt8 :=
  if offset + 1 > b.allocatedSize then .error .deserBufferEmpty else .ok (b.byteAt offset)

def peekU32Be (offset : Nat) : Except SerializeStatus UInt32 :=
  if offset + 4 > b.allocatedSize then .error .deserBufferEmpty
  else .ok (UInt32.ofNat (decodeBE 0 ((range 4).map fun i => b.byteAt (offset + i))))

def peekBytes (size offset : Nat) : Except SerializeStatus Bytes :=
  if size + offset > b.allocatedSize then .error .deserBufferEmpty
  else
    let start := b.advanceIdx b.headIdx offset
    let first := min size (b.store.length - start)
    .ok ((b.store.drop start).take first ++ b.store.take (size - first))

def rotate (amount : Nat) : Except SerializeStatus CircularBuffer :=
  if amount > b.allocatedSize then .error .deserBufferEmpty
  else
    .ok
      { b with
        headIdx := b.advanceIdx b.headIdx amount
        allocatedSize := b.allocatedSize - amount
        head_lt := b.advanceIdx_lt _ _
        fits := (sub_le _ _).trans b.fits }

def contents : Bytes :=
  (b.store.rotate b.headIdx).take b.allocatedSize

@[simp] theorem length_contents : b.contents.length = b.allocatedSize := by
  rw [contents, length_take_of_le]
  rw [length_rotate]
  exact b.fits

theorem getElem?_contents {b : CircularBuffer} {i : Nat} (h : i < b.allocatedSize) :
    b.contents[i]? = b.store[(b.headIdx + i) % b.store.length]? := by
  have hlt : i < b.store.length := h.trans_le b.fits
  rw [contents, getElem?_take_of_lt h, getElem?_rotate hlt, add_comm]

theorem getElem?_copyIn {b : CircularBuffer} {buffer : Bytes}
    (h : buffer.length ≤ b.getFreeSize) {i : Nat} (hi : i < b.allocatedSize + buffer.length) :
    (b.copyIn buffer)[(b.headIdx + i) % b.store.length]? =
      if i < b.allocatedSize then b.store[(b.headIdx + i) % b.store.length]?
      else buffer[i - b.allocatedSize]? := by
  obtain ⟨hfirst, hrest⟩ := segments_fit h
  have hhead := b.head_lt
  have hfits := b.fits
  unfold getFreeSize at h
  -- the indices wrap around at most once
  have hwrap : ∀ n, b.headIdx + n < 2 * b.store.length → (b.headIdx + n) % b.store.length =
      if b.headIdx + n < b.store.length then b.headIdx + n
      else b.headIdx + n - b.store.length := by
    intro n hn
    split_ifs with hlt
    · exact mod_eq_of_lt hlt
    · rw [mod_eq_sub_mod (by omega), mod_eq_of_lt (by omega)]
  rw [copyIn, getElem?_copyAt hrest, getElem?_copyAt hfirst]
  simp only [length_take, length_drop, advanceIdx, getElem?_take, getElem?_drop]
  rw [hwrap i (by omega), hwrap b.allocatedSize (by omega)]
  split_ifs <;> first | rfl | omega | (congr 1; omega)

section Operations

variable {b : CircularBuffer} {buffer : Bytes} {offset size amount : Nat}

theorem serialize_eq_ok (h : buffer.length ≤ b.getFreeSize) :
    ∃ b', b.serialize buffer = .ok b' ∧ b'.contents = b.contents ++ buffer ∧
      b'.getCapacity = b.getCapacity := by
  refine ⟨_, dif_pos h, ext_getElem? fun i => ?_, length_copyIn h⟩
  rcases lt_or_ge i (b.allocatedSize + buffer.length) with hi | hi
  · rw [getElem?_contents hi]
    dsimp only
    rw [length_copyIn h, getElem?_copyIn h hi]
    split_ifs with hold
    · rw [getElem?_append_left (by simpa using hold), getElem?_contents hold]
    · rw [getElem?_append_right (by simpa using hold), length_contents]
  · rw [getElem?_eq_none (by simpa using hi), getElem?_eq_none (by simpa using hi)]

theorem getD_contents (h : offset < b.allocatedSize) :
    b.contents.getD offset 0 = b.byteAt offset := by
  rw [getD_eq_getElem?_getD, getElem?_contents h, ← getD_eq_getElem?_getD]
  rfl

theorem map_byteAt (h : offset + size ≤ b.allocatedSize) :
    ((range size).map fun i => b.byteAt (offset + i)) =
      (b.contents.drop offset).take size := by
  refine ext_getElem? fun i => ?_
  rcases lt_or_ge i size with hi | hi
  · rw [getElem?_take_of_lt hi, getElem?_drop, getElem?_map, getElem?_range hi,
      Option.map_some, ← getD_contents (by omega), getD_eq_getElem?_getD,
      getElem?_eq_getElem (by rw [length_contents]; omega), Option.getD_some]
  · rw [getElem?_eq_none (by simpa using hi), getElem?_eq_none]
    rw [length_take]
    omega

theorem peekU32Be_eq_ok (h : offset + 4 ≤ b.allocatedSize) :
    b.peekU32Be offset =
      .ok (UInt32.ofNat (decodeBE 0 ((b.contents.drop offset).take 4))) := by
  rw [peekU32Be, if_neg (by omega), map_byteAt h]

theorem peekBytes_eq_ok (h : offset + size ≤ b.allocatedSize) :
    b.peekBytes size offset = .ok ((b.contents.drop offset).take size) := by
  have hstart := b.advanceIdx_lt b.headIdx offset
  have hfits := b.fits
  rw [peekBytes, if_neg (by omega)]
  dsimp only
  generalize hs : b.advanceIdx b.headIdx offset = start at hstart
  refine congrArg Except.ok (ext_getElem? fun i => ?_)
  rcases lt_or_ge i size with hi | hi
  · have hidx : (b.headIdx + (offset + i)) % b.store.length = (start + i) % b.store.length := by
      rw [← hs, advanceIdx, mod_add_mod, add_assoc]
    rw [getElem?_take_of_lt hi, getElem?_drop, getElem?_contents (by omega), hidx]
    rcases lt_or_ge (start + i) b.store.length with hlt | hge
    · rw [mod_eq_of_lt hlt, getElem?_append_left, getElem?_take_of_lt (by omega),
        getElem?_drop]
      rw [length_take, length_drop]
      omega
    · rw [mod_eq_sub_mod hge, mod_eq_of_lt (by omega), getElem?_append_right,
        length_take, length_drop, getElem?_take_of_lt (by omega)]
      · congr 1
        omega
      · rw [length_take, length_drop]
        omega
  · rw [getElem?_eq_none, getElem?_eq_none]
    · rw [length_take]
      omega
    · simp only [length_append, length_take, length_drop]
      omega

theorem rotate_eq_ok (h : amount ≤ b.allocatedSize) :
    ∃ b', b.rotate amount = .ok b' ∧ b'.contents = b.contents.drop amount ∧
      b'.getCapacity = b.getCapacity := by
  refine ⟨_, if_neg (by omega), ext_getElem? fun i => ?_, rfl⟩
  rcases lt_or_ge i (b.allocatedSize - amount) with hi | hi
  · rw [getElem?_contents hi, getElem?_drop, getElem?_contents (by omega)]
    dsimp only [advanceIdx]
    rw [mod_add_mod, add_assoc]
  · rw [getElem?_eq_none (by simpa using hi), getElem?_eq_none]
    rw [length_drop, length_contents]
    exact hi

end Operations

end CircularBuffer

end Fprime.Utils
