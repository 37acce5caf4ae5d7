import Mathlib.Data.List.Basic
import Mathlib.Tactic.Ring
import Fprime.Lib.Bytes

/-!
# The CFDP modular checksum

The running 32-bit sum of the file's bytes, each shifted to its place in the big-endian word
its file offset falls in.
-/

namespace Fprime.Utils

open List

structure Checksum where
  value : UInt32

namespace Checksum

def new : Checksum := ⟨0⟩

variable (c : Checksum)

/-- Add one byte at its place in the word; the sum wraps. -/
def addByteAtOffset (byte : UInt8) (offset : Nat) : Checksum :=
  ⟨c.value + (byte.toUInt32 <<< UInt32.ofNat (8 * (3 - offset % 4)))⟩

def addWordAligned (word : Bytes) : Checksum :=
  ((word.take 4).zipIdx).foldl (fun c b => c.addByteAtOffset b.1 b.2) c

def addWordUnaligned (c : Checksum) : Bytes → Nat → Checksum
  | [], _ => c
  | byte :: word, offset =>
    addWordUnaligned (c.addByteAtOffset byte offset) word
      (if offset + 1 = 4 then 0 else offset + 1)

def addWords (c : Checksum) (data : Bytes) : Nat → Checksum
  | 0 => c
  | words + 1 => addWords (c.addWordAligned (data.take 4)) (data.drop 4) words

/-- Add `data`, which begins at `fileOffset`: a partial word up to the next boundary, whole words,
and a partial word. -/
def update (data : Bytes) (fileOffset : Nat) : Checksum :=
  let offsetMod4 := fileOffset % 4
  let index := if offsetMod4 ≠ 0 then min data.length (4 - offsetMod4) else 0
  let c := if offsetMod4 ≠ 0 then c.addWordUnaligned (data.take index) offsetMod4 else c
  let words := (data.length - index) / 4
  let c := c.addWords (data.drop index) words
  let alignedEnd := index + words * 4
  if alignedEnd < data.length then
    c.addWordUnaligned (data.drop alignedEnd) ((fileOffset + alignedEnd) % 4)
  else c

section Sums

variable (c : Checksum) {data more : Bytes} {offset : Nat}

theorem addWordUnaligned_append (h : offset < 4) :
    c.addWordUnaligned (data ++ more) offset =
      (c.addWordUnaligned data offset).addWordUnaligned more ((offset + data.length) % 4) := by
  induction data generalizing c offset with
  | nil => rw [nil_append, length_nil, Nat.add_zero, Nat.mod_eq_of_lt h]; rfl
  | cons byte data ih =>
    have hplace : (if offset + 1 = 4 then 0 else offset + 1) < 4 := by split <;> omega
    have hsame : ((if offset + 1 = 4 then 0 else offset + 1) + data.length) % 4 =
        (offset + (data.length + 1)) % 4 := by
      split <;> omega
    rw [cons_append, addWordUnaligned, addWordUnaligned, ih _ hplace, hsame,
      length_cons]

theorem addWordAligned_eq (h : data.length = 4) :
    c.addWordAligned data = c.addWordUnaligned data 0 := by
  obtain ⟨b0, b1, b2, b3, rfl⟩ := length_eq_four.mp h
  rfl

theorem addWords_eq {words : Nat} (h : words * 4 ≤ data.length) :
    c.addWords data words = c.addWordUnaligned (data.take (words * 4)) 0 := by
  induction words generalizing c data with
  | zero => rw [Nat.zero_mul, take_zero]; rfl
  | succ words ih =>
    have hfour : (data.take 4).length = 4 := by rw [length_take]; omega
    have hsplit : data.take ((words + 1) * 4) = data.take 4 ++ (data.drop 4).take (words * 4) := by
      rw [Nat.add_mul, Nat.one_mul, Nat.add_comm, take_add]
    rw [addWords, ih _ (by rw [length_drop]; omega), hsplit,
      addWordUnaligned_append c (by decide), hfour, addWordAligned_eq c hfour]

theorem addWordUnaligned_parts {index words : Nat} (h : offset < 4)
    (hindex : index + words * 4 ≤ data.length)
    (haligned : (offset + index) % 4 = 0 ∨ index = data.length) :
    ((c.addWordUnaligned (data.take index) offset).addWords (data.drop index)
        words).addWordUnaligned (data.drop (index + words * 4)) ((offset + index) % 4) =
      c.addWordUnaligned data offset := by
  have htake : (data.take index).length = index := by rw [length_take]; omega
  rcases haligned with hzero | hall
  · have hwords : ((data.drop index).take (words * 4)).length = words * 4 := by
      rw [length_take, length_drop]
      omega
    rw [addWords_eq _ (by rw [length_drop]; omega), hzero]
    conv_rhs => rw [← take_append_drop index data,
      ← take_append_drop (words * 4) (data.drop index)]
    rw [addWordUnaligned_append c h, htake, hzero, addWordUnaligned_append _ (by decide), hwords,
      drop_drop, Nat.zero_add, Nat.mul_mod_left]
  · have hwords : words = 0 := by omega
    rw [hwords, Nat.zero_mul, Nat.add_zero, hall, drop_length, take_length]
    rfl

theorem update_eq (fileOffset : Nat) :
    c.update data fileOffset = c.addWordUnaligned data (fileOffset % 4) := by
  have hmod : fileOffset % 4 < 4 := Nat.mod_lt _ (by decide)
  generalize hindex : (if fileOffset % 4 ≠ 0 then min data.length (4 - fileOffset % 4) else 0) =
    index
  have hfirst : (if fileOffset % 4 ≠ 0 then c.addWordUnaligned (data.take index) (fileOffset % 4)
      else c) = c.addWordUnaligned (data.take index) (fileOffset % 4) := by
    split
    · rfl
    · rw [← hindex, if_neg (by assumption), take_zero]
      rfl
  have hle : index ≤ data.length := by
    rw [← hindex]
    split <;> omega
  have haligned : (fileOffset % 4 + index) % 4 = 0 ∨ index = data.length := by
    rw [← hindex]
    split <;> omega
  have hplace : (fileOffset + (index + (data.length - index) / 4 * 4)) % 4 =
      (fileOffset % 4 + index) % 4 := by
    omega
  simp only [update, hindex, hfirst, hplace]
  rw [← @addWordUnaligned_parts c data _ index ((data.length - index) / 4) hmod (by omega)
    haligned]
  split
  · rfl
  · have hend : data.drop (index + (data.length - index) / 4 * 4) = [] :=
      drop_of_length_le (by omega)
    rw [hend]
    rfl

theorem update_append (fileOffset : Nat) :
    (c.update data fileOffset).update more (fileOffset + data.length) =
      c.update (data ++ more) fileOffset := by
  rw [update_eq, update_eq, update_eq, addWordUnaligned_append c (Nat.mod_lt _ (by decide)),
    Nat.mod_add_mod]

end Sums

/-- The sum of the bytes of a file from an offset on, each shifted to its place in its word. -/
def contribution : Bytes → Nat → UInt32
  | [], _ => 0
  | byte :: data, fileOffset =>
    (byte.toUInt32 <<< UInt32.ofNat (8 * (3 - fileOffset % 4))) + contribution data (fileOffset + 1)

def placed : Nat → List Bytes → List (UInt32 × Bytes)
  | _, [] => []
  | fileOffset, chunk :: chunks =>
    (UInt32.ofNat fileOffset, chunk) :: placed (fileOffset + chunk.length) chunks

theorem addWordUnaligned_eq (c : Checksum) (data : Bytes) (fileOffset : Nat) :
    c.addWordUnaligned data (fileOffset % 4) = ⟨c.value + contribution data fileOffset⟩ := by
  induction data generalizing c fileOffset with
  | nil => exact congrArg Checksum.mk (UInt32.add_zero _).symm
  | cons byte data ih =>
    have hnext : (if fileOffset % 4 + 1 = 4 then 0 else fileOffset % 4 + 1) =
        (fileOffset + 1) % 4 := by
      split <;> omega
    rw [addWordUnaligned, hnext, ih, addByteAtOffset, Nat.mod_mod, UInt32.add_assoc]
    rfl

theorem update_eq_add (c : Checksum) (data : Bytes) (fileOffset : Nat) :
    c.update data fileOffset = ⟨c.value + contribution data fileOffset⟩ := by
  rw [update_eq, addWordUnaligned_eq]

theorem update_ofNat (c : Checksum) (data : Bytes) (fileOffset : Nat) :
    c.update data (UInt32.ofNat fileOffset).toNat = c.update data fileOffset := by
  have hmod : fileOffset % 2 ^ 32 % 4 = fileOffset % 4 := by omega
  rw [update_eq, update_eq, UInt32.toNat_ofNat', hmod]

theorem foldl_placed (c : Checksum) (chunks : List Bytes) (fileOffset : Nat) :
    (placed fileOffset chunks).foldl (fun c x => c.update x.2 x.1.toNat) c =
      c.update chunks.flatten fileOffset := by
  induction chunks generalizing c fileOffset with
  | nil => rw [update_eq]; rfl
  | cons chunk chunks ih =>
    rw [placed, foldl_cons, ih, update_ofNat, update_append, flatten_cons]

theorem update_comm (c : Checksum) (x y : UInt32 × Bytes) :
    (c.update x.2 x.1.toNat).update y.2 y.1.toNat =
      (c.update y.2 y.1.toNat).update x.2 x.1.toNat := by
  rw [update_eq_add, update_eq_add, update_eq_add, update_eq_add, UInt32.add_assoc,
    UInt32.add_comm (contribution x.2 _), ← UInt32.add_assoc]

/-- The chunks may be added in any order: the value grows by the sum of the bytes, each at its
place. -/
theorem checksum_of_chunks :
    (∀ (c : Checksum) (chunks : List Bytes) (order : List (UInt32 × Bytes)),
      order.Perm (placed 0 chunks) →
      (order.foldl (fun c x => c.update x.2 x.1.toNat) c).value =
        c.value + contribution chunks.flatten 0) ∧
    ∀ (c : Checksum) (data : Bytes) (fileOffset : UInt32),
      (c.update data fileOffset.toNat).value = c.value + contribution data fileOffset.toNat := by
  refine ⟨fun c chunks order horder => ?_, fun c data fileOffset => ?_⟩
  · rw [horder.foldl_eq' (fun x _ y _ c => update_comm c x y), foldl_placed, update_eq_add]
  · rw [update_eq_add]

theorem contribution_append (data more : Bytes) (fileOffset : Nat) :
    contribution (data ++ more) fileOffset =
      contribution data fileOffset + contribution more (fileOffset + data.length) := by
  induction data generalizing fileOffset with
  | nil => rw [nil_append, contribution, length_nil, Nat.add_zero, UInt32.zero_add]
  | cons byte data ih =>
    rw [cons_append, contribution, contribution, ih, UInt32.add_assoc, length_cons,
      Nat.add_right_comm, Nat.add_assoc]

theorem toNat_shifted (byte : UInt8) {place : Nat} (h : place < 4) :
    (byte.toUInt32 <<< UInt32.ofNat (8 * (3 - place))).toNat = byte.toNat * 256 ^ (3 - place) := by
  have hbyte := byte.toNat_lt
  obtain rfl | rfl | rfl | rfl : place = 0 ∨ place = 1 ∨ place = 2 ∨ place = 3 := by omega
  all_goals
    rw [UInt32.toNat_shiftLeft, UInt8.toNat_toUInt32, Nat.shiftLeft_eq, Nat.mod_eq_of_lt]
    · rfl
    · simp; omega

theorem contribution_injective {u v : Bytes} {fileOffset : Nat} (hu : u.length = 4)
    (hv : v.length = 4) (h : contribution u fileOffset = contribution v fileOffset) : u = v := by
  obtain ⟨a, b, c, d, rfl⟩ := length_eq_four.mp hu
  obtain ⟨a', b', c', d', rfl⟩ := length_eq_four.mp hv
  have hmod : ∀ n, n % 4 < 4 := fun n => Nat.mod_lt n (by decide)
  have hbyte : ∀ x : UInt8, x.toNat < 256 := fun x => x.toNat_lt
  have hnat := congrArg UInt32.toNat h
  simp only [contribution, UInt32.toNat_add, toNat_shifted _ (hmod _), Nat.add_assoc,
    Nat.add_mod fileOffset] at hnat
  simp only [cons.injEq, and_true, ← UInt8.toNat_inj]
  have := hmod fileOffset
  generalize fileOffset % 4 = r at hnat this
  have := hbyte a
  have := hbyte b
  have := hbyte c
  have := hbyte d
  have := hbyte a'
  have := hbyte b'
  have := hbyte c'
  have := hbyte d'
  obtain rfl | rfl | rfl | rfl : r = 0 ∨ r = 1 ∨ r = 2 ∨ r = 3 := by omega
  all_goals
    simp at hnat
    omega

/-- A receiver of a file changed inside four bytes in a row does not come to the checksum of what
was sent. -/
theorem damage_detected {c : Checksum} {chunks : List Bytes}
    {order : List (UInt32 × Bytes)} {front u v back : Bytes}
    (horder : order.Perm (placed 0 chunks)) (hchunks : chunks.flatten = front ++ v ++ back)
    (hlen : u.length = v.length) (hw : u.length ≤ 4) (hne : u ≠ v) :
    order.foldl (fun c x => c.update x.2 x.1.toNat) c ≠ c.update (front ++ u ++ back) 0 := by
  intro h
  rw [horder.foldl_eq' (fun x _ y _ c => update_comm c x y), foldl_placed, hchunks] at h
  simp only [update_eq_add, contribution_append, mk.injEq, length_append, hlen,
    UInt32.add_right_inj, UInt32.add_left_inj] at h
  -- shorter windows are filled up with zeros
  have hfill := congrArg
    (· + contribution (replicate (4 - u.length) 0) (0 + front.length + u.length)) h
  rw [hlen, ← contribution_append, ← hlen, ← contribution_append] at hfill
  have hsame := contribution_injective (by simp; omega) (by simp; omega) hfill
  exact hne (append_inj_left hsame hlen.symm).symm

theorem damage_detected_swapped :
    [((2 : UInt32), [4, 3]), (0, [1, 2])].foldl (fun c x => c.update x.2 x.1.toNat) new ≠
      new.update [1, 2, 3, 4] 0 :=
  @damage_detected new [[1, 2], [4, 3]] _ [1, 2] [3, 4] [4, 3] [] (.swap ..) rfl rfl (by decide)
    (by decide)

end Checksum

end Fprime.Utils
