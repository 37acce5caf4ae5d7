import Fprime.Cfdp.Chunk
import Fprime.Lib.Runs

/-!
# Chunk lists in their storage

The chunk list as the code keeps it: a block that is never resized, of which the first few chunks
are in use, with ends computed in 32 bits. The operations refine those of `ChunkList`.
-/

namespace Fprime.Cfdp

open Lib Lib.Span Lib.Lists Lib.Runs List Chunks

structure ChunkArray where
  count : Nat
  maxChunks : Nat
  chunks : List Chunk

namespace ChunkArray

inductive Assertion where
  | capacity
  | index
  | bounds
  | overflow

def fileSizeLimit : Nat := 2 ^ 32

def default : Chunk := ⟨0, 0⟩

def new (maxChunks : Nat) : Except Assertion ChunkArray :=
  if 0 < maxChunks then .ok ⟨0, maxChunks, replicate maxChunks default⟩ else .error .capacity

def reset (a : ChunkArray) : ChunkArray :=
  { a with count := 0, chunks := a.chunks.map fun _ => default }

def used (a : ChunkArray) : List Chunk :=
  a.chunks.take a.count

def read (a : ChunkArray) (i : Nat) : Except Assertion Chunk :=
  match a.chunks[i]? with
  | some chunk => .ok chunk
  | none => .error .bounds

def write (a : ChunkArray) (i : Nat) (chunk : Chunk) : Except Assertion ChunkArray :=
  if i < a.chunks.length then .ok { a with chunks := a.chunks.set i chunk } else .error .bounds

def endOf (chunk : Chunk) : Except Assertion Nat :=
  if chunk.offset + chunk.size < fileSizeLimit then .ok (chunk.offset + chunk.size)
  else .error .overflow

def insertChunk (a : ChunkArray) (index : Nat) (chunk : Chunk) : Except Assertion ChunkArray :=
  if a.maxChunks ≤ a.count then .error .capacity
  else if a.count < index then .error .index
  else
    let a := if 0 < a.count ∧ index ≠ a.count then
        { a with chunks := copyWithin a.chunks index a.count (index + 1) }
      else a
    (a.write index chunk).map fun a => { a with count := a.count + 1 }

def eraseChunk (a : ChunkArray) (index : Nat) : Except Assertion ChunkArray :=
  if a.count = 0 then .error .capacity
  else if a.count ≤ index then .error .index
  else .ok { a with
    chunks := copyWithin a.chunks (index + 1) a.count index
    count := a.count - 1 }

def eraseRange (a : ChunkArray) (start stop : Nat) : Except Assertion ChunkArray :=
  if a.count < stop then .error .index
  else if start < stop then
    .ok { a with
      chunks := copyWithin a.chunks stop a.count start
      count := a.count - (stop - start) }
  else .ok a

def searchLoop (a : ChunkArray) (offset : Nat) : Nat → Nat → Nat → Except Assertion Nat
  | 0, first, _ => .ok first
  | fuel + 1, first, count =>
    if count = 0 then .ok first
    else do
      let step := count / 2
      let i := first + step
      let chunk ← a.read i
      if chunk.offset < offset then a.searchLoop offset fuel (i + 1) (count - (step + 1))
      else a.searchLoop offset fuel first step

def findInsertPosition (a : ChunkArray) (chunk : Chunk) : Except Assertion Nat :=
  a.searchLoop chunk.offset a.count 0 a.count

/-- The first entry from `i` on that begins behind `chunkEnd`, among the next `left` ones. -/
def combineLoop (a : ChunkArray) (chunkEnd : Nat) : Nat → Nat → Except Assertion Nat
  | 0, i => .ok i
  | left + 1, i => do
    let chunk ← a.read i
    if chunkEnd < chunk.offset then return i
    else a.combineLoop chunkEnd left (i + 1)

def combineNext (a : ChunkArray) (i : Nat) (chunk : Chunk) :
    Except Assertion (Bool × ChunkArray) := do
  let chunkEnd := (chunk.offset + chunk.size) % fileSizeLimit
  if chunkEnd ≤ chunk.offset then throw .overflow
  let combined ← a.combineLoop chunkEnd (a.count - i) i
  if i ≠ combined then
    let last ← a.read (combined - 1)
    let lastEnd ← endOf last
    let a ← a.write i ⟨chunk.offset, max chunkEnd lastEnd - chunk.offset⟩
    let a ← a.eraseRange (i + 1) combined
    return (true, a)
  else return (false, a)

def combinePrevious (a : ChunkArray) (i : Nat) (chunk : Chunk) :
    Except Assertion (Bool × ChunkArray) := do
  if a.maxChunks < i then throw .index
  if 0 < i then
    let chunkEnd ← endOf chunk
    let prev ← a.read (i - 1)
    let prevEnd ← endOf prev
    if chunk.offset ≤ prevEnd then
      if prevEnd < chunkEnd then
        let a ← a.write (i - 1) ⟨prev.offset, chunkEnd - prev.offset⟩
        return (true, a)
      else return (true, a)
    else return (false, a)
  else return (false, a)

/-- Compare the next `left` entries from `i` on with the smallest one so far. -/
def smallestLoop (a : ChunkArray) : Nat → Nat → Nat → Except Assertion Nat
  | 0, _, smallest => .ok smallest
  | left + 1, i, smallest => do
    let chunk ← a.read i
    let least ← a.read smallest
    a.smallestLoop left (i + 1) (if chunk.size < least.size then i else smallest)

def findSmallestSize (a : ChunkArray) : Except Assertion Nat :=
  a.smallestLoop (a.count - 1) 1 0

def insertOrEvict (a : ChunkArray) (i : Nat) (chunk : Chunk) : Except Assertion ChunkArray := do
  if a.count < a.maxChunks then a.insertChunk i chunk
  else
    let smallest ← a.findSmallestSize
    let least ← a.read smallest
    if least.size < chunk.size then
      let a ← a.eraseChunk smallest
      let at_ ← a.findInsertPosition chunk
      a.insertChunk at_ chunk
    else return a

def insert (a : ChunkArray) (i : Nat) (chunk : Chunk) : Except Assertion ChunkArray := do
  let (merged, a) ← a.combineNext i chunk
  if merged then
    let grown ← a.read i
    let (combined, a) ← a.combinePrevious i grown
    if combined then a.eraseChunk i else return a
  else
    let (combined, a) ← a.combinePrevious i chunk
    if combined then return a else a.insertOrEvict i chunk

def add (a : ChunkArray) (offset size : Nat) : Except Assertion ChunkArray :=
  if size = 0 then .ok a
  else do
    let i ← a.findInsertPosition ⟨offset, size⟩
    if offset + size < fileSizeLimit then a.insert i ⟨offset, size⟩ else throw .overflow

def removeFromFirst (a : ChunkArray) (size : Nat) : Except Assertion ChunkArray := do
  let chunk ← a.read 0
  let size := min size chunk.size
  let a ← a.write 0 ⟨chunk.offset, chunk.size - size⟩
  if chunk.size - size = 0 then a.eraseChunk 0
  else a.write 0 ⟨chunk.offset + size, chunk.size - size⟩

/-- The block has its size, and its first entries are the list. -/
structure Holds (n : Nat) (l : List Chunk) (a : ChunkArray) : Prop where
  capacity : a.maxChunks = n
  size : a.chunks.length = n
  count : a.count = l.length
  storage : ∃ spare, a.chunks = l ++ spare

section Storage

variable {n : Nat} {l front gap back : List Chunk} {a : ChunkArray} {c : Chunk} {i : Nat}

theorem Holds.used (h : Holds n l a) : a.used = l := by
  obtain ⟨spare, hchunks⟩ := h.storage
  rw [ChunkArray.used, h.count, hchunks, take_left]

theorem Holds.le (h : Holds n l a) : l.length ≤ n := by
  obtain ⟨spare, hchunks⟩ := h.storage
  rw [← h.size, hchunks, length_append]
  exact Nat.le_add_right _ _

theorem Holds.read (h : Holds n l a) (hi : l[i]? = some c) : a.read i = .ok c := by
  obtain ⟨spare, hchunks⟩ := h.storage
  have hlt : i < l.length := (List.getElem?_eq_some_iff.mp hi).1
  rw [ChunkArray.read, hchunks, getElem?_append_left hlt, hi]

theorem Holds.write (h : Holds n l a) (hi : i < l.length) (c : Chunk) :
    ∃ a', a.write i c = .ok a' ∧ Holds n (l.set i c) a' := by
  obtain ⟨spare, hchunks⟩ := h.storage
  have hlt : i < a.chunks.length := Nat.lt_of_lt_of_le hi (h.size ▸ h.le)
  refine ⟨{ a with chunks := a.chunks.set i c }, if_pos hlt, h.capacity, ?_, ?_, spare, ?_⟩
  · rw [length_set, h.size]
  · rw [length_set, h.count]
  · rw [hchunks, set_append_left _ _ hi]

theorem insertChunk_holds (h : Holds n (front ++ back) a) (hroom : (front ++ back).length < n)
    (c : Chunk) :
    ∃ a', a.insertChunk front.length c = .ok a' ∧ Holds n (front ++ c :: back) a' := by
  obtain ⟨spare, hchunks⟩ := h.storage
  have hcount := h.count
  have hsize := h.size
  rw [hchunks, length_append] at hsize
  cases spare with
  | nil =>
    rw [length_nil] at hsize
    omega
  | cons x spare =>
    have hmoved : ∃ y, (if 0 < a.count ∧ front.length ≠ a.count then
        { a with chunks := copyWithin a.chunks front.length a.count (front.length + 1) }
      else a) = { a with chunks := front ++ y :: (back ++ spare) } := by
      cases back with
      | nil =>
        rw [append_nil] at hcount hchunks
        refine ⟨x, ?_⟩
        rw [if_neg (fun hne => hne.2 hcount.symm), nil_append, ← hchunks]
      | cons z back =>
        rw [length_append, length_cons] at hcount
        obtain ⟨y, hy⟩ := copyWithin_up front (z :: back) x spare
        refine ⟨y, ?_⟩
        rw [if_pos ⟨by omega, by omega⟩, hchunks, hcount, ← length_cons, hy]
    obtain ⟨y, hmoved⟩ := hmoved
    have hlt : front.length < (front ++ y :: (back ++ spare)).length := by simp
    have hset : (front ++ y :: (back ++ spare)).set front.length c =
        front ++ c :: (back ++ spare) := by
      rw [set_append_right _ _ (Nat.le_refl _), Nat.sub_self, set_cons_zero]
    rw [insertChunk, if_neg (by rw [h.capacity]; omega), if_neg (by simp [hcount])]
    dsimp only
    rw [hmoved, ChunkArray.write, if_pos hlt]
    dsimp only
    refine ⟨_, rfl, h.capacity, ?_, ?_, spare, ?_⟩
    · rw [hset]
      simp only [length_append, length_cons] at hsize ⊢
      omega
    · simp only [length_append, length_cons] at hcount ⊢
      omega
    · rw [hset, append_assoc, cons_append]

theorem eraseRange_holds (h : Holds n (front ++ gap ++ back) a) :
    ∃ a', a.eraseRange front.length (front.length + gap.length) = .ok a' ∧
      Holds n (front ++ back) a' := by
  obtain ⟨spare, hchunks⟩ := h.storage
  have hcount := h.count
  have hsize := h.size
  rw [hchunks, length_append] at hsize
  rw [length_append, length_append] at hcount hsize
  rw [eraseRange, if_neg (by omega)]
  by_cases hgap : front.length < front.length + gap.length
  · obtain ⟨spare', hmoved, hspare⟩ := copyWithin_down front gap back spare
    rw [if_pos hgap]
    refine ⟨_, rfl, h.capacity, ?_, ?_, spare', ?_⟩
    · rw [hchunks, hcount, hmoved, length_append, length_append]
      omega
    · rw [length_append]
      dsimp only
      omega
    · rw [hchunks, hcount, hmoved]
  · rw [if_neg hgap]
    obtain rfl : gap = [] := length_eq_zero_iff.mp (by omega)
    rw [append_nil] at h
    exact ⟨a, rfl, h⟩

theorem eraseChunk_holds (h : Holds n (front ++ c :: back) a) :
    ∃ a', a.eraseChunk front.length = .ok a' ∧ Holds n (front ++ back) a' := by
  have hcount := h.count
  rw [length_append, length_cons] at hcount
  have hrange := @eraseRange_holds n front [c] back a (by simpa using h)
  rw [length_singleton, eraseRange, if_neg (by omega), if_pos (Nat.lt_succ_self _)] at hrange
  rw [eraseChunk, if_neg (by omega), if_neg (by omega)]
  rwa [Nat.add_sub_cancel_left] at hrange

end Storage

section Refinement

variable {n : Nat} {l before after : List Chunk} {a : ChunkArray} {chunk : Chunk}

theorem Holds.read_getD (h : Holds n l a) {i : Nat} (hi : i < l.length) :
    a.read i = .ok (l.getD i ⟨0, 0⟩) := by
  refine h.read ?_
  rw [getD_eq_getElem?_getD, getElem?_eq_getElem hi, Option.getD_some]

theorem searchLoop_holds (h : Holds n l a) (offset fuel first count : Nat)
    (hlen : first + count ≤ l.length) :
    a.searchLoop offset fuel first count = .ok (Chunks.searchLoop l offset fuel first count) := by
  induction fuel generalizing first count with
  | zero => rfl
  | succ fuel ih =>
    rw [searchLoop, Chunks.searchLoop]
    by_cases hcount : count = 0
    · rw [if_pos hcount, if_pos hcount]
    rw [if_neg hcount, if_neg hcount]
    dsimp only
    rw [h.read_getD (by omega)]
    dsimp only [bind, Except.bind]
    split <;> exact ih _ _ (by omega)

theorem findInsertPosition_holds (h : Holds n l a) (chunk : Chunk) :
    a.findInsertPosition chunk = .ok (Chunks.findInsertPosition l chunk) := by
  rw [findInsertPosition, h.count]
  exact searchLoop_holds h _ _ _ _ (by omega)

theorem combineLoop_holds (h : Holds n (before ++ after) a) (chunkEnd : Nat) :
    a.combineLoop chunkEnd after.length before.length = .ok (before.length +
      (after.takeWhile fun c => !decide (chunkEnd < c.offset)).length) := by
  induction after generalizing before with
  | nil => rfl
  | cons c after ih =>
    have hread : a.read before.length = .ok c := h.read (by simp)
    rw [length_cons, combineLoop, hread]
    dsimp only [bind, Except.bind]
    by_cases hlt : chunkEnd < c.offset
    · rw [if_pos hlt, takeWhile_cons_of_neg (by simp [hlt])]
      rfl
    · have hrest := @ih (before ++ [c]) (by simpa using h)
      rw [length_append, length_singleton] at hrest
      rw [if_neg hlt, hrest, takeWhile_cons_of_pos (by simp [hlt]), length_cons]
      exact congrArg _ (by omega)

theorem combineNext_holds (h : Holds n (before ++ after) a) (hpos : 0 < chunk.size)
    (hbound : chunk.stop < 2 ^ 32) (hafter : ∀ c ∈ after, c.stop < 2 ^ 32) :
    (Chunks.combineNext (before ++ after) before.length chunk = none ∧
        a.combineNext before.length chunk = .ok (false, a)) ∨
      ∃ merged a', Chunks.combineNext (before ++ after) before.length chunk = some merged ∧
        a.combineNext before.length chunk = .ok (true, a') ∧ Holds n merged a' := by
  have hend : (chunk.offset + chunk.size) % fileSizeLimit = chunk.stop := Nat.mod_eq_of_lt hbound
  have hroll : ¬chunk.stop ≤ chunk.offset := by
    simp only [Span.stop]
    omega
  have hleft : a.count - before.length = after.length := by
    rw [h.count, length_append]
    omega
  rw [combineNext, hend, if_neg hroll, hleft]
  dsimp only [bind, Except.bind, pure, Except.pure]
  rw [combineLoop_holds h]
  dsimp only
  rw [Chunks.combineNext, drop_left]
  generalize habsorbed : after.takeWhile (fun c => !decide (chunk.stop < c.offset)) = absorbed
  obtain ⟨rest, rfl⟩ : ∃ rest, after = absorbed ++ rest :=
    ⟨_, by rw [← habsorbed, takeWhile_append_dropWhile]⟩
  rcases eq_nil_or_concat' absorbed with rfl | ⟨middle, last, rfl⟩
  · left
    rw [length_nil, if_neg (fun h => h rfl)]
    exact ⟨rfl, rfl⟩
  · right
    have hlast : last.stop < 2 ^ 32 := hafter last (by simp)
    have hread : a.read (before.length + (middle ++ [last]).length - 1) = .ok last := by
      refine h.read ?_
      rw [length_append, length_singleton, ← Nat.add_assoc, Nat.add_sub_cancel]
      simp
    have hstop : endOf last = .ok last.stop := if_pos hlast
    obtain ⟨first, others, hfirst⟩ : ∃ first others, middle ++ [last] = first :: others := by
      cases middle with
      | nil => exact ⟨last, [], rfl⟩
      | cons first middle => exact ⟨first, middle ++ [last], rfl⟩
    have hlt : before.length < (before ++ (middle ++ [last] ++ rest)).length := by
      rw [hfirst]
      simp
    obtain ⟨a1, hwrite, hholds⟩ := h.write hlt ⟨chunk.offset, max chunk.stop last.stop - chunk.offset⟩
    rw [hfirst, cons_append, set_append_right _ _ (Nat.le_refl _), Nat.sub_self,
      set_cons_zero] at hholds
    obtain ⟨a2, herase, hholds⟩ := @eraseRange_holds n
      (before ++ [⟨chunk.offset, max chunk.stop last.stop - chunk.offset⟩]) others rest a1
      (by simpa using hholds)
    have hlength : before.length + 1 + others.length =
        before.length + (middle ++ [last]).length := by
      rw [hfirst, length_cons]
      omega
    rw [length_append, length_singleton, hlength] at herase
    refine ⟨_, a2, ?_, ?_, hholds⟩
    · rw [getLast?_append, getLast?_singleton]
      simp
    · rw [if_pos (by simp), hread]
      dsimp only
      rw [hstop]
      dsimp only
      rw [hwrite]
      dsimp only
      rw [herase]

theorem combinePrevious_holds {tail : List Chunk} (h : Holds n (before ++ tail) a)
    (hbound : chunk.stop < 2 ^ 32) (hbefore : ∀ c ∈ before, c.stop < 2 ^ 32) :
    (Chunks.combinePrevious (before ++ tail) before.length chunk = none ∧
        a.combinePrevious before.length chunk = .ok (false, a)) ∨
      ∃ extended a', Chunks.combinePrevious (before ++ tail) before.length chunk = some extended ∧
        a.combinePrevious before.length chunk = .ok (true, a') ∧ Holds n extended a' := by
  have hle : ¬a.maxChunks < before.length := by
    have := h.le
    rw [h.capacity]
    rw [length_append] at this
    omega
  rw [combinePrevious, if_neg hle]
  dsimp only [bind, Except.bind, pure, Except.pure]
  rcases eq_nil_or_concat' before with rfl | ⟨front, prev, rfl⟩
  · exact .inl ⟨rfl, rfl⟩
  have hread : a.read ((front ++ [prev]).length - 1) = .ok prev := by
    refine h.read ?_
    simp
  have hend : endOf chunk = .ok chunk.stop := if_pos hbound
  have hprev : endOf prev = .ok prev.stop := if_pos (hbefore prev (by simp))
  rw [combinePrevious_concat, if_pos (by simp : 0 < (front ++ [prev]).length), hend]
  dsimp only
  rw [hread]
  dsimp only
  rw [hprev]
  dsimp only
  by_cases htouch : chunk.offset ≤ prev.stop
  · rw [if_pos htouch, if_pos htouch]
    right
    by_cases hgrow : prev.stop < chunk.stop
    · rw [if_pos hgrow, if_pos hgrow]
      obtain ⟨a', hwrite, hholds⟩ := @Holds.write n _ a ((front ++ [prev]).length - 1) h (by simp)
        ⟨prev.offset, chunk.stop - prev.offset⟩
      rw [hwrite]
      refine ⟨_, a', rfl, rfl, ?_⟩
      rw [length_append, length_singleton, Nat.add_sub_cancel, append_assoc,
        set_append_right _ _ (Nat.le_refl _), Nat.sub_self] at hholds
      exact hholds
    · rw [if_neg hgrow, if_neg hgrow]
      exact ⟨_, a, rfl, rfl, by simpa using h⟩
  · rw [if_neg htouch, if_neg htouch]
    exact .inl ⟨rfl, rfl⟩

theorem smallestLoop_holds (h : Holds n l a) (left i smallest : Nat) (hlen : i + left ≤ l.length)
    (hsmallest : smallest < l.length) :
    a.smallestLoop left i smallest = .ok ((range' i left).foldl (fun smallest i =>
      if (l.getD i ⟨0, 0⟩).size < (l.getD smallest ⟨0, 0⟩).size then i else smallest)
      smallest) := by
  induction left generalizing i smallest with
  | zero => rfl
  | succ left ih =>
    rw [smallestLoop, h.read_getD (by omega), h.read_getD hsmallest, range'_succ,
      foldl_cons]
    refine ih (i + 1) _ (by omega) ?_
    split
    · omega
    · exact hsmallest

theorem findSmallestSize_holds (h : Holds n l a) (hne : 0 < l.length) :
    a.findSmallestSize = .ok (Chunks.findSmallestSize l) := by
  obtain ⟨len, hlen⟩ : ∃ len, l.length = len + 1 := ⟨l.length - 1, by omega⟩
  have hself : ∀ c : Chunk, ¬c.size < c.size := fun c => Nat.lt_irrefl _
  rw [findSmallestSize, h.count, smallestLoop_holds h _ _ _ (by omega) hne, Chunks.findSmallestSize,
    range_eq_range', hlen, Nat.add_sub_cancel, range'_succ, foldl_cons,
    if_neg (hself _)]

theorem insertOrEvict_holds (h : Holds n (before ++ after) a) (hv : Chunks.Valid (before ++ after))
    (hn : 0 < n) (chunk : Chunk) :
    ∃ a', a.insertOrEvict before.length chunk = .ok a' ∧
      Holds n (Chunks.insertOrEvict n (before ++ after) before.length chunk) a' := by
  rw [insertOrEvict, Chunks.insertOrEvict, h.count, h.capacity]
  by_cases hroom : (before ++ after).length < n
  · rw [if_pos hroom, if_pos hroom, insertIdx_length_append]
    exact insertChunk_holds h hroom chunk
  rw [if_neg hroom, if_neg hroom]
  generalize before ++ after = l at h hv hroom ⊢
  have hlen : l.length = n := Nat.le_antisymm h.le (Nat.le_of_not_lt hroom)
  have hlt := @findSmallestSize_lt l (by omega)
  rw [findSmallestSize_holds h (by omega)]
  dsimp only [bind, Except.bind, pure, Except.pure]
  rw [h.read_getD hlt]
  dsimp only
  by_cases hsmall : (l.getD (Chunks.findSmallestSize l) ⟨0, 0⟩).size < chunk.size
  · rw [if_pos hsmall, if_pos hsmall]
    generalize Chunks.findSmallestSize l = smallest at hlt
    have hkept : Chunks.Valid (l.eraseIdx smallest) := hv.sublist (eraseIdx_sublist _ _)
    have hsplit : l = l.take smallest ++ l[smallest] :: l.drop (smallest + 1) := by
      rw [← drop_eq_getElem_cons hlt, take_append_drop]
    have hshort : (l.eraseIdx smallest).length < n := by
      rw [length_eraseIdx_of_lt hlt]
      omega
    obtain ⟨a1, herase, hholds⟩ := @eraseChunk_holds n (l.take smallest) (l.drop (smallest + 1)) a
      l[smallest] (by rw [← hsplit]; exact h)
    rw [← eraseIdx_eq_take_drop_succ] at hholds
    rw [length_take, Nat.min_eq_left (Nat.le_of_lt hlt)] at herase
    obtain ⟨before', after', hl, hat, -, -⟩ := Chunks.findInsertPosition_split hkept chunk
    rw [herase]
    dsimp only
    rw [findInsertPosition_holds hholds]
    dsimp only
    rw [hat, hl, insertIdx_length_append]
    rw [hl] at hholds hshort
    exact insertChunk_holds hholds hshort chunk
  · rw [if_neg hsmall, if_neg hsmall]
    exact ⟨a, rfl, h⟩

theorem insert_holds (h : Holds n l a) (hv : Chunks.Valid l) (hn : 0 < n) (hpos : 0 < chunk.size)
    (hbound : chunk.stop < 2 ^ 32) :
    ∃ a', a.insert (Chunks.findInsertPosition l chunk) chunk = .ok a' ∧
      Holds n (Chunks.insert n l (Chunks.findInsertPosition l chunk) chunk) a' := by
  obtain ⟨before, after, rfl, hat, -, hafter⟩ := findInsertPosition_split hv chunk
  have hbefore : ∀ c ∈ before, c.stop < 2 ^ 32 :=
    fun c hc => hv.bounded c (mem_append_left _ hc)
  rw [hat, insert, Chunks.insert]
  rcases combineNext_holds h hpos hbound fun c hc => hv.bounded c (mem_append_right _ hc) with
    ⟨hnext, hcode⟩ | ⟨merged, a1, hnext, hcode, hholds⟩
  · rw [hnext, hcode]
    dsimp only [bind, Except.bind, pure, Except.pure]
    rw [if_neg Bool.false_ne_true]
    rcases combinePrevious_holds h hbound hbefore with
      ⟨hprev, hcode⟩ | ⟨extended, a2, hprev, hcode, hholds⟩
    · rw [hprev, hcode]
      exact insertOrEvict_holds h hv hn chunk
    · rw [hprev, hcode]
      exact ⟨a2, rfl, hholds⟩
  · obtain ⟨m, rest, rfl, -, -, -, -, hmbound, -, -⟩ :=
      combineNext_some hnext hv hpos hbound hafter
    have hget : (before ++ m :: rest).getD before.length ⟨0, 0⟩ = m := by
      simp [getD_eq_getElem?_getD]
    have hread : a1.read before.length = .ok m := hholds.read (by simp)
    rw [hnext, hcode]
    dsimp only [bind, Except.bind, pure, Except.pure]
    rw [if_pos rfl, hread, hget]
    dsimp only
    rcases combinePrevious_holds hholds hmbound hbefore with
      ⟨hprev, hcode⟩ | ⟨extended, a2, hprev, hcode, hholds⟩
    · rw [hprev, hcode]
      exact ⟨a1, rfl, hholds⟩
    · obtain ⟨front, prev, rfl, -, rfl⟩ := combinePrevious_some hprev
      rw [hprev, hcode]
      dsimp only
      rw [if_pos rfl]
      generalize (⟨prev.offset, max prev.stop m.stop - prev.offset⟩ : Chunk) = grown at hholds ⊢
      -- the grown entry takes the place of the one before, and the merged one goes
      obtain ⟨a3, herase, hholds⟩ := @eraseChunk_holds n (front ++ [grown]) rest a2 m
        (by simpa using hholds)
      have hlength : (front ++ [prev]).length = (front ++ [grown]).length := by simp
      have hlist : (front ++ grown :: m :: rest).eraseIdx (front ++ [grown]).length =
          front ++ [grown] ++ rest := by
        rw [eraseIdx_append_of_length_le (by simp)]
        simp
      rw [hlength, hlist]
      exact ⟨a3, herase, hholds⟩

end Refinement

def Refines (l : ChunkList) (a : ChunkArray) : Prop :=
  Holds l.maxChunks l.chunks a

theorem new_refines {n : Nat} (hn : 0 < n) :
    ∃ a, new n = .ok a ∧ Refines (.new n hn) a :=
  ⟨_, if_pos hn, rfl, length_replicate, rfl, _, rfl⟩

variable {a : ChunkArray} {l : ChunkList}

theorem reset_refines (h : Refines l a) :
    Refines l.reset a.reset :=
  ⟨h.capacity, by rw [reset, length_map, h.size]; rfl, rfl, _, rfl⟩

theorem add_refines (h : Refines l a) {offset size : Nat} (hbound : offset + size < 2 ^ 32) :
    ∃ a', a.add offset size = .ok a' ∧ Refines (l.add offset size) a' := by
  rw [add, ChunkList.add]
  by_cases hsize : size = 0
  · rw [if_pos hsize, dif_neg (by omega)]
    exact ⟨a, rfl, h⟩
  · have hadd : 0 < size ∧ offset + size < 2 ^ 32 := ⟨Nat.pos_of_ne_zero hsize, hbound⟩
    obtain ⟨a', hinsert, hholds⟩ :=
      @insert_holds _ _ _ ⟨offset, size⟩ h l.valid l.room hadd.1 hadd.2
    rw [if_neg hsize, dif_pos hadd, findInsertPosition_holds h]
    dsimp only [bind, Except.bind]
    rw [if_pos (show offset + size < fileSizeLimit from hbound)]
    exact ⟨a', hinsert, hholds⟩

theorem removeFromFirst_refines (h : Refines l a) (hne : l.chunks ≠ []) (size : Nat) :
    ∃ a', a.removeFromFirst size = .ok a' ∧ Refines (l.removeFromFirst size) a' := by
  cases hl : l.chunks with
  | nil => exact absurd hl hne
  | cons c cs =>
    have hholds : Holds l.maxChunks l.chunks a := h
    have hlist : (l.removeFromFirst size).chunks = ChunkList.shortened size (c :: cs) :=
      congrArg (ChunkList.shortened size) hl
    rw [hl] at hholds
    have hread : a.read 0 = .ok c := hholds.read rfl
    obtain ⟨a1, hwrite, hholds⟩ :=
      @Holds.write _ _ _ 0 hholds (by simp) ⟨c.offset, c.size - min size c.size⟩
    rw [removeFromFirst, hread]
    dsimp only [bind, Except.bind]
    rw [hwrite]
    dsimp only
    by_cases hempty : c.size - min size c.size = 0
    · obtain ⟨a2, herase, hholds⟩ := @eraseChunk_holds _ [] cs a1 _ hholds
      rw [if_pos hempty]
      refine ⟨a2, herase, ?_⟩
      rw [Refines, hlist, ChunkList.shortened, if_pos hempty]
      exact hholds
    · obtain ⟨a2, hwrite, hholds⟩ := @Holds.write _ _ _ 0 hholds (by simp)
        ⟨c.offset + min size c.size, c.size - min size c.size⟩
      rw [if_neg hempty]
      refine ⟨a2, hwrite, ?_⟩
      rw [Refines, hlist, ChunkList.shortened, if_neg hempty]
      exact hholds

inductive Op where
  | add (offset size : Nat)
  | removeFromFirst (size : Nat)
  | reset

def step (a : ChunkArray) : Op → Except Assertion ChunkArray
  | .add offset size => a.add offset size
  | .removeFromFirst size => a.removeFromFirst size
  | .reset => .ok a.reset

/-- Ranges end below the limit, and only a list that is not empty is taken from. -/
def Permitted (a : ChunkArray) : Op → Prop
  | .add offset size => offset + size < 2 ^ 32
  | .removeFromFirst _ => 0 < a.count
  | .reset => True

instance decidablePermitted (a : ChunkArray) (op : Op) : Decidable (Permitted a op) := by
  cases op <;> unfold Permitted <;> infer_instance

/-- The entries in use are in order, none of them is empty, and each one ends before the next
begins. -/
structure Proper (n : Nat) (a : ChunkArray) : Prop where
  count : a.count = a.used.length ∧ a.count ≤ n
  sorted : a.used.Pairwise fun c d => c.offset < d.offset
  positive : ∀ c ∈ a.used, 0 < c.size
  apart : a.used.Pairwise fun c d => c.stop < d.offset

theorem step_refines {n : Nat} {op : Op} (h : ∃ l : ChunkList, l.maxChunks = n ∧ Refines l a)
    (hop : Permitted a op) :
    ∃ a', a.step op = .ok a' ∧ ∃ l : ChunkList, l.maxChunks = n ∧ Refines l a' := by
  obtain ⟨l, hmax, hrefines⟩ := h
  cases op with
  | add offset size =>
    obtain ⟨a', hadd, hrefines⟩ := add_refines hrefines hop
    exact ⟨a', hadd, _, (l.maxChunks_add offset size).trans hmax, hrefines⟩
  | removeFromFirst size =>
    have hne : l.chunks ≠ [] := by
      refine ne_nil_of_length_pos ?_
      rw [← hrefines.count]
      exact hop
    obtain ⟨a', hremove, hrefines⟩ := removeFromFirst_refines hrefines hne size
    exact ⟨a', hremove, l.removeFromFirst size, hmax, hrefines⟩
  | reset => exact ⟨_, rfl, l.reset, hmax, reset_refines hrefines⟩

theorem Refines.proper (h : Refines l a) :
    Proper l.maxChunks a where
  count := by
    rw [Holds.used h, h.count]
    exact ⟨rfl, l.count⟩
  sorted := by
    rw [Holds.used h]
    refine l.valid.separated.imp fun {c d} hlt => ?_
    exact Nat.lt_of_le_of_lt (Nat.le_add_right _ _) hlt
  positive := by
    rw [Holds.used h]
    exact l.valid.positive
  apart := by
    rw [Holds.used h]
    exact l.valid.separated

/-- The entries are in order and apart. A range covers nothing but itself, and all of itself if it
touches an entry or there is room. -/
theorem chunk_list_coverage {n : Nat} (hn : 0 < n) :
    ∃ start, new n = .ok start ∧ ∀ ops, AlongM step Permitted start ops →
      ∃ a, ops.foldlM step start = .ok a ∧ Proper n a ∧
        ∀ offset size, offset + size < 2 ^ 32 → ∃ a', a.add offset size = .ok a' ∧
          covered a'.used ⊆ covered a.used ∪ Set.Ico offset (offset + size) ∧
          ((∃ c ∈ a.used, Chunks.Touches c ⟨offset, size⟩) ∨ a.count < n →
            covered a'.used = covered a.used ∪ Set.Ico offset (offset + size)) := by
  obtain ⟨start, hnew, hstart⟩ := new_refines hn
  refine ⟨start, hnew, fun ops hops => ?_⟩
  obtain ⟨a, hrun, l, rfl, hrefines⟩ :=
    total_run (fun _ _ h hop => step_refines h hop) ⟨_, rfl, hstart⟩ hops
  refine ⟨a, hrun, hrefines.proper, fun offset size hbound => ?_⟩
  obtain ⟨a', hadd, hrefines'⟩ := add_refines hrefines hbound
  refine ⟨a', hadd, ?_⟩
  rw [Holds.used hrefines, Holds.used hrefines', hrefines.count]
  exact ⟨l.covered_add_subset offset size, l.covered_add_eq hbound⟩

theorem chunk_list_coverage_two :
    ∃ start a, new 2 = .ok start ∧
      [Op.add 10 5, .add 0 5, .add 20 9, .removeFromFirst 3].foldlM step start = .ok a ∧
      a.used = [⟨13, 2⟩, ⟨20, 9⟩] ∧ Proper 2 a ∧
      ∃ a', a.add 15 5 = .ok a' ∧ covered a'.used = covered a.used ∪ Set.Ico 15 20 := by
  obtain ⟨start, hnew, hruns⟩ := chunk_list_coverage (n := 2) (by decide)
  have hstart : start = ⟨0, 2, [default, default]⟩ := by
    cases hnew
    rfl
  subst hstart
  obtain ⟨a, hrun, hproper, hadds⟩ :=
    hruns [.add 10 5, .add 0 5, .add 20 9, .removeFromFirst 3] (by decide)
  have hused : a.used = [⟨13, 2⟩, ⟨20, 9⟩] := by
    cases hrun
    rfl
  obtain ⟨a', hadd, -, hall⟩ := hadds 15 5 (by decide)
  have htouch : ∃ c ∈ a.used, Chunks.Touches c ⟨15, 5⟩ := by
    rw [hused]
    exact ⟨_, mem_cons_self, by decide, by decide⟩
  exact ⟨_, a, hnew, hrun, hused, hproper, a', hadd, hall (.inl htouch)⟩

end ChunkArray

end Fprime.Cfdp
