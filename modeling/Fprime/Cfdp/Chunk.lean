import Mathlib.Algebra.Group.Nat.Defs
import Mathlib.Data.List.TakeDrop
import Fprime.Lib.Lists
import Fprime.Lib.Span
import Mathlib.Data.List.TakeWhile

/-!
# Chunk lists

The bounded list of received or requested file ranges. `ChunkList` carries what the insertion
maintains: chunks are nonempty, separated, end below `2 ^ 32` and fit in the list.
-/

namespace Fprime.Cfdp

open Lib Lib.Span List Option

abbrev Chunk := Lib.Span

namespace Chunks

/-- The binary search of `find_insert_position`, over the `count` entries from `first`. -/
def searchLoop (chunks : List Chunk) (offset : Nat) : Nat → Nat → Nat → Nat
  | 0, first, _ => first
  | fuel + 1, first, count =>
    if count = 0 then first
    else
      let step := count / 2
      let i := first + step
      if (chunks.getD i ⟨0, 0⟩).offset < offset then
        searchLoop chunks offset fuel (i + 1) (count - (step + 1))
      else searchLoop chunks offset fuel first step

def findInsertPosition (chunks : List Chunk) (chunk : Chunk) : Nat :=
  searchLoop chunks chunk.offset chunks.length 0 chunks.length

/-- Merge the chunk with the entries from `i` on that begin no later than it ends. -/
def combineNext (chunks : List Chunk) (i : Nat) (chunk : Chunk) : Option (List Chunk) :=
  let absorbed := (chunks.drop i).takeWhile fun c => !decide (chunk.stop < c.offset)
  match absorbed.getLast? with
  | none => none
  | some last =>
    some (chunks.take i ++ ⟨chunk.offset, max chunk.stop last.stop - chunk.offset⟩
      :: chunks.drop (i + absorbed.length))

/-- Extend the entry before `i` by a chunk that begins no later than it ends. -/
def combinePrevious (chunks : List Chunk) (i : Nat) (chunk : Chunk) : Option (List Chunk) :=
  if i = 0 then none
  else
    let prev := chunks.getD (i - 1) ⟨0, 0⟩
    if chunk.offset ≤ prev.stop then
      if prev.stop < chunk.stop then
        some (chunks.set (i - 1) ⟨prev.offset, chunk.stop - prev.offset⟩)
      else some chunks
    else none

def findSmallestSize (chunks : List Chunk) : Nat :=
  (range chunks.length).foldl (fun smallest i =>
    if (chunks.getD i ⟨0, 0⟩).size < (chunks.getD smallest ⟨0, 0⟩).size then i else smallest) 0

/-- Put an isolated chunk in, at the cost of the smallest entry when there is no room. -/
def insertOrEvict (maxChunks : Nat) (chunks : List Chunk) (i : Nat) (chunk : Chunk) :
    List Chunk :=
  if chunks.length < maxChunks then chunks.insertIdx i chunk
  else
    let smallest := findSmallestSize chunks
    if (chunks.getD smallest ⟨0, 0⟩).size < chunk.size then
      let kept := chunks.eraseIdx smallest
      kept.insertIdx (findInsertPosition kept chunk) chunk
    else chunks

def insert (maxChunks : Nat) (chunks : List Chunk) (i : Nat) (chunk : Chunk) : List Chunk :=
  match combineNext chunks i chunk with
  | some merged =>
    match combinePrevious merged i (merged.getD i ⟨0, 0⟩) with
    | some extended => extended.eraseIdx i
    | none => merged
  | none =>
    match combinePrevious chunks i chunk with
    | some extended => extended
    | none => insertOrEvict maxChunks chunks i chunk

/-- The loop of `compute_gaps`: `budget` more gaps may be reported. -/
def gapsLoop (total start : Nat) : List Chunk → Nat → List Chunk
  | [], _ => []
  | _ :: _, 0 => []
  | c :: cs, budget + 1 =>
    let nextOff := (cs.head?.map Span.offset).getD total
    let gapStart := c.stop
    let offset := if start < gapStart then gapStart else start
    if total ≤ gapStart then []
    else if start < nextOff then
      ⟨offset, nextOff - offset⟩ :: gapsLoop total start cs budget
    else gapsLoop total start cs (budget + 1)

def computeGaps (chunks : List Chunk) (maxGaps total start : Nat) : List Chunk :=
  if total = 0 then []
  else
    match chunks with
    | [] => [⟨0, total⟩]
    | c :: cs =>
      if start < c.offset then
        ⟨start, c.offset - start⟩ :: gapsLoop total start (c :: cs) (maxGaps - 1)
      else gapsLoop total start (c :: cs) maxGaps

/-- Chunks are nonempty, separated and end below `2 ^ 32`. -/
structure Valid (chunks : List Chunk) : Prop where
  separated : Separated chunks
  positive : ∀ c ∈ chunks, 0 < c.size
  bounded : ∀ c ∈ chunks, c.stop < 2 ^ 32

theorem Valid.nil : Valid [] :=
  ⟨.nil, by simp, by simp⟩

theorem Valid.sublist {l m : List Chunk} (h : Valid m) (hl : l.Sublist m) : Valid l :=
  ⟨h.separated.sublist hl, fun c hc => h.positive c (hl.subset hc),
    fun c hc => h.bounded c (hl.subset hc)⟩

variable {chunks : List Chunk}

theorem Valid.offset_le (h : Valid chunks) {j k : Nat} (hjk : j < k) (hk : k < chunks.length) :
    (chunks.getD j ⟨0, 0⟩).offset ≤ (chunks.getD k ⟨0, 0⟩).offset := by
  have hlt := pairwise_iff_getElem.1 h.separated j k (by omega) hk hjk
  simp only [Span.stop] at hlt
  simp only [getD_eq_getElem?_getD, getElem?_eq_getElem hk,
    getElem?_eq_getElem (show j < chunks.length by omega), getD_some]
  omega

theorem searchLoop_spec (h : Valid chunks) (o fuel first count : Nat) (hfuel : count ≤ fuel)
    (hlen : first + count ≤ chunks.length) (hleft : ∀ j < first, (chunks.getD j ⟨0, 0⟩).offset < o)
    (hright : ∀ j < chunks.length, first + count ≤ j → o ≤ (chunks.getD j ⟨0, 0⟩).offset) :
    searchLoop chunks o fuel first count ≤ chunks.length ∧
      (∀ j < searchLoop chunks o fuel first count, (chunks.getD j ⟨0, 0⟩).offset < o) ∧
      ∀ j < chunks.length, searchLoop chunks o fuel first count ≤ j →
        o ≤ (chunks.getD j ⟨0, 0⟩).offset := by
  induction fuel generalizing first count with
  | zero =>
    obtain rfl : count = 0 := by omega
    exact ⟨by simpa [searchLoop] using hlen, hleft, hright⟩
  | succ fuel ih =>
    simp only [searchLoop]
    by_cases hcount : count = 0
    · subst hcount
      exact ⟨by simpa using hlen, hleft, by simpa using hright⟩
    rw [if_neg hcount]
    by_cases hstep : (chunks.getD (first + count / 2) ⟨0, 0⟩).offset < o
    · rw [if_pos hstep]
      refine ih _ _ (by omega) (by omega) (fun j hj => ?_) fun j hj hle => hright j hj (by omega)
      by_cases hmid : j = first + count / 2
      · rwa [hmid]
      · exact lt_of_le_of_lt (h.offset_le (by omega) (by omega)) hstep
    · rw [if_neg hstep]
      refine ih _ _ (by omega) (by omega) hleft fun j hj hle => ?_
      by_cases hmid : j = first + count / 2
      · rw [hmid]
        omega
      · exact le_trans (not_lt.1 hstep) (h.offset_le (by omega) hj)

theorem findInsertPosition_split (h : Valid chunks) (chunk : Chunk) :
    ∃ before after, chunks = before ++ after ∧
      findInsertPosition chunks chunk = before.length ∧
      (∀ c ∈ before, c.offset < chunk.offset) ∧ ∀ c ∈ after, chunk.offset ≤ c.offset := by
  obtain ⟨hle, hleft, hright⟩ := searchLoop_spec h chunk.offset chunks.length 0 chunks.length
    le_rfl (by omega) (by simp) (fun j hj hj' => by omega)
  refine ⟨chunks.take (findInsertPosition chunks chunk),
    chunks.drop (findInsertPosition chunks chunk), (take_append_drop _ _).symm,
    by rw [length_take]; exact (min_eq_left hle).symm, fun c hc => ?_, fun c hc => ?_⟩
  · obtain ⟨j, hj, rfl⟩ := mem_take_iff_getElem.1 hc
    have hlt := hleft j (lt_of_lt_of_le hj (min_le_left _ _))
    rwa [getD_eq_getElem?_getD, getElem?_eq_getElem (by omega)] at hlt
  · obtain ⟨j, hj, rfl⟩ := mem_drop_iff_getElem.1 hc
    have hge := hright (findInsertPosition chunks chunk + j) (by omega)
      (Nat.le_add_right _ _)
    rwa [getD_eq_getElem?_getD, getElem?_eq_getElem (by omega)] at hge

theorem Valid.splice {before after : List Chunk} {c : Chunk} (h : Valid (before ++ after))
    (hpos : 0 < c.size) (hbound : c.stop < 2 ^ 32) (hbefore : ∀ d ∈ before, d.stop < c.offset)
    (hafter : ∀ d ∈ after, c.stop < d.offset) : Valid (before ++ c :: after) := by
  obtain ⟨hb, ha, hba⟩ := separated_append.1 h.separated
  refine ⟨separated_append.2 ⟨hb, separated_cons.2 ⟨hafter, ha⟩, fun d hd e he => ?_⟩,
    fun d hd => ?_, fun d hd => ?_⟩
  · rcases mem_cons.1 he with rfl | he
    · exact hbefore d hd
    · exact hba d hd e he
  · rcases mem_append.1 hd with hd | hd
    · exact h.positive d (mem_append_left _ hd)
    · rcases mem_cons.1 hd with rfl | hd
      · exact hpos
      · exact h.positive d (mem_append_right _ hd)
  · rcases mem_append.1 hd with hd | hd
    · exact h.bounded d (mem_append_left _ hd)
    · rcases mem_cons.1 hd with rfl | hd
      · exact hbound
      · exact h.bounded d (mem_append_right _ hd)

theorem Valid.lt_of_mem_dropWhile {l : List Chunk} (h : Valid l) {e : Nat} :
    ∀ c ∈ l.dropWhile (fun c => !decide (e < c.offset)), e < c.offset := by
  induction l with
  | nil => simp
  | cons d l ih =>
    obtain ⟨hd, -⟩ := separated_cons.1 h.separated
    by_cases hlt : e < d.offset
    · simp only [dropWhile_cons, hlt, decide_true, Bool.not_true, Bool.false_eq_true,
        if_false, mem_cons, forall_eq_or_imp, true_and]
      intro c hc
      have := hd c hc
      simp only [Span.stop] at this
      omega
    · simp only [dropWhile_cons, hlt, decide_false, Bool.not_false, if_true]
      exact ih (h.sublist (sublist_cons_self _ _))

section Combine

variable {before after : List Chunk} {chunk : Chunk}

theorem combineNext_some {merged : List Chunk}
    (h : combineNext (before ++ after) before.length chunk = some merged)
    (hv : Valid (before ++ after)) (hpos : 0 < chunk.size) (hbound : chunk.stop < 2 ^ 32)
    (hafter : ∀ c ∈ after, chunk.offset ≤ c.offset) :
    ∃ m rest, merged = before ++ m :: rest ∧ rest.Sublist after ∧ rest.length < after.length ∧
      m.offset = chunk.offset ∧ 0 < m.size ∧ m.stop < 2 ^ 32 ∧
      (∀ c ∈ rest, m.stop < c.offset) ∧ covered (m :: rest) = chunk.toSet ∪ covered after := by
  have hva : Valid after := hv.sublist (sublist_append_right _ _)
  have hrest := hva.lt_of_mem_dropWhile (e := chunk.stop)
  have hreach : ∀ c ∈ after.takeWhile (fun c => !decide (chunk.stop < c.offset)),
      c.offset ≤ chunk.stop := fun c hc => by simpa using mem_takeWhile_imp hc
  simp only [combineNext, drop_left, take_left] at h
  generalize habs : after.takeWhile (fun c => !decide (chunk.stop < c.offset)) = absorbed
    at h hreach
  generalize hdrop : after.dropWhile (fun c => !decide (chunk.stop < c.offset)) = rest at hrest
  obtain rfl : after = absorbed ++ rest := by
    rw [← habs, ← hdrop, takeWhile_append_dropWhile]
  cases hlast : absorbed.getLast? with
  | none => simp [hlast] at h
  | some last =>
    have hmem : last ∈ absorbed := mem_of_getLast? hlast
    obtain ⟨hsep, -, hcross⟩ := separated_append.1 hva.separated
    have hunion := toSet_union_covered (o := chunk.offset) (e := chunk.stop) absorbed
      (fun c hc => hafter c (mem_append_left _ hc)) hreach hsep last hlast
    have hstop : (⟨chunk.offset, max chunk.stop last.stop - chunk.offset⟩ : Chunk).stop
        = max chunk.stop last.stop := by
      simp only [Span.stop]
      omega
    simp only [hlast, some.injEq, ← append_assoc] at h
    rw [show before.length + absorbed.length = (before ++ absorbed).length by simp,
      drop_left] at h
    refine ⟨⟨chunk.offset, max chunk.stop last.stop - chunk.offset⟩, rest, h.symm,
      sublist_append_right _ _, ?_, rfl, ?_, ?_, ?_, ?_⟩
    · have := length_pos_of_mem hmem
      simp only [length_append]
      omega
    · have : chunk.offset < chunk.stop := by simp only [Span.stop]; omega
      simp only
      omega
    · have := hva.bounded last (mem_append_left _ hmem)
      rw [hstop]
      omega
    · intro c hc
      have h1 := hrest c hc
      have h2 := hcross last hmem c hc
      rw [hstop]
      omega
    · rw [covered_cons, covered_append, ← Set.union_assoc]
      congr 1
      simp only [toSet, hstop]
      exact hunion.symm

theorem combineNext_none (h : combineNext (before ++ after) before.length chunk = none)
    (hv : Valid (before ++ after)) : ∀ c ∈ after, chunk.stop < c.offset := by
  have hva : Valid after := hv.sublist (sublist_append_right _ _)
  simp only [combineNext, drop_left, take_left] at h
  have hnil : after.takeWhile (fun c => !decide (chunk.stop < c.offset)) = [] := by
    cases hlast : (after.takeWhile fun c => !decide (chunk.stop < c.offset)).getLast? with
    | none => exact getLast?_eq_none_iff.1 hlast
    | some last => simp [hlast] at h
  have hall := hva.lt_of_mem_dropWhile (e := chunk.stop)
  have hsame : after.dropWhile (fun c => !decide (chunk.stop < c.offset)) = after := by
    conv_rhs => rw [← takeWhile_append_dropWhile (p := fun c => !decide (chunk.stop < c.offset)) (l := after)]
    rw [hnil, nil_append]
  rwa [hsame] at hall

theorem combinePrevious_concat (front tail : List Chunk) (prev chunk : Chunk) :
    combinePrevious (front ++ [prev] ++ tail) (front ++ [prev]).length chunk =
      if chunk.offset ≤ prev.stop then
        if prev.stop < chunk.stop then
          some (front ++ ⟨prev.offset, chunk.stop - prev.offset⟩ :: tail)
        else some (front ++ prev :: tail)
      else none := by
  have hprev : (front ++ [prev] ++ tail).getD front.length ⟨0, 0⟩ = prev := by
    simp [getD_eq_getElem?_getD]
  simp only [combinePrevious, length_append, length_singleton, Nat.add_sub_cancel,
    if_neg (Nat.succ_ne_zero _), hprev]
  simp

theorem combinePrevious_some {tail extended : List Chunk}
    (h : combinePrevious (before ++ tail) before.length chunk = some extended) :
    ∃ front prev, before = front ++ [prev] ∧ chunk.offset ≤ prev.stop ∧
      extended = front ++ ⟨prev.offset, max prev.stop chunk.stop - prev.offset⟩ :: tail := by
  rcases eq_nil_or_concat' before with rfl | ⟨front, prev, rfl⟩
  · simp [combinePrevious] at h
  · refine ⟨front, prev, rfl, ?_⟩
    rw [combinePrevious_concat] at h
    by_cases htouch : chunk.offset ≤ prev.stop
    · refine ⟨htouch, ?_⟩
      rw [if_pos htouch] at h
      by_cases hgrow : prev.stop < chunk.stop
      · rw [if_pos hgrow, some.injEq] at h
        rw [← h, max_eq_right (le_of_lt hgrow)]
      · rw [if_neg hgrow, some.injEq] at h
        rw [← h, max_eq_left (not_lt.1 hgrow)]
        simp [Span.stop]
    · rw [if_neg htouch] at h
      cases h

theorem combinePrevious_none {tail : List Chunk}
    (h : combinePrevious (before ++ tail) before.length chunk = none)
    (hsep : Separated before) : ∀ c ∈ before, c.stop < chunk.offset := by
  rcases eq_nil_or_concat' before with rfl | ⟨front, prev, rfl⟩
  · simp
  · rw [combinePrevious_concat] at h
    have hgap : prev.stop < chunk.offset := by
      by_contra hle
      rw [if_pos (by omega)] at h
      split at h <;> cases h
    intro c hc
    rcases mem_append.1 hc with hc | hc
    · have := (separated_append.1 hsep).2.2 c hc prev (mem_singleton_self _)
      simp only [Span.stop] at *
      omega
    · rw [mem_singleton.1 hc]
      exact hgap

end Combine

theorem Valid.grow {front rest : List Chunk} {prev m : Chunk}
    (h : Valid (front ++ [prev] ++ rest)) (hoff : prev.offset ≤ m.offset)
    (htouch : m.offset ≤ prev.stop) (hbound : m.stop < 2 ^ 32)
    (hrest : ∀ c ∈ rest, m.stop < c.offset) :
    Valid (front ++ ⟨prev.offset, max prev.stop m.stop - prev.offset⟩ :: rest) ∧
      covered (front ++ ⟨prev.offset, max prev.stop m.stop - prev.offset⟩ :: rest) =
        covered (front ++ [prev]) ∪ m.toSet ∪ covered rest := by
  have hprev : prev ∈ front ++ [prev] ++ rest := by simp
  have hpos := h.positive prev hprev
  have hmax := h.bounded prev hprev
  have hlt : prev.offset < prev.stop := by simp only [Span.stop]; omega
  obtain ⟨hfront, -, hcross⟩ := separated_append.1 h.separated
  have hstop : (⟨prev.offset, max prev.stop m.stop - prev.offset⟩ : Chunk).stop
      = max prev.stop m.stop := by
    simp only [Span.stop]
    omega
  constructor
  · refine Valid.splice (h.sublist ?_) (by simp only; omega) (by rw [hstop]; omega)
      (fun d hd => (separated_append.1 hfront).2.2 d hd prev (mem_singleton_self _))
      fun d hd => ?_
    · exact List.Sublist.append (sublist_append_left _ _) (List.Sublist.refl _)
    · have h1 := hcross prev (by simp) d hd
      have h2 := hrest d hd
      rw [hstop]
      omega
  · have hset : Span.toSet ⟨prev.offset, max prev.stop m.stop - prev.offset⟩ =
        prev.toSet ∪ m.toSet := by
      ext n
      simp only [Set.mem_union, mem_toSet, hstop, lt_max_iff]
      omega
    rw [covered_append, covered_cons, hset, covered_append, covered_cons, covered_nil,
      Set.union_empty]
    simp only [Set.union_assoc]

def Touches (c chunk : Chunk) : Prop :=
  c.offset ≤ chunk.stop ∧ chunk.offset ≤ c.stop

section Insert

variable {chunks : List Chunk} {chunk : Chunk} {maxChunks : Nat}

theorem insertIdx_spec (h : Valid chunks) (hpos : 0 < chunk.size) (hbound : chunk.stop < 2 ^ 32)
    (hfree : ∀ c ∈ chunks, ¬ Touches c chunk) :
    Valid (chunks.insertIdx (findInsertPosition chunks chunk) chunk) ∧
      covered (chunks.insertIdx (findInsertPosition chunks chunk) chunk) =
        covered chunks ∪ chunk.toSet := by
  obtain ⟨before, after, rfl, hpos', hbefore, hafter⟩ := findInsertPosition_split h chunk
  rw [hpos', Lib.Lists.insertIdx_length_append]
  refine ⟨h.splice hpos hbound (fun d hd => ?_) (fun d hd => ?_), ?_⟩
  · have hno := hfree d (mem_append_left _ hd)
    have hlt := hbefore d hd
    simp only [Touches, Span.stop, not_and, not_le] at hno ⊢
    exact hno (by omega)
  · have hno := hfree d (mem_append_right _ hd)
    have hle := hafter d hd
    simp only [Touches, Span.stop, not_and_or, not_le] at hno ⊢
    omega
  · rw [covered_append, covered_cons, covered_append]
    ext n
    simp only [Set.mem_union]
    tauto

theorem insert_of_free (h : Valid chunks) (hpos : 0 < chunk.size)
    (hfree : ∀ c ∈ chunks, ¬ Touches c chunk) :
    insert maxChunks chunks (findInsertPosition chunks chunk) chunk =
      insertOrEvict maxChunks chunks (findInsertPosition chunks chunk) chunk := by
  obtain ⟨before, after, rfl, hat, hbefore, hafter⟩ := findInsertPosition_split h chunk
  rw [hat]
  have hnext : combineNext (before ++ after) before.length chunk = none := by
    cases hn : combineNext (before ++ after) before.length chunk with
    | none => rfl
    | some merged =>
      -- A merged entry has the chunk's start and absorbs some entry, which then touches it.
      simp only [combineNext, drop_left, take_left] at hn
      cases hlast : (after.takeWhile fun c => !decide (chunk.stop < c.offset)).getLast? with
      | none => simp [hlast] at hn
      | some last =>
        have hmem := mem_of_getLast? hlast
        have hle : last.offset ≤ chunk.stop := by simpa using mem_takeWhile_imp hmem
        have hin : last ∈ after := (takeWhile_sublist _).subset hmem
        have hge := hafter last hin
        exact absurd ⟨hle, by simp only [Span.stop]; omega⟩
          (hfree last (mem_append_right _ hin))
  have hprev : combinePrevious (before ++ after) before.length chunk = none := by
    cases hp : combinePrevious (before ++ after) before.length chunk with
    | none => rfl
    | some extended =>
      obtain ⟨front, prev, rfl, htouch, -⟩ := combinePrevious_some hp
      have hlt := hbefore prev (by simp)
      exact absurd ⟨by simp only [Span.stop]; omega, htouch⟩ (hfree prev (by simp))
  simp only [insert, hnext, hprev]

theorem insert_of_touching (h : Valid chunks) (hpos : 0 < chunk.size)
    (hbound : chunk.stop < 2 ^ 32) (htouch : ∃ c ∈ chunks, Touches c chunk) :
    Valid (insert maxChunks chunks (findInsertPosition chunks chunk) chunk) ∧
      covered (insert maxChunks chunks (findInsertPosition chunks chunk) chunk) =
        covered chunks ∪ chunk.toSet ∧
      (insert maxChunks chunks (findInsertPosition chunks chunk) chunk).length
        ≤ chunks.length := by
  obtain ⟨before, after, rfl, hat, hbefore, hafter⟩ := findInsertPosition_split h chunk
  rw [hat]
  cases hnext : combineNext (before ++ after) before.length chunk with
  | some merged =>
    obtain ⟨m, rest, rfl, hsub, hlen, hmoff, hmpos, hmbound, hmrest, hmcov⟩ :=
      combineNext_some hnext h hpos hbound hafter
    have hget : (before ++ m :: rest).getD before.length ⟨0, 0⟩ = m := by
      simp [getD_eq_getElem?_getD]
    have hvr : Valid (before ++ rest) := h.sublist (List.Sublist.append (List.Sublist.refl _) hsub)
    cases hprev : combinePrevious (before ++ m :: rest) before.length m with
    | some extended =>
      obtain ⟨front, prev, rfl, htouch, rfl⟩ := combinePrevious_some hprev
      have hoff : prev.offset ≤ m.offset := by
        rw [hmoff]
        exact le_of_lt (hbefore prev (by simp))
      obtain ⟨hv, hcov⟩ := Valid.grow hvr hoff htouch hmbound hmrest
      simp only [insert, hnext, hget, hprev]
      rw [show (front ++ [prev]).length = front.length + 1 by simp, eraseIdx_append_of_length_le (by omega)]
      simp only [Nat.add_sub_cancel_left, eraseIdx_cons_succ, eraseIdx_cons_zero]
      refine ⟨hv, ?_, ?_⟩
      · rw [hcov, Set.union_assoc, ← covered_cons, hmcov, covered_append _ after]
        ext n
        simp only [Set.mem_union]
        tauto
      · simp only [length_append, length_cons, length_nil] at hlen ⊢
        omega
    | none =>
      have hclear := combinePrevious_none hprev (separated_append.1 h.separated).1
      simp only [insert, hnext, hget, hprev]
      refine ⟨hvr.splice hmpos hmbound hclear hmrest, ?_, ?_⟩
      · rw [covered_append, hmcov, covered_append]
        ext n
        simp only [Set.mem_union]
        tauto
      · simp only [length_append, length_cons]
        omega
  | none =>
    have hrest := combineNext_none hnext h
    cases hprev : combinePrevious (before ++ after) before.length chunk with
    | some extended =>
      obtain ⟨front, prev, rfl, htouch, rfl⟩ := combinePrevious_some hprev
      obtain ⟨hv, hcov⟩ :=
        Valid.grow h (le_of_lt (hbefore prev (by simp))) htouch hbound hrest
      simp only [insert, hnext, hprev]
      refine ⟨hv, ?_, by simp⟩
      rw [hcov, covered_append _ after]
      ext n
      simp only [Set.mem_union]
      tauto
    | none =>
      -- Neither side touches the chunk, against the hypothesis.
      have hclear := combinePrevious_none hprev (separated_append.1 h.separated).1
      obtain ⟨c, hc, h1, h2⟩ := htouch
      rcases mem_append.1 hc with hc | hc
      · exact absurd (hclear c hc) (by omega)
      · exact absurd (hrest c hc) (by omega)

theorem findSmallestSize_lt (h : 0 < chunks.length) :
    findSmallestSize chunks < chunks.length := by
  have hfold : ∀ (l : List Nat) (smallest : Nat), smallest < chunks.length →
      (∀ i ∈ l, i < chunks.length) → l.foldl (fun smallest i =>
        if (chunks.getD i ⟨0, 0⟩).size < (chunks.getD smallest ⟨0, 0⟩).size then i
        else smallest) smallest < chunks.length := by
    intro l
    induction l with
    | nil => exact fun _ hs _ => hs
    | cons i l ih =>
      intro smallest hs hl
      refine ih _ ?_ fun j hj => hl j (mem_cons_of_mem _ hj)
      show (if _ then i else smallest) < chunks.length
      split
      · exact hl i mem_cons_self
      · exact hs
  exact hfold _ 0 h fun i hi => mem_range.1 hi

/-- Any insertion keeps the list valid and within its room, and adds nothing but the chunk's range.
-/
theorem insert_spec (h : Valid chunks) (hpos : 0 < chunk.size) (hbound : chunk.stop < 2 ^ 32)
    (hlen : chunks.length ≤ maxChunks) (hmax : 0 < maxChunks) :
    Valid (insert maxChunks chunks (findInsertPosition chunks chunk) chunk) ∧
      covered (insert maxChunks chunks (findInsertPosition chunks chunk) chunk) ⊆
        covered chunks ∪ chunk.toSet ∧
      (insert maxChunks chunks (findInsertPosition chunks chunk) chunk).length ≤ maxChunks := by
  by_cases htouch : ∃ c ∈ chunks, Touches c chunk
  · obtain ⟨hv, hcov, hle⟩ := @insert_of_touching chunks chunk maxChunks h hpos hbound htouch
    exact ⟨hv, hcov.subset, le_trans hle hlen⟩
  have hfree : ∀ c ∈ chunks, ¬ Touches c chunk := fun c hc ht => htouch ⟨c, hc, ht⟩
  rw [insert_of_free h hpos hfree]
  simp only [insertOrEvict]
  by_cases hroom : chunks.length < maxChunks
  · obtain ⟨hv, hcov⟩ := insertIdx_spec h hpos hbound hfree
    rw [if_pos hroom]
    refine ⟨hv, hcov.subset, ?_⟩
    exact le_trans length_insertIdx_le_succ hroom
  rw [if_neg hroom]
  by_cases hsmall : (chunks.getD (findSmallestSize chunks) ⟨0, 0⟩).size < chunk.size
  · rw [if_pos hsmall]
    have hsub : (chunks.eraseIdx (findSmallestSize chunks)).Sublist chunks :=
      eraseIdx_sublist _ _
    obtain ⟨hv, hcov⟩ := insertIdx_spec (h.sublist hsub) hpos hbound
      fun c hc => hfree c (hsub.subset hc)
    refine ⟨hv, ?_, ?_⟩
    · rw [hcov]
      exact Set.union_subset_union_left _ (covered_mono fun c hc => hsub.subset hc)
    · refine le_trans length_insertIdx_le_succ ?_
      rw [length_eraseIdx_of_lt (findSmallestSize_lt (by omega))]
      omega
  · rw [if_neg hsmall]
    exact ⟨h, Set.subset_union_left, hlen⟩

end Insert

section Gaps

variable {chunks : List Chunk} {total : Nat}

theorem computeGaps_eq_nil_iff (h : Valid chunks) {maxGaps : Nat} (hmax : 0 < maxGaps) :
    computeGaps chunks maxGaps total 0 = [] ↔ ∀ k < total, k ∈ covered chunks := by
  by_cases htotal : total = 0
  · subst htotal
    simp [computeGaps]
  cases chunks with
  | nil =>
    simp only [computeGaps, if_neg htotal, cons_ne_nil, covered_nil, Set.mem_empty_iff_false,
      false_iff, not_forall]
    exact ⟨0, by omega, id⟩
  | cons c cs =>
    rw [initial_covered_iff h.separated (by omega)]
    simp only [computeGaps, if_neg htotal]
    by_cases hoff : 0 < c.offset
    · rw [if_pos hoff]
      simp only [cons_ne_nil, false_iff]
      omega
    rw [if_neg hoff]
    obtain ⟨budget, rfl⟩ : ∃ budget, maxGaps = budget + 1 := ⟨maxGaps - 1, by omega⟩
    have hnext : 0 < (cs.head?.map Span.offset).getD total := by
      cases cs with
      | nil => simpa using Nat.pos_of_ne_zero htotal
      | cons d ds =>
        have := (separated_cons.1 h.separated).1 d mem_cons_self
        simp only [head?_cons, map_some, getD_some]
        omega
    simp only [gapsLoop]
    by_cases hend : total ≤ c.stop
    · rw [if_pos hend]
      simp only [true_iff]
      omega
    · rw [if_neg hend, if_pos hnext]
      simp only [cons_ne_nil, false_iff]
      omega

end Gaps

end Chunks

structure ChunkList where
  maxChunks : Nat
  chunks : List Chunk
  valid : Chunks.Valid chunks
  room : 0 < maxChunks
  count : chunks.length ≤ maxChunks

namespace ChunkList

def new (maxChunks : Nat) (room : 0 < maxChunks) : ChunkList :=
  ⟨maxChunks, [], .nil, room, Nat.zero_le _⟩

def reset (l : ChunkList) : ChunkList :=
  ⟨l.maxChunks, [], .nil, l.room, Nat.zero_le _⟩

/-- The assertion of `add`: the end of the chunk does not overflow. -/
def addOk (offset size : Nat) : Bool :=
  size == 0 || decide (offset + size < 2 ^ 32)

/-- Record a range; past a failed assertion the list is left as it was. -/
def add (l : ChunkList) (offset size : Nat) : ChunkList :=
  if h : 0 < size ∧ offset + size < 2 ^ 32 then
    have spec :=
      @Chunks.insert_spec l.chunks ⟨offset, size⟩ l.maxChunks l.valid h.1 h.2 l.count l.room
    { l with
      chunks := Chunks.insert l.maxChunks l.chunks
        (Chunks.findInsertPosition l.chunks ⟨offset, size⟩) ⟨offset, size⟩
      valid := spec.1
      count := spec.2.2 }
  else l

@[simp] theorem maxChunks_add (l : ChunkList) (offset size : Nat) :
    (l.add offset size).maxChunks = l.maxChunks := by
  simp only [add]
  split <;> rfl

def getFirstChunk (l : ChunkList) : Option Chunk :=
  l.chunks.head?

def shortened (size : Nat) : List Chunk → List Chunk
  | [] => []
  | c :: cs =>
    let size := min size c.size
    if c.size - size = 0 then cs else ⟨c.offset + size, c.size - size⟩ :: cs

theorem shortened_valid {chunks : List Chunk} (h : Chunks.Valid chunks) (size : Nat) :
    Chunks.Valid (shortened size chunks) ∧ (shortened size chunks).length ≤ chunks.length := by
  cases chunks with
  | nil => exact ⟨.nil, le_rfl⟩
  | cons c cs =>
    have hcs : Chunks.Valid cs := h.sublist (sublist_cons_self _ _)
    have hsep := (separated_cons.1 h.separated).1
    have hbound := h.bounded c mem_cons_self
    simp only [shortened]
    split
    · exact ⟨hcs, Nat.le_succ _⟩
    · refine ⟨@Chunks.Valid.splice [] cs _ hcs ?_ ?_ (by simp) fun d hd => ?_, le_rfl⟩
      · simp only
        omega
      · simp only [Span.stop] at hbound ⊢
        omega
      · have := hsep d hd
        simp only [Span.stop] at this ⊢
        omega

def removeFromFirst (l : ChunkList) (size : Nat) : ChunkList :=
  { l with
    chunks := shortened size l.chunks
    valid := (shortened_valid l.valid size).1
    count := le_trans (shortened_valid l.valid size).2 l.count }

def computeGaps (l : ChunkList) (maxGaps total start : Nat) : List Chunk :=
  Chunks.computeGaps l.chunks maxGaps total start

def Covers (l : ChunkList) (total : Nat) : Prop :=
  ∀ k < total, k ∈ covered l.chunks

theorem computeGaps_eq_nil_iff (l : ChunkList) {maxGaps : Nat} (hmax : 0 < maxGaps)
    (total : Nat) : l.computeGaps maxGaps total 0 = [] ↔ l.Covers total :=
  Chunks.computeGaps_eq_nil_iff l.valid hmax

theorem covered_add_subset (l : ChunkList) (offset size : Nat) :
    covered (l.add offset size).chunks ⊆ covered l.chunks ∪ Set.Ico offset (offset + size) := by
  simp only [add]
  split
  · next h =>
    exact (@Chunks.insert_spec l.chunks ⟨offset, size⟩ l.maxChunks l.valid h.1 h.2 l.count
      l.room).2.1
  · exact Set.subset_union_left

variable {offset size : Nat} {l : ChunkList}

theorem covered_add_eq (l : ChunkList) (hbound : offset + size < 2 ^ 32)
    (h : (∃ c ∈ l.chunks, Chunks.Touches c ⟨offset, size⟩) ∨ l.chunks.length < l.maxChunks) :
    covered (l.add offset size).chunks = covered l.chunks ∪ Set.Ico offset (offset + size) := by
  simp only [add]
  by_cases hadd : 0 < size ∧ offset + size < 2 ^ 32
  · rw [dif_pos hadd]
    show covered (Chunks.insert _ _ _ _) = covered l.chunks ∪ Span.toSet ⟨offset, size⟩
    by_cases htouch : ∃ c ∈ l.chunks, Chunks.Touches c ⟨offset, size⟩
    · exact (@Chunks.insert_of_touching _ ⟨offset, size⟩ _ l.valid hadd.1 hadd.2 htouch).2.1
    · have hfree : ∀ c ∈ l.chunks, ¬Chunks.Touches c ⟨offset, size⟩ :=
        fun c hc ht => htouch ⟨c, hc, ht⟩
      rw [Chunks.insert_of_free l.valid hadd.1 hfree, Chunks.insertOrEvict,
        if_pos (h.resolve_left htouch)]
      exact (@Chunks.insertIdx_spec _ ⟨offset, size⟩ l.valid hadd.1 hadd.2 hfree).2
  · obtain rfl : size = 0 := by omega
    rw [dif_neg hadd, Nat.add_zero, Set.Ico_self, Set.union_empty]

theorem stop_le_of_mem_add {bound : Nat} (h : ∀ c ∈ l.chunks, c.stop ≤ bound)
    (hin : offset + size ≤ bound) :
    ∀ c ∈ (l.add offset size).chunks, c.stop ≤ bound := by
  intro c hc
  have hpos := (l.add offset size).valid.positive c hc
  have hlast : c.stop - 1 ∈ covered (l.add offset size).chunks := by
    refine ⟨c, hc, ?_, ?_⟩ <;> simp only [Span.stop] <;> omega
  rcases l.covered_add_subset offset size hlast with ⟨d, hd, -, hlt⟩ | ⟨-, hlt⟩
  · have := h d hd
    omega
  · omega

theorem stop_le_of_mem_removeFromFirst {bound : Nat} (h : ∀ c ∈ l.chunks, c.stop ≤ bound)
    (size : Nat) :
    ∀ c ∈ (l.removeFromFirst size).chunks, c.stop ≤ bound := by
  show ∀ c ∈ shortened size l.chunks, _
  cases hl : l.chunks with
  | nil => exact nofun
  | cons d ds =>
    rw [hl] at h
    have hd := h d mem_cons_self
    have hds : ∀ c ∈ ds, c.stop ≤ bound := fun c hc => h c (mem_cons_of_mem d hc)
    simp only [shortened]
    split
    · exact hds
    · intro c hc
      rcases mem_cons.1 hc with rfl | hc
      · simp only [Span.stop] at hd ⊢
        omega
      · exact hds c hc

/-- Once all of a file is covered, adding a range of it keeps it so: the range touches the one
chunk, so nothing is evicted. -/
theorem Covers.add {total : Nat} (h : l.Covers total) (hin : offset + size ≤ total) :
    (l.add offset size).Covers total := by
  simp only [ChunkList.add]
  split
  · next hadd =>
    have hmem : offset ∈ covered l.chunks := h offset (by omega)
    obtain ⟨c, hc, hlo, hhi⟩ := hmem
    have htouch : Chunks.Touches c ⟨offset, size⟩ :=
      ⟨by simp only [Span.stop]; omega, le_of_lt hhi⟩
    obtain ⟨-, hcov, -⟩ := @Chunks.insert_of_touching l.chunks ⟨offset, size⟩ l.maxChunks
      l.valid hadd.1 hadd.2 ⟨c, hc, htouch⟩
    intro k hk
    show k ∈ covered (Chunks.insert _ _ _ _)
    rw [hcov]
    exact .inl (h k hk)
  · exact h

end ChunkList

end Fprime.Cfdp
