import Fprime.Cfdp.ChunkArray
import Mathlib.Data.Set.Card

/-!
# The gaps of a chunk list

`compute_gaps` hands each gap below `total` to a callback. The gap before a chunk that begins behind
`total` is not cut there; in every other case the runs of missing bytes are reported.
-/

namespace Fprime.Cfdp

open Lib Lib.Span List Nat

namespace Chunks

variable {total start : Nat}

theorem gapsLoop_last (c : Chunk) (budget : Nat) :
    gapsLoop total start [c] (budget + 1) =
      if total ≤ c.stop then []
      else if start < total then [⟨max c.stop start, total - max c.stop start⟩] else [] := by
  have hmax : (if start < c.stop then c.stop else start) = max c.stop start := by
    split <;> omega
  rw [← hmax]
  rfl

theorem gapsLoop_next (c d : Chunk) (ds : List Chunk) (budget : Nat) :
    gapsLoop total start (c :: d :: ds) (budget + 1) =
      if total ≤ c.stop then []
      else if start < d.offset then
        ⟨max c.stop start, d.offset - max c.stop start⟩ :: gapsLoop total start (d :: ds) budget
      else gapsLoop total start (d :: ds) (budget + 1) := by
  have hmax : (if start < c.stop then c.stop else start) = max c.stop start := by
    split <;> omega
  rw [← hmax]
  rfl

theorem gapsLoop_take (chunks : List Chunk) {n : Nat} (hn : chunks.length ≤ n) (budget : Nat) :
    gapsLoop total start chunks budget = (gapsLoop total start chunks n).take budget := by
  induction chunks generalizing n budget with
  | nil => simp [gapsLoop]
  | cons c cs ih =>
    obtain ⟨n, rfl⟩ : ∃ m, n = m + 1 := ⟨n - 1, by rw [length_cons] at hn; omega⟩
    have hcs : cs.length ≤ n := le_of_succ_le_succ hn
    cases budget with
    | zero => simp [gapsLoop]
    | succ budget =>
      simp only [gapsLoop]
      split
      · simp
      · split
        · rw [ih hcs budget, take_succ_cons]
        · exact ih (le_succ_of_le hcs) (budget + 1)

variable {c d : Chunk} {cs ds gaps : List Chunk} {lo : Nat} {s : Set Nat}

theorem computeGaps_take (htotal : total ≠ 0) {maxGaps : Nat} (hmax : 0 < maxGaps) :
    computeGaps (c :: cs) maxGaps total start =
      (computeGaps (c :: cs) (cs.length + 2) total start).take maxGaps := by
  obtain ⟨budget, rfl⟩ : ∃ budget, maxGaps = budget + 1 := ⟨maxGaps - 1, by omega⟩
  simp only [computeGaps, if_neg htotal]
  split
  · rw [take_succ_cons]
    exact congrArg _ (gapsLoop_take (c :: cs) (le_refl _) budget)
  · exact gapsLoop_take (c :: cs) (le_succ _) (budget + 1)

/-- If a chunk begins behind `total`, then another one reaches from `total` or before to `total` or
behind. -/
def Anchored (total : Nat) (chunks : List Chunk) : Prop :=
  (∃ c ∈ chunks, total < c.offset) → ∃ c ∈ chunks, c.offset ≤ total ∧ total ≤ c.stop

theorem Anchored.tail (h : Anchored total (c :: cs)) (hstop : c.stop < total) :
    Anchored total cs := by
  rintro ⟨d, hd, hlt⟩
  obtain ⟨e, he, hle, hge⟩ := h ⟨d, mem_cons_of_mem _ hd, hlt⟩
  rcases mem_cons.mp he with rfl | he
  · omega
  · exact ⟨e, he, hle, hge⟩

theorem Anchored.offset_le (h : Anchored total (c :: d :: ds)) (hv : Valid (c :: d :: ds))
    (hstop : c.stop < total) : d.offset ≤ total := by
  by_contra hlt
  have hsep := (separated_cons.1 (separated_cons.1 hv.separated).2).1
  obtain ⟨e, he, hle, hge⟩ := h ⟨d, by simp, Nat.lt_of_not_le hlt⟩
  rcases mem_cons.mp he with rfl | he
  · omega
  · rcases mem_cons.mp he with rfl | he
    · exact hlt hle
    · have := hsep e he
      rw [Span.stop] at this
      omega

/-- The list, from some byte on, is made of the runs of the set. -/
structure Fills (lo : Nat) (s : Set Nat) (gaps : List Chunk) : Prop where
  separated : Separated gaps
  positive : ∀ g ∈ gaps, 0 < g.size
  lower : ∀ g ∈ gaps, lo ≤ g.offset
  covered : covered gaps = s

theorem Fills.nil (lo : Nat) : Fills lo ∅ [] :=
  ⟨.nil, fun _ h => absurd h not_mem_nil, fun _ h => absurd h not_mem_nil, covered_nil⟩

theorem Fills.cons {next : Nat} {g : Chunk} (h : Fills next s gaps) (hpos : 0 < g.size)
    (hlo : lo ≤ g.offset) (hstop : g.stop < next) :
    Fills lo (g.toSet ∪ s) (g :: gaps) where
  separated := separated_cons.2 ⟨fun d hd => lt_of_lt_of_le hstop (h.lower d hd), h.separated⟩
  positive := forall_mem_cons.2 ⟨hpos, h.positive⟩
  lower := by
    refine forall_mem_cons.2 ⟨hlo, fun d hd => ?_⟩
    have := h.lower d hd
    rw [Span.stop] at hstop
    omega
  covered := by rw [covered_cons, h.covered]

theorem Fills.mono {lo' : Nat} (h : Fills lo' s gaps) (hlo : lo ≤ lo') : Fills lo s gaps :=
  ⟨h.separated, h.positive, fun g hg => le_trans hlo (h.lower g hg), h.covered⟩

theorem Fills.mem_iff (h : Fills lo s gaps) (g : Chunk) : g ∈ gaps ↔ IsRun s g := by
  rw [← h.covered]
  exact mem_iff_isRun h.separated h.positive

theorem missing_cons_of_lt (hsep : Separated (d :: ds)) (hlo : lo < d.offset)
    (htotal : d.offset ≤ total) :
    Set.Ico lo total \ covered (d :: ds) =
      Set.Ico lo d.offset ∪ (Set.Ico d.stop total \ covered ds) := by
  have hle : d.offset ≤ d.stop := le_add_right _ _
  ext n
  rw [covered_cons]
  simp only [Set.mem_sdiff, Set.mem_union, Set.mem_Ico, mem_toSet, not_or]
  constructor
  · rintro ⟨hn, hd, hds⟩
    by_cases hlt : n < d.offset
    · exact .inl ⟨hn.1, hlt⟩
    · exact .inr ⟨⟨by omega, hn.2⟩, hds⟩
  · rintro (⟨hn, hlt⟩ | ⟨hn, hds⟩)
    · refine ⟨⟨hn, by omega⟩, by omega, ?_⟩
      rintro ⟨e, he, hmem⟩
      have := (separated_cons.1 hsep).1 e he
      rw [mem_toSet] at hmem
      omega
    · exact ⟨⟨by omega, hn.2⟩, by omega, hds⟩

theorem missing_cons_of_le (hlo : d.offset ≤ lo) :
    Set.Ico lo total \ covered (d :: ds) = Set.Ico (max d.stop lo) total \ covered ds := by
  ext n
  rw [covered_cons]
  simp only [Set.mem_sdiff, Set.mem_union, Set.mem_Ico, mem_toSet, not_or]
  constructor
  · rintro ⟨hn, hd, hds⟩
    exact ⟨⟨by omega, hn.2⟩, hds⟩
  · rintro ⟨hn, hds⟩
    exact ⟨⟨by omega, hn.2⟩, by omega, hds⟩

theorem missing_of_le (hlo : total ≤ lo) (chunks : List Chunk) :
    Set.Ico lo total \ covered chunks = ∅ := by
  rw [Set.Ico_eq_empty (not_lt.mpr hlo), Set.empty_sdiff]

theorem gapsLoop_fills (hv : Valid (c :: cs)) (ha : Anchored total (c :: cs))
    (hstart : start < total) {budget : Nat} (hb : cs.length < budget) :
    Fills (max c.stop start) (Set.Ico (max c.stop start) total \ covered cs)
      (gapsLoop total start (c :: cs) budget) := by
  induction cs generalizing c budget with
  | nil =>
    obtain ⟨budget, rfl⟩ : ∃ m, budget = m + 1 := ⟨budget - 1, by omega⟩
    rw [gapsLoop_last]
    by_cases hend : total ≤ c.stop
    · rw [if_pos hend, missing_of_le (by omega)]
      exact .nil _
    · have hlt : max c.stop start < total := by omega
      rw [if_neg hend, if_pos hstart, covered_nil, Set.sdiff_empty,
        ← Set.union_empty (Set.Ico _ _), ← toSet_between (le_of_lt hlt)]
      refine (Fills.nil (total + 1)).cons (Nat.sub_pos_of_lt hlt) (Nat.le_refl _) ?_
      rw [stop_between (le_of_lt hlt)]
      exact lt_succ_self _
  | cons d ds ih =>
    obtain ⟨budget, rfl⟩ : ∃ m, budget = m + 1 := ⟨budget - 1, by omega⟩
    rw [length_cons] at hb
    have hvd : Valid (d :: ds) := hv.sublist (sublist_cons_self _ _)
    have hcd := (separated_cons.1 hv.separated).1 d mem_cons_self
    have hd : d.offset < d.stop := Nat.lt_add_of_pos_right (hvd.positive d mem_cons_self)
    rw [gapsLoop_next]
    by_cases hend : total ≤ c.stop
    · rw [if_pos hend, missing_of_le (by omega)]
      exact .nil _
    · have hc : c.stop < total := Nat.lt_of_not_le hend
      rw [if_neg hend]
      by_cases hskip : start < d.offset
      · have hlt : max c.stop start < d.offset := by omega
        have hnext : max d.stop start = d.stop := by omega
        have hfills := @ih d hvd (ha.tail hc) budget (by omega)
        rw [hnext] at hfills
        rw [if_pos hskip, missing_cons_of_lt hvd.separated hlt (ha.offset_le hv hc),
          ← toSet_between (le_of_lt hlt)]
        refine hfills.cons (Nat.sub_pos_of_lt hlt) (Nat.le_refl _) ?_
        rw [stop_between (le_of_lt hlt)]
        exact hd
      · have hnext : max d.stop (max c.stop start) = max d.stop start := by omega
        rw [if_neg hskip, missing_cons_of_le (by omega), hnext]
        exact (@ih d hvd (ha.tail hc) (budget + 1) (by omega)).mono (by omega)

theorem computeGaps_fills (hv : Valid (c :: cs)) (ha : Anchored total (c :: cs))
    (hstart : start < total) :
    Fills start (Set.Ico start total \ covered (c :: cs))
      (computeGaps (c :: cs) (cs.length + 2) total start) := by
  have hc : c.offset < c.stop := Nat.lt_add_of_pos_right (hv.positive c mem_cons_self)
  rw [computeGaps, if_neg (by omega)]
  split
  · rename_i hlt
    have hoffset : c.offset ≤ total := by
      by_contra hgt
      obtain ⟨e, he, hle, -⟩ := ha ⟨c, mem_cons_self, Nat.lt_of_not_le hgt⟩
      rcases mem_cons.mp he with rfl | he
      · exact hgt hle
      · have := (separated_cons.1 hv.separated).1 e he
        omega
    have hfills := gapsLoop_fills hv ha hstart (lt_succ_self cs.length)
    rw [show max c.stop start = c.stop by omega] at hfills
    rw [missing_cons_of_lt hv.separated hlt hoffset, ← toSet_between (le_of_lt hlt)]
    refine hfills.cons (Nat.sub_pos_of_lt hlt) (Nat.le_refl _) ?_
    rw [stop_between (le_of_lt hlt)]
    exact hc
  · rename_i hlt
    rw [missing_cons_of_le (not_lt.mp hlt)]
    exact (gapsLoop_fills hv ha hstart (lt_succ_of_lt (lt_succ_self cs.length))).mono
      (by omega)

theorem gapsLoop_long (hv : Valid (c :: cs)) (hlong : ∃ d ∈ cs, total < d.offset)
    (hbare : ∀ d ∈ c :: cs, d.offset ≤ total → d.stop < total) (hc : c.offset ≤ total)
    (hstart : start < total) {budget : Nat} (hb : cs.length < budget) :
    ∃ g ∈ gapsLoop total start (c :: cs) budget, total < g.stop := by
  induction cs generalizing c budget with
  | nil =>
    obtain ⟨d, hd, -⟩ := hlong
    exact absurd hd not_mem_nil
  | cons d ds ih =>
    obtain ⟨budget, rfl⟩ : ∃ m, budget = m + 1 := ⟨budget - 1, by omega⟩
    rw [length_cons] at hb
    have hstop := hbare c mem_cons_self hc
    have hcd := (separated_cons.1 hv.separated).1 d mem_cons_self
    rw [gapsLoop_next, if_neg (not_le.mpr hstop)]
    by_cases hd : total < d.offset
    · rw [if_pos (by omega)]
      refine ⟨_, mem_cons_self, ?_⟩
      rw [stop_between (by omega)]
      exact hd
    · have hlong' : ∃ e ∈ ds, total < e.offset := by
        obtain ⟨e, he, hlt⟩ := hlong
        rcases mem_cons.mp he with rfl | he
        · exact absurd hlt hd
        · exact ⟨e, he, hlt⟩
      have hrest := fun budget => @ih d (hv.sublist (sublist_cons_self _ _)) hlong'
        (fun e he => hbare e (mem_cons_of_mem _ he)) (not_lt.mp hd) budget
      split
      · obtain ⟨g, hg, hlt⟩ := hrest budget (by omega)
        exact ⟨g, mem_cons_of_mem _ hg, hlt⟩
      · exact hrest (budget + 1) (by omega)

theorem computeGaps_long (hv : Valid (c :: cs)) (ha : ¬Anchored total (c :: cs))
    (hstart : start < total) :
    ∃ g ∈ computeGaps (c :: cs) (cs.length + 2) total start, total < g.stop := by
  obtain ⟨hlong, hbare⟩ := Classical.not_imp.mp ha
  have hbare' : ∀ d ∈ c :: cs, d.offset ≤ total → d.stop < total := fun d hd hle =>
    Nat.lt_of_not_le fun hge => hbare ⟨d, hd, hle, hge⟩
  rw [computeGaps, if_neg (by omega)]
  by_cases hc : total < c.offset
  · rw [if_pos (by omega)]
    refine ⟨_, mem_cons_self, ?_⟩
    rw [stop_between (by omega)]
    exact hc
  · have hlong' : ∃ d ∈ cs, total < d.offset := by
      obtain ⟨d, hd, hlt⟩ := hlong
      rcases mem_cons.mp hd with rfl | hd
      · exact absurd hlt hc
      · exact ⟨d, hd, hlt⟩
    have hrest := fun budget => @gapsLoop_long total start c cs hv hlong' hbare'
      (not_lt.mp hc) hstart budget
    split
    · obtain ⟨g, hg, hlt⟩ := hrest (cs.length + 1) (lt_succ_self _)
      exact ⟨g, mem_cons_of_mem _ hg, hlt⟩
    · exact hrest (cs.length + 2) (lt_succ_of_lt (lt_succ_self _))

end Chunks

namespace ChunkArray

/-- The loop of `compute_gaps` from entry `i` on, with `left` in use: the gaps and their number. -/
def gapsLoop (a : ChunkArray) (maxGaps total start : Nat) :
    Nat → Nat → Nat → List Chunk → Except Assertion (List Chunk × Nat)
  | 0, _, ret, gaps => .ok (gaps, ret)
  | left + 1, i, ret, gaps =>
    if maxGaps ≤ ret then .ok (gaps, ret)
    else do
      let nextOff ← if i = a.count - 1 then .ok total else Span.offset <$> a.read (i + 1)
      let current ← a.read i
      -- both additions wrap in the code
      let gapStart := (current.offset + current.size) % fileSizeLimit
      let offset := if start < gapStart then gapStart else start
      let size := (nextOff + fileSizeLimit - offset) % fileSizeLimit
      if total ≤ gapStart then .ok (gaps, ret)
      else if start < nextOff then
        gapsLoop a maxGaps total start left (i + 1) (ret + 1) (gaps ++ [⟨offset, size⟩])
      else gapsLoop a maxGaps total start left (i + 1) ret gaps

def computeGaps (a : ChunkArray) (maxGaps total start : Nat) :
    Except Assertion (List Chunk × Nat) :=
  if total = 0 then .ok ([], 0)
  else if total ≤ start then .error .bounds
  else if a.count = 0 then .ok ([⟨0, total⟩], 1)
  else do
    let first ← a.read 0
    if start < first.offset then
      gapsLoop a maxGaps total start a.count 0 1 [⟨start, first.offset - start⟩]
    else gapsLoop a maxGaps total start a.count 0 0 []

section

variable {n : Nat} {a : ChunkArray} {maxGaps total start : Nat}

theorem gapsLoop_holds {front rest : List Chunk} (h : Holds n (front ++ rest) a)
    (hv : Chunks.Valid (front ++ rest)) (htotal : total < 2 ^ 32) (ret : Nat)
    (gaps : List Chunk) :
    gapsLoop a maxGaps total start rest.length front.length ret gaps =
      .ok (gaps ++ Chunks.gapsLoop total start rest (maxGaps - ret),
        ret + (Chunks.gapsLoop total start rest (maxGaps - ret)).length) := by
  induction rest generalizing front ret gaps with
  | nil =>
    rw [Chunks.gapsLoop, append_nil]
    rfl
  | cons c cs ih =>
    rw [length_cons, gapsLoop]
    by_cases hmax : maxGaps ≤ ret
    · rw [if_pos hmax, Nat.sub_eq_zero_of_le hmax, Chunks.gapsLoop, append_nil]
      rfl
    obtain ⟨budget, hbudget⟩ : ∃ budget, maxGaps - ret = budget + 1 :=
      ⟨maxGaps - ret - 1, by omega⟩
    have hread : a.read front.length = .ok c := h.read (by simp)
    have hcount : a.count = front.length + (cs.length + 1) := by
      rw [h.count, length_append, length_cons]
    have hbound := hv.bounded c (by simp)
    have hstop : (c.offset + c.size) % fileSizeLimit = c.stop := mod_eq_of_lt hbound
    have hoffset : (if start < c.stop then c.stop else start) = max c.stop start := by
      split <;> omega
    have hstep : front.length + 1 = (front ++ [c]).length := by simp
    rw [← singleton_append, ← append_assoc] at h hv
    have hrest := fun ret gaps => ih h hv ret gaps
    rw [← hstep] at hrest
    rw [if_neg hmax, hbudget]
    cases cs with
    | nil =>
      rw [if_pos (by rw [hcount]; simp), hread, Chunks.gapsLoop_last]
      dsimp only [bind, Except.bind]
      rw [hstop, hoffset]
      by_cases hend : total ≤ c.stop
      · rw [if_pos hend, if_pos hend, append_nil]
        rfl
      · rw [if_neg hend, if_neg hend]
        split
        · have hsize : (total + fileSizeLimit - max c.stop start) % fileSizeLimit =
              total - max c.stop start := by
            simp only [fileSizeLimit]
            omega
          rw [hsize]
          rfl
        · rw [append_nil]
          rfl
    | cons d ds =>
      have hnext : a.read (front.length + 1) = .ok d := h.read (by
        rw [hstep, getElem?_append_right (Nat.le_refl _), Nat.sub_self]
        rfl)
      have hd := hv.bounded d (by simp)
      have hcd : c.stop < d.offset := by
        rw [append_assoc] at hv
        exact (separated_cons.1 (separated_append.1 hv.separated).2.1).1 d mem_cons_self
      rw [if_neg (by rw [hcount, length_cons]; omega), hnext, hread, Chunks.gapsLoop_next]
      dsimp only [bind, Except.bind, Functor.map, Except.map]
      rw [hstop, hoffset]
      by_cases hend : total ≤ c.stop
      · rw [if_pos hend, if_pos hend, append_nil]
        rfl
      · rw [if_neg hend, if_neg hend]
        split
        · have hsize : (d.offset + fileSizeLimit - max c.stop start) % fileSizeLimit =
              d.offset - max c.stop start := by
            rw [Span.stop] at hd
            simp only [fileSizeLimit]
            omega
          have hleft : maxGaps - (ret + 1) = budget := by omega
          rw [hsize, hrest, hleft, append_assoc, singleton_append, length_cons,
            add_right_comm, add_assoc]
        · rw [hrest, hbudget]

theorem computeGaps_holds {c : Chunk} {cs : List Chunk} (h : Holds n (c :: cs) a)
    (hv : Chunks.Valid (c :: cs)) (htotal : total < 2 ^ 32) (hstart : start < total) :
    a.computeGaps maxGaps total start =
      .ok (Chunks.computeGaps (c :: cs) maxGaps total start,
        (Chunks.computeGaps (c :: cs) maxGaps total start).length) := by
  have hcount : a.count = (c :: cs).length := h.count
  have hread : a.read 0 = .ok c := h.read rfl
  have hloop := fun ret gaps => @gapsLoop_holds n a maxGaps total start [] (c :: cs) h hv htotal
    ret gaps
  rw [computeGaps, if_neg (by omega), if_neg (by omega),
    if_neg (by rw [hcount]; exact succ_ne_zero _), hread, Chunks.computeGaps,
    if_neg (by omega), hcount]
  dsimp only [bind, Except.bind]
  split
  · refine (hloop 1 _).trans ?_
    rw [singleton_append, length_cons, add_comm]
  · refine (hloop 0 _).trans ?_
    rw [nil_append, Nat.sub_zero, Nat.zero_add]

end

/-- The gaps are handed over in order, they are the runs of missing bytes, and their number is
returned. -/
def ReportsGaps (missing : Set Nat) (r : Except Assertion (List Chunk × Nat)) : Prop :=
  ∃ gaps, r = .ok (gaps, gaps.length) ∧ gaps.Pairwise (fun g g' => g.offset < g'.offset) ∧
    ∀ g, g ∈ gaps ↔ IsRun missing g

theorem ncard_runs {missing : Set Nat} {gaps : List Chunk} (hnodup : gaps.Nodup)
    (hruns : ∀ g, g ∈ gaps ↔ IsRun missing g) : {g | IsRun missing g}.ncard = gaps.length := by
  have hset : {g | IsRun missing g} = ↑gaps.toFinset := by
    ext g
    rw [coe_toFinset]
    exact (hruns g).symm
  rw [hset, Set.ncard_coe_finset, toFinset_card_of_nodup hnodup]

theorem sorted_nodup {gaps : List Chunk} (h : gaps.Pairwise fun g g' => g.offset < g'.offset) :
    gaps.Nodup := by
  refine h.imp fun {g g'} hlt heq => ?_
  rw [heq] at hlt
  exact lt_irrefl _ hlt

/-- The walk is exact, unless a chunk begins behind `total` and no chunk is at `total`. -/
theorem compute_gaps_exact_iff {l : ChunkList} {a : ChunkArray} (h : Refines l a)
    (hne : l.chunks ≠ []) {maxGaps total start : Nat} (htotal : total < 2 ^ 32)
    (hstart : start < total)
    (hmax : {g | IsRun (Set.Ico start total \ covered a.used) g}.ncard + 1 ≤ maxGaps) :
    ReportsGaps (Set.Ico start total \ covered a.used) (a.computeGaps maxGaps total start) ↔
      Chunks.Anchored total a.used := by
  have hused : a.used = l.chunks := Holds.used h
  rw [hused] at hmax ⊢
  have hv := l.valid
  obtain ⟨c, cs, hl⟩ := exists_cons_of_ne_nil hne
  rw [Refines, hl] at h
  rw [hl] at hv hmax ⊢
  rw [computeGaps_holds h hv htotal hstart,
    Chunks.computeGaps_take (by omega) (by omega)]
  constructor
  · rintro ⟨gaps, hgaps, hsorted, hruns⟩
    obtain ⟨hgaps, -⟩ := Prod.mk.inj (Except.ok.inj hgaps)
    rw [ncard_runs (sorted_nodup hsorted) hruns, ← hgaps, length_take] at hmax
    rw [take_of_length_le (by omega)] at hgaps
    by_contra ha
    obtain ⟨g, hg, hlong⟩ := Chunks.computeGaps_long hv ha hstart
    rw [hgaps] at hg
    have hrun := (hruns g).mp hg
    have hpos := hrun.positive
    have hlast : g.stop - 1 ∈ g.toSet := by
      rw [mem_toSet, Span.stop]
      omega
    have hlt := (hrun.subset hlast).1.2
    omega
  · intro ha
    have hfills := Chunks.computeGaps_fills hv ha hstart
    generalize Chunks.computeGaps (c :: cs) (cs.length + 2) total start = gaps at hfills
    have hruns := hfills.mem_iff
    rw [ncard_runs hfills.separated.nodup hruns] at hmax
    rw [take_of_length_le (by omega)]
    refine ⟨gaps, rfl, hfills.separated.imp fun {g g'} hlt => ?_, hruns⟩
    exact lt_of_le_of_lt (le_add_right _ _) hlt

/-- Two chunks below `total`, and the gaps after each of them. -/
theorem compute_gaps_exact_iff_two :
    ∃ a : ChunkArray, a.used = [⟨0, 5⟩, ⟨10, 5⟩] ∧
      {g | IsRun (Set.Ico 0 20 \ covered a.used) g}.ncard = 2 ∧
      ReportsGaps (Set.Ico 0 20 \ covered a.used) (a.computeGaps 3 20 0) := by
  obtain ⟨a0, -, h0⟩ := new_refines (show 0 < 4 by decide)
  obtain ⟨a1, -, h1⟩ := add_refines h0 (show 0 + 5 < 2 ^ 32 by decide)
  obtain ⟨a2, -, h2⟩ := add_refines h1 (show 10 + 5 < 2 ^ 32 by decide)
  have hused : a2.used = [⟨0, 5⟩, ⟨10, 5⟩] := Holds.used h2
  have hvalid : Chunks.Valid [⟨0, 5⟩, ⟨10, 5⟩] :=
    (((ChunkList.new 4 (zero_lt_succ 3)).add 0 5).add 10 5).valid
  have hanchored : Chunks.Anchored 20 [⟨0, 5⟩, ⟨10, 5⟩] := by
    rintro ⟨c, hc, hlt⟩
    revert c
    decide
  have hfills := Chunks.computeGaps_fills hvalid hanchored (show 0 < 20 by decide)
  have hcount : {g | IsRun (Set.Ico 0 20 \ covered a2.used) g}.ncard = 2 := by
    rw [hused]
    exact ncard_runs hfills.separated.nodup hfills.mem_iff
  refine ⟨a2, hused, hcount, ?_⟩
  refine (compute_gaps_exact_iff h2 (cons_ne_nil _ _) (by decide) (by decide) ?_).mpr ?_
  · rw [hcount]
  · rw [hused]
    exact hanchored

/-- One chunk behind `total`: the gap that is reported ends where the chunk begins. -/
theorem gap_past_total :
    ∃ a a', new 4 = .ok a ∧ a.add 100 10 = .ok a' ∧
      a'.computeGaps 10 50 0 = .ok ([⟨0, 100⟩], 1) ∧
      ¬IsRun (Set.Ico 0 50 \ covered a'.used) ⟨0, 100⟩ := by
  refine ⟨_, _, rfl, rfl, rfl, fun h => ?_⟩
  have hlast : (99 : Nat) ∈ (⟨0, 100⟩ : Chunk).toSet := by
    rw [mem_toSet]
    decide
  exact absurd (h.subset hlast).1.2 (by decide)

end ChunkArray

end Fprime.Cfdp
