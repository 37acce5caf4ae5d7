import Mathlib.Data.Set.Lattice
import Mathlib.Order.MinMax
import Mathlib.Data.List.Basic

/-!
# Separated lists of spans

A span is a half-open range of naturals, given by its start and its length. In a separated list each
one ends strictly before the next begins, so that it covers an initial segment only through its
first span.
-/

namespace Lib

open List

structure Span where
  offset : Nat
  size : Nat
  deriving DecidableEq

namespace Span

def stop (c : Span) : Nat :=
  c.offset + c.size

def toSet (c : Span) : Set Nat :=
  Set.Ico c.offset c.stop

variable {n : Nat} {c : Span} {l m : List Span}

@[simp] theorem mem_toSet : n ∈ c.toSet ↔ c.offset ≤ n ∧ n < c.stop :=
  Iff.rfl

theorem stop_between {a b : Nat} (h : a ≤ b) : (⟨a, b - a⟩ : Span).stop = b :=
  Nat.add_sub_cancel' h

theorem toSet_between {a b : Nat} (h : a ≤ b) : (⟨a, b - a⟩ : Span).toSet = Set.Ico a b := by
  rw [toSet, stop_between h]

def covered (l : List Span) : Set Nat :=
  { n | ∃ c ∈ l, n ∈ c.toSet }

@[simp] theorem covered_nil : covered [] = ∅ := by
  ext n
  simp [covered]

@[simp] theorem covered_cons (c : Span) (l : List Span) :
    covered (c :: l) = c.toSet ∪ covered l := by
  ext n
  simp [covered]

@[simp] theorem covered_append (l m : List Span) : covered (l ++ m) = covered l ∪ covered m := by
  ext n
  simp only [covered, mem_append, Set.mem_ofPred_eq, Set.mem_union]
  constructor
  · rintro ⟨c, hc | hc, hn⟩
    · exact .inl ⟨c, hc, hn⟩
    · exact .inr ⟨c, hc, hn⟩
  · rintro (⟨c, hc, hn⟩ | ⟨c, hc, hn⟩)
    · exact ⟨c, .inl hc, hn⟩
    · exact ⟨c, .inr hc, hn⟩

theorem covered_mono (h : ∀ c ∈ l, c ∈ m) : covered l ⊆ covered m :=
  fun _ ⟨c, hc, hn⟩ => ⟨c, h c hc, hn⟩

def Separated (l : List Span) : Prop :=
  l.Pairwise fun a b => a.stop < b.offset

theorem Separated.nil : Separated [] :=
  List.Pairwise.nil

theorem separated_cons :
    Separated (c :: l) ↔ (∀ d ∈ l, c.stop < d.offset) ∧ Separated l :=
  pairwise_cons

theorem separated_append :
    Separated (l ++ m) ↔
      Separated l ∧ Separated m ∧ ∀ c ∈ l, ∀ d ∈ m, c.stop < d.offset :=
  pairwise_append

theorem Separated.sublist (h : Separated m) (hl : l.Sublist m) : Separated l :=
  List.Pairwise.sublist hl h

theorem covered_iff_head_of_lt (hn : ∀ d ∈ l, n < d.offset) :
    n ∈ covered (c :: l) ↔ n ∈ c.toSet := by
  rw [covered_cons]
  constructor
  · rintro (h | ⟨d, hd, hlo, -⟩)
    · exact h
    · exact absurd (hn d hd) (by omega)
  · exact fun h => .inl h

theorem initial_covered_iff (h : Separated (c :: l)) (hn : 0 < n) :
    (∀ k < n, k ∈ covered (c :: l)) ↔ c.offset = 0 ∧ n ≤ c.stop := by
  have hlater : ∀ d ∈ l, c.stop < d.offset := (separated_cons.1 h).1
  constructor
  · intro hall
    have hzero : 0 ∈ c.toSet :=
      (covered_iff_head_of_lt fun d hd => by have := hlater d hd; omega).1 (hall 0 hn)
    refine ⟨by simpa using hzero.1, ?_⟩
    -- The first number after the head is in no later span, so it cannot be below `n`.
    by_contra hlt
    have hstop := hall c.stop (by omega)
    rw [covered_iff_head_of_lt hlater] at hstop
    exact absurd hstop.2 (by omega)
  · rintro ⟨hoff, hle⟩ k hk
    exact ⟨c, mem_cons_self, by simp only [mem_toSet]; omega⟩

theorem toSet_union_covered {o e : Nat} (l : List Span)
    (hlo : ∀ c ∈ l, o ≤ c.offset) (hhi : ∀ c ∈ l, c.offset ≤ e) (hsep : Separated l)
    (last : Span) (hlast : l.getLast? = some last) :
    Set.Ico o e ∪ covered l = Set.Ico o (max e last.stop) := by
  have hmem : last ∈ l := mem_of_getLast? hlast
  obtain ⟨front, rfl⟩ : ∃ front, l = front ++ [last] := by
    obtain ⟨front, hfront⟩ := getLast?_eq_some_iff.1 hlast
    exact ⟨front, hfront⟩
  have hend : ∀ c ∈ front, c.stop < last.offset := fun c hc =>
    (separated_append.1 hsep).2.2 c hc last (mem_singleton_self _)
  have hle : last.offset ≤ e := hhi last hmem
  have hol : o ≤ last.offset := hlo last hmem
  ext n
  simp only [Set.mem_union, Set.mem_Ico, lt_max_iff]
  constructor
  · rintro (⟨h1, h2⟩ | ⟨c, hc, h1, h2⟩)
    · exact ⟨h1, .inl h2⟩
    · have hoc : o ≤ c.offset := hlo c hc
      rcases mem_append.1 hc with hc | hc
      · have hcend := hend c hc
        exact ⟨by omega, .inl (by omega)⟩
      · rw [mem_singleton] at hc
        subst hc
        exact ⟨by omega, .inr h2⟩
  · rintro ⟨h1, h2⟩
    by_cases hn : n < e
    · exact .inl ⟨h1, hn⟩
    · exact .inr ⟨last, hmem, by simp only [mem_toSet]; omega⟩

theorem Separated.trichotomy (h : Separated l) {d : Span} (hc : c ∈ l) (hd : d ∈ l) :
    c = d ∨ c.stop < d.offset ∨ d.stop < c.offset := by
  induction l with
  | nil => exact absurd hc not_mem_nil
  | cons e l ih =>
    obtain ⟨hafter, hl⟩ := separated_cons.1 h
    rcases mem_cons.1 hc with rfl | hcl
    · rcases mem_cons.1 hd with rfl | hdl
      · exact .inl rfl
      · exact .inr (.inl (hafter d hdl))
    · rcases mem_cons.1 hd with rfl | hdl
      · exact .inr (.inr (hafter c hcl))
      · exact ih hl hcl hdl

/-- The span is a whole run of the set: it lies in it and cannot be made longer on either side. -/
structure IsRun (s : Set Nat) (g : Span) : Prop where
  positive : 0 < g.size
  subset : g.toSet ⊆ s
  left : ∀ n, n + 1 = g.offset → n ∉ s
  right : g.stop ∉ s

theorem isRun_of_mem (hsep : Separated l) (hpos : ∀ c ∈ l, 0 < c.size) {g : Span} (hg : g ∈ l) :
    IsRun (covered l) g where
  positive := hpos g hg
  subset := fun _ hn => ⟨g, hg, hn⟩
  left := by
    rintro n hn ⟨d, hd, hlo, hhi⟩
    rcases hsep.trichotomy hg hd with rfl | hlt | hlt
    · omega
    · rw [stop] at hlt
      omega
    · omega
  right := by
    rintro ⟨d, hd, hlo, hhi⟩
    rcases hsep.trichotomy hg hd with rfl | hlt | hlt
    · exact Nat.lt_irrefl _ hhi
    · omega
    · have hle : g.offset ≤ g.stop := Nat.le_add_right _ _
      omega

theorem Separated.nodup (h : Separated l) : l.Nodup := by
  refine List.Pairwise.imp (fun {c d} hlt heq => ?_) h
  subst heq
  rw [stop] at hlt
  omega

/-- A separated list of nonempty spans consists of the runs of what it covers. -/
theorem mem_iff_isRun (hsep : Separated l) (hpos : ∀ c ∈ l, 0 < c.size) {g : Span} :
    g ∈ l ↔ IsRun (covered l) g := by
  constructor
  · exact isRun_of_mem hsep hpos
  · intro h
    have hg := h.positive
    obtain ⟨d, hd, hlo, hhi⟩ := h.subset (show g.offset ∈ g.toSet from
      ⟨Nat.le_refl _, Nat.lt_add_of_pos_right hg⟩)
    have hrun := isRun_of_mem hsep hpos hd
    have hoffset : d.offset = g.offset := by
      by_contra hne
      refine h.left (g.offset - 1) (by omega) ⟨d, hd, ?_⟩
      rw [mem_toSet]
      omega
    have hstop : d.stop = g.stop := by
      rcases Nat.lt_trichotomy d.stop g.stop with hlt | heq | hlt
      · refine absurd (h.subset ?_) hrun.right
        rw [mem_toSet]
        omega
      · exact heq
      · have hle : g.offset ≤ g.stop := Nat.le_add_right _ _
        refine absurd ⟨d, hd, ?_⟩ h.right
        rw [mem_toSet]
        omega
    have hsize : d.size = g.size := by
      rw [stop, stop, hoffset] at hstop
      exact Nat.add_left_cancel hstop
    cases d
    cases g
    cases hoffset
    cases hsize
    exact hd

end Span

end Lib
