import Mathlib.Data.List.Nodup
import Mathlib.Logic.Relation

/-!
# Walks in the hierarchy of a state machine

The nodes of a hierarchy are given by their parents. How far up a walk may go is given, and a walk
that goes further has not ended.
-/

namespace Fprime.Comp

open List

inductive Stop where
  | unfinished
  | assertion
  | malformed

namespace Sm

variable {ν : Type} (parent : ν → Option ν)

def depth : Nat → ν → Except Stop Nat
  | 0, _ => .error .unfinished
  | fuel + 1, n =>
    match parent n with
    | some p => (depth fuel p).map (· + 1)
    | none => .ok 1

variable [DecidableEq ν]

def meets (a : ν) : Nat → Option ν → Except Stop Bool
  | _, none => .ok false
  | 0, some _ => .error .unfinished
  | fuel + 1, some p => if p = a then .ok true else meets a fuel (parent p)

def isProperAncestor (fuel : Nat) (a n : ν) : Except Stop Bool :=
  meets parent a fuel (parent n)

/-- The deepest node from a node on upwards that is a proper ancestor of the target. -/
def lcaFrom (bound : Nat) (target : ν) : Nat → Option ν → Except Stop (Option ν)
  | _, none => .ok none
  | 0, some _ => .error .unfinished
  | fuel + 1, some a =>
    match isProperAncestor parent bound a target with
    | .error e => .error e
    | .ok true => .ok (some a)
    | .ok false => lcaFrom bound target fuel (parent a)

def lca (fuel : Nat) (source target : ν) : Except Stop (Option ν) :=
  lcaFrom parent fuel target fuel (some source)

def exitsFrom (stop : Option ν) : Nat → Option ν → Except Stop (List ν)
  | _, none => if stop = none then .ok [] else .error .assertion
  | 0, some _ => .error .unfinished
  | fuel + 1, some n =>
    if some n = stop then .ok [] else (exitsFrom stop fuel (parent n)).map (n :: ·)

def forEachExit (fuel : Nat) (start : ν) (stop : Option ν) : Except Stop (List ν) :=
  exitsFrom parent stop fuel (some start)

omit [DecidableEq ν] in
def climb : Nat → ν → ν
  | 0, n => n
  | k + 1, n =>
    match parent n with
    | some p => climb k p
    | none => n

def startDepth (fuel : Nat) : Option ν → Except Stop Nat
  | none => .ok 0
  | some n => depth parent fuel n

/-- The states to enter on the way to a node, the outermost first and without the node. -/
def forEachEntry (fuel : Nat) (start : Option ν) (target : ν) : Except Stop (List ν) :=
  match startDepth parent fuel start, depth parent fuel target with
  | .ok startDepth, .ok targetDepth =>
    .ok ((range' (startDepth + 1) (targetDepth - (startDepth + 1))).map fun level =>
      climb parent (targetDepth - level) target)
  | .error e, _ => .error e
  | .ok _, .error e => .error e

def Ranked (rank : ν → Nat) : Prop :=
  ∀ n p, parent n = some p → rank p < rank n

def Above (a n : ν) : Prop :=
  Relation.ReflTransGen (fun x y => parent x = some y) n a

/-- The nodes from a node up to the top. -/
inductive Chain : Option ν → List ν → Prop where
  | top : Chain none []
  | up {n : ν} {l : List ν} : Chain (parent n) l → Chain (some n) (n :: l)

variable {parent} {rank : ν → Nat}

variable {fuel : Nat} {cur stop : Option ν} {target n a : ν} {l front below rest : List ν}

namespace Chain

section

omit [DecidableEq ν]

theorem bounded (h : Ranked parent rank) (c : Chain parent cur l) {r : Nat}
    (hr : ∀ n, cur = some n → rank n < r) : l.length ≤ r ∧ l.Nodup ∧ ∀ m ∈ l, rank m < r := by
  induction c generalizing r with
  | top => exact ⟨Nat.zero_le _, .nil, fun _ hm => absurd hm not_mem_nil⟩
  | @up n l _ ih =>
    obtain ⟨hlen, hnodup, hlt⟩ := ih (h n)
    have hn := hr n rfl
    refine ⟨Nat.lt_of_le_of_lt hlen hn, nodup_cons.mpr ⟨fun hmem => ?_, hnodup⟩,
      forall_mem_cons.mpr ⟨hn, fun m hm => Nat.lt_trans (hlt m hm) hn⟩⟩
    exact Nat.lt_irrefl _ (hlt n hmem)

theorem exists_of_ranked (h : Ranked parent rank) (n : ν) :
    ∃ l, Chain parent (parent n) l := by
  induction hr : rank n using Nat.strongRecOn generalizing n with
  | _ r ih =>
    cases hp : parent n with
    | none => exact ⟨[], .top⟩
    | some p =>
      obtain ⟨l, hl⟩ := ih _ (hr ▸ h n p hp) p rfl
      exact ⟨p :: l, .up hl⟩

theorem unique {l' : List ν} (c : Chain parent cur l) (c' : Chain parent cur l') : l = l' := by
  induction c generalizing l' with
  | top =>
    cases c'
    rfl
  | up _ ih =>
    cases c' with
    | up c' => rw [ih c']

theorem above (c : Chain parent cur l) (ha : a ∈ l) : ∃ n, cur = some n ∧ Above parent a n := by
  induction c with
  | top => exact absurd ha not_mem_nil
  | @up n _ _ ih =>
    refine ⟨n, rfl, ?_⟩
    rcases mem_cons.mp ha with rfl | ha
    · exact .refl
    · obtain ⟨p, hp, hap⟩ := ih ha
      exact .head hp hap

theorem mem_iff (c : Chain parent (some n) l) : a ∈ l ↔ Above parent a n := by
  constructor
  · intro ha
    obtain ⟨_, hn, h⟩ := c.above ha
    cases hn
    exact h
  · intro h
    induction h using Relation.ReflTransGen.head_induction_on generalizing l with
    | refl =>
      cases c
      exact mem_cons_self
    | head hp _ ih =>
      cases c with
      | up c => exact mem_cons_of_mem _ (ih (hp ▸ c))

theorem split (c : Chain parent cur l) (ha : a ∈ l) :
    ∃ front rest, l = front ++ a :: rest ∧ Chain parent (some a) (a :: rest) := by
  induction c with
  | top => exact absurd ha not_mem_nil
  | @up n l c ih =>
    rcases mem_cons.mp ha with rfl | ha
    · exact ⟨[], l, rfl, c.up⟩
    · obtain ⟨front, rest, rfl, hrest⟩ := ih ha
      exact ⟨n :: front, rest, rfl, hrest⟩

theorem drop (front : List ν) (c : Chain parent cur (front ++ rest)) : Chain parent rest.head? rest := by
  induction front generalizing cur with
  | nil => cases c with
    | top => exact .top
    | up c => exact c.up
  | cons _ _ ih => cases c with
    | up c => exact ih c

theorem depth (c : Chain parent (some n) l) (hfuel : l.length ≤ fuel) :
    depth parent fuel n = .ok l.length := by
  induction fuel generalizing n l with
  | zero => cases c with
    | up => exact absurd hfuel (Nat.not_succ_le_zero _)
  | succ fuel ih => cases c with
    | up c =>
      rw [Sm.depth]
      cases hp : parent n with
      | none =>
        rw [hp] at c
        cases c
        rfl
      | some p =>
        rw [hp] at c
        show (Sm.depth parent fuel p).map (· + 1) = _
        rw [ih c (Nat.le_of_succ_le_succ hfuel)]
        rfl

theorem startDepth (c : Chain parent cur l) (hfuel : l.length ≤ fuel) :
    startDepth parent fuel cur = .ok l.length := by
  cases c with
  | top => rfl
  | up c => exact c.up.depth hfuel

theorem climb (c : Chain parent (some n) l) {k : Nat} (hk : k < l.length) :
    l[k]? = some (climb parent k n) := by
  induction k generalizing n l with
  | zero =>
    cases c
    rfl
  | succ k ih => cases c with
    | up c =>
      rw [Sm.climb]
      cases hp : parent n with
      | none =>
        rw [hp] at c
        cases c
        exact absurd hk (Nat.not_lt_of_le (Nat.succ_le_succ (Nat.zero_le k)))
      | some p => exact ih (hp ▸ c) (Nat.lt_of_succ_lt_succ hk)

theorem forEachEntry (c : Chain parent (some target) (target :: (below ++ rest)))
    (hfuel : (target :: (below ++ rest)).length ≤ fuel) :
    forEachEntry parent fuel rest.head? target = .ok below.reverse := by
  have hstart : rest.length ≤ fuel := by
    rw [length_cons, length_append] at hfuel
    omega
  rw [Sm.forEachEntry, (drop (target :: below) c).startDepth hstart, c.depth hfuel]
  refine congrArg Except.ok (ext_getElem? fun i => ?_)
  by_cases hi : i < below.length
  · -- level `i` from the start is met that many steps before the last
    have hk : (target :: (below ++ rest)).length - (rest.length + 1 + 1 * i) =
        below.length - 1 - i + 1 := by
      rw [length_cons, length_append]
      omega
    have hlt : below.length - 1 - i < below.length := by omega
    have hclimb := c.climb (k := below.length - 1 - i + 1)
      (by rw [length_cons, length_append]; omega)
    rw [getElem?_cons_succ, getElem?_append_left hlt] at hclimb
    rw [getElem?_map, getElem?_range' (by rw [length_cons, length_append]; omega),
      getElem?_reverse hi, hclimb, Option.map_some, hk]
  · rw [getElem?_eq_none (by simp; omega), getElem?_eq_none (by simp; omega)]

end

theorem meets (c : Chain parent cur l) (hfuel : l.length ≤ fuel) (a : ν) :
    meets parent a fuel cur = .ok (decide (a ∈ l)) := by
  induction c generalizing fuel with
  | top => cases fuel <;> rfl
  | @up n l _ ih => cases fuel with
    | zero => exact absurd hfuel (Nat.not_succ_le_zero _)
    | succ fuel =>
      rw [Sm.meets, ih (Nat.le_of_succ_le_succ hfuel)]
      by_cases hn : n = a
      · simp [hn]
      · simp [hn, Ne.symm hn]

theorem lcaFrom {bound : Nat} {t : List ν} (ct : Chain parent (some target) (target :: t))
    (hbound : t.length ≤ bound) (c : Chain parent cur l) (hfuel : l.length ≤ fuel) :
    ∃ front below rest, l = front ++ rest ∧ t = below ++ rest ∧ (∀ n ∈ front, n ∉ t) ∧
      lcaFrom parent bound target fuel cur = .ok rest.head? := by
  cases ct with | up ct =>
  induction c generalizing fuel with
  | top =>
    refine ⟨[], t, [], rfl, (append_nil _).symm, fun _ hn => absurd hn not_mem_nil, ?_⟩
    cases fuel <;> rfl
  | @up n l c ih => cases fuel with
    | zero => exact absurd hfuel (Nat.not_succ_le_zero _)
    | succ fuel =>
      rw [Sm.lcaFrom, isProperAncestor, ct.meets hbound]
      by_cases hn : n ∈ t
      · -- the first node above the target: from here on there is one way up
        obtain ⟨below, rest, rfl, hrest⟩ := ct.split hn
        cases c.up.unique hrest
        refine ⟨[], below, n :: l, rfl, rfl, fun _ hm => absurd hm not_mem_nil, ?_⟩
        rw [decide_eq_true hn]
        rfl
      · obtain ⟨front, below, rest, rfl, rfl, hfront, hlca⟩ := ih (Nat.le_of_succ_le_succ hfuel)
        refine ⟨n :: front, below, rest, rfl, rfl, forall_mem_cons.mpr ⟨hn, hfront⟩, ?_⟩
        rw [decide_eq_false hn]
        exact hlca

theorem exitsFrom (c : Chain parent cur (front ++ rest)) (hnodup : (front ++ rest).Nodup)
    (hfuel : (front ++ rest).length ≤ fuel) :
    exitsFrom parent rest.head? fuel cur = .ok front := by
  induction front generalizing cur fuel with
  | nil => cases c with
    | top => cases fuel <;> rfl
    | up => cases fuel with
      | zero => exact absurd hfuel (Nat.not_succ_le_zero _)
      | succ fuel => exact if_pos rfl
  | cons n front ih => cases c with
    | up c => cases fuel with
      | zero => exact absurd hfuel (Nat.not_succ_le_zero _)
      | succ fuel =>
        obtain ⟨hn, hnodup⟩ := nodup_cons.mp hnodup
        -- the walk does not stop early, since the node to stop at comes once
        have hne : some n ≠ rest.head? := fun heq =>
          hn (mem_append_right _ (mem_of_mem_head? heq.symm))
        rw [Sm.exitsFrom, if_neg hne, ih c hnodup (Nat.le_of_succ_le_succ hfuel)]
        rfl

end Chain

omit [DecidableEq ν] in
theorem Chain.of_rank_lt (h : Ranked parent rank) (hfuel : rank n < fuel) :
    ∃ l, Chain parent (some n) (n :: l) ∧ (n :: l).length ≤ fuel ∧ (n :: l).Nodup ∧
      ∀ m ∈ n :: l, rank m < fuel := by
  obtain ⟨l, c⟩ := exists_of_ranked h n
  exact ⟨l, c.up, c.up.bounded h fun _ hn => Option.some.inj hn ▸ hfuel⟩

theorem lca_ok (h : Ranked parent rank) {source : ν} (hsource : rank source < fuel)
    (htarget : rank target < fuel) :
    ∃ found, lca parent fuel source target = .ok found ∧
      ∀ a, found = some a → Above parent a source := by
  obtain ⟨l, c, hlen, -⟩ := Chain.of_rank_lt h hsource
  obtain ⟨t, ct, htlen, -⟩ := Chain.of_rank_lt h htarget
  obtain ⟨front, _, rest, hl, -, -, hlca⟩ := ct.lcaFrom (Nat.le_of_succ_le htlen) c hlen
  refine ⟨rest.head?, hlca, fun a ha => c.mem_iff.mp ?_⟩
  rw [hl]
  exact mem_append_right _ (mem_of_mem_head? ha)

theorem forEachExit_ok (h : Ranked parent rank) {start : ν} (hfuel : rank start < fuel)
    (hstop : ∀ a, stop = some a → Above parent a start) :
    ∃ nodes, forEachExit parent fuel start stop = .ok nodes := by
  obtain ⟨l, c, hlen, hnodup, -⟩ := Chain.of_rank_lt h hfuel
  have hsplit : ∃ front rest, start :: l = front ++ rest ∧ rest.head? = stop := by
    cases stop with
    | none => exact ⟨start :: l, [], (append_nil _).symm, rfl⟩
    | some a =>
      obtain ⟨front, rest, hl, -⟩ := c.split (c.mem_iff.mpr (hstop a rfl))
      exact ⟨front, a :: rest, hl, rfl⟩
  obtain ⟨front, rest, hl, rfl⟩ := hsplit
  rw [hl] at c hlen hnodup
  exact ⟨front, c.exitsFrom hnodup hlen⟩

omit [DecidableEq ν] in
theorem forEachEntry_ok (h : Ranked parent rank) {start : Option ν}
    (hstart : ∀ n, start = some n → rank n < fuel) (htarget : rank target < fuel) :
    ∃ nodes, forEachEntry parent fuel start target = .ok nodes := by
  obtain ⟨t, ct, htlen, -⟩ := Chain.of_rank_lt h htarget
  have hstartDepth : ∃ d, startDepth parent fuel start = .ok d := by
    cases start with
    | none => exact ⟨0, rfl⟩
    | some n =>
      obtain ⟨l, c, hlen, -⟩ := Chain.of_rank_lt h (hstart n rfl)
      exact ⟨_, c.startDepth hlen⟩
  obtain ⟨d, hd⟩ := hstartDepth
  rw [forEachEntry, hd, ct.depth htlen]
  exact ⟨_, rfl⟩

def Path (parent : ν → Option ν) (path : List ν) (n : ν) : Prop :=
  Chain parent (some n) path.reverse

/-- The walks of a transition turn the path of the leaf into that of the target. -/
theorem transition_moves_along_hierarchy (h : Ranked parent rank) {source leaf : ν}
    (hsource : Above parent source leaf) (hleaf : rank leaf < fuel) (htarget : rank target < fuel) :
    ∃ old new common exits entries,
      Path parent old leaf ∧ Path parent new target ∧
      (∀ n, n ∈ common ↔ Above parent n source ∧ Above parent n target ∧ n ≠ target) ∧
      lca parent fuel source target = .ok common.getLast? ∧
      forEachExit parent fuel leaf common.getLast? = .ok exits ∧
      forEachEntry parent fuel common.getLast? target = .ok entries ∧
      old = common ++ exits.reverse ∧ new = common ++ entries ++ [target] ∧
      exits.Nodup ∧ (entries ++ [target]).Nodup ∧
      (Above parent target source → target ∈ exits) := by
  obtain ⟨l, c, hlen, hnodup, -⟩ := Chain.of_rank_lt h hleaf
  obtain ⟨t, ct, htlen, htnodup, -⟩ := Chain.of_rank_lt h htarget
  obtain ⟨inner, l', hl, cs⟩ := c.split (c.mem_iff.mpr hsource)
  have hslen : (source :: l').length ≤ fuel := by
    rw [hl, length_append] at hlen
    exact Nat.le_trans (Nat.le_add_left _ _) hlen
  obtain ⟨front, below, rest, hs, rfl, hfront, hlca⟩ :=
    ct.lcaFrom (Nat.le_of_succ_le htlen) cs hslen
  rw [hs, ← append_assoc] at hl
  have hself := (nodup_cons.mp htnodup).1
  -- what the source and the target share is what both ways up end with
  have hcommon : ∀ n, n ∈ rest ↔ Above parent n source ∧ Above parent n target ∧ n ≠ target := by
    intro n
    rw [← cs.mem_iff, ← ct.mem_iff, hs, mem_append, mem_cons, mem_append]
    constructor
    · intro hn
      refine ⟨.inr hn, .inr (.inr hn), fun heq => ?_⟩
      exact hself (heq ▸ mem_append_right _ hn)
    · rintro ⟨hn | hn, hn' | hn', hne⟩
      · exact absurd hn' hne
      · exact absurd (mem_append.mpr hn') (hfront n hn)
      · exact absurd hn' hne
      · exact hn
  rw [hl] at hlen hnodup
  refine ⟨(leaf :: l).reverse, (target :: (below ++ rest)).reverse, rest.reverse, inner ++ front,
    below.reverse, ?_, ?_, fun n => mem_reverse.trans (hcommon n), ?_⟩
  · rwa [Path, reverse_reverse]
  · rwa [Path, reverse_reverse]
  rw [getLast?_reverse, hl]
  refine ⟨hlca, (hl ▸ c).exitsFrom hnodup hlen, ct.forEachEntry htlen, reverse_append, ?_,
    hnodup.of_append_left, ?_, fun htop => ?_⟩
  · rw [reverse_cons, reverse_append]
  · rw [← reverse_cons, nodup_reverse]
    exact (nodup_append.mp (cons_append ▸ htnodup)).1
  · -- a target that contains the source is left and entered again
    have hmem := cs.mem_iff.mpr htop
    rw [hs] at hmem
    rcases mem_append.mp hmem with hmem | hmem
    · exact mem_append_right _ hmem
    · exact absurd rfl ((hcommon target).mp hmem).2.2

/-- A state in the middle of a tower goes to itself while the one inside it is active. -/
theorem transition_moves_along_hierarchy_tower :
    ∃ exits, forEachExit (fun n => if n = 0 then none else some (n - 1)) 3 2 (some 0) = .ok exits ∧
      1 ∈ exits := by
  have hranked : Ranked (fun n : Nat => if n = 0 then none else some (n - 1)) id := by
    intro n p hp
    dsimp only at hp
    split at hp
    · cases hp
    · cases hp
      exact Nat.sub_one_lt ‹_›
  obtain ⟨_, _, _, exits, _, -, -, -, hlca, hexits, -, -, -, -, -, hself⟩ :=
    @transition_moves_along_hierarchy Nat _ _ id 3 1 hranked 1 2 (.single rfl) (by decide) (by decide)
  rw [← Except.ok.inj hlca] at hexits
  exact ⟨exits, hexits, hself .refl⟩

end Sm

end Fprime.Comp
