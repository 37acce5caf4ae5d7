import Mathlib.Tactic.Ring
import Fprime.Comp.Escrow
import Fprime.Lib.Runs

/-!
# Runs of an escrow

A token goes out as one word, with the generation above the slot's number. A word that was claimed
is not taken again before the generation of its slot has come round.
-/

namespace Fprime.Comp

open List Lib.Runs UInt32

def Token.word (token : Token) : UInt64 :=
  token.generation.toUInt64 <<< 32 ||| UInt64.ofNat token.index

def Token.ofWord (word : UInt64) : Token :=
  ⟨(word >>> 32).toUInt32, (word &&& 0xFFFFFFFF).toNat⟩

theorem Token.toNat_word {token : Token} (h : token.index < 2 ^ 32) :
    token.word.toNat = token.generation.toNat * 2 ^ 32 + token.index := by
  have hlt := token.generation.toNat_lt
  have hshift : token.generation.toNat <<< 32 < 2 ^ 64 := by
    rw [Nat.shiftLeft_eq]
    omega
  have hfour : (32 : UInt64).toNat % 64 = 32 := rfl
  rw [word, UInt64.toNat_or, UInt64.toNat_shiftLeft, toNat_toUInt64, hfour,
    Nat.mod_eq_of_lt hshift, UInt64.toNat_ofNat', Nat.mod_eq_of_lt (by omega),
    ← Nat.shiftLeft_add_eq_or_of_lt h, Nat.shiftLeft_eq]

theorem Token.ofWord_word {token : Token} (h : token.index < 2 ^ 32) :
    ofWord token.word = token := by
  have hlt := token.generation.toNat_lt
  have hfour : (32 : UInt64).toNat % 64 = 32 := rfl
  have hmask : (0xFFFFFFFF : UInt64).toNat = 2 ^ 32 - 1 := rfl
  have hgeneration : (token.word >>> 32).toUInt32 = token.generation := by
    apply toNat.inj
    rw [UInt64.toNat_toUInt32, UInt64.toNat_shiftRight, hfour, toNat_word h,
      Nat.shiftRight_eq_div_pow]
    omega
  have hindex : (token.word &&& 0xFFFFFFFF).toNat = token.index := by
    rw [UInt64.toNat_and, hmask, Nat.and_two_pow_sub_one_eq_mod, toNat_word h]
    omega
  rw [ofWord, hgeneration, hindex]

namespace BufferEscrow

variable {α : Type} {e e' : BufferEscrow α} {token : Token} {b : α}

def len (e : BufferEscrow α) : Nat :=
  e.slots.countP fun s => s.buffer.isSome

theorem claim_of_lookup (h : e.lookup token = some b) : ∃ e', e.claim token = some (b, e') := by
  unfold claim
  split
  · next hnone => cases h.symm.trans hnone
  · next hsome =>
    cases h.symm.trans hsome
    exact ⟨_, rfl⟩

theorem claim_eq_none (h : e.lookup token = none) : e.claim token = none := by
  unfold claim
  split
  · rfl
  · next hsome => cases h.symm.trans hsome

theorem length_slots_deposit (e : BufferEscrow α) (b : α)
    (h : e.held.length + e.free.length = e.slots.length) :
    (e.deposit b).2.held.length + (e.deposit b).2.free.length = (e.deposit b).2.slots.length ∧
    (e.deposit b).2.slots.length ≤ max e.slots.length (e.deposit b).2.held.length := by
  have hheld := (e.deposit_spec b).2.2.length_eq
  rw [length_cons] at hheld
  rw [hheld]
  unfold deposit
  split
  · rename_i hfree
    simp only [hfree, length_nil, length_append, length_singleton] at h ⊢
    omega
  · rename_i index free hfree
    simp only [hfree, length_cons, length_set] at h ⊢
    omega

/-- The tokens that are out, with what was deposited for them, and how often each was done. -/
structure World (α : Type) where
  escrow : BufferEscrow α
  out : List (UInt64 × α)
  deposits : Nat
  claims : Nat

inductive Op (α : Type)
  | deposit (buffer : α)
  | claim (word : UInt64)

variable {w w' : World α}

namespace World

def new : World α := ⟨.new, [], 0, 0⟩

/-- A claim that fails an assertion ends the run. -/
def step (w : World α) : Op α → Except Unit (World α)
  | .deposit buffer =>
    let d := w.escrow.deposit buffer
    .ok ⟨d.2, (d.1.word, buffer) :: w.out, w.deposits + 1, w.claims⟩
  | .claim word =>
    match w.escrow.claim (.ofWord word) with
    | none => .error ()
    | some c => .ok ⟨c.2, w.out.eraseP (·.1 == word), w.deposits, w.claims + 1⟩

def Allowed (w : World α) : Op α → Prop
  | .deposit _ => w.out.length + 1 < 2 ^ 32
  | .claim word => word ∈ w.out.map Prod.fst

structure Inv (w : World α) : Prop where
  holds : w.escrow.Holds (w.out.map fun x => (.ofWord x.1, x.2))
  few : w.escrow.slots.length < 2 ^ 32
  room : w.escrow.held.length + w.escrow.free.length = w.escrow.slots.length
  count : w.out.length + w.claims = w.deposits

theorem Inv.len (h : Inv w) : w.escrow.len = w.out.length := by
  have hheld := h.holds.held.length_eq
  rw [length_map, length_map] at hheld
  exact (length_filterMap_eq_countP ..).symm.trans hheld

theorem Inv.deposit (h : Inv w) (hroom : w.out.length + 1 < 2 ^ 32) (b : α) :
    ∃ w', w.step (.deposit b) = .ok w' ∧ Inv w' := by
  obtain ⟨hlength, hle⟩ := w.escrow.length_slots_deposit b h.room
  have hholds := h.holds.deposit b
  have hheld := hholds.held.length_eq
  simp only [map_cons, length_cons, length_map] at hheld
  have hfew := h.few
  have hindex := lt_of_lookup (w.escrow.deposit_spec b).1
  refine ⟨_, rfl, ?_, Nat.lt_of_le_of_lt hle (by omega), hlength, ?_⟩
  · rw [map_cons, Token.ofWord_word (by omega)]
    exact hholds
  · show w.out.length + 1 + w.claims = w.deposits + 1
    have hcount := h.count
    omega

theorem Inv.claim (h : Inv w) {x : UInt64 × α} (hx : x ∈ w.out) :
    ∃ w', w.step (.claim x.1) = .ok w' ∧ Inv w' := by
  obtain ⟨y, front, back, -, hy, hout, herase⟩ :=
    exists_of_eraseP (p := fun z => z.1 == x.1) hx (beq_self_eq_true x.1)
  have hword : y.1 = x.1 := eq_of_beq hy
  have hperm : w.out.Perm (y :: (front ++ back)) := hout ▸ perm_middle
  obtain ⟨e', hclaim, hholds⟩ := (h.holds.perm (hperm.map _)).claim
  obtain ⟨-, hslots, hfree⟩ := claim_eq_some hclaim
  have hheld := hholds.held.length_eq
  have hbefore := h.holds.held.length_eq
  have hlength := hperm.length_eq
  simp only [length_map, length_cons] at hheld hbefore hlength
  have hroom := h.room
  have hcount := h.count
  refine ⟨⟨e', front ++ back, w.deposits, w.claims + 1⟩, ?_, hholds, ?_, ?_, ?_⟩
  · rw [step, ← hword, hclaim, hword]
    dsimp only
    rw [herase]
  · simpa only [hslots, length_set] using h.few
  · simp only [hslots, hfree, length_set, length_cons]
    omega
  · show (front ++ back).length + (w.claims + 1) = w.deposits
    omega

theorem Inv.step (h : Inv w) (op : Op α) (hop : w.Allowed op) :
    ∃ w', w.step op = .ok w' ∧ Inv w' := by
  cases op with
  | deposit b => exact h.deposit hop b
  | claim word =>
    obtain ⟨x, hx, rfl⟩ := mem_map.mp hop
    exact h.claim hx

end World

def Op.reuses (index : Nat) : Op α → Bool
  | .deposit _ => false
  | .claim word => (Token.ofWord word).index == index

theorem generation_of_lookup (h : e.lookup token = some b) :
    (e.slots[token.index]?).map Slot.generation = some token.generation := by
  obtain ⟨s, hs, hb⟩ := Option.bind_eq_some_iff.mp h
  split at hb
  · next heq => rw [hs, Option.map_some, heq]
  · cases hb

theorem lookup_of_generation {g : UInt32} (h : (e.slots[token.index]?).map Slot.generation = some g)
    (hne : g ≠ token.generation) : e.lookup token = none := by
  obtain ⟨s, hs, rfl⟩ := Option.map_eq_some_iff.mp h
  rw [lookup, hs, Option.bind_some, if_neg hne]

/-- The generation of a slot counts the claims of what was in it. -/
theorem World.step_generation {index : Nat} {g : UInt32} {op : Op α}
    (hg : (w.escrow.slots[index]?).map Slot.generation = some g) (h : w.step op = .ok w') :
    (w'.escrow.slots[index]?).map Slot.generation =
      some (g + ofNat ([op].countP (Op.reuses index))) := by
  obtain ⟨s, hs, rfl⟩ := Option.map_eq_some_iff.mp hg
  have hlt := (List.getElem?_eq_some_iff.mp hs).1
  cases op with
  | deposit b =>
    cases h
    show ((w.escrow.deposit b).2.slots[index]?).map Slot.generation = some (s.generation + 0)
    rw [UInt32.add_zero]
    unfold deposit
    split
    · rw [getElem?_append_left hlt, hg]
    · rename_i i free hfree
      by_cases hi : i = index
      · subst hi
        rw [getElem?_set_self hlt, hs]
        rfl
      · simp [getElem?_set_ne hi, hs]
  | claim word =>
    rw [World.step] at h
    split at h
    · cases h
    · next c hclaim =>
      cases h
      obtain ⟨hlookup, hslots, -⟩ := claim_eq_some hclaim
      show (c.2.slots[index]?).map Slot.generation = _
      by_cases hi : (Token.ofWord word).index = index
      · subst hi
        have hgen := Option.some.inj (hg.symm.trans (generation_of_lookup hlookup))
        simp [hslots, hlt, Op.reuses, hgen]
      · simp [hslots, getElem?_set_ne hi, hs, Op.reuses, hi]

theorem generation_ne {g : UInt32} {claims : Nat} (h : claims + 1 < 2 ^ 32) :
    g + 1 + UInt32.ofNat claims ≠ g := by
  intro heq
  have hnat := congrArg toNat heq
  have hone : (1 : UInt32).toNat = 1 := rfl
  have hlt := g.toNat_lt
  rw [UInt32.toNat_add, UInt32.toNat_add, UInt32.toNat_ofNat', hone] at hnat
  omega

theorem World.run_generation {index : Nat} {g : UInt32} {later : List (Op α)} (h : Inv w)
    (hg : (w.escrow.slots[index]?).map Slot.generation = some g)
    (hlater : AlongM step Allowed w later) :
    ∃ w', later.foldlM step w = .ok w' ∧ (w'.escrow.slots[index]?).map Slot.generation =
      some (g + ofNat (later.countP (Op.reuses index))) := by
  let I (past : List (Op α)) (v : World α) : Prop := Inv v ∧
    (v.escrow.slots[index]?).map Slot.generation =
      some (g + ofNat (past.countP (Op.reuses index)))
  have hstart : I [] w := ⟨h, by rw [hg, countP_nil]; exact congrArg some (UInt32.add_zero g).symm⟩
  obtain ⟨w', hrun, -, hgen⟩ := total_runM (I := I) (fun past v op hv hop => by
    obtain ⟨v', hstep, hv'⟩ := hv.1.step op hop
    refine ⟨v', hstep, hv', ?_⟩
    rw [step_generation hv.2 hstep, countP_append, UInt32.ofNat_add, UInt32.add_assoc])
    hstart hlater
  exact ⟨w', hrun, hgen⟩

/-- What is claimed is what was deposited, and a claimed word is not taken again before its slot's
generation has come round. -/
theorem escrow_exact (ops : List (Op α)) (hops : AlongM World.step World.Allowed .new ops) :
    ∃ w : World α, ops.foldlM World.step .new = .ok w ∧ (w.out.map Prod.fst).Nodup ∧
      w.escrow.len + w.claims = w.deposits ∧
      ∀ x ∈ w.out, (∃ e', w.escrow.claim (.ofWord x.1) = some (x.2, e')) ∧
        ∃ w1, w.step (.claim x.1) = .ok w1 ∧
          ∀ later, AlongM World.step World.Allowed w1 later →
            later.countP (Op.reuses (Token.ofWord x.1).index) + 1 < 2 ^ 32 →
            ∃ w2, later.foldlM World.step w1 = .ok w2 ∧ w2.step (.claim x.1) = .error () := by
  have hnew : World.Inv (.new : World α) := ⟨holds_new, Nat.two_pow_pos 32, rfl, rfl⟩
  obtain ⟨w, hrun, hinv⟩ := total_run (fun _ op h hop => World.Inv.step h op hop) hnew hops
  refine ⟨w, hrun, ?_, by rw [hinv.len, hinv.count], fun x hx => ?_⟩
  · have hnodup := hinv.holds.nodup
    rw [map_map] at hnodup
    exact Nodup.of_map (fun word => (Token.ofWord word).index) (by rwa [map_map])
  · have hlookup := hinv.holds.lookup _ (mem_map.mpr ⟨x, hx, rfl⟩)
    obtain ⟨w1, hclaim, hinv1⟩ := hinv.claim hx
    refine ⟨claim_of_lookup hlookup, w1, hclaim, fun later hlater hfew => ?_⟩
    have hgen := World.step_generation (generation_of_lookup hlookup) hclaim
    obtain ⟨w2, hrun2, hgen2⟩ := World.run_generation hinv1 hgen hlater
    refine ⟨w2, hrun2, ?_⟩
    have hnone : w2.escrow.lookup (.ofWord x.1) = none := by
      refine lookup_of_generation hgen2 ?_
      simpa [Op.reuses] using generation_ne hfew
    rw [World.step, claim_eq_none hnone]

/-- Of two buffers the first is claimed. Its slot is filled again, and its word is not taken again. -/
theorem escrow_exact_refilled : ∃ w w1 w2 : World Nat,
    [Op.deposit 5, .deposit 6].foldlM World.step .new = .ok w ∧ w.out = [(1, 6), (0, 5)] ∧
    (∃ e', w.escrow.claim (.ofWord 0) = some (5, e')) ∧ w.step (.claim 0) = .ok w1 ∧
    [Op.deposit 7].foldlM World.step w1 = .ok w2 ∧ w2.out = [(0x100000000, 7), (1, 6)] ∧
    w2.step (.claim 0) = .error () := by
  obtain ⟨w, hrun, -, -, hout⟩ := escrow_exact [Op.deposit 5, .deposit 6]
    ⟨show 0 + 1 < 2 ^ 32 by decide, fun s hs => by
      cases hs
      exact ⟨show 1 + 1 < 2 ^ 32 by decide, fun _ _ => trivial⟩⟩
  have hw : w.out = [(1, 6), (0, 5)] := by
    cases hrun
    rfl
  obtain ⟨hclaim, w1, hw1, hlater⟩ := hout (0, 5) (hw ▸ .tail _ (.head _))
  have hw1out : w1.out = [(1, 6)] := by
    cases hrun
    cases hw1
    rfl
  obtain ⟨w2, hrun2, hfails⟩ := hlater [.deposit 7]
    ⟨by rw [World.Allowed, hw1out]; decide, fun _ _ => trivial⟩ (by decide)
  refine ⟨w, w1, w2, hrun, hw, hclaim, hw1, hrun2, ?_, hfails⟩
  cases hrun
  cases hw1
  cases hrun2
  rfl

def oneSlot (g : UInt32) (n : Nat) : Bool → World Unit
  | false => ⟨⟨[⟨g, none⟩], [0], by simp, nodup_singleton 0⟩, [], n, n⟩
  | true => ⟨⟨[⟨g, some ()⟩], [], by simp, nodup_nil⟩, [(Token.word ⟨g, 0⟩, ())], n + 1, n⟩

theorem ofWord_first (g : UInt32) : Token.ofWord (Token.word ⟨g, 0⟩) = ⟨g, 0⟩ :=
  Token.ofWord_word (Nat.two_pow_pos 32)

theorem oneSlot_claim (g : UInt32) (n : Nat) :
    (oneSlot g n true).step (.claim (Token.word ⟨g, 0⟩)) = .ok (oneSlot (g + 1) (n + 1) false) := by
  have hlookup : (oneSlot g n true).escrow.lookup (.ofWord (Token.word ⟨g, 0⟩)) = some () := by
    rw [ofWord_first]
    simp [oneSlot, lookup]
  obtain ⟨⟨slots, free, hvacant, hnodup⟩, hclaim⟩ := claim_of_lookup hlookup
  obtain ⟨-, hslots, hfree⟩ := claim_eq_some hclaim
  rw [ofWord_first] at hslots hfree
  cases hslots
  cases hfree
  rw [World.step, hclaim]
  simp [oneSlot]

theorem oneSlot_rounds (g : UInt32) (n rounds : Nat) :
    ∃ later, AlongM World.step World.Allowed (oneSlot g n true) later ∧
      later.countP (Op.reuses 0) = rounds ∧ later.foldlM World.step (oneSlot g n true) =
        .ok (oneSlot (g + ofNat rounds) (n + rounds) true) := by
  induction rounds generalizing g n with
  | zero =>
    refine ⟨[], trivial, rfl, ?_⟩
    exact congrArg (fun g => Except.ok (oneSlot g n true)) (UInt32.add_zero g).symm
  | succ rounds ih =>
    obtain ⟨later, halong, hcount, hrun⟩ := ih (g + 1) (n + 1)
    refine ⟨.claim (Token.word ⟨g, 0⟩) :: .deposit () :: later,
      ⟨mem_cons_self, fun s hs => ?_⟩, ?_, ?_⟩
    · cases (oneSlot_claim g n).symm.trans hs
      refine ⟨show 0 + 1 < 2 ^ 32 by decide, fun s' hs' => ?_⟩
      cases hs'
      exact halong
    · simp [Op.reuses, ofWord_first, hcount]
    · have hg : g + 1 + ofNat rounds = g + ofNat (rounds + 1) := by
        rw [UInt32.ofNat_add, UInt32.add_assoc, UInt32.add_comm 1]
        rfl
      rw [foldlM_cons, oneSlot_claim]
      show later.foldlM World.step (oneSlot (g + 1) (n + 1) true) = _
      rw [hrun, hg, Nat.add_assoc, Nat.add_comm 1]

/-- With one claim less than there are generations in between, a token stands for another buffer. -/
theorem claimed_twice : ∃ (w w1 w2 w3 : World Unit) (word : UInt64) (later : List (Op Unit)),
    [Op.deposit ()].foldlM World.step .new = .ok w ∧ w.out = [(word, ())] ∧
    w.step (.claim word) = .ok w1 ∧ AlongM World.step World.Allowed w1 later ∧
    later.countP (Op.reuses (Token.ofWord word).index) < 2 ^ 32 ∧
    later.foldlM World.step w1 = .ok w2 ∧ w2.step (.claim word) = .ok w3 := by
  obtain ⟨later, halong, hcount, hrun⟩ := oneSlot_rounds 1 1 (2 ^ 32 - 1)
  refine ⟨oneSlot 0 0 true, oneSlot 1 1 false, oneSlot 0 (2 ^ 32) true, _, Token.word ⟨0, 0⟩,
    .deposit () :: later, rfl, rfl, oneSlot_claim 0 0, ⟨show 0 + 1 < 2 ^ 32 by decide, ?_⟩, ?_, ?_,
    oneSlot_claim 0 (2 ^ 32)⟩
  · intro s hs
    cases hs
    exact halong
  · rw [ofWord_first, countP_cons_of_neg (by decide), hcount]
    decide
  · have hround : (1 : UInt32) + ofNat (2 ^ 32 - 1) = 0 := by decide
    rw [hround] at hrun
    exact hrun

def World.Within (limit : Nat) (w : World α) : Op α → Prop
  | .deposit b => w.out.length < limit ∧ w.Allowed (.deposit b)
  | .claim word => w.Allowed (.claim word)

/-- There are as many slots as buffers were ever held at a time, however many have gone through. -/
theorem slots_bounded (limit : Nat) (ops : List (Op α))
    (hops : AlongM World.step (World.Within limit) .new ops) :
    ∃ w : World α, ops.foldlM World.step .new = .ok w ∧ w.escrow.slots.length ≤ limit := by
  let I (w : World α) : Prop := w.Inv ∧ w.escrow.slots.length ≤ limit
  have hnew : I .new := ⟨⟨holds_new, Nat.two_pow_pos 32, rfl, rfl⟩, Nat.zero_le limit⟩
  have hstep : ∀ w op, I w → World.Within limit w op → ∃ w', w.step op = .ok w' ∧ I w' := by
    rintro w (b | word) ⟨hinv, hle⟩ hop
    · obtain ⟨w', hok, hinv'⟩ := hinv.step (.deposit b) hop.2
      have hslots := (w.escrow.length_slots_deposit b hinv.room).2
      have hheld := (w.escrow.deposit_spec b).2.2.length_eq
      have hout := hinv.holds.held.length_eq
      rw [length_cons, hout, length_map, length_map] at hheld
      have hroom := hop.1
      cases hok
      exact ⟨_, rfl, hinv', Nat.le_trans hslots (by omega)⟩
    · obtain ⟨w', hok, hinv'⟩ := hinv.step (.claim word) hop
      refine ⟨w', hok, hinv', ?_⟩
      rw [World.step] at hok
      split at hok
      · cases hok
      · next c hclaim =>
        cases hok
        show c.2.slots.length ≤ limit
        rwa [(claim_eq_some hclaim).2.1, length_set]
  obtain ⟨w, hrun, -, hle⟩ := total_run hstep hnew hops
  exact ⟨w, hrun, hle⟩

/-- Three buffers go through one slot. -/
theorem slots_bounded_reused : ∃ w : World Nat,
    [Op.deposit 5, .claim 0, .deposit 6, .claim 0x100000000, .deposit 7].foldlM World.step .new =
      .ok w ∧ w.deposits = 3 ∧ w.escrow.slots.length ≤ 1 := by
  obtain ⟨w, hrun, hle⟩ := slots_bounded 1
    [Op.deposit 5, .claim 0, .deposit 6, .claim 0x100000000, .deposit 7] (by
      refine ⟨⟨Nat.one_pos, show 0 + 1 < 2 ^ 32 by decide⟩, fun s hs => ?_⟩
      cases hs
      refine ⟨.head _, fun s hs => ?_⟩
      cases hs
      refine ⟨⟨Nat.one_pos, show 0 + 1 < 2 ^ 32 by decide⟩, fun s hs => ?_⟩
      cases hs
      refine ⟨.head _, fun s hs => ?_⟩
      cases hs
      exact ⟨⟨Nat.one_pos, show 0 + 1 < 2 ^ 32 by decide⟩, fun _ _ => trivial⟩)
  refine ⟨w, hrun, ?_, hle⟩
  cases hrun
  rfl

end BufferEscrow

end Fprime.Comp
