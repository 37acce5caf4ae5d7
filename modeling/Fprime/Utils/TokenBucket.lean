import Fprime.Fw.Time

/-!
# The token bucket

Tokens come back by whole intervals, and a call takes one. However the calls are timed, no more of
them get a token than were there or came back.
-/

namespace Fprime.Utils

open Fprime.Fw Lib.Runs Time

structure TokenBucket where
  replenishInterval : UInt32
  maxTokens : Nat
  replenishRate : Nat
  tokens : Nat
  time : Time

namespace TokenBucket

def intervalTime (b : TokenBucket) : Time :=
  ⟨.tbNone, 0, b.replenishInterval / 1000000, b.replenishInterval % 1000000,
    UInt32.mod_lt _ (by decide)⟩

/-- The loop of `trigger`, entered with a rate that is not zero. -/
def replenishLoop (b : TokenBucket) (nextTime now : Time) : Except Unit TokenBucket :=
  if 0 < b.replenishRate ∧ b.tokens < b.maxTokens ∧
      (nextTime.compare now = .lt ∨ nextTime.compare now = .eq) then
    match add nextTime b.intervalTime with
    | .error e => .error e
    | .ok following =>
      replenishLoop { b with
        tokens := b.tokens + min b.replenishRate (b.maxTokens - b.tokens), time := nextTime }
        following now
  else .ok b
termination_by b.maxTokens - b.tokens

def replenishTo (b : TokenBucket) (now : Time) : Except Unit TokenBucket := do
  let nextTime ← add b.time b.intervalTime
  let b ← b.replenishLoop nextTime now
  return if b.maxTokens ≤ b.tokens ∧ b.time.compare now = .lt then { b with time := now } else b

def trigger (b : TokenBucket) (now : Time) : Except Unit (Bool × TokenBucket) :=
  (if 0 < b.replenishRate then b.replenishTo now else .ok b).map fun b =>
    if 0 < b.tokens then (true, { b with tokens := b.tokens - 1 }) else (false, b)

theorem micros_intervalTime (b : TokenBucket) :
    b.intervalTime.micros = b.replenishInterval.toNat := by
  have hmillion : (1000000 : UInt32).toNat = 1000000 := rfl
  rw [micros, intervalTime, UInt32.toNat_div, UInt32.toNat_mod, hmillion]
  omega

/-- Some tokens were taken, and no more came back than the time that has passed has intervals. -/
structure Advanced (limit taken : Nat) (b b' : TokenBucket) : Prop where
  frame : b' = { b with tokens := b'.tokens, time := b'.time }
  base : b'.time.timeBase = b.time.timeBase
  le : b.time.micros ≤ b'.time.micros
  le_limit : b'.time.micros ≤ max b.time.micros limit
  cap : b'.tokens ≤ max b.tokens b.maxTokens
  rate : taken + b'.tokens ≤ b.tokens +
    b.replenishRate * ((b'.time.micros - b.time.micros) / b.replenishInterval.toNat)

variable {b b' b'' : TokenBucket} {now nextTime : Time} {limit : Nat}

theorem Advanced.trans {m n : Nat} (h : Advanced limit m b b') (h' : Advanced limit n b' b'') :
    Advanced limit (m + n) b b'' := by
  obtain ⟨hframe, hbase, hle, hlimit, hcap, hrate⟩ := h
  obtain ⟨hframe', hbase', hle', hlimit', hcap', hrate'⟩ := h'
  have hconfig : b'.maxTokens = b.maxTokens ∧ b'.replenishRate = b.replenishRate ∧
      b'.replenishInterval = b.replenishInterval := by
    rw [hframe]
    exact ⟨rfl, rfl, rfl⟩
  rw [hconfig.2.1, hconfig.2.2] at hrate'
  rw [hconfig.1] at hcap'
  -- the intervals of two stretches of time are among those of both
  have hsum : b.replenishRate * ((b'.time.micros - b.time.micros) / b.replenishInterval.toNat) +
      b.replenishRate * ((b''.time.micros - b'.time.micros) / b.replenishInterval.toNat) ≤
      b.replenishRate * ((b''.time.micros - b.time.micros) / b.replenishInterval.toNat) := by
    have hsplit : b''.time.micros - b.time.micros =
        (b'.time.micros - b.time.micros) + (b''.time.micros - b'.time.micros) := by
      omega
    rw [← Nat.mul_add, hsplit]
    exact Nat.mul_le_mul_left _ Nat.div_add_div_le_add_div
  refine ⟨?_, hbase'.trans hbase, hle.trans hle', by omega, by omega, by omega⟩
  rw [hframe', hframe]

theorem Advanced.refl (limit : Nat) (b : TokenBucket) : Advanced limit 0 b b :=
  ⟨rfl, rfl, Nat.le_refl _, Nat.le_max_left .., Nat.le_max_left .., by omega⟩

theorem Advanced.interval (hpos : 0 < b.replenishInterval.toNat)
    (hbase : nextTime.timeBase = b.time.timeBase)
    (hnext : nextTime.micros = b.time.micros + b.replenishInterval.toNat)
    (hlimit : nextTime.micros ≤ limit) (hroom : b.tokens < b.maxTokens) :
    Advanced limit 0 b { b with
      tokens := b.tokens + min b.replenishRate (b.maxTokens - b.tokens), time := nextTime } := by
  refine ⟨rfl, hbase, by simp only; omega, by simp only; omega, by simp only; omega, ?_⟩
  have hone : (nextTime.micros - b.time.micros) / b.replenishInterval.toNat = 1 := by
    rw [hnext, Nat.add_sub_cancel_left, Nat.div_self hpos]
  simp only [hone]
  omega

theorem add_eq_ok {t next : Time} (h : add t b.intervalTime = .ok next)
    (hfit : t.micros + b.replenishInterval.toNat < 2 ^ 32 * 1000000) :
    next.timeBase = t.timeBase ∧ next.micros = t.micros + b.replenishInterval.toNat := by
  rw [← micros_intervalTime] at hfit ⊢
  unfold add at h
  split at h
  · cases h
    exact ⟨addDuration_timeBase .., micros_addDuration hfit⟩
  · cases h

theorem replenishLoop_advanced (hpos : 0 < b.replenishInterval.toNat)
    (hnowBase : now.timeBase = b.time.timeBase)
    (hfit : now.micros + b.replenishInterval.toNat < 2 ^ 32 * 1000000)
    (hnow : now.micros ≤ limit) (hbase : nextTime.timeBase = b.time.timeBase)
    (hnext : nextTime.micros = b.time.micros + b.replenishInterval.toNat)
    (h : b.replenishLoop nextTime now = .ok b') : Advanced limit 0 b b' := by
  fun_induction replenishLoop b nextTime now with
  | case1 => cases h
  | case2 b nextTime hguard following hadd ih =>
    have hle : nextTime.micros ≤ now.micros := by
      rw [← compare_ne_gt (hbase.trans hnowBase.symm)]
      rcases hguard.2.2 with hc | hc <;> rw [hc] <;> decide
    obtain ⟨hbase', hnext'⟩ := add_eq_ok hadd (by omega)
    exact (Advanced.interval hpos hbase hnext (hle.trans hnow) hguard.2.1).trans
      (ih hpos (hnowBase.trans hbase.symm) hfit hbase' hnext' h)
  | case3 =>
    cases h
    exact .refl limit _

theorem trigger_advanced {got : Bool} (hpos : 0 < b.replenishInterval.toNat)
    (hbase : now.timeBase = b.time.timeBase) (hnow : now.micros ≤ limit)
    (hfit : max b.time.micros now.micros + b.replenishInterval.toNat < 2 ^ 32 * 1000000)
    (h : b.trigger now = .ok (got, b')) : Advanced limit got.toNat b b' := by
  obtain ⟨b1, hb1, h⟩ := map_eq_ok.mp h
  have hb : Advanced limit 0 b b1 := by
    split at hb1
    · obtain ⟨nextTime, hadd, hb1⟩ := bind_eq_ok.mp hb1
      obtain ⟨b2, hloop, hb1⟩ := bind_eq_ok.mp hb1
      obtain ⟨hnextBase, hnext⟩ := add_eq_ok hadd (by omega)
      have hb2 := replenishLoop_advanced hpos hbase (by omega) hnow hnextBase hnext hloop
      cases hb1
      split
      · next hlate =>
        have hlt : b2.time.micros ≤ now.micros := by
          rw [← compare_ne_gt (hb2.base.trans hbase.symm), hlate.2]
          decide
        have hset : Advanced limit 0 b2 { b2 with time := now } :=
          ⟨rfl, hbase.trans hb2.base.symm, hlt, hnow.trans (Nat.le_max_right ..),
            Nat.le_max_left .., by simp only; omega⟩
        exact hb2.trans hset
      · exact hb2
    · cases hb1
      exact .refl limit b
  split at h
  · next hsome =>
    cases h
    have htake : Advanced limit 1 b1 { b1 with tokens := b1.tokens - 1 } :=
      ⟨rfl, rfl, Nat.le_refl _, Nat.le_max_left .., by simp only; omega, by simp only; omega⟩
    simpa using hb.trans htake
  · cases h
    exact hb

/-- A call, with the number of those before it that got a token. -/
def step (a : Nat × TokenBucket) (now : Time) : Except Unit (Nat × TokenBucket) :=
  (a.2.trigger now).map fun r => (a.1 + r.1.toNat, r.2)

/-- However the calls are timed, no more get a token than were there or came back by the latest
call. -/
theorem rate_bound (b : TokenBucket) (times : List Time) (latest : Time) (a : Nat × TokenBucket)
    (hpos : 0 < b.replenishInterval) (hbase : ∀ t ∈ times, t.timeBase = b.time.timeBase)
    (hstart : ∀ t ∈ times, b.time.micros ≤ t.micros)
    (hfit : ∀ t ∈ times, t.micros + b.replenishInterval.toNat < 2 ^ 32 * 1000000)
    (hlatest : latest ∈ times) (hmax : ∀ t ∈ times, t.micros ≤ latest.micros)
    (hrun : times.foldlM step (0, b) = .ok a) :
    a.1 ≤ b.tokens + b.replenishRate *
      ((latest.micros - b.time.micros) / b.replenishInterval.toNat) ∧
    a.2.tokens ≤ max b.tokens b.maxTokens := by
  have hstep : ∀ t ∈ times, ∀ a a', Advanced latest.micros a.1 b a.2 → step a t = .ok a' →
      Advanced latest.micros a'.1 b a'.2 := by
    intro t ht a a' h hok
    obtain ⟨⟨got, b'⟩, htrigger, rfl⟩ := map_eq_ok.mp hok
    have hinterval : a.2.replenishInterval = b.replenishInterval := by rw [h.frame]
    have hlimit := h.le_limit
    have hlast := hfit latest hlatest
    have hnow := hmax t ht
    have hle := hstart t ht
    exact h.trans (trigger_advanced (hinterval ▸ UInt32.lt_iff_toNat_lt.mp hpos)
      ((hbase t ht).trans h.base.symm) hnow (by rw [hinterval]; omega) htrigger)
  have hend : Advanced latest.micros a.1 b a.2 :=
    invariantM (I := fun a : Nat × TokenBucket => Advanced latest.micros a.1 b a.2) hstep
      (.refl latest.micros b) hrun
  refine ⟨?_, hend.cap⟩
  have hrate := hend.rate
  have hlimit := hend.le_limit
  have hle := hstart latest hlatest
  have hmono : (a.2.time.micros - b.time.micros) / b.replenishInterval.toNat ≤
      (latest.micros - b.time.micros) / b.replenishInterval.toNat :=
    Nat.div_le_div_right (by omega)
  have hmul := Nat.mul_le_mul_left b.replenishRate hmono
  omega

theorem replenishLoop_stays (h : ¬(b.tokens < b.maxTokens ∧
    (nextTime.compare now = .lt ∨ nextTime.compare now = .eq))) :
    b.replenishLoop nextTime now = .ok b := by
  rw [replenishLoop, if_neg fun hguard => h hguard.2]

theorem step_of_loop {n : Nat} (hrate : 0 < b.replenishRate)
    (hadd : add b.time b.intervalTime = .ok nextTime)
    (hloop : b.replenishLoop nextTime now = .ok b')
    (hfull : (if b'.maxTokens ≤ b'.tokens ∧ b'.time.compare now = .lt then { b' with time := now }
      else b') = b'') :
    step (n, b) now = .ok (if 0 < b''.tokens then (n + 1, { b'' with tokens := b''.tokens - 1 })
      else (n, b'')) := by
  rw [step, trigger, if_pos hrate, replenishTo, hadd]
  simp only [bind, Except.bind, hloop, pure, Except.pure, hfull, Except.map]
  split <;> rfl

def atSecond (seconds : UInt32) : Time := ⟨.tbNone, 0, seconds, 0, zero_valid⟩

def perSecond (tokens : Nat) (seconds : UInt32) : TokenBucket :=
  ⟨1000000, 2, 1, tokens, atSecond seconds⟩

/-- Two calls empty the bucket and a third gets nothing. Two seconds later two more are granted, one
with an earlier time. -/
theorem rate_bound_emptied : ∃ b : TokenBucket,
    ([0, 0, 0, 2, 1, 2].map atSecond).foldlM step (0, perSecond 2 0) = .ok (4, b) ∧
    4 ≤ 2 + 1 * ((2000000 - 0) / 1000000) ∧ b.tokens ≤ 2 := by
  have hrefill : (perSecond 0 0).replenishLoop (atSecond 1) (atSecond 2) = .ok (perSecond 2 2) := by
    rw [replenishLoop, if_pos (by decide)]
    show (perSecond 1 1).replenishLoop (atSecond 2) (atSecond 2) = .ok (perSecond 2 2)
    rw [replenishLoop, if_pos (by decide)]
    exact replenishLoop_stays (by decide)
  have hfirst : step (0, perSecond 2 0) (atSecond 0) = .ok (1, perSecond 1 0) :=
    step_of_loop (by decide) rfl (replenishLoop_stays (by decide)) rfl
  have hsecond : step (1, perSecond 1 0) (atSecond 0) = .ok (2, perSecond 0 0) :=
    step_of_loop (by decide) rfl (replenishLoop_stays (by decide)) rfl
  have hrefused : step (2, perSecond 0 0) (atSecond 0) = .ok (2, perSecond 0 0) :=
    step_of_loop (by decide) rfl (replenishLoop_stays (by decide)) rfl
  have hlater : step (2, perSecond 0 0) (atSecond 2) = .ok (3, perSecond 1 2) :=
    step_of_loop (by decide) rfl hrefill rfl
  have hearlier : step (3, perSecond 1 2) (atSecond 1) = .ok (4, perSecond 0 2) :=
    step_of_loop (by decide) rfl (replenishLoop_stays (by decide)) rfl
  have hlast : step (4, perSecond 0 2) (atSecond 2) = .ok (4, perSecond 0 2) :=
    step_of_loop (by decide) rfl (replenishLoop_stays (by decide)) rfl
  have hrun : ([0, 0, 0, 2, 1, 2].map atSecond).foldlM step (0, perSecond 2 0) =
      .ok (4, perSecond 0 2) := by
    simp only [List.map, List.foldlM, hfirst, hsecond, hrefused, hlater, hearlier, hlast, bind,
      Except.bind, pure, Except.pure]
  exact ⟨_, hrun, rate_bound (perSecond 2 0) _ (atSecond 2) _ (by decide) (by decide) (by decide)
    (by decide) (by decide) (by decide) hrun⟩

theorem add_interval (b : TokenBucket) {t : Time} (hbase : t.timeBase = .tbNone) :
    ∃ next, add t b.intervalTime = .ok next ∧ next.timeBase = .tbNone := by
  have hsame : t.timeBase = b.intervalTime.timeBase := hbase
  rw [add, if_pos hsame]
  exact ⟨_, rfl, (addDuration_timeBase ..).trans hbase⟩

theorem replenishLoop_grants (hrate : 0 < b.replenishRate) (hmax : 0 < b.maxTokens)
    (hbase : nextTime.timeBase = .tbNone) (hnow : now.timeBase = .tbNone)
    (hdue : 0 < b.tokens ∨ nextTime.micros ≤ now.micros) :
    ∃ b', b.replenishLoop nextTime now = .ok b' ∧ 0 < b'.tokens := by
  fun_induction replenishLoop b nextTime now with
  | case1 b nextTime hguard e hadd =>
    obtain ⟨next, hok, -⟩ := b.add_interval hbase
    cases hadd.symm.trans hok
  | case2 b nextTime hguard following hadd ih =>
    obtain ⟨next, hok, hnext⟩ := b.add_interval hbase
    cases hadd.symm.trans hok
    exact ih hrate hmax hnext (.inl (by simp only; omega))
  | case3 b nextTime hguard =>
    refine ⟨b, rfl, ?_⟩
    rcases hdue with hsome | hle
    · exact hsome
    · have hcompare : nextTime.compare now = .lt ∨ nextTime.compare now = .eq := by
        rw [compare_of_base (hbase.trans hnow.symm)]
        split_ifs <;> simp
        omega
      have hfull : ¬ b.tokens < b.maxTokens := fun hroom => hguard ⟨hrate, hroom, hcompare⟩
      omega

theorem trigger_grants (hrate : 0 < b.replenishRate) (hmax : 0 < b.maxTokens)
    (hbase : b.time.timeBase = .tbNone) (hnow : now.timeBase = .tbNone)
    (hdue : b.time.micros + b.replenishInterval.toNat ≤ now.micros)
    (hfit : now.micros + b.replenishInterval.toNat < 2 ^ 32 * 1000000) :
    ∃ b', b.trigger now = .ok (true, b') := by
  obtain ⟨nextTime, hadd, hnextBase⟩ := b.add_interval hbase
  obtain ⟨-, hnext⟩ := add_eq_ok hadd (by omega)
  obtain ⟨b', hloop, hsome⟩ := replenishLoop_grants hrate hmax hnextBase hnow (.inr (by omega))
  have hreplenish : ∃ b', b.replenishTo now = .ok b' ∧ 0 < b'.tokens := by
    simp only [replenishTo, hadd, bind, Except.bind, hloop]
    split <;> exact ⟨_, rfl, hsome⟩
  obtain ⟨b1, hb1, hsome1⟩ := hreplenish
  refine ⟨{ b1 with tokens := b1.tokens - 1 }, ?_⟩
  rw [trigger, if_pos hrate, hb1, Except.map, if_pos hsome1]

/-- Calls that come at least an interval apart all get a token. -/
theorem paced_granted (times : List Time) (last : Time) (n : Nat) (hpos : 0 < b.replenishInterval)
    (hrate : 0 < b.replenishRate) (hmax : 0 < b.maxTokens) (hbase : b.time.timeBase = .tbNone)
    (hlast : b.time.micros ≤ last.micros)
    (htimes : ∀ t ∈ times, t.timeBase = .tbNone ∧
      t.micros + b.replenishInterval.toNat < 2 ^ 32 * 1000000)
    (hpaced : (last :: times).IsChain fun s t => s.micros + b.replenishInterval.toNat ≤ t.micros) :
    ∃ b', times.foldlM step (n, b) = .ok (n + times.length, b') := by
  induction times generalizing b last n with
  | nil => exact ⟨b, rfl⟩
  | cons now times ih =>
    obtain ⟨hnow, hfit⟩ := htimes now (.head times)
    obtain ⟨hdue, hrest⟩ := List.isChain_cons_cons.mp hpaced
    obtain ⟨b', htrigger⟩ := trigger_grants hrate hmax hbase hnow (by omega) hfit
    have hb' := trigger_advanced (UInt32.lt_iff_toNat_lt.mp hpos) (hnow.trans hbase.symm)
      (Nat.le_refl now.micros) (by omega) htrigger
    have hle := hb'.le_limit
    have hframe := hb'.frame
    have hinterval : b'.replenishInterval = b.replenishInterval := by rw [hframe]
    have hconfig : b'.replenishRate = b.replenishRate ∧ b'.maxTokens = b.maxTokens := by
      rw [hframe]
      exact ⟨rfl, rfl⟩
    obtain ⟨b'', hrun⟩ := @ih b' now (n + 1) (hinterval ▸ hpos) (hconfig.1 ▸ hrate)
      (hconfig.2 ▸ hmax) (hb'.base.trans hbase) (by omega)
      (fun t ht => hinterval ▸ htimes t (.tail now ht)) (hinterval ▸ hrest)
    refine ⟨b'', ?_⟩
    rw [List.foldlM_cons, step, htrigger, List.length_cons, Nat.add_comm times.length,
      ← Nat.add_assoc]
    exact hrun

theorem paced_granted_empty : ∃ b', ([1, 3, 4].map atSecond).foldlM step (0, perSecond 0 0) =
    .ok (0 + 3, b') :=
  paced_granted _ .zero 0 (by decide) (by decide) (by decide) rfl (Nat.le_refl _) (by decide)
    (by decide)

end TokenBucket

end Fprime.Utils
