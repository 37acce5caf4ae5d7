import Fprime.Lib.Runs
import Mathlib.Data.Bool.Basic
import Mathlib.Data.List.Count

/-!
# The rate ticks of the file manager

A `schedIn` call sets a flag and sends a `run` message, whose handler clears the flag on the
component's own thread. A full queue refuses the message, and the flag stays set.
-/

namespace Fprime.Svc.FileManager

open Lib List

inductive Message (κ : Type) where
  | run
  | other (msg : κ)
  deriving DecidableEq

inductive Assertion where
  | queueFull
  | runNotQueued

/-- The component's queue and flag. What commands and ticks do to the rest is left to `σ`. -/
structure Component (σ κ : Type) where
  depth : Nat
  queue : List (Message κ)
  runQueued : Bool
  /-- The `schedIn` calls that have set the flag and have not sent their message yet. -/
  callers : Nat
  dispatching : Option (Message κ)
  msgsDropped : Nat
  state : σ

inductive Action (κ : Type) where
  | schedIn
  | runInternalInterfaceInvoke
  | send (msg : κ)
  | receive
  | dispatch

variable {σ κ : Type}

def start (depth : Nat) (state : σ) : Component σ κ :=
  ⟨depth, [], false, 0, none, 0, state⟩

def schedHandler (s : Component σ κ) : Component σ κ :=
  if s.runQueued then s else { s with runQueued := true, callers := s.callers + 1 }

def runInternalInterfaceInvoke (s : Component σ κ) : Component σ κ :=
  match s.callers with
  | 0 => s
  | callers + 1 =>
    if s.queue.length < s.depth then { s with callers, queue := s.queue ++ [.run] }
    else { s with callers, msgsDropped := s.msgsDropped + 1 }

def receive (s : Component σ κ) : Component σ κ :=
  match s.dispatching, s.queue with
  | none, msg :: queue => { s with dispatching := some msg, queue }
  | _, _ => s

variable (handle : σ → κ → σ) (tick : σ → σ)

def dispatch (s : Component σ κ) : Except Assertion (Component σ κ) :=
  match s.dispatching with
  | none => .ok s
  | some (.other msg) => .ok { s with dispatching := none, state := handle s.state msg }
  | some .run =>
    if s.runQueued then
      .ok { s with dispatching := none, runQueued := false, state := tick s.state }
    else .error .runNotQueued

def step (s : Component σ κ) : Action κ → Except Assertion (Component σ κ)
  | .schedIn => .ok (schedHandler s)
  | .runInternalInterfaceInvoke => .ok (runInternalInterfaceInvoke s)
  | .send msg =>
    if s.queue.length < s.depth then .ok { s with queue := s.queue ++ [.other msg] }
    else .error .queueFull
  | .receive => .ok (receive s)
  | .dispatch => dispatch handle tick s

variable [DecidableEq κ] {s s' : Component σ κ} {handle : σ → κ → σ} {tick : σ → σ}

def pending (s : Component σ κ) : Nat :=
  s.callers + s.queue.count .run + (if s.dispatching = some .run then 1 else 0)

/-- The flag and the messages that are pending or dropped change together. -/
def Balanced (s s' : Component σ κ) : Prop :=
  pending s' + s'.msgsDropped + s.runQueued.toNat =
      pending s + s.msgsDropped + s'.runQueued.toNat ∧
    s.msgsDropped ≤ s'.msgsDropped

theorem Balanced.refl (s : Component σ κ) : Balanced s s := ⟨rfl, Nat.le_refl _⟩

theorem schedHandler_balanced (s : Component σ κ) : Balanced s (schedHandler s) := by
  rw [schedHandler]
  split
  · exact .refl s
  · next hflag =>
    refine ⟨?_, Nat.le_refl _⟩
    simp only [pending, eq_false_of_ne_true hflag, Bool.toNat_false, Bool.toNat_true]
    omega

theorem runInternalInterfaceInvoke_balanced (s : Component σ κ) :
    Balanced s (runInternalInterfaceInvoke s) := by
  rw [runInternalInterfaceInvoke]
  split
  · exact .refl s
  · next hcallers =>
    split
    · refine ⟨?_, Nat.le_refl _⟩
      simp only [pending, hcallers, count_append, count_singleton_self]
      omega
    · -- the queue is full: the message is dropped and the flag stays set
      refine ⟨?_, Nat.le_succ _⟩
      simp only [pending, hcallers]
      omega

theorem receive_balanced (s : Component σ κ) : Balanced s (receive s) := by
  rw [receive]
  split
  · next msg queue hnone hqueue =>
    refine ⟨?_, Nat.le_refl _⟩
    simp only [pending, hnone, hqueue, count_cons, reduceCtorEq, if_false, beq_iff_eq,
      Option.some.injEq]
    omega
  · exact .refl s

theorem dispatch_balanced (hs : dispatch handle tick s = .ok s') : Balanced s s' := by
  rw [dispatch] at hs
  split at hs
  · cases hs
    exact .refl s
  · next msg hmsg =>
    cases hs
    simp [Balanced, pending, hmsg]
  · next hrun =>
    split at hs <;> cases hs
    next hflag =>
    refine ⟨?_, Nat.le_refl _⟩
    simp only [pending, hrun, hflag, reduceCtorEq, if_true, if_false, Bool.toNat_true,
      Bool.toNat_false]
    omega

theorem step_balanced {action : Action κ} (hs : step handle tick s action = .ok s') :
    Balanced s s' := by
  cases action with
  | schedIn =>
    cases hs
    exact schedHandler_balanced s
  | runInternalInterfaceInvoke =>
    cases hs
    exact runInternalInterfaceInvoke_balanced s
  | send msg =>
    rw [step] at hs
    split at hs <;> cases hs
    simp [Balanced, pending, count_append]
  | receive =>
    cases hs
    exact receive_balanced s
  | dispatch => exact dispatch_balanced hs

theorem run_balanced {actions : List (Action κ)}
    (hrun : actions.foldlM (step handle tick) s = .ok s') : Balanced s s' := by
  refine Runs.invariantM (I := Balanced s) (fun _ _ _ _ h hs => ?_) (.refl s) hrun
  obtain ⟨heq, hle⟩ := step_balanced hs
  have ⟨heq', hle'⟩ := h
  exact ⟨by omega, Nat.le_trans hle' hle⟩

def FindsRoom (s : Component σ κ) : Action κ → Prop
  | .runInternalInterfaceInvoke => 0 < s.callers → s.queue.length < s.depth
  | _ => True

instance (s : Component σ κ) (action : Action κ) : Decidable (FindsRoom s action) := by
  cases action <;> unfold FindsRoom <;> infer_instance

omit [DecidableEq κ] in
theorem step_dropped {action : Action κ} (hs : step handle tick s action = .ok s') :
    s'.msgsDropped = s.msgsDropped ↔ FindsRoom s action := by
  cases action with
  | schedIn =>
    cases hs
    rw [schedHandler]
    split <;> simp [FindsRoom]
  | runInternalInterfaceInvoke =>
    cases hs
    rw [runInternalInterfaceInvoke]
    split
    · next hnone => simp [FindsRoom, hnone]
    · split <;> simp [FindsRoom, *]
  | send msg =>
    rw [step] at hs
    split at hs <;> cases hs
    simp [FindsRoom]
  | receive =>
    cases hs
    rw [receive]
    split <;> simp [FindsRoom]
  | dispatch =>
    rw [step, dispatch] at hs
    split at hs
    · cases hs
      simp [FindsRoom]
    · cases hs
      simp [FindsRoom]
    · split at hs <;> cases hs
      simp [FindsRoom]

theorem run_dropped {actions : List (Action κ)}
    (hrun : actions.foldlM (step handle tick) s = .ok s') :
    s'.msgsDropped = s.msgsDropped ↔ Runs.AlongM (step handle tick) FindsRoom s actions := by
  induction actions generalizing s with
  | nil =>
    cases hrun
    exact iff_of_true rfl trivial
  | cons action actions ih =>
    obtain ⟨s₁, hstep, hrest⟩ := Runs.bind_eq_ok.mp hrun
    -- the count never falls, so that it is the same at the end only if it is after each step
    have hle := (step_balanced hstep).2
    have hle' := (run_balanced hrest).2
    rw [Runs.AlongM, ← step_dropped hstep]
    constructor
    · intro hsame
      refine ⟨by omega, fun s₂ hs₂ => ?_⟩
      cases hstep.symm.trans hs₂
      exact (ih hrest).mp (by omega)
    · rintro ⟨hfirst, halong⟩
      exact ((ih hrest).mpr (halong s₁ hstep)).trans hfirst

/-- As long as the flag is set, the message that clears it is on its way. -/
def Covered (s : Component σ κ) : Prop :=
  s.runQueued = true → .run ∈ s.queue ∨ s.dispatching = some .run ∨ 0 < s.callers

instance (s : Component σ κ) : Decidable (Covered s) := by
  unfold Covered
  infer_instance

theorem pending_pos_iff :
    0 < pending s ↔ .run ∈ s.queue ∨ s.dispatching = some .run ∨ 0 < s.callers := by
  rw [pending, ← count_pos_iff]
  by_cases hrun : s.dispatching = some .run
  · simp [hrun]
  · simp only [hrun, if_false, false_or]
    omega

/-- The flag is covered as long as every tick finds room. After one that does not, it stays set, and
no tick follows. -/
theorem run_queued_covered_iff (handle : σ → κ → σ) (tick : σ → σ) (depth : Nat) (state : σ)
    {actions : List (Action κ)} {s : Component σ κ}
    (hrun : actions.foldlM (step handle tick) (start depth state) = .ok s) :
    (Covered s ↔ Runs.AlongM (step handle tick) FindsRoom (start depth state) actions) ∧
      (¬Runs.AlongM (step handle tick) FindsRoom (start depth state) actions →
        ∀ (later : List (Action κ)) (s' : Component σ κ),
          later.foldlM (step handle tick) s = .ok s' → s'.runQueued = true ∧ pending s' = 0) := by
  have hdropped : s.msgsDropped = 0 ↔ _ := run_dropped hrun
  rw [← hdropped]
  -- at first the flag is clear and nothing is pending, so there is at most one message
  have hs : pending s + s.msgsDropped + 0 = 0 + s.runQueued.toNat := (run_balanced hrun).1
  constructor
  · rw [Covered, ← pending_pos_iff]
    cases hflag : s.runQueued with
    | false =>
      rw [hflag, Bool.toNat_false] at hs
      exact ⟨fun _ => by omega, fun _ hset => absurd hset Bool.false_ne_true⟩
    | true =>
      rw [hflag, Bool.toNat_true] at hs
      exact ⟨fun hpos => by have := hpos rfl; omega, fun hzero _ => by omega⟩
  · -- the dropped message is the one the flag stands for: none is left that could clear it
    intro hne later s' hlater
    obtain ⟨heq, hle⟩ := run_balanced hlater
    cases hflag : s'.runQueued with
    | false =>
      rw [hflag, Bool.toNat_false] at heq
      omega
    | true =>
      rw [hflag, Bool.toNat_true] at heq
      exact ⟨rfl, by omega⟩

theorem run_queued_covered_iff_tick :
    ∃ s : Component Nat Unit, [.schedIn, .runInternalInterfaceInvoke, .receive, .dispatch].foldlM
      (step (fun n _ => n) (· + 1)) (start 1 0) = .ok s ∧ s.state = 1 ∧ Covered s :=
  ⟨_, rfl, rfl, (@run_queued_covered_iff _ _ _ (fun n _ => n) (· + 1) 1 0
    [.schedIn, .runInternalInterfaceInvoke, .receive, .dispatch] _ rfl).1.mpr (by decide)⟩

/-- A tick finds the queue full of a command. The next one, with the queue empty again, is not sent
either. -/
theorem dropped_tick_stops_ticks :
    ∃ s s' : Component Nat Unit,
      [.send (), .schedIn, .runInternalInterfaceInvoke, .receive, .dispatch].foldlM
        (step (fun n _ => n) (· + 1)) (start 1 0) = .ok s ∧ ¬Covered s ∧ s.queue = [] ∧
      [.schedIn, .runInternalInterfaceInvoke].foldlM (step (fun n _ => n) (· + 1)) s = .ok s' ∧
      s'.queue = [] :=
  ⟨_, _, rfl, by decide, rfl, rfl, rfl⟩

end Fprime.Svc.FileManager
