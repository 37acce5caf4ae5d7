import Fprime.Lib.Runs
import Mathlib.Data.List.Basic
import Fprime.Lib.Bytes

/-!
# Health checks

The ping table. Ping returns and commands are queued, and `Run` handles them before it sweeps the
table. The limits are compared with the count for equality, and a command may move them past it.
-/

namespace Fprime.Svc.Health

open Lib.Runs

inductive SweepAction where
  | ping (key : UInt32)
  | warn (warnings : UInt32)
  | fatal
  | wrongKey (key : UInt32)
  deriving DecidableEq

structure PingTracker where
  name : Bytes
  warnCycles : Nat
  fatalCycles : Nat
  cycleCount : Nat := 0
  key : UInt32 := 0
  enabled : Bool := true
  history : List SweepAction := []

structure HealthState where
  enabled : Bool
  key : UInt32
  warnings : UInt32
  trackers : List PingTracker

inductive Input where
  | sweep
  | pingReturn (port : Nat) (key : UInt32)
  | hlthEnable (enable : Bool)
  | hlthPingEnable (entry : Bytes) (enable : Bool)
  | hlthChngPing (entry : Bytes) (warningValue fatalValue : UInt32)

namespace PingTracker

/-- One entry of the sweep, with the global key and the number of warnings. -/
def check (t : PingTracker) (key warnings : UInt32) : PingTracker × UInt32 × UInt32 :=
  if ¬t.enabled then (t, key, warnings)
  else if t.cycleCount = 0 then
    ({ t with key, cycleCount := 1, history := .ping key :: t.history }, key + 1, warnings)
  else if t.cycleCount = t.fatalCycles then
    ({ t with cycleCount := t.cycleCount + 1, history := .fatal :: t.history }, key, warnings)
  else if t.cycleCount = t.warnCycles then
    ({ t with cycleCount := t.cycleCount + 1, history := .warn (warnings + 1) :: t.history },
      key, warnings + 1)
  else ({ t with cycleCount := t.cycleCount + 1 }, key, warnings)

/-- The count goes on after a wrong key. -/
def pingReturn (key : UInt32) (t : PingTracker) : PingTracker :=
  if key ≠ t.key then { t with history := .wrongKey key :: t.history }
  else { t with cycleCount := 0, key := 0 }

def sincePing : List SweepAction → List SweepAction
  | [] => []
  | .ping _ :: _ => []
  | action :: history => action :: sincePing history

def isWarn : SweepAction → Bool
  | .warn _ => true
  | _ => false

/-- While a ping is out, each report has been made once if its limit is behind the count. -/
def Judged (t : PingTracker) : Prop :=
  0 < t.cycleCount →
    (sincePing t.history).count .fatal = (if t.fatalCycles < t.cycleCount then 1 else 0) ∧
    (sincePing t.history).countP isWarn = (if t.warnCycles < t.cycleCount then 1 else 0)

/-- There has been no report of an entry that is late. -/
def Prompt (t : PingTracker) : Prop :=
  t.warnCycles ≤ t.fatalCycles ∧ .fatal ∉ t.history ∧ ∀ action ∈ t.history, isWarn action = false

end PingTracker

def sweep : List PingTracker → UInt32 → UInt32 → List PingTracker × UInt32 × UInt32
  | [], key, warnings => ([], key, warnings)
  | t :: trackers, key, warnings =>
    let (t, key, warnings) := t.check key warnings
    let (trackers, key, warnings) := sweep trackers key warnings
    (t :: trackers, key, warnings)

def findEntry (s : HealthState) (entry : Bytes) : Option Nat :=
  s.trackers.findIdx? fun t => t.name = entry

def setTracker (s : HealthState) (entry : Bytes) (f : PingTracker → PingTracker) : HealthState :=
  match findEntry s entry with
  | some index => { s with trackers := s.trackers.modify index f }
  | none => s

def step (s : HealthState) : Input → HealthState
  | .sweep =>
    if s.enabled then
      let (trackers, key, warnings) := sweep s.trackers s.key s.warnings
      { s with trackers, key, warnings }
    else s
  | .pingReturn port key => { s with trackers := s.trackers.modify port (.pingReturn key) }
  | .hlthEnable enable => { s with enabled := enable }
  | .hlthPingEnable entry enable => setTracker s entry fun t => { t with enabled := enable }
  | .hlthChngPing entry warningValue fatalValue =>
    if warningValue > fatalValue then s
    else setTracker s entry fun t =>
      { t with warnCycles := warningValue.toNat, fatalCycles := fatalValue.toNat }

def start (entries : List (Bytes × Nat × Nat)) : HealthState :=
  ⟨true, 0, 0, entries.map fun e => { name := e.1, warnCycles := e.2.1, fatalCycles := e.2.2 }⟩

inductive Moves (t : PingTracker) : Input → PingTracker → Prop where
  | still (input : Input) : Moves t input t
  | check (key warnings : UInt32) : Moves t .sweep (t.check key warnings).1
  | pingReturn (port : Nat) (key : UInt32) : Moves t (.pingReturn port key) (t.pingReturn key)
  | enable (entry : Bytes) (enable : Bool) :
      Moves t (.hlthPingEnable entry enable) { t with enabled := enable }
  | limits (entry : Bytes) {warningValue fatalValue : UInt32} (h : warningValue ≤ fatalValue) :
      Moves t (.hlthChngPing entry warningValue fatalValue)
        { t with warnCycles := warningValue.toNat, fatalCycles := fatalValue.toNat }

variable {s : HealthState} {t t' : PingTracker} {i : Nat} {input : Input}

theorem sweep_get (trackers : List PingTracker) (key warnings : UInt32)
    (h : (sweep trackers key warnings).1[i]? = some t') :
    ∃ t, trackers[i]? = some t ∧ Moves t .sweep t' := by
  induction trackers generalizing i key warnings with
  | nil => cases h
  | cons t trackers ih =>
    cases i with
    | zero =>
      cases h
      exact ⟨t, rfl, .check key warnings⟩
    | succ i => exact ih _ _ h

theorem modify_get {f : PingTracker → PingTracker} {j : Nat} {trackers : List PingTracker}
    (h : (trackers.modify j f)[i]? = some t') :
    ∃ t, trackers[i]? = some t ∧ (t' = t ∨ t' = f t) := by
  rw [List.getElem?_modify] at h
  obtain ⟨t, ht, heq⟩ := Option.map_eq_some_iff.mp h
  refine ⟨t, ht, ?_⟩
  split at heq
  · exact .inr heq.symm
  · exact .inl heq.symm

theorem setTracker_get {entry : Bytes} {f : PingTracker → PingTracker}
    (h : (setTracker s entry f).trackers[i]? = some t') :
    ∃ t, s.trackers[i]? = some t ∧ (t' = t ∨ t' = f t) := by
  rw [setTracker] at h
  split at h
  · exact modify_get h
  · exact ⟨t', h, .inl rfl⟩

theorem step_moves (h : (step s input).trackers[i]? = some t') :
    ∃ t, s.trackers[i]? = some t ∧ Moves t input t' := by
  cases input with
  | sweep =>
    rw [step] at h
    split at h
    · exact sweep_get _ _ _ h
    · exact ⟨t', h, .still _⟩
  | pingReturn port key =>
    obtain ⟨t, ht, rfl | rfl⟩ := modify_get h
    · exact ⟨t', ht, .still _⟩
    · exact ⟨t, ht, .pingReturn port key⟩
  | hlthEnable enable => exact ⟨t', h, .still _⟩
  | hlthPingEnable entry enable =>
    obtain ⟨t, ht, rfl | rfl⟩ := setTracker_get h
    · exact ⟨t', ht, .still _⟩
    · exact ⟨t, ht, .enable entry enable⟩
  | hlthChngPing entry warningValue fatalValue =>
    rw [step] at h
    split at h
    · exact ⟨t', h, .still _⟩
    · next hle =>
      obtain ⟨t, ht, rfl | rfl⟩ := setTracker_get h
      · exact ⟨t', ht, .still _⟩
      · exact ⟨t, ht, .limits entry (UInt32.not_lt.mp hle)⟩

open PingTracker

theorem PingTracker.Judged.check (h : Judged t) (hwarn : 1 ≤ t.warnCycles) (hlt : t.warnCycles < t.fatalCycles)
    (key warnings : UInt32) : Judged (t.check key warnings).1 := by
  rw [PingTracker.check]
  split
  · exact h
  split
  · -- a ping is sent, and the count of one is past neither limit
    intro _
    dsimp only
    rw [if_neg (by omega), if_neg (by omega)]
    exact ⟨rfl, rfl⟩
  next hpos =>
  obtain ⟨hfatal, hwarned⟩ := h (Nat.pos_of_ne_zero hpos)
  split
  · next heq =>
    rw [if_neg (by omega)] at hfatal
    rw [if_pos (by omega)] at hwarned
    intro _
    dsimp only
    rw [if_pos (by omega), if_pos (by omega)]
    simp [sincePing, isWarn, hfatal, hwarned]
  split
  · next heq =>
    rw [if_neg (by omega)] at hfatal hwarned
    intro _
    dsimp only
    rw [if_neg (by omega), if_pos (by omega)]
    simp [sincePing, List.countP_cons, isWarn, hfatal, hwarned]
  · -- this tick takes the count past neither limit
    intro _
    have hf : t.fatalCycles < t.cycleCount + 1 ↔ t.fatalCycles < t.cycleCount := by omega
    have hw : t.warnCycles < t.cycleCount + 1 ↔ t.warnCycles < t.cycleCount := by omega
    simp only [hf, hw]
    exact ⟨hfatal, hwarned⟩

theorem PingTracker.Judged.pingReturn (h : Judged t) (key : UInt32) : Judged (t.pingReturn key) := by
  rw [PingTracker.pingReturn]
  split
  · simpa [Judged, sincePing, isWarn] using h
  · exact fun hpos => absurd hpos (Nat.lt_irrefl 0)

/-- The limits of the entry are in order, and a command does not move one past the count. -/
def Steady (i : Nat) (s : HealthState) (input : Input) : Prop :=
  ∀ t ∈ s.trackers[i]?, ∀ t' ∈ (step s input).trackers[i]?,
    1 ≤ t.warnCycles ∧ t.warnCycles < t.fatalCycles ∧
    (t.warnCycles < t.cycleCount ↔ t'.warnCycles < t.cycleCount) ∧
    (t.fatalCycles < t.cycleCount ↔ t'.fatalCycles < t.cycleCount)

/-- At each sweep the count of the entry is still below its warning limit. -/
def Answered (i : Nat) (s : HealthState) : Input → Prop
  | .sweep => ∀ t ∈ s.trackers[i]?, t.cycleCount < t.warnCycles
  | _ => True

theorem step_judged (h : ∀ t ∈ s.trackers[i]?, Judged t) (hsteady : Steady i s input) :
    ∀ t ∈ (step s input).trackers[i]?, Judged t := by
  intro t' ht'
  obtain ⟨t, ht, hmoves⟩ := step_moves ht'
  obtain ⟨hwarn, hlt, hw, hf⟩ := hsteady t ht t' ht'
  have hjudged := h t ht
  cases hmoves with
  | still | enable => exact hjudged
  | check key warnings => exact hjudged.check hwarn hlt key warnings
  | pingReturn port key => exact hjudged.pingReturn key
  | limits entry hle =>
    -- the count is on the same side of the new limits
    intro hpos
    obtain ⟨hfatal, hwarned⟩ := hjudged hpos
    simp only [hw, hf] at hfatal hwarned
    exact ⟨hfatal, hwarned⟩

theorem step_prompt (h : ∀ t ∈ s.trackers[i]?, Prompt t) (hanswered : Answered i s input) :
    ∀ t ∈ (step s input).trackers[i]?, Prompt t := by
  intro t' ht'
  obtain ⟨t, ht, hmoves⟩ := step_moves ht'
  obtain ⟨hle, hfatal, hwarn⟩ := h t ht
  cases hmoves with
  | still | enable => exact ⟨hle, hfatal, hwarn⟩
  | check key warnings =>
    have hlt := hanswered t ht
    rw [PingTracker.check]
    split
    · exact ⟨hle, hfatal, hwarn⟩
    split
    · exact ⟨hle, by simpa using hfatal, List.forall_mem_cons.mpr ⟨rfl, hwarn⟩⟩
    rw [if_neg (by omega), if_neg (by omega)]
    exact ⟨hle, hfatal, hwarn⟩
  | pingReturn port key =>
    rw [PingTracker.pingReturn]
    split
    · exact ⟨hle, by simpa using hfatal, List.forall_mem_cons.mpr ⟨rfl, hwarn⟩⟩
    · exact ⟨hle, hfatal, hwarn⟩
  | limits entry hle => exact ⟨UInt32.le_iff_toNat_le.mp hle, hfatal, hwarn⟩

/-- An entry whose limits are not moved past its count is reported when it is late; one that answers
in time never is. -/
theorem hung_entry_reported {entries : List (Bytes × Nat × Nat)}
    (hentries : ∀ e ∈ entries, e.2.1 ≤ e.2.2) (i : Nat) (inputs : List Input) :
    (Along step (Steady i) (start entries) inputs →
      ∀ t ∈ (inputs.foldl step (start entries)).trackers[i]?, Judged t) ∧
    (Along step (Answered i) (start entries) inputs →
      ∀ t ∈ (inputs.foldl step (start entries)).trackers[i]?, Prompt t) := by
  have hstart : ∀ t ∈ (start entries).trackers[i]?,
      t.cycleCount = 0 ∧ t.history = [] ∧ t.warnCycles ≤ t.fatalCycles := by
    intro t ht
    obtain ⟨e, he, rfl⟩ := List.mem_map.mp (List.mem_of_getElem? ht)
    exact ⟨rfl, rfl, hentries e he⟩
  constructor
  · refine invariant (I := fun s : HealthState => ∀ t ∈ s.trackers[i]?, Judged t)
      (fun _ _ h hsteady => step_judged h hsteady) fun t ht hpos => ?_
    exact absurd hpos (Nat.not_lt.mpr (Nat.le_of_eq (hstart t ht).1))
  · refine invariant (I := fun s : HealthState => ∀ t ∈ s.trackers[i]?, Prompt t)
      (fun _ _ h hanswered => step_prompt h hanswered) fun t ht => ?_
    obtain ⟨-, hnil, hle⟩ := hstart t ht
    rw [Prompt, hnil]
    exact ⟨hle, List.not_mem_nil, fun _ h => absurd h List.not_mem_nil⟩

instance (i : Nat) (s : HealthState) (input : Input) : Decidable (Steady i s input) :=
  inferInstanceAs (Decidable (∀ t ∈ _, ∀ t' ∈ _, _))

theorem hung_entry_reported_silent :
    ∃ t, ((List.replicate 6 Input.sweep).foldl step (start [([], 2, 3)])).trackers[0]? = some t ∧
      Judged t :=
  ⟨_, rfl, (@hung_entry_reported [([], 2, 3)] (by decide) 0 (List.replicate 6 .sweep)).1
    (by decide) _ rfl⟩

/-- The fatal limit of an entry that hangs is moved below its count: it is never reported. -/
theorem lowered_limit_hides_hang :
    ∃ t, ([.sweep, .sweep, .sweep, .sweep, .hlthChngPing [] 1 2, .sweep, .sweep].foldl step
        (start [([], 5, 6)])).trackers[0]? = some t ∧
      t.fatalCycles < t.cycleCount ∧ t.enabled = true ∧ t.history = [.ping 0] :=
  ⟨_, rfl, by decide, rfl, rfl⟩

end Fprime.Svc.Health
