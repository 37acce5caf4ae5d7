import Mathlib.Data.Nat.Notation

/-!
# Countdown timers
-/

namespace Fprime.Cfdp

inductive TimerStatus where
  | uninitialized
  | running
  | expired
  deriving DecidableEq

structure Timer where
  timerStatus : TimerStatus
  secondsRemaining : UInt32

namespace Timer

def new : Timer := ⟨.uninitialized, 0⟩

def setTimer (duration : UInt32) : Timer := ⟨.running, duration⟩

def disableTimer : Timer := ⟨.expired, 0⟩

/-- The assertion of `run`: a running timer has time left. -/
def runOk (t : Timer) : Bool :=
  t.timerStatus != .running || t.secondsRemaining != 0

def run (t : Timer) : Timer :=
  if t.timerStatus = .running then
    let secondsRemaining := t.secondsRemaining - 1
    if secondsRemaining = 0 then ⟨.expired, secondsRemaining⟩ else ⟨.running, secondsRemaining⟩
  else t

end Timer

end Fprime.Cfdp
