import Fprime.Svc.ComQueue

/-!
# Retries

The component that sends a buffer again when its delivery has failed. Its calls on the output ports
all come after the change of the state, so that the one called may call back.
-/

namespace Fprime.Svc.ComRetry

open Fw
open ComQueue (Success)

inductive RetryState where
  | waitingForStatus
  | waitingForSend
  | retrying
  deriving DecidableEq

inductive Ownership where
  | notOwned
  | owned
  deriving DecidableEq

structure State where
  numRetries : UInt32
  retryCount : UInt32
  retryState : RetryState
  context : FrameContext
  buffer : Option Bytes
  bufferState : Ownership

inductive Out where
  | dataOut (buffer : Bytes) (context : FrameContext)
  | dataReturnOut (buffer : Bytes) (context : FrameContext)
  | comStatusOut (condition : Success)

inductive Assertion where
  | bufferState
  | bufferValid
  | takeBuffer
  | retryState
  | overflow
  deriving DecidableEq

namespace State

def defaultNumRetries : UInt32 := 3

def new : State where
  numRetries := defaultNumRetries
  retryCount := 0
  retryState := .waitingForSend
  context := {}
  buffer := none
  bufferState := .owned

variable (s : State)

def configure (numRetries : UInt32) : State :=
  { s with numRetries }

def bufferValid : Bool :=
  s.buffer.any (· ≠ [])

def takeBuffer : Except Assertion (Bytes × State) :=
  match s.buffer with
  | none => .error .takeBuffer
  | some buffer => .ok (buffer, { s with buffer := none })

def returnThenStatus (condition : Success) : Except Assertion (State × List Out) := do
  let (buffer, s) ← takeBuffer { s with retryState := .waitingForSend }
  return (s, [.dataReturnOut buffer s.context, .comStatusOut condition])

def resend : Except Assertion (State × List Out) :=
  if s.retryCount.toNat + 1 < 2 ^ 32 then do
    let (buffer, s) ← takeBuffer { s with
      retryCount := s.retryCount + 1
      retryState := .waitingForStatus
      bufferState := .notOwned }
    return (s, [.dataOut buffer s.context])
  else .error .overflow

def comStatusIn (condition : Success) : Except Assertion (State × List Out) :=
  if s.bufferState ≠ .owned then .error .bufferState
  else
    match s.retryState, condition with
    | .waitingForSend, condition =>
      if s.bufferValid then .error .bufferValid else .ok (s, [.comStatusOut condition])
    | .waitingForStatus, .success =>
      if s.bufferValid then s.returnThenStatus .success else .error .bufferValid
    | .retrying, .success => if s.bufferValid then s.resend else .error .bufferValid
    | .retrying, .failure => .error .retryState
    | .waitingForStatus, .failure =>
      if s.retryCount < s.numRetries then .ok ({ s with retryState := .retrying }, [])
      else s.returnThenStatus .failure

def dataIn (buffer : Bytes) (context : FrameContext) :
    Except Assertion (State × List Out) :=
  if s.bufferState ≠ .owned then .error .bufferState
  else if s.retryState ≠ .waitingForSend then .error .retryState
  else
    .ok ({ s with bufferState := .notOwned, retryState := .waitingForStatus, retryCount := 0 },
      [.dataOut buffer context])

def dataReturnIn (buffer : Bytes) (context : FrameContext) :
    Except Assertion State :=
  if s.bufferState ≠ .notOwned then .error .bufferState
  else if s.retryState ≠ .waitingForStatus then .error .retryState
  else .ok { s with bufferState := .owned, buffer := some buffer, context }

end State

/-- How a buffer went out and came back, what the adapter reported, and the statuses upstream got.
-/
structure Entry where
  buffer : Bytes
  outs : List Bytes := []
  reports : List Success := []
  returned : List Bytes := []
  statuses : List Success := []
  deriving DecidableEq

/-- The adapter has nothing to do, has a buffer to return, has a status to report, or has to say
that it is ready. -/
inductive Adapter where
  | quiet
  | holds (buffer : Bytes)
  | owes
  | recovering
  deriving DecidableEq

def Adapter.held : Adapter → Option Bytes
  | holds buffer => some buffer
  | _ => none

/-- The component with the calls still to make, whether upstream may send, the adapter, and the
buffers sent. -/
structure World where
  state : State
  pending : List Out
  ready : Bool
  adapter : Adapter
  ledger : List Entry

def note (f : Entry → Entry) : List Entry → List Entry
  | [] => []
  | entry :: rest => f entry :: rest

inductive Event where
  | deliver
  | dataIn (buffer : Bytes) (context : FrameContext)
  | dataReturnIn (context : FrameContext)
  | comStatusIn (condition : Success)

namespace World

/-- At the start either upstream may send, or the adapter has to say that it is ready. -/
def start (numRetries : UInt32) (ready : Bool) : World where
  state := State.new.configure numRetries
  pending := []
  ready := ready
  adapter := if ready then .quiet else .recovering
  ledger := []

def deliver (w : World) : World :=
  match w.pending with
  | [] => w
  | .dataOut buffer _ :: rest =>
    { w with
      pending := rest
      adapter := .holds buffer
      ledger := note (fun e => { e with outs := e.outs ++ [buffer] }) w.ledger }
  | .dataReturnOut buffer _ :: rest =>
    { w with
      pending := rest
      ledger := note (fun e => { e with returned := e.returned ++ [buffer] }) w.ledger }
  | .comStatusOut condition :: rest =>
    { w with
      pending := rest
      ready := w.ready || condition == .success
      ledger := note (fun e => { e with statuses := e.statuses ++ [condition] }) w.ledger }

def afterStatus : Adapter → Success → Adapter
  | .owes, .failure => .recovering
  | _, _ => .quiet

def step (w : World) : Event → Except Assertion World
  | .deliver => .ok w.deliver
  | .dataIn buffer context => do
    let (state, outs) ← w.state.dataIn buffer context
    return { w with state, pending := outs ++ w.pending, ready := false,
                    ledger := { buffer } :: w.ledger }
  | .dataReturnIn context =>
    match w.adapter with
    | .holds buffer => do
      let state ← w.state.dataReturnIn buffer context
      return { w with state, adapter := .owes }
    | _ => .ok w
  | .comStatusIn condition => do
    let (state, outs) ← w.state.comStatusIn condition
    return { w with
      state
      pending := outs ++ w.pending
      adapter := afterStatus w.adapter condition
      ledger := if w.adapter = .owes then
        note (fun e => { e with reports := e.reports ++ [condition] }) w.ledger else w.ledger }

/-- Upstream sends a buffer with data when it may. The adapter returns a buffer, reports one status,
and after a failure says that it is ready. -/
def Allowed (w : World) : Event → Prop
  | .deliver => w.pending ≠ []
  | .dataIn buffer _ => w.ready = true ∧ buffer ≠ []
  | .dataReturnIn _ => w.pending = [] ∧ w.adapter.held.isSome
  | .comStatusIn condition => w.pending = [] ∧
      (w.adapter = .owes ∨ (w.adapter = .recovering ∧ condition = .success))

instance (w : World) (e : Event) : Decidable (w.Allowed e) := by
  cases e <;> unfold Allowed <;> infer_instance

end World

/-- The buffer went out unchanged until its first success, at most once more than the retries; it
came back once, and upstream got one status. -/
structure Settled (numRetries : UInt32) (e : Entry) : Prop where
  out : e.outs ≠ []
  bound : e.outs.length ≤ numRetries.toNat + 1
  unchanged : ∀ b ∈ e.outs, b = e.buffer
  attempts : e.reports.length = e.outs.length
  untilSuccess : .success ∉ e.reports.dropLast
  returned : e.returned = [e.buffer]
  status : (.success ∈ e.reports ∧ e.statuses = [.success]) ∨
    (.success ∉ e.reports ∧ (e.statuses = [.failure] ∨ e.statuses = [.failure, .success]))

structure Underway (numRetries : UInt32) (e : Entry) : Prop where
  bound : e.outs.length ≤ numRetries.toNat + 1
  unchanged : ∀ b ∈ e.outs, b = e.buffer
  attempts : e.reports.length ≤ e.outs.length
  untilSuccess : .success ∉ e.reports.dropLast
  returned : e.returned = [] ∨ e.returned = [e.buffer]
  status : e.statuses = []

end Fprime.Svc.ComRetry
