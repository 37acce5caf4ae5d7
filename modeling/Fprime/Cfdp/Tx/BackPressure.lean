import Fprime.Cfdp.Tx.Fidelity

/-!
# Sends that are refused

A PDU is refused where the budget of the cycle is spent or the pool has no buffer, and is to be left
for a later cycle. Where data is sent again for a NAK a refusal ends the transaction, and a tick
that has spent its retries recycles it with what it has not sent.
-/

namespace Fprime.Cfdp

open Fprime.Os Fprime.Fw

inductive TxCall where
  | dispatch
  | tick
  | tickNak

namespace Session

variable (mgr : Mgr) (s : Session)

def call : TxCall → Session
  | .dispatch => s.dispatchTx mgr
  | .tick => s.sTick mgr
  | .tickNak => (s.sTickNak mgr).1

def InactivityExpires : Prop :=
  s.txn.flags.com.inactivityFired = false ∧ s.txn.inactivityTimer.timerStatus = .running ∧
    s.txn.inactivityTimer.run.timerStatus = .expired

structure Outlook where
  state : TxnState
  com : FlagsCommon
  tx : FlagsTx
  ackTimer : Timer
  chanNum : Nat
  foffs : UInt32
  subState : TxSubState
  s2 : TxS2Data
  hist : History
  list : ChunkList

def outlook : Outlook where
  state := s.txn.state
  com := { s.txn.flags.com with crcCalc := false }
  tx := s.txn.flags.tx
  ackTimer := s.txn.ackTimer
  chanNum := s.txn.chanNum
  foffs := s.txn.foffs
  subState := s.txn.stateData.send.subState
  s2 := s.txn.stateData.send.s2
  hist := s.hist
  list := s.list

section Outlook

variable (mgr : Mgr) (s : Session)

@[simp] theorem outlook_modWorld (f : World → World) : (s.modWorld f).outlook = s.outlook := rfl

@[simp] theorem outlook_assert (f : Fault) (p : Bool) : (s.assert f p).outlook = s.outlook := rfl

@[simp] theorem outlook_assertChunks : s.assertChunks.outlook = s.outlook := rfl

@[simp] theorem outlook_setCurrentTxn : s.setCurrentTxn.outlook = s.outlook := rfl

@[simp] theorem outlook_send (pdu : Pdu) : (s.send mgr pdu).1.outlook = s.outlook := rfl

@[simp] theorem outlook_sendMd : (s.sendMd mgr).1.outlook = s.outlook := by
  simp only [sendMd]
  split <;> rfl

@[simp] theorem outlook_sSendEof : (s.sSendEof mgr).1.outlook = s.outlook := rfl

@[simp] theorem outlook_sSendFinAck : (s.sSendFinAck mgr).1.outlook = s.outlook := rfl

@[simp] theorem outlook_sOpenFile : (s.sOpenFile mgr).1.outlook = s.outlook := by
  have hopen : ∀ path, (s.fdOpenRead mgr path).1.outlook = s.outlook := by
    intro path
    simp only [fdOpenRead]
    split <;> rfl
  simp only [sOpenFile]
  split
  · rfl
  · split
    · exact hopen _
    · exact hopen s.hist.fnames.srcFilename

@[simp] theorem outlook_sSeek (pos : UInt32) : (s.sSeek mgr pos).1.outlook = s.outlook := by
  simp only [sSeek]
  split <;> rfl

@[simp] theorem outlook_fdRead (count : Nat) : (s.fdRead mgr count).1.outlook = s.outlook := rfl

@[simp] theorem outlook_cachedPos (f : TxStateData → UInt32) :
    (s.modSend fun d => { d with cachedPos := f d }).outlook = s.outlook := rfl

@[simp] theorem outlook_crc (f : Transaction → Utils.Checksum) :
    (s.modTxn fun x => { x with crc := f x }).outlook = s.outlook := rfl

@[simp] theorem outlook_sendFd (fd : FileDataPdu) : (s.sendFd mgr fd).1.outlook = s.outlook := rfl

@[simp] theorem outlook_sSendFileData (foffs : UInt32) (bytesToRead : Nat) (calcCrc : Bool) :
    (s.sSendFileData mgr foffs bytesToRead calcCrc).1.outlook = s.outlook := by
  simp only [sSendFileData]
  split
  · simp
  · split
    · simp
    · split
      · split <;> simp
      · simp

end Outlook

section Turn

variable {mgr : Mgr} {s : Session}

end Turn

section Tick

variable {mgr : Mgr} {s : Session}

/-- The session is as it was, but for the inactivity timer and the retries after it. -/
def Ticked (s s' : Session) : Prop :=
  ∃ fired n hist, s'.outlook = { s.outlook with
      com := { s.outlook.com with inactivityFired := fired, postInactivitySendRetries := n }
      hist := hist } ∧ (hist = s.hist ∨ s.InactivityExpires)

theorem Ticked.tx {s1 : Session} (h : s.Ticked s1) : s1.txn.flags.tx = s.txn.flags.tx := by
  obtain ⟨_, _, _, h, -⟩ := h
  exact congrArg Outlook.tx h

theorem Ticked.qIndex {s1 : Session} (h : s.Ticked s1) :
    s1.txn.flags.com.qIndex = s.txn.flags.com.qIndex := by
  obtain ⟨_, _, _, h, -⟩ := h
  exact congrArg (fun o => o.com.qIndex) h

end Tick

section Dispatch

variable {mgr : Mgr} {s : Session}

end Dispatch

def starved : Mgr := { pairs with allocOk := fun _ => false }

end Session

end Fprime.Cfdp
