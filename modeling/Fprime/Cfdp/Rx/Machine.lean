import Fprime.Cfdp.Dispatch
import Fprime.Lib.Runs

/-!
# The abstract receiver

What a class-2 reception is about, without timers, counters and PDUs. `Step` lists everything that
can happen; the handlers of the engine refine it.
-/

namespace Fprime.Cfdp.Rx

open Fprime.Os Lib.Runs

structure View where
  gone : Bool
  state : TxnState
  dir : Direction
  failed : Bool
  canceled : Bool
  mdRecv : Bool
  eofRecv : Bool
  eofCc : UInt8
  sendFin : Bool
  complete : Bool
  closeout : Bool
  crcCalc : Bool
  crcBytes : UInt32
  /-- Delivery is reported as complete, with the file retained. -/
  delivered : Bool
  keep : Keep
  fsize : UInt32
  list : ChunkList
  dst : Path
  fd : File
  cachedPos : UInt32
  fs : FileSystem

namespace View

def AllData (v : View) : Prop :=
  v.mdRecv ∧ v.list.Covers v.fsize.toNat

/-- The file after data was written at an offset, through a handle that is moved there unless it is
taken to be there. -/
def stored (v : View) (h : Handle) (offset : UInt32) (data : Bytes) : View :=
  let pos := if v.cachedPos = offset then h.pos else offset.toNat
  { v with
    fs := v.fs.update h.path (some (overwrite ((v.fs h.path).getD []) pos data))
    fd := some { h with pos := pos + data.length }
    cachedPos := UInt32.ofNat data.length + offset
    list := v.list.add offset.toNat data.length }

/-- The file after the metadata named it: what was stored moves to its final name. -/
def adopted (v : View) (fsize : UInt32) (dst : Path) (fs : FileSystem) : View :=
  { v with
    fsize := fsize
    dst := dst
    mdRecv := true
    fs := fs.update dst (some ((fs dst).getD []))
    fd := some ⟨dst, .openWrite, 0⟩
    cachedPos := 0 }

end View

/-- What the input of a step permits: the data and the size it brings, and the two ways to give up
the order of things. -/
structure Inputs where
  data : UInt32 → Bytes → Prop
  size : UInt32 → Prop
  /-- A PDU that cannot be decoded has a FIN requested. -/
  reset : Prop
  /-- A NAK falls due when nothing is missing any more. -/
  lateNak : Prop

inductive Step (p : Inputs) : View → View → Prop
  | fail {v : View} (fd : File) : Step p v { v with failed := true, fd := fd }
  | cancel {v : View} (h : v.failed) : Step p v { v with canceled := true }
  | requestFin {v : View} (h : v.failed ∨ (v.complete ∧ v.closeout) ∨ p.reset ∨
      (v.eofRecv ∧ v.AllData)) : Step p v { v with sendFin := true }
  | giveUp {v : View} (h : v.failed) : Step p v { v with complete := true, sendFin := true }
  | complete {v : View} (heof : v.eofRecv) (hall : v.AllData) :
      Step p v { v with complete := true, sendFin := true }
  | lateComplete {v : View} (hall : v.AllData)
      (h : p.lateNak ∨ v.failed ∨ ¬ v.eofRecv ∨ v.sendFin ∨ v.closeout ∨ v.state = .hold) :
      Step p v { v with complete := true }
  | reopen {v : View} (h : v.failed ∨ ¬ v.eofRecv ∨ ¬ v.AllData ∨ v.sendFin) :
      Step p v { v with closeout := false }
  | eof {v : View} (cc : UInt8) (hfirst : ¬ v.eofRecv) (hcc : cc ≠ 0 → v.failed)
      (hopen : v.failed ∨ ¬ v.AllData) : Step p v { v with eofRecv := true, eofCc := cc }
  | eofComplete {v : View} (hfirst : ¬ v.eofRecv) (hall : v.AllData) :
      Step p v { v with eofRecv := true, eofCc := 0, complete := true, sendFin := true }
  | store {v : View} (h : Handle) (offset : UInt32) (data : Bytes)
      (hdata : p.data offset data) (hfd : v.fd = some h) (hmode : h.mode ≠ .openRead)
      (hcrc : v.crcBytes = 0) (hlen : data.length < 2 ^ 16)
      (hbound : if v.mdRecv then offset.toNat + data.length ≤ v.fsize.toNat
        else offset.toNat + data.length < 2 ^ 32) : Step p v (v.stored h offset data)
  | metadataFailed {v : View} (fsize : UInt32) (dst : Path) (fd : File) (fs : FileSystem)
      (hfirst : ¬ v.mdRecv) :
      Step p v { v with failed := true, sendFin := true, fsize := fsize, dst := dst, fd := fd,
                        fs := fs }
  | metadata {v : View} (fsize : UInt32) (dst : Path) (hsize : p.size fsize) (hfirst : ¬ v.mdRecv)
      (hfile : (v.fs v.dst).isSome) :
      Step p v (v.adopted fsize dst (v.fs.moveFile true v.dst dst).1)
  | read {v : View} (h : Handle) (pos bytes : UInt32) (hmode : h.mode = .openRead)
      (hcrc : ¬ v.crcCalc) : Step p v { v with fd := some h, cachedPos := pos, crcBytes := bytes }
  | deliver {v : View} (hfin : v.sendFin) (hok : ¬ v.failed) (hcrc : ¬ v.crcCalc)
      (hall : v.crcBytes = v.fsize) :
      Step p v { v with delivered := true, keep := .keep, crcCalc := true }
  | checked {v : View} (h : v.failed) : Step p v { v with crcCalc := true }
  | closeout {v : View} (h : v.failed ∨ v.crcCalc) : Step p v { v with closeout := true }
  | finSent {v : View} (h : v.closeout) : Step p v { v with sendFin := false }
  | finish {v : View} (fs : FileSystem)
      (h : v.failed ∨ v.closeout ∨ v.eofCc ≠ 0 ∨ v.canceled) (hkeep : v.keep = .keep → fs = v.fs) :
      Step p v { v with state := .hold, fd := none, fs := fs }

abbrev Steps (p : Inputs) : View → View → Prop :=
  Relation.ReflTransGen (Step p)

variable {p : Inputs} {v w : View}

theorem Steps.one (h : Step p v w) : Steps p v w :=
  Relation.ReflTransGen.single h

theorem Steps.of_eq (h : w = v) : Steps p v w :=
  h ▸ .refl

theorem Steps.gone_eq (h : Steps p v w) : w.gone = v.gone :=
  kept_by_steps (I := fun u => u.gone = v.gone) (fun _ _ hstep hv => by cases hstep <;> exact hv)
    h rfl

/-- What every class-2 reception keeps: it is one, and its chunk list has room for a gap. -/
structure Receiving (v : View) : Prop where
  dir : v.dir = .rx
  state : v.state = .r2 ∨ v.state = .hold
  room : 1 < v.list.maxChunks

theorem Receiving.steps (h : Steps p v w) (hv : Receiving v) :
    Receiving w := by
  refine kept_by_steps (fun v w hstep hv => ?_) h hv
  cases hstep with
  | store => exact { hv with room := by simpa [View.stored] using hv.room }
  | finish => exact { hv with state := .inr rfl }
  | _ => exact ⟨hv.dir, hv.state, hv.room⟩

end Fprime.Cfdp.Rx
