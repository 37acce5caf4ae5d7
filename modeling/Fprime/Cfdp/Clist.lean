import Fprime.Lib.Ring

/-!
# Index-linked circular lists

The rings that hold transactions, histories and chunk lists, with the operations that rewire them.
-/

namespace Fprime.Cfdp

abbrev CListLinks := Lib.Links

abbrev ListHead := Option Nat

namespace CListLinks

open Lib.Links

def new : CListLinks := ⟨id, id⟩

variable (l : CListLinks)

def initNode (node : Nat) : CListLinks :=
  (setNext l node node).setPrev node node

def detached (node : Nat) : Bool :=
  l.next node == node && l.prev node == node

def insertFront (head : ListHead) (node : Nat) : CListLinks × ListHead :=
  match head with
  | none => (l, some node)
  | some h =>
    let last := l.prev h
    ((((setNext l node h).setPrev node last).setNext last node).setPrev h node, some node)

def insertBack (head : ListHead) (node : Nat) : CListLinks × ListHead :=
  match head with
  | none => (l, some node)
  | some h =>
    let last := l.prev h
    ((((setNext l node h).setPrev h node).setPrev node last).setNext last node, some h)

/-- The assertions of `remove`: the list is not empty, and a node that is alone is its head. -/
def removeOk (head : ListHead) (node : Nat) : Bool :=
  match head with
  | none => false
  | some h => l.next node != node || node == h

def remove (head : ListHead) (node : Nat) : CListLinks × ListHead :=
  match head with
  | none => (l, none)
  | some h =>
    if l.next node = node then (initNode l node, none)
    else if h = node then
      let last := l.prev h
      let second := l.next node
      let l := setNext l last second
      (initNode (l.setPrev second (l.prev node)) node, some second)
    else
      let next := l.next node
      let prev := l.prev node
      (initNode ((setPrev l next prev).setNext prev next) node, some h)

def insertAfter (start after : Nat) : CListLinks :=
  let startNext := l.next start
  (((setNext l after startNext).setNext start after).setPrev after start).setPrev startNext after

end CListLinks

/-- The walk of `traverse` and `traverse_r`. The callback may rewire the links; the flag is the
final assertion. -/
def traverseLoop {σ : Type} (step : σ → Nat → Nat) (f : σ → Nat → σ × Bool) :
    Nat → Nat → Nat → σ → σ × Bool
  | 0, _, _, s => (s, false)
  | fuel + 1, start, node, s =>
    let nodeNext := step s node
    let last := nodeNext = start
    let r := f s node
    if ¬ r.2 ∨ last then (r.1, true)
    else
      -- A first node that was unlinked is no longer a place to stop at.
      let start := if start = node ∧ step r.1 node ≠ nodeNext then nodeNext else start
      traverseLoop step f fuel start nodeNext r.1

def traverse {σ : Type} (links : σ → CListLinks) (start : ListHead) (maxIterations : Nat)
    (f : σ → Nat → σ × Bool) (s : σ) : σ × Bool :=
  match start with
  | none => (s, true)
  | some start => traverseLoop (fun s => (links s).next) f maxIterations start start s

def traverseR {σ : Type} (links : σ → CListLinks) (head : ListHead) (maxIterations : Nat)
    (f : σ → Nat → σ × Bool) (s : σ) : σ × Bool :=
  match head with
  | none => (s, true)
  | some h =>
    let node := (links s).prev h
    traverseLoop (fun s => (links s).prev) f maxIterations node node s

end Fprime.Cfdp
