/-
  Dbase.Time.DoubleLink — `DoubleLink` and `DoubleLinkNode` (`timer_wheel.h`), the lists that hold the timers, with their
  pointers.

  A node is one of the two ends of a list or a node of the user; a pointer is an address or null. The memory has the three
  members of every node, the `count_` of every list, and which of the user's nodes exist. A pointer that is null, or leads
  to a node that does not exist, cannot be followed: then there is no memory after the operation.

  The lists exist all the time. The user's nodes are constructed and destroyed; a node that is copied to or from, pushed or
  removed exists. The base class of `Timer` has no other member that a copy would touch. `Clear` says how often it pops at
  most; it ends in all larger bounds or in none.
-/

import Dbase.Lib.Machine

namespace Dbase.Time.DoubleLink

inductive Addr (L N : Type) where
  | head (l : L)
  | tail (l : L)
  | node (n : N)
  deriving DecidableEq, Repr

/-- `DoubleLinkNode` -/
structure Links (L N : Type) where
  pOwner : Option L
  pNext : Option (Addr L N)
  pPrev : Option (Addr L N)
  deriving DecidableEq, Repr

/-- The members as the default constructor, the copy constructor and the copy assignment leave them. -/
def detached {L N : Type} : Links L N := ⟨none, none, none⟩

structure Mem (L N : Type) where
  links : Addr L N → Links L N
  count : L → UInt32
  alive : N → Bool

variable {L N : Type} [DecidableEq L] [DecidableEq N]

namespace Mem

/-- Following a pointer. -/
def deref (m : Mem L N) : Option (Addr L N) → Option (Addr L N)
  | none => none
  | some (.node n) => if m.alive n then some (.node n) else none
  | some a => some a

def setNext (m : Mem L N) (a : Addr L N) (p : Option (Addr L N)) : Mem L N :=
  { m with links := Function.update m.links a ⟨(m.links a).pOwner, p, (m.links a).pPrev⟩ }

def setPrev (m : Mem L N) (a : Addr L N) (p : Option (Addr L N)) : Mem L N :=
  { m with links := Function.update m.links a ⟨(m.links a).pOwner, (m.links a).pNext, p⟩ }

def setOwner (m : Mem L N) (a : Addr L N) (l : Option L) : Mem L N :=
  { m with links := Function.update m.links a ⟨l, (m.links a).pNext, (m.links a).pPrev⟩ }

def setLinks (m : Mem L N) (a : Addr L N) (x : Links L N) : Mem L N := { m with links := Function.update m.links a x }

def setCount (m : Mem L N) (l : L) (c : UInt32) : Mem L N := { m with count := Function.update m.count l c }

def setAlive (m : Mem L N) (n : N) (b : Bool) : Mem L N := { m with alive := Function.update m.alive n b }

end Mem

def isDetached (m : Mem L N) (a : Addr L N) : Bool :=
  (m.links a).pOwner = none && (m.links a).pNext = none && (m.links a).pPrev = none

def isLinked (m : Mem L N) (a : Addr L N) : Bool :=
  (m.links a).pOwner ≠ none && (m.links a).pNext ≠ none && (m.links a).pPrev ≠ none

def empty (m : Mem L N) (l : L) : Bool := (m.links (.head l)).pNext = some (.tail l)

def push (l : L) (node : Option (Addr L N)) (m : Mem L N) : Option (Mem L N) :=
  if node = none then some m
  else do
    let node ← m.deref node
    if !isDetached m node then return m
    else
      let last ← m.deref (m.links (.tail l)).pPrev
      let m := m.setNext last (some node)
      let m := m.setPrev node (m.links (.tail l)).pPrev
      let m := m.setNext node (some (.tail l))
      let m := m.setOwner node (some l)
      let m := m.setPrev (.tail l) (some node)
      return m.setCount l (m.count l + 1)

def pushFront (l : L) (node : Option (Addr L N)) (m : Mem L N) : Option (Mem L N) :=
  if node = none then some m
  else do
    let node ← m.deref node
    if !isDetached m node then return m
    else
      let m := m.setPrev node (some (.head l))
      let m := m.setNext node (m.links (.head l)).pNext
      let first ← m.deref (m.links (.head l)).pNext
      let m := m.setPrev first (some node)
      let m := m.setNext (.head l) (some node)
      let m := m.setOwner node (some l)
      return m.setCount l (m.count l + 1)

def remove (node : Option (Addr L N)) (m : Mem L N) : Option (Mem L N) :=
  if node = none then some m
  else do
    let node ← m.deref node
    if !isLinked m node then return m
    else
      let before ← m.deref (m.links node).pPrev
      let m := m.setNext before (m.links node).pNext
      let after ← m.deref (m.links node).pNext
      let m := m.setPrev after (m.links node).pPrev
      let owner ← (m.links node).pOwner
      let m := m.setCount owner (m.count owner - 1)
      let m := m.setOwner node none
      let m := m.setNext node none
      return m.setPrev node none

/-- What `Pop` returns, and the memory after it. -/
def pop (l : L) (m : Mem L N) : Option (Option (Addr L N) × Mem L N) :=
  if empty m l then some (none, m)
  else do
    let ret := (m.links (.head l)).pNext
    let m ← remove ret m
    return (ret, m)

def clear (l : L) : Nat → Mem L N → Option (Mem L N)
  | 0, _ => none
  | bound + 1, m => do
    let (ret, m) ← pop l m
    if ret = none then return m else clear l bound m

/-! ## Nodes that come, are copied and go -/

def construct (n : N) (m : Mem L N) : Option (Mem L N) :=
  if m.alive n then none else some ((m.setLinks (.node n) detached).setAlive n true)

/-- Nothing of the node that is copied is looked at, so that a copy is not in its list. -/
def copyConstruct (n : N) (source : Addr L N) (m : Mem L N) : Option (Mem L N) := do
  let _ ← m.deref (some source)
  construct n m

def copyAssign (n : N) (source : Addr L N) (m : Mem L N) : Option (Mem L N) := do
  let _ ← m.deref (some source)
  let this ← m.deref (some (.node n))
  return m.setLinks this detached

def destroy (n : N) (m : Mem L N) : Option (Mem L N) := do
  let this ← m.deref (some (.node n))
  let m ← if (m.links this).pOwner ≠ none then remove (some this) m else some m
  return m.setAlive n false

inductive Op (L N : Type) where
  | push (l : L) (node : Option (Addr L N))
  | pushFront (l : L) (node : Option (Addr L N))
  | pop (l : L)
  | remove (node : Option (Addr L N))
  | clear (l : L) (bound : Nat)
  | construct (n : N)
  | copyConstruct (n : N) (source : Addr L N)
  | copyAssign (n : N) (source : Addr L N)
  | destroy (n : N)
  deriving DecidableEq, Repr

def step (m : Mem L N) : Op L N → Option (Mem L N)
  | .push l node => push l node m
  | .pushFront l node => pushFront l node m
  | .pop l => (pop l m).map Prod.snd
  | .remove node => remove node m
  | .clear l bound => clear l bound m
  | .construct n => construct n m
  | .copyConstruct n source => copyConstruct n source m
  | .copyAssign n source => copyAssign n source m
  | .destroy n => destroy n m

/-- Every list as its constructor leaves it, and no node of the user. -/
def start : Mem L N where
  links
    | .head l => ⟨none, some (.tail l), none⟩
    | .tail l => ⟨none, none, some (.head l)⟩
    | .node _ => detached
  count _ := 0
  alive _ := false

def machine (L N : Type) [DecidableEq L] [DecidableEq N] : Lib.Machine (Mem L N) (Op L N) := ⟨start, step⟩

end Dbase.Time.DoubleLink
