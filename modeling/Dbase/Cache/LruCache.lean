/-
  Dbase.Cache.LruCache — `LRUCache<K, V, Hash, KeyEqual>`.

  `m_items` is a `std::list` of nodes, the front first; `m_index` a `std::unordered_map` from keys to
  iterators. An iterator is the address of its node, and addresses are never used twice. A function
  that would follow an iterator to a node that is gone, or look at the back of an empty list, has
  no result. Keys are compared with `KeyEqual`, and `Hash` agrees with it, as the map requires.

  The evict callback is user code: whether it is set is part of the cache, and `faults n` says whether its
  invocation number `n` in a `put` throws. The four overloads of `put` differ in what they copy and
  move and are one function here. Each operation holds the mutex throughout.
-/

import Dbase.Error

namespace Dbase.Cache.LruCache

variable {K V : Type}

structure Node (K V : Type) where
  addr : Nat
  key : K
  value : V
  deriving DecidableEq, Repr

structure Lru (K V : Type) where
  capacity : Nat
  items : List (Node K V)
  index : List (K × Nat)
  /-- `m_evictCallback` is not empty -/
  evictCallback : Bool
  /-- the address of the next node -/
  nextAddr : Nat
  deriving DecidableEq, Repr

/-- The constructor. -/
def make (capacity : Nat) : Except Err (Lru K V) :=
  if capacity = 0 then .error (.invalidArgument "LRUCache capacity must be greater than 0")
  else .ok ⟨capacity, [], [], false, 0⟩

/-- `*it`, for the iterator to the node at `addr`. -/
def node? (addr : Nat) (c : Lru K V) : Option (Node K V) := c.items.find? (·.addr = addr)

def setEvictCallback (set : Bool) (c : Lru K V) : Lru K V := { c with evictCallback := set }

def size (c : Lru K V) : Nat := c.index.length

def empty (c : Lru K V) : Bool := c.index.isEmpty

def clear (c : Lru K V) : Lru K V := { c with items := [], index := [] }

/-- `m_items.splice(m_items.begin(), m_items, it)`, unless it is the front already. -/
def touch (addr : Nat) (c : Lru K V) : Option (Lru K V) :=
  (node? addr c).map fun n =>
    if c.items.head?.any (·.addr = addr) then c
    else { c with items := n :: c.items.eraseP (·.addr = addr) }

variable [BEq K]

/-- `m_index.find(key)`. -/
def find (key : K) (c : Lru K V) : Option Nat := (c.index.find? fun e => e.1 == key).map (·.2)

/-- `m_index.erase(key)`. -/
def eraseIndex (key : K) (index : List (K × Nat)) : List (K × Nat) := index.eraseP fun e => e.1 == key

/-- `m_index.emplace(key, it)`: nothing if the key is there. -/
def emplaceIndex (key : K) (addr : Nat) (c : Lru K V) : Lru K V :=
  if (find key c).isSome then c else { c with index := (key, addr) :: c.index }

def contains (key : K) (c : Lru K V) : Bool := (find key c).isSome

/-- The loop of `evictIfNeeded`, for at most `n` rounds; the entries the callback was invoked with, and whether
    its last invocation threw. -/
def evictLoop (faults : Nat → Bool) : Nat → List (K × V) → Lru K V → Option (Lru K V × List (K × V) × Bool)
  | 0, called, c => if size c > c.capacity then none else some (c, called, false)
  | n + 1, called, c =>
    if size c > c.capacity then
      c.items.getLast?.bind fun node =>
        if c.evictCallback then
          if faults called.length then some (c, called ++ [(node.key, node.value)], true)
          else
            evictLoop faults n (called ++ [(node.key, node.value)])
              { c with index := eraseIndex node.key c.index, items := c.items.dropLast }
        else
          evictLoop faults n called { c with index := eraseIndex node.key c.index, items := c.items.dropLast }
    else some (c, called, false)

/-- Each round pops a node, so the list bounds the rounds. -/
def evictIfNeeded (faults : Nat → Bool) (c : Lru K V) : Option (Lru K V × List (K × V) × Bool) :=
  evictLoop faults c.items.length [] c

def putImpl (key : K) (value : V) (faults : Nat → Bool) (c : Lru K V) :
    Option (Lru K V × List (K × V) × Bool) :=
  match find key c with
  | some addr =>
    (node? addr c).bind fun _ =>
      let c := { c with items := c.items.map fun n => if n.addr = addr then { n with value := value } else n }
      (touch addr c).map fun c => (c, [], false)
  | none =>
    let items := ⟨c.nextAddr, key, value⟩ :: c.items
    evictIfNeeded faults (emplaceIndex key c.nextAddr { c with items := items, nextAddr := c.nextAddr + 1 })

def get (key : K) (c : Lru K V) : Option (Lru K V × Option V) :=
  match find key c with
  | none => some (c, none)
  | some addr => (touch addr c).bind fun c => (node? addr c).map fun n => (c, some n.value)

def getOrError (key : K) (c : Lru K V) : Option (Lru K V × Except Error V) :=
  (get key c).map fun (c, value) =>
    match value with
    | none => (c, .error ⟨.notFound, "cache key not found", 0⟩)
    | some v => (c, .ok v)

def peek (key : K) (c : Lru K V) : Option (Option V) :=
  match find key c with
  | none => some none
  | some addr => (node? addr c).map fun n => some n.value

def remove (key : K) (c : Lru K V) : Option (Lru K V × Bool) :=
  match find key c with
  | none => some (c, false)
  | some addr =>
    (node? addr c).map fun _ =>
      ({ c with items := c.items.eraseP (·.addr = addr), index := eraseIndex key c.index }, true)

def popLru (c : Lru K V) : Lru K V × Option (K × V) :=
  match c.items.getLast? with
  | none => (c, none)
  | some n => ({ c with index := eraseIndex n.key c.index, items := c.items.dropLast }, some (n.key, n.value))

def popMru (c : Lru K V) : Lru K V × Option (K × V) :=
  match c.items.head? with
  | none => (c, none)
  | some n => ({ c with index := eraseIndex n.key c.index, items := c.items.tail }, some (n.key, n.value))

def lru (c : Lru K V) : Option (K × V) := c.items.getLast?.map fun n => (n.key, n.value)

def mru (c : Lru K V) : Option (K × V) := c.items.head?.map fun n => (n.key, n.value)

/-! ## Histories -/

inductive Op (K V : Type) where
  | put (key : K) (value : V) (faults : Nat → Bool)
  | get (key : K)
  | getOrError (key : K)
  | peek (key : K)
  | contains (key : K)
  | remove (key : K)
  | popLru
  | popMru
  | lru
  | mru
  | clear
  | setEvictCallback (set : Bool)
  | size
  | empty

/-- What an operation returns. -/
inductive Ret (K V : Type) where
  | nothing
  /-- of `put`: the entries its evict callback was invoked with, and whether it ended with the exception of one -/
  | put (called : List (K × V)) (threw : Bool)
  | value (v : Option V)
  | valueOrError (v : Except Error V)
  | bool (b : Bool)
  | entry (e : Option (K × V))
  | count (n : Nat)

def step (c : Lru K V) : Op K V → Option (Lru K V × Ret K V)
  | .put key value faults => (putImpl key value faults c).map fun (c, called, threw) => (c, .put called threw)
  | .get key => (get key c).map fun (c, v) => (c, .value v)
  | .getOrError key => (getOrError key c).map fun (c, v) => (c, .valueOrError v)
  | .peek key => (peek key c).map fun v => (c, .value v)
  | .contains key => some (c, .bool (contains key c))
  | .remove key => (remove key c).map fun (c, b) => (c, .bool b)
  | .popLru => some ((popLru c).1, .entry (popLru c).2)
  | .popMru => some ((popMru c).1, .entry (popMru c).2)
  | .lru => some (c, .entry (lru c))
  | .mru => some (c, .entry (mru c))
  | .clear => some (clear c, .nothing)
  | .setEvictCallback set => some (setEvictCallback set c, .nothing)
  | .size => some (c, .count (size c))
  | .empty => some (c, .bool (empty c))

/-- A history: the cache after it, and what its operations returned. -/
def run : Lru K V → List (Op K V) → Option (Lru K V × List (Ret K V))
  | c, [] => some (c, [])
  | c, op :: ops => (step c op).bind fun (c, r) => (run c ops).map fun (c, rs) => (c, r :: rs)

end Dbase.Cache.LruCache
