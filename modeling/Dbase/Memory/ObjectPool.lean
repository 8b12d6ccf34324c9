/-
  Dbase.Memory.ObjectPool — `ObjectPool<T>` (`object_pool.h`).

  A call in progress is a place in its program (`Pc`); a step of one call is one locked
  section, one atomic add or one call of a callback, and calls of any number of threads take
  their steps in any order. A callback runs outside the lock and may call the pool: such a
  call is one more call in progress.

  Whether a callback, a copy of a `std::function`, the default constructor of `T`, the
  reservation of `created` or the control block of a `shared_ptr` throws is the `Answer` of
  its step. The deleter of `makeShared` is a `release` that must not throw: where it does,
  the program terminates. The pool is live, so the deleter always finds its token.

  An object is named by the number of objects there were before it, in the pool or outside;
  what a factory returns is a new object. The vector of idle objects is a list with its back
  at the head. `history` is not part of the code: what happened to the objects, newest first.
-/

import Dbase.Lib.Machine

namespace Dbase.Memory.ObjectPool

abbrev Obj := Nat

/-- A callback, by name. -/
abbrev Callback := Nat

inductive Event where
  /-- A factory or `make_unique` gave the pool a new object. -/
  | made (o : Obj)
  /-- `acquire` returned the object. -/
  | handedOut (o : Obj)
  /-- `release` copied the reset callback for the object. -/
  | released (o : Obj) (cb : Option Callback)
  /-- `if (reset) reset(*obj)` ended normally. -/
  | passed (o : Obj) (cb : Option Callback)
  deriving DecidableEq, Repr

/-- Who called `createObject`. -/
inductive Caller where
  | acquire (shared : Bool)
  | reserve (target : Nat) (created : List Obj)
  deriving DecidableEq, Repr

inductive Pc where
  | acquire (shared : Bool)
  | take (shared : Bool)
  | factoryCallbackCopy (caller : Caller)
  | factory (cb : Option Callback) (caller : Caller)
  | makeUnique (caller : Caller)
  | count (o : Obj) (caller : Caller)
  | reserve (count : Nat)
  | reserveCreated (target : Nat)
  | insert (created : List Obj)
  | share (o : Obj)
  | release (o : Obj) (deleter : Bool)
  | reset (o : Obj) (cb : Option Callback) (deleter : Bool)
  | released (o : Obj)
  | store (o : Obj)
  /-- The call returns or throws; the objects its locals still own are destroyed on the way. -/
  | leave (objs : List Obj)
  deriving DecidableEq, Repr

inductive Answer where
  | returns
  | null
  | throws
  deriving DecidableEq, Repr

structure State where
  maxIdle : Nat
  idle : List Obj
  resetCallback : Option Callback
  factoryCallback : Option Callback
  totalCreated : Nat
  totalAcquired : Nat
  totalReleased : Nat
  calls : List Pc
  /-- Objects that a `unique_ptr` outside the pool owns. -/
  owned : List Obj
  /-- Objects that `shared_ptr`s of `makeShared` own. -/
  shared : List Obj
  destroyed : List Obj
  objects : Nat
  terminated : Bool
  history : List Event
  deriving DecidableEq, Repr

/-- `ObjectPool(maxIdle)`. -/
def initial (maxIdle : Nat) : State :=
  ⟨maxIdle, [], none, none, 0, 0, 0, [], [], [], [], 0, false, []⟩

/-- The objects a call's locals own. -/
def Caller.held : Caller → List Obj
  | .acquire _ => []
  | .reserve _ created => created

def Pc.held : Pc → List Obj
  | .acquire _ | .take _ | .reserve _ | .reserveCreated _ => []
  | .factoryCallbackCopy c | .factory _ c | .makeUnique c => c.held
  | .count o c => o :: c.held
  | .share o | .release o _ | .reset o _ _ | .released o | .store o => [o]
  | .insert objs | .leave objs => objs

def put (k : Nat) (pc : Pc) (s : State) : State := { s with calls := s.calls.set k pc }

def call (pc : Pc) (s : State) : State := { s with calls := s.calls ++ [pc] }

def log (e : Event) (s : State) : State := { s with history := e :: s.history }

/-- A new object, in the locals of a call of `createObject`. -/
def made (k : Nat) (c : Caller) (s : State) : State :=
  put k (.count s.objects c) (log (.made s.objects) { s with objects := s.objects + 1 })

/-- `acquire` returns: to its caller, or to `makeShared`. -/
def handOut (k : Nat) (shared : Bool) (o : Obj) (s : State) : State :=
  if shared then put k (.share o) (log (.handedOut o) s)
  else put k (.leave []) (log (.handedOut o) { s with owned := o :: s.owned })

/-- The head of the loop in `reserve`. -/
def reserveLoop (target : Nat) (created : List Obj) : Pc :=
  if created.length < target then .factoryCallbackCopy (.reserve target created) else .insert created

/-- The loop of the second locked section of `reserve`: the idle objects, and what is left of `created`. -/
def insertCreated (maxIdle : Nat) : List Obj → List Obj → List Obj × List Obj
  | idle, [] => (idle, [])
  | idle, o :: created =>
    if maxIdle ≤ idle.length then (idle, o :: created) else insertCreated maxIdle (o :: idle) created

/-- An exception leaves `release`, which owns the object; it must not leave a deleter. -/
def unwind (k : Nat) (o : Obj) (deleter : Bool) (s : State) : State :=
  if deleter then { s with terminated := true } else put k (.leave [o]) s

/-- The next step of the `k`-th call. -/
def go (k : Nat) (s : State) : Pc → Answer → Option State
  | .acquire shared, .returns => some (put k (.take shared) { s with totalAcquired := s.totalAcquired + 1 })
  | .take shared, .returns =>
    match s.idle with
    | o :: idle => some (handOut k shared o { s with idle := idle })
    | [] => some (put k (.factoryCallbackCopy (.acquire shared)) s)
  | .factoryCallbackCopy c, .returns => some (put k (.factory s.factoryCallback c) s)
  | .factoryCallbackCopy c, .throws => some (put k (.leave c.held) s)
  | .factory none c, .returns => some (put k (.makeUnique c) s)
  | .factory (some _) c, .returns => some (made k c s)
  | .factory (some _) c, .null => some (put k (.makeUnique c) s)
  | .factory (some _) c, .throws => some (put k (.leave c.held) s)
  | .makeUnique c, .returns => some (made k c s)
  | .makeUnique c, .throws => some (put k (.leave c.held) s)
  | .count o (.acquire shared), .returns => some (handOut k shared o { s with totalCreated := s.totalCreated + 1 })
  | .count o (.reserve target created), .returns =>
    some (put k (reserveLoop target (created ++ [o])) { s with totalCreated := s.totalCreated + 1 })
  | .reserve count, .returns =>
    if count = 0 ∨ s.maxIdle = 0 then some (put k (.leave []) s)
    else if count ≤ s.idle.length ∨ s.maxIdle ≤ s.idle.length then some (put k (.leave []) s)
    else some (put k (.reserveCreated (min count s.maxIdle - s.idle.length)) s)
  | .reserveCreated target, .returns => some (put k (reserveLoop target []) s)
  | .reserveCreated _, .throws => some (put k (.leave []) s)
  | .insert created, .returns =>
    let r := insertCreated s.maxIdle s.idle created
    some (put k (.leave r.2) { s with idle := r.1 })
  | .share o, .returns => some (put k (.leave []) { s with shared := o :: s.shared })
  -- without a control block the `shared_ptr` constructor runs the deleter and throws
  | .share o, .throws => some (put k (.release o false) s)
  | .release o deleter, .returns =>
    some (put k (.reset o s.resetCallback deleter) (log (.released o s.resetCallback) s))
  | .release o deleter, .throws => some (unwind k o deleter s)
  | .reset o cb _, .returns => some (put k (.released o) (log (.passed o cb) s))
  | .reset o (some _) deleter, .throws => some (unwind k o deleter s)
  | .released o, .returns =>
    let s := { s with totalReleased := s.totalReleased + 1 }
    some (put k (if s.maxIdle = 0 then .leave [o] else .store o) s)
  | .store o, .returns =>
    if s.idle.length < s.maxIdle then some (put k (.leave []) { s with idle := o :: s.idle })
    else some (put k (.leave [o]) s)
  | .leave (o :: objs), .returns => some (put k (.leave objs) { s with destroyed := o :: s.destroyed })
  | _, _ => none

/-- What the threads do: calls, the last reference to a shared object dropped, objects made
    and destroyed outside the pool, and steps of the calls in progress. -/
inductive Label where
  | acquire
  | makeShared
  | reserve (count : Nat)
  | release (obj : Option Obj)
  | dropLast (o : Obj)
  | clear
  | setResetCallback (cb : Option Callback)
  | setFactoryCallback (cb : Option Callback)
  | makeOutside
  | destroyOutside (o : Obj)
  | go (k : Nat) (ans : Answer)
  deriving DecidableEq, Repr

def step (s : State) (a : Label) : Option State :=
  if s.terminated then none
  else
    match a with
    | .acquire => some (call (.acquire false) s)
    | .makeShared => some (call (.acquire true) s)
    | .reserve count => some (call (.reserve count) s)
    | .release none => some s
    | .release (some o) =>
      if o ∈ s.owned then some (call (.release o false) { s with owned := s.owned.erase o }) else none
    | .dropLast o =>
      if o ∈ s.shared then some (call (.release o true) { s with shared := s.shared.erase o }) else none
    | .clear => some { s with idle := [], destroyed := s.idle ++ s.destroyed }
    | .setResetCallback cb => some { s with resetCallback := cb }
    | .setFactoryCallback cb => some { s with factoryCallback := cb }
    | .makeOutside => some { s with owned := s.objects :: s.owned, objects := s.objects + 1 }
    | .destroyOutside o =>
      if o ∈ s.owned then some { s with owned := s.owned.erase o, destroyed := o :: s.destroyed } else none
    | .go k ans => s.calls[k]?.bind fun pc => go k s pc ans

/-- The pool and its callers. -/
def pool (maxIdle : Nat) : Lib.Machine State Label := ⟨initial maxIdle, step⟩

end Dbase.Memory.ObjectPool
