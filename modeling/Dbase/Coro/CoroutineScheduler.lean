/-
  Dbase.Coro.CoroutineScheduler — `CoroutineScheduler` (`coroutine_scheduler.h`,
  `coroutine_scheduler.cpp`) over the coroutines of `Task` (`task.h`).

  A coroutine is the stack of its unfinished frames, innermost first. A frame awaits a new
  child (`Task::Awaiter` stores the continuation and transfers to the child), lets the `Task`
  of a finished child go, yields, or finishes: its body's `Task`s are destroyed, those among
  its parameters stay as long as its frame, and `FinalAwaiter` transfers to the continuation.
  An exception that leaves a body finishes the frame like a return. What the frames do is left
  to the labels, so a run is one of any program.

  A frame exists while a `Task` in a frame that exists, or the scheduler, holds it. `done` and
  `resume` on a frame that does not exist end the run in `fault`, as would a resumption of a
  frame that waits for a child.

  The operations are called from outside: a label of the scheduler is enabled while no frame
  runs, and the thread-local marks are the `Control`. Ids do not run out.
-/

import Dbase.Lib.Machine

namespace Dbase.Coro.CoroutineScheduler

/-- `std::coroutine_handle<>`: the number of the frame. -/
abbrev Handle := Nat

/-- A `Task` in scope whose coroutine has finished: a parameter or a local of the frame, with
    the frames that are destroyed with it, its own first. -/
structure Kept where
  param : Bool
  handles : List Handle
  deriving DecidableEq, Repr

structure Frame where
  handle : Handle
  continuation : Option Handle
  /-- The `Task` that holds the frame is a parameter of the frame that awaits it. -/
  param : Bool
  kept : List Kept
  deriving DecidableEq, Repr

/-- An `Entry` with the frames of its coroutine: the unfinished ones, and once the root has
    finished, it and the frames it keeps. -/
structure Entry where
  root : Option Handle
  current : Option Handle
  stack : List Frame
  finished : List Handle
  deriving DecidableEq, Repr

/-- Who called `Resume`. `RunAll` has counted `n` turns. -/
inductive Caller where
  | resume
  | runOnce
  | runAll (n : Int)
  deriving DecidableEq, Repr

inductive Control where
  | outside
  /-- A frame of the coroutine runs inside its `Resume`. -/
  | running (id : Nat) (caller : Caller)
  /-- `RunAll` between two turns. -/
  | draining (n : Int)
  deriving DecidableEq, Repr

structure State where
  coros : Nat → Option Entry
  nextId : Nat
  ready : List Nat
  control : Control
  /-- Handles given out so far. -/
  frames : Nat
  /-- What the last call returned. -/
  returned : Int
  fault : Bool

def initial : State := ⟨fun _ => none, 1, [], .outside, 0, 0, false⟩

def setEntry (id : Nat) (e : Option Entry) (s : State) : State := { s with coros := Function.update s.coros id e }

/-- The frames a frame's parameters still hold when its body is over. -/
def Frame.params (f : Frame) : List Handle := (f.kept.filter Kept.param).flatMap Kept.handles

/-- `h.done()`; nothing where the frame has been destroyed. -/
def Entry.done (e : Entry) (h : Handle) : Option Bool :=
  if h ∈ e.stack.map Frame.handle then some false
  else if h ∈ e.stack.flatMap (fun f => f.kept.flatMap Kept.handles) ++ e.finished then some true
  else none

/-! ## The scheduler -/

def ret (r : Int) (s : State) : State := { s with control := .outside, returned := r }

def failed (s : State) : State := { s with fault := true }

/-- The coroutine of a `Task` handed over: one frame that has not started. -/
def fresh (h : Handle) : Entry := ⟨some h, some h, [⟨h, none, false, []⟩], []⟩

/-- `Create(task, id)`; `valid` tells whether the `Task` holds a coroutine. -/
def create (valid : Bool) (s : State) : State :=
  if !valid then ret (-1) s
  else
    let id := s.nextId
    let s' := { s with nextId := s.nextId + 1, frames := s.frames + 1 }
    -- `emplace` leaves an entry that is there
    ret 0 (if (s.coros id).isNone then setEntry id (some (fresh s.frames)) s' else s')

/-- `Resume` returns to its caller. -/
def resumed (caller : Caller) (r : Int) (s : State) : State :=
  match caller with
  | .resume => ret r s
  | .runOnce => ret 1 s
  | .runAll n => { s with control := .draining (n + 1) }

/-- The rest of `Resume`, when control is back. -/
def afterResume (id : Nat) (caller : Caller) (s : State) : State :=
  match s.coros id with
  | none => resumed caller 0 s
  | some e =>
    match e.current with
    | none => resumed caller 0 s
    | some h =>
      match e.done h with
      | none => failed s
      | some true => resumed caller 0 (setEntry id (some { e with current := none }) s)
      | some false => resumed caller 0 s

def resume (caller : Caller) (id : Nat) (s : State) : State :=
  match s.coros id with
  | none => resumed caller (-1) s
  | some e =>
    match e.current with
    | none => resumed caller (-1) s
    | some h =>
      match e.done h with
      | none => failed s
      | some true => afterResume id caller s
      | some false =>
        if e.stack.head?.map Frame.handle = some h then { s with control := .running id caller } else failed s

def restart (id : Nat) (valid : Bool) (s : State) : State :=
  match s.coros id with
  | none => ret (-1) s
  | some _ =>
    -- destroying the root destroys every frame of the coroutine
    if !valid then ret (-2) (setEntry id (some ⟨none, none, [], []⟩) s)
    else ret 0 (setEntry id (some (fresh s.frames)) { s with frames := s.frames + 1 })

def destroy (id : Nat) (s : State) : State :=
  match s.coros id with
  | none => ret (-1) s
  | some _ => ret 0 (setEntry id none s)

/-- `e && e->current`. -/
def resumable (s : State) (id : Nat) : Bool := ((s.coros id).bind Entry.current).isSome

def schedule (id : Nat) (s : State) : State :=
  if id = 0 ∨ resumable s id = false then s else { s with ready := s.ready ++ [id] }

/-- The loop of `RunOnce`: the first id of the queue that can be resumed, and the ids behind it. -/
def nextReady (s : State) : List Nat → Option (Nat × List Nat)
  | [] => none
  | id :: ready => if resumable s id then some (id, ready) else nextReady s ready

def runOnce (s : State) : State :=
  match nextReady s s.ready with
  | none => ret 0 { s with ready := [] }
  | some (id, ready) => resume .runOnce id { s with ready := ready }

/-- One turn of the loop of `RunAll`. -/
def runAll (n : Int) (s : State) : State :=
  match nextReady s s.ready with
  | none => ret n { s with ready := [] }
  | some (id, ready) => resume (.runAll n) id { s with ready := ready }

/-- `UpdateCurrent(h)`, with the id of the running coroutine. -/
def updateCurrent (id : Nat) (h : Handle) (s : State) : State :=
  if id = 0 then s
  else
    match s.coros id with
    | none => s
    | some e => setEntry id (some { e with current := some h }) s

/-! ## The frames -/

inductive Act where
  /-- `co_await` of a new child, whose `Task` is a parameter or a local. -/
  | await (param : Bool)
  /-- The `Task` of a finished child goes out of scope. -/
  | drop (i : Nat)
  /-- `co_await sched.Yield()`. -/
  | yield
  | finish
  deriving DecidableEq, Repr

/-- `f` finishes above `below`, in the entry `e`. -/
def finish (id : Nat) (caller : Caller) (e : Entry) (f : Frame) (below : List Frame) (s : State) : State :=
  match f.continuation, below with
  | some p, g :: below =>
    if g.handle = p then
      let g := { g with kept := ⟨f.param, f.handle :: f.params⟩ :: g.kept }
      setEntry id (some { e with stack := g :: below }) s
    else failed s
  | none, [] =>
    afterResume id caller (setEntry id (some { e with stack := [], finished := f.handle :: f.params }) s)
  | _, _ => failed s

/-- What the innermost frame of a running coroutine does. -/
def act (id : Nat) (caller : Caller) (e : Entry) (s : State) (a : Act) : Option State :=
  match e.stack with
  | [] => none
  | f :: below =>
    match a with
    | .await param =>
      let child := ⟨s.frames, some f.handle, param, []⟩
      some (setEntry id (some { e with stack := child :: f :: below }) { s with frames := s.frames + 1 })
    | .drop i => some (setEntry id (some { e with stack := { f with kept := f.kept.eraseIdx i } :: below }) s)
    | .yield => some (afterResume id caller (updateCurrent id f.handle s))
    | .finish => some (finish id caller e f below s)

inductive Label where
  | create (valid : Bool)
  | schedule (id : Nat)
  | resume (id : Nat)
  | runOnce
  | runAll
  | restart (id : Nat) (valid : Bool)
  | destroy (id : Nat)
  /-- `RunAll` goes on. -/
  | turn
  | act (a : Act)
  deriving DecidableEq, Repr

def outside (s : State) : Label → Option State
  | .create valid => some (create valid s)
  | .schedule id => some (schedule id s)
  | .resume id => some (resume .resume id s)
  | .runOnce => some (runOnce s)
  | .runAll => some { s with control := .draining 0 }
  | .restart id valid => some (restart id valid s)
  | .destroy id => some (destroy id s)
  | .turn | .act _ => none

def step (s : State) (a : Label) : Option State :=
  if s.fault then none
  else
    match s.control, a with
    | .outside, a => outside s a
    | .draining n, .turn => some (runAll n s)
    | .running id caller, .act a => (s.coros id).bind fun e => act id caller e s a
    | _, _ => none

/-- A scheduler and the coroutines handed to it. -/
def scheduler : Lib.Machine State Label := ⟨initial, step⟩

end Dbase.Coro.CoroutineScheduler
