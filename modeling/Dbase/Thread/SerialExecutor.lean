/-
  Dbase.Thread.SerialExecutor — `SerialExecutor`, and `ShardedExecutor` over it.

  The task queue is used through its critical sections (`BlockingQueue.body`), each one step, and each
  access to one of the atomic flags is a step. The thread pool is what `schedule` sees of it: a
  `submit` that accepts the drain or throws, and drains it has accepted (`queued`), each of which a worker
  begins once. Any thread may call `submit`, also a task; a submission is known by its number,
  and `submits` has the stage of each. `start` and `stop` may be called at any time and by anyone.

  `accepted`, `begun` and `finished` are ghosts: the tasks in the order of their pushes, of their starts and of
  their ends.
-/

import Dbase.Error
import Dbase.Sync.BlockingQueue

namespace Dbase.Thread.SerialExecutor

open Dbase.Lib
open Dbase.Sync

inductive Thrown where
  | err (e : Err)
  /-- `std::runtime_error("BlockingQueue stopped")`, from the push -/
  | queueStopped
  deriving DecidableEq, Repr

/-- Where a thread is in `schedule`. -/
inductive Sched where
  /-- at the compare-exchange -/
  | cas
  | submit
  /-- the pool has thrown; at the store of `m_running` -/
  | clear (e : Err)
  deriving DecidableEq, Repr

/-- How far a `submit` is. -/
inductive Stage where
  | checking
  | pushing
  | scheduling (sc : Sched)
  | returned
  | threw (e : Thrown)
  deriving DecidableEq, Repr

/-- How far a `drain` is. -/
inductive Drain where
  /-- at `tryPop` -/
  | popping
  | took (task : Nat)
  | running (task : Nat)
  /-- the loop is over; at the store of `m_running` -/
  | clearing
  /-- at `m_tasks.empty()` -/
  | testing
  /-- the queue was not empty; at the load of `m_stopped` -/
  | loading
  | scheduling (sc : Sched)
  | ended
  deriving DecidableEq, Repr

structure Exec where
  queueCapacity : Nat
  tasks : BlockingQueue.Queue Nat
  started : Bool
  stopped : Bool
  running : Bool
  /-- a `start` is at its store of `m_stopped` -/
  starting : Bool
  /-- calls of `stop` that are at `m_tasks.stop()` -/
  stopping : Nat
  submits : List Stage
  /-- drains that the pool has accepted and not begun -/
  queued : Nat
  drains : List Drain
  accepted : List Nat
  begun : List Nat
  finished : List Nat
  deriving DecidableEq, Repr

/-- The constructor. -/
def make (queueCapacity : Nat) : Exec :=
  ⟨queueCapacity, ⟨[], false⟩, false, false, false, false, 0, [], 0, [], [], [], []⟩

/-- `started()`. -/
def isStarted (s : Exec) : Bool := s.started && !s.stopped

/-- How a step of `schedule` ends. -/
inductive Next where
  | more (sc : Sched)
  | returns
  | throws (e : Err)

/-- A step of `schedule`; `answer` is the exception of the pool's `submit`, if it throws. -/
def schedule (sc : Sched) (answer : Option Err) (s : Exec) : Exec × Next :=
  match sc with
  | .cas => if s.running then (s, .returns) else ({ s with running := true }, .more .submit)
  | .submit =>
    match answer with
    | none => ({ s with queued := s.queued + 1 }, .returns)
    | some e => (s, .more (.clear e))
  | .clear e => ({ s with running := false }, .throws e)

def setStage (k : Nat) (st : Stage) (s : Exec) : Exec := { s with submits := s.submits.set k st }

def setDrain (d : Nat) (pc : Drain) (s : Exec) : Exec := { s with drains := s.drains.set d pc }

def start (s : Exec) : Option Exec :=
  -- a second `start` throws and changes nothing
  if s.started then some s else some { s with started := true, starting := true }

def startStore (s : Exec) : Option Exec := if s.starting then some { s with stopped := false, starting := false } else none

def stop (s : Exec) : Option Exec :=
  if s.stopped then some s else some { s with stopped := true, stopping := s.stopping + 1 }

def stopQueue (s : Exec) : Option Exec :=
  match s.stopping with
  | 0 => none
  | n + 1 =>
    match BlockingQueue.body s.queueCapacity .stop false s.tasks with
    | .leave tasks _ _ _ => some { s with tasks := tasks, stopping := n }
    | .wait => none

def checkStarted (k : Nat) (s : Exec) : Option Exec :=
  match s.submits[k]? with
  | some .checking =>
    if isStarted s then some (setStage k .pushing s)
    else some (setStage k (.threw (.err (.logicError "SerialExecutor is not started"))) s)
  | _ => none

def push (k : Nat) (s : Exec) : Option Exec :=
  match s.submits[k]? with
  | some .pushing =>
    match BlockingQueue.body s.queueCapacity (.push k) false s.tasks with
    | .leave tasks _ _ .done =>
      some (setStage k (.scheduling .cas) { s with tasks := tasks, accepted := s.accepted ++ [k] })
    | .leave tasks _ _ .threw => some (setStage k (.threw .queueStopped) { s with tasks := tasks })
    | _ => none
  | _ => none

/-- The `schedule()` of a `submit`. -/
def submitSchedule (k : Nat) (answer : Option Err) (s : Exec) : Option Exec :=
  match s.submits[k]? with
  | some (.scheduling sc) =>
    match schedule sc answer s with
    | (s, .more sc) => some (setStage k (.scheduling sc) s)
    | (s, .returns) => some (setStage k .returned s)
    | (s, .throws e) => some (setStage k (.threw (.err e)) s)
  | _ => none

/-- A worker begins a drain. -/
def beginDrain (s : Exec) : Option Exec :=
  match s.queued with
  | 0 => none
  | n + 1 => some { s with queued := n, drains := s.drains ++ [.popping] }

def pop (d : Nat) (s : Exec) : Option Exec :=
  match s.drains[d]? with
  | some .popping =>
    match BlockingQueue.body s.queueCapacity .tryPop false s.tasks with
    | .leave tasks _ _ (.value task) => some (setDrain d (.took task) { s with tasks := tasks })
    | .leave tasks _ _ .nullopt => some (setDrain d .clearing { s with tasks := tasks })
    | _ => none
  | _ => none

/-- `task.value()()` begins. -/
def runTask (d : Nat) (s : Exec) : Option Exec :=
  match s.drains[d]? with
  | some (.took task) => some (setDrain d (.running task) { s with begun := s.begun ++ [task] })
  | _ => none

def finishTask (d : Nat) (s : Exec) : Option Exec :=
  match s.drains[d]? with
  | some (.running task) => some (setDrain d .popping { s with finished := s.finished ++ [task] })
  | _ => none

/-- `m_running.store(false)` behind the loop. -/
def clear (d : Nat) (s : Exec) : Option Exec :=
  match s.drains[d]? with
  | some .clearing => some (setDrain d .testing { s with running := false })
  | _ => none

/-- `!m_tasks.empty()`. -/
def testEmpty (d : Nat) (s : Exec) : Option Exec :=
  match s.drains[d]? with
  | some .testing => if s.tasks.queue.isEmpty then some (setDrain d .ended s) else some (setDrain d .loading s)
  | _ => none

/-- `!m_stopped`. -/
def loadStopped (d : Nat) (s : Exec) : Option Exec :=
  match s.drains[d]? with
  | some .loading => if s.stopped then some (setDrain d .ended s) else some (setDrain d (.scheduling .cas) s)
  | _ => none

/-- The `schedule()` of a `drain`; what it throws ends in the pool's future. -/
def drainSchedule (d : Nat) (answer : Option Err) (s : Exec) : Option Exec :=
  match s.drains[d]? with
  | some (.scheduling sc) =>
    match schedule sc answer s with
    | (s, .more sc) => some (setDrain d (.scheduling sc) s)
    | (s, .returns) => some (setDrain d .ended s)
    | (s, .throws _) => some (setDrain d .ended s)
  | _ => none

inductive Act where
  | start
  | startStore
  | stop
  | stopQueue
  | submit
  | check (k : Nat)
  | push (k : Nat)
  | schedule (k : Nat) (answer : Option Err)
  | beginDrain
  | pop (d : Nat)
  | run (d : Nat)
  | finish (d : Nat)
  | clear (d : Nat)
  | testEmpty (d : Nat)
  | loadStopped (d : Nat)
  | drainSchedule (d : Nat) (answer : Option Err)

def step (s : Exec) : Act → Option Exec
  | .start => start s
  | .startStore => startStore s
  | .stop => stop s
  | .stopQueue => stopQueue s
  | .submit => some { s with submits := s.submits ++ [.checking] }
  | .check k => checkStarted k s
  | .push k => push k s
  | .schedule k answer => submitSchedule k answer s
  | .beginDrain => beginDrain s
  | .pop d => pop d s
  | .run d => runTask d s
  | .finish d => finishTask d s
  | .clear d => clear d s
  | .testEmpty d => testEmpty d s
  | .loadStopped d => loadStopped d s
  | .drainSchedule d answer => drainSchedule d answer s

def machine (queueCapacity : Nat) : Machine Exec Act := ⟨make queueCapacity, step⟩

end Dbase.Thread.SerialExecutor

namespace Dbase.Thread.ShardedExecutor

open Dbase.Lib
open Dbase.Thread.SerialExecutor (Exec)

variable {Key : Type}

/-- The executors, each with the keys of its submissions. -/
structure Shards (Key : Type) where
  executors : List (Exec × List Key)

/-- The constructor. -/
def make (shardCount queueCapacityPerShard : Nat) : Except Err (Shards Key) :=
  if shardCount = 0 then .error (.invalidArgument "ShardedExecutor shardCount must be greater than 0")
  else .ok ⟨List.replicate shardCount (SerialExecutor.make queueCapacityPerShard, [])⟩

def shardIndexFor (hash : Key → Nat) (shardCount : Nat) (key : Key) : Nat := hash key % shardCount

inductive Act (Key : Type) where
  | submit (key : Key)
  /-- anything else that happens in the executor of a shard -/
  | shard (i : Nat) (a : SerialExecutor.Act)

def step (hash : Key → Nat) (s : Shards Key) : Act Key → Option (Shards Key)
  | .submit key =>
    let i := shardIndexFor hash s.executors.length key
    (s.executors[i]?).bind fun (e, keys) =>
      (SerialExecutor.step e .submit).map fun e => ⟨s.executors.set i (e, keys ++ [key])⟩
  | .shard i a =>
    match a with
    | .submit => none
    | a =>
      (s.executors[i]?).bind fun (e, keys) => (SerialExecutor.step e a).map fun e => ⟨s.executors.set i (e, keys)⟩

def machine (hash : Key → Nat) (s : Shards Key) : Machine (Shards Key) (Act Key) := ⟨s, step hash⟩

end Dbase.Thread.ShardedExecutor
