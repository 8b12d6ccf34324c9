/-
  Dbase.Thread.ThreadPool — `ThreadPool`.

  The queue is used through its critical sections (`BlockingQueue.body`), each one step: a section that
  would wait is not a step, a `popFor` may be late at any time. Workers run `workerLoop`; a task is a
  `packaged_task`, so that what it throws stays in its future. A submission is known by its
  number: `submits` has the stage of each, whatever thread makes it. A task may submit too, and then goes on
  only when that `submit` has returned or thrown. `stop` is called once, by a thread that is no worker.

  `accepted`, `taken`, `executed` and `finished` are ghosts: the tasks that came into the queue, were taken
  out of it, began to run and were done, in order.
-/

import Dbase.Error
import Dbase.Sync.BlockingQueue

namespace Dbase.Thread.ThreadPool

open Dbase.Lib
open Dbase.Sync

/-- How far a `submit` is. -/
inductive Stage where
  | checking
  | pushing
  | accepted
  | returned
  | threw (e : Err)
  deriving DecidableEq, Repr

/-- The call is over. -/
def Stage.over : Stage → Bool
  | .returned => true
  | .threw _ => true
  | _ => false

inductive Worker where
  | polling
  /-- `popFor` has returned the task -/
  | took (task : Nat)
  /-- with the last submission of the task itself -/
  | running (task : Nat) (sub : Option Nat)
  | exited
  deriving DecidableEq, Repr

/-- How far `stop` is. -/
inductive Stopper where
  | idle
  | flagged
  | joining (worker : Nat)
  | returned
  deriving DecidableEq, Repr

structure Pool where
  threadCount : Nat
  queueCapacity : Nat
  started : Bool
  stopped : Bool
  tasks : BlockingQueue.Queue Nat
  workers : List Worker
  submits : List Stage
  stopper : Stopper
  accepted : List Nat
  taken : List Nat
  executed : List Nat
  finished : List Nat
  deriving DecidableEq, Repr

/-- The constructor. -/
def make (threadCount queueCapacity : Nat) : Except Err Pool :=
  if threadCount = 0 then .error (.invalidArgument "ThreadPool threadCount must be greater than 0")
  else .ok ⟨threadCount, queueCapacity, false, true, ⟨[], false⟩, [], [], .idle, [], [], [], []⟩

/-- `start`, where every thread starts. -/
def start (p : Pool) : Except Err Pool :=
  if p.started then .error (.logicError "ThreadPool already started")
  else .ok { p with started := true, stopped := false, workers := List.replicate p.threadCount .polling }

/-- `started()`. -/
def isStarted (p : Pool) : Bool := p.started && !p.stopped

def setStage (k : Nat) (st : Stage) (p : Pool) : Pool := { p with submits := p.submits.set k st }

def setWorker (w : Nat) (pc : Worker) (p : Pool) : Pool := { p with workers := p.workers.set w pc }

/-- The submission of a running task, if it has begun one, is over. -/
def subOver (sub : Option Nat) (p : Pool) : Bool :=
  match sub with
  | none => true
  | some k => (p.submits[k]?).any Stage.over

inductive Act where
  /-- a thread calls `submit`; the running task of a worker, if it is one -/
  | submit (worker : Option Nat)
  | check (k : Nat)
  | push (k : Nat)
  | returnFuture (k : Nat)
  | poll (w : Nat) (late : Bool)
  | begin (w : Nat)
  | finish (w : Nat)
  | stop
  | stopQueue
  | join

/-- `submit`, up to its test. -/
def submit (worker : Option Nat) (p : Pool) : Option Pool :=
  let p' := { p with submits := p.submits ++ [.checking] }
  match worker with
  | none => some p'
  | some w =>
    match p.workers[w]? with
    | some (.running task sub) =>
      if subOver sub p then some (setWorker w (.running task (some p.submits.length)) p') else none
    | _ => none

def checkStarted (k : Nat) (p : Pool) : Option Pool :=
  match p.submits[k]? with
  | some .checking =>
    if isStarted p then some (setStage k .pushing p)
    else some (setStage k (.threw (.logicError "ThreadPool is not started")) p)
  | _ => none

/-- `m_tasks.push`. -/
def push (k : Nat) (p : Pool) : Option Pool :=
  match p.submits[k]? with
  | some .pushing =>
    match BlockingQueue.body p.queueCapacity (.push k) false p.tasks with
    | .leave tasks _ _ .done =>
      some (setStage k .accepted { p with tasks := tasks, accepted := p.accepted ++ [k] })
    | .leave tasks _ _ .threw =>
      some (setStage k (.threw (.logicError "ThreadPool is stopped")) { p with tasks := tasks })
    | _ => none
  | _ => none

def returnFuture (k : Nat) (p : Pool) : Option Pool :=
  match p.submits[k]? with
  | some .accepted => some (setStage k .returned p)
  | _ => none

/-- `m_tasks.popFor(200)` of `workerLoop`. -/
def poll (w : Nat) (late : Bool) (p : Pool) : Option Pool :=
  match p.workers[w]? with
  | some .polling =>
    match BlockingQueue.body p.queueCapacity .popFor late p.tasks with
    | .leave tasks _ _ (.value task) =>
      some (setWorker w (.took task) { p with tasks := tasks, taken := p.taken ++ [task] })
    | .leave tasks _ _ .nullopt => some { p with tasks := tasks }
    | .leave tasks _ _ .threw => some (setWorker w .exited { p with tasks := tasks })
    | _ => none
  | _ => none

/-- `task.value()()` begins. -/
def begin (w : Nat) (p : Pool) : Option Pool :=
  match p.workers[w]? with
  | some (.took task) => some (setWorker w (.running task none) { p with executed := p.executed ++ [task] })
  | _ => none

def finish (w : Nat) (p : Pool) : Option Pool :=
  match p.workers[w]? with
  | some (.running task sub) =>
    if subOver sub p then some (setWorker w .polling { p with finished := p.finished ++ [task] }) else none
  | _ => none

/-- `stop`, up to its compare-exchange. -/
def stop (p : Pool) : Option Pool :=
  match p.stopper with
  | .idle => if p.stopped then some { p with stopper := .returned } else some { p with stopped := true, stopper := .flagged }
  | _ => none

/-- `m_tasks.stop()`. -/
def stopQueue (p : Pool) : Option Pool :=
  match p.stopper with
  | .flagged =>
    match BlockingQueue.body p.queueCapacity .stop false p.tasks with
    | .leave tasks _ _ _ => some { p with tasks := tasks, stopper := .joining 0 }
    | .wait => none
  | _ => none

/-- The next worker has ended and is joined; behind the last one `stop` returns. -/
def join (p : Pool) : Option Pool :=
  match p.stopper with
  | .joining w =>
    match p.workers[w]? with
    | some .exited => some { p with stopper := .joining (w + 1) }
    | some _ => none
    | none => some { p with stopper := .returned }
  | _ => none

def step (p : Pool) : Act → Option Pool
  | .submit worker => submit worker p
  | .check k => checkStarted k p
  | .push k => push k p
  | .returnFuture k => returnFuture k p
  | .poll w late => poll w late p
  | .begin w => begin w p
  | .finish w => finish w p
  | .stop => stop p
  | .stopQueue => stopQueue p
  | .join => join p

/-- The runs of a pool. -/
def machine (p : Pool) : Machine Pool Act := ⟨p, step⟩

/-- A pool that was made and started. -/
def launch (threadCount queueCapacity : Nat) : Except Err Pool := do
  let p ← make threadCount queueCapacity
  start p

end Dbase.Thread.ThreadPool
