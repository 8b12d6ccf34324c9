/-
  Dbase.Thread.TimerQueue — `TimerQueue`: timers from any thread, one worker, and two ways to cancel.

  What a call does under the mutex is one step. The worker holds the mutex while it looks through the heap, which
  takes it several steps; it has released it whenever it waits, and around the execution of a task. Each
  load of a flag outside the mutex is a step. Calls of `runAt` and its kin are known by their number: `calls`
  has the stage of each, whatever thread makes it. The clock is the steady clock, in nanoseconds; the source counts
  them in `int64`, so a run stands for one in which the clock plus an interval (`after`) stays between `-2 ^ 63` and
  `2 ^ 63`.

  `m_tasks` is the list of its tasks, the top first. A task is run by the worker, or handed to the thread pool and
  begun by one of its threads at some later time (`submitted`). A pool that throws at the worker ends the program.

  `removed`, `dropped`, `executed` and `ran` are ghosts: the timers the worker has taken out of the heap, and those it
  gave up without executing them, each with whether it was marked as cancelled at that moment; its calls of
  `executeTask`; and the starts of tasks.
-/

import Dbase.Error
import Dbase.Lib.Machine

namespace Dbase.Thread.TimerQueue

open Dbase.Lib

structure Timer where
  id : Nat
  expiration : Int
  /-- in milliseconds -/
  interval : Int
  repeats : Bool
  generation : Nat
  deriving DecidableEq, Repr

/-- The order of `TimerTaskCompare`: the first of the two is executed first. -/
def notAfter (a b : Timer) : Prop := a.expiration < b.expiration ∨ (a.expiration = b.expiration ∧ a.id ≤ b.id)

instance : DecidableRel notAfter := fun _ _ => inferInstanceAs (Decidable (_ ∨ _))

/-- What a call asks for: a time point, or an interval in milliseconds. -/
inductive Request where
  | once (timePoint : Int)
  | every (interval : Int)
  deriving DecidableEq, Repr

/-- How far a `runAt`, a `runAfter` or a `runEvery` is. -/
inductive Call where
  /-- at the checks; whether the task is not empty -/
  | checking (request : Request) (task : Bool)
  | creating (request : Request)
  | pushing (t : Timer)
  | returned (id : Nat)
  | threw (e : Err)
  deriving DecidableEq, Repr

inductive Worker where
  | unborn
  /-- at the test of the stop token -/
  | top
  | waiting
  /-- out of the wait, at the loads of the stop token and the flag -/
  | entered
  | scanning
  /-- in `wait_until` for the expiration of the timer -/
  | sleeping (t : Timer)
  | roused
  /-- at the second look at the cancellations -/
  | taken (t : Timer)
  /-- at `executeTask` -/
  | ready (t : Timer)
  | executing (t : Timer)
  /-- behind `executeTask` -/
  | executed (t : Timer)
  /-- at the loads before a repetition -/
  | requeue (t : Timer)
  | pushing (t : Timer)
  | exited
  deriving DecidableEq, Repr

/-- Where `stop` is, once it has set the flag. -/
inductive Stop where
  | uncalled
  | clearing
  | requesting
  | joining
  deriving DecidableEq, Repr

structure Queue where
  started : Bool
  stopped : Bool
  stopRequested : Bool
  tasks : List Timer
  cancelled : List Nat
  nextId : Nat
  cancelGeneration : Nat
  /-- `m_threadPool` is not null -/
  threadPool : Bool
  clock : Int
  worker : Worker
  calls : List Call
  stopping : Stop
  submitted : List Timer
  removed : List (Timer × Bool)
  dropped : List (Timer × Bool)
  executed : List (Timer × Int)
  ran : List (Timer × Int)
  deriving DecidableEq, Repr

/-- The constructor. -/
def make (threadPool : Bool) : Queue :=
  ⟨false, true, false, [], [], 0, 0, threadPool, 0, .unborn, [], .uncalled, [], [], [], [], []⟩

/-- The worker holds the mutex. -/
def Worker.holds : Worker → Bool
  | .entered | .scanning | .roused => true
  | _ => false

/-! ## The calls -/

/-- `start()`; nobody else uses the queue before it returns. -/
def start (s : Queue) : Queue :=
  -- a second `start` throws and changes nothing
  if s.started then s else { s with started := true, stopped := false, worker := .top }

def isStarted (s : Queue) : Bool := s.started && !s.stopped

def setCall (k : Nat) (c : Call) (s : Queue) : Queue := { s with calls := s.calls.set k c }

def check (k : Nat) (s : Queue) : Option Queue :=
  match s.calls[k]? with
  | some (.checking request task) =>
    if !isStarted s then some (setCall k (.threw (.logicError "TimerQueue is not started")) s)
    else if !task then some (setCall k (.threw (.invalidArgument "TimerQueue task is empty")) s)
    else
      match request with
      | .once timePoint => some (setCall k (.creating (.once timePoint)) s)
      | .every interval =>
        if interval ≤ 0 then
          some (setCall k (.threw (.invalidArgument "TimerQueue interval must be greater than 0")) s)
        else some (setCall k (.creating (.every interval)) s)
  | _ => none

/-- An interval of so many milliseconds from now. -/
def after (ms : Int) (s : Queue) : Int := s.clock + ms * 1000000

def newTimer (request : Request) (s : Queue) : Timer :=
  match request with
  | .once timePoint => ⟨s.nextId + 1, timePoint, 0, false, s.cancelGeneration⟩
  | .every interval => ⟨s.nextId + 1, after interval s, interval, true, s.cancelGeneration⟩

def create (k : Nat) (s : Queue) : Option Queue :=
  match s.calls[k]? with
  | some (.creating request) =>
    if s.worker.holds then none
    else some (setCall k (.pushing (newTimer request s)) { s with nextId := s.nextId + 1 })
  | _ => none

/-- `pushTask`, without the notification. -/
def pushTask (t : Timer) (s : Queue) : Queue := { s with tasks := s.tasks.orderedInsert notAfter t }

def push (k : Nat) (s : Queue) : Option Queue :=
  match s.calls[k]? with
  | some (.pushing t) => if s.worker.holds then none else some (setCall k (.returned t.id) (pushTask t s))
  | _ => none

/-- With what it returns. -/
def cancel (timerId : Nat) (s : Queue) : Queue × Bool :=
  if timerId ∈ s.cancelled then (s, false) else ({ s with cancelled := timerId :: s.cancelled }, true)

def cancelAll (s : Queue) : Queue := { s with cancelGeneration := s.cancelGeneration + 1, cancelled := [] }

/-- The `compare_exchange` of `stop()`. -/
def stop (s : Queue) : Queue := if s.stopped then s else { s with stopped := true, stopping := .clearing }

/-- What `stop()` does under the mutex. -/
def stopClear (s : Queue) : Option Queue :=
  match s.stopping with
  | .clearing =>
    if s.worker.holds then none
    else some { s with cancelGeneration := s.cancelGeneration + 1, tasks := [], cancelled := [], stopping := .requesting }
  | _ => none

def stopRequest (s : Queue) : Option Queue :=
  match s.stopping with
  | .requesting => some { s with stopRequested := true, stopping := .joining }
  | _ => none

/-! ## The worker -/

def isCancelledLocked (s : Queue) (t : Timer) : Bool := t.generation < s.cancelGeneration || t.id ∈ s.cancelled

/-- `m_cancelled.erase(timerTask->id)`. -/
def forget (t : Timer) (s : Queue) : Queue := { s with cancelled := s.cancelled.filter (· ≠ t.id) }

/-- The timer is given up, and its id forgotten. -/
def drop (t : Timer) (s : Queue) : Queue :=
  { s with cancelled := s.cancelled.filter (· ≠ t.id), dropped := s.dropped ++ [(t, isCancelledLocked s t)] }

/-- The top leaves the heap. -/
def pop (t : Timer) (rest : List Timer) (s : Queue) : Queue :=
  { s with tasks := rest, removed := s.removed ++ [(t, isCancelledLocked s t)] }

def goto (w : Worker) (s : Queue) : Queue := { s with worker := w }

/-- One round of the loop over the heap. -/
def scan (s : Queue) : Queue :=
  match s.tasks with
  | [] => goto .top s
  | t :: rest =>
    if isCancelledLocked s t then drop t (pop t rest s)
    else if s.clock < t.expiration then goto (.sleeping t) s
    else goto (.taken t) (pop t rest s)

def executeTask (t : Timer) (s : Queue) : Queue :=
  if s.threadPool then
    { s with worker := .executed t, executed := s.executed ++ [(t, s.clock)], submitted := s.submitted ++ [t] }
  else
    { s with worker := .executing t, executed := s.executed ++ [(t, s.clock)], ran := s.ran ++ [(t, s.clock)] }

/-- The next step of `workerLoop`, if it can make one. -/
def workerStep (s : Queue) : Option Queue :=
  match s.worker with
  | .unborn | .exited => none
  | .top => some (goto (if s.stopRequested then .exited else .waiting) s)
  | .waiting => if s.stopRequested || !s.tasks.isEmpty || s.stopped then some (goto .entered s) else none
  | .entered => some (goto (if s.stopRequested || s.stopped then .exited else .scanning) s)
  | .scanning => some (scan s)
  | .sleeping t =>
    -- the wait ends with its predicate or at the expiration
    if s.stopRequested || s.stopped || (s.tasks.head?.map (·.id) ≠ some t.id) || t.expiration ≤ s.clock then
      some (goto .roused s)
    else none
  | .roused => some (goto (if s.stopRequested || s.stopped then .exited else .scanning) s)
  | .taken t => if isCancelledLocked s t then some (goto .top (drop t s)) else some (goto (.ready t) s)
  | .ready t => some (executeTask t s)
  | .executing t => some (goto (.executed t) s)
  | .executed t =>
    if !t.repeats then some (goto .top s)
    else if isCancelledLocked s t then some (goto .top (forget t s))
    else some (goto (.requeue t) s)
  | .requeue t =>
    if s.stopped || s.stopRequested then some (goto .top s)
    else some (goto (.pushing ⟨t.id, after t.interval s, t.interval, t.repeats, t.generation⟩) s)
  | .pushing t => some (goto .top (pushTask t s))

/-! ## Steps -/

inductive Act where
  | start
  | runAt (timePoint : Int) (task : Bool)
  | runAfter (delay : Int) (task : Bool)
  | runEvery (interval : Int) (task : Bool)
  | check (k : Nat)
  | create (k : Nat)
  | push (k : Nat)
  | cancel (timerId : Nat)
  | cancelAll
  | setThreadPool (on : Bool)
  | stop
  | stopClear
  | stopRequest
  | worker
  /-- a thread of the pool begins a task that was handed to it -/
  | poolRun (i : Nat)
  | tick (now : Int)
  deriving DecidableEq, Repr

def begin (request : Request) (task : Bool) (s : Queue) : Queue := { s with calls := s.calls ++ [.checking request task] }

def poolRun (i : Nat) (s : Queue) : Option Queue :=
  (s.submitted[i]?).map fun t => { s with submitted := s.submitted.eraseIdx i, ran := s.ran ++ [(t, s.clock)] }

def step (s : Queue) : Act → Option Queue
  | .start => some (start s)
  | .runAt timePoint task => some (begin (.once timePoint) task s)
  | .runAfter delay task => some (begin (.once (after delay s)) task s)
  | .runEvery interval task => some (begin (.every interval) task s)
  | .check k => check k s
  | .create k => create k s
  | .push k => push k s
  | .cancel timerId => if s.worker.holds then none else some (cancel timerId s).1
  | .cancelAll => if s.worker.holds then none else some (cancelAll s)
  | .setThreadPool on => if s.worker.holds then none else some { s with threadPool := on }
  | .stop => some (stop s)
  | .stopClear => stopClear s
  | .stopRequest => stopRequest s
  | .worker => workerStep s
  | .poolRun i => poolRun i s
  | .tick now => if s.clock ≤ now then some { s with clock := now } else none

def machine (threadPool : Bool) : Machine Queue Act := ⟨make threadPool, step⟩

end Dbase.Thread.TimerQueue
