/-
  Dbase.Log.AsyncLogger — `AsyncLogger`: records from any thread, and one worker that hands them to the sinks.

  A thread may hold the mutex over several steps; whoever locks it finds it free (`free`). A wait evaluates its
  predicate under the mutex and blocks in a step of its own, which releases the mutex; a notification wakes the threads
  that are blocked by then, and a blocked thread may wake up by itself. Outside the mutex each access to an atomic, each
  notification and each call of a sink is a step. Calls of `log` and `flush` are known by their number: `calls` has the
  stage of each. Sinks are known by their numbers, and do not throw; the counters do not come to 2^64.

  `accepted` and `processed` are ghosts: the items that were pushed, in order, and those the worker is done with, each
  with what it had copied for its batch. `output` is what the sinks were called with.
-/

import Dbase.Lib.Machine

namespace Dbase.Log.AsyncLogger

open Dbase.Lib

inductive Level where
  | trace
  | debug
  | info
  | warn
  | error
  | fatal
  deriving DecidableEq, Repr

def Level.toNat : Level → Nat
  | .trace => 0
  | .debug => 1
  | .info => 2
  | .warn => 3
  | .error => 4
  | .fatal => 5

inductive PatternStyle where
  | compact
  | source
  | sourceFunction
  | threaded
  deriving DecidableEq, Repr

inductive AsyncOverflowPolicy where
  | block
  | discardNewest
  deriving DecidableEq, Repr

structure LogEvent where
  level : Level
  message : String
  deriving DecidableEq, Repr

structure QueueItem where
  event : LogEvent
  sequence : Nat
  flushOnly : Bool
  deriving DecidableEq, Repr

/-- A call of a sink; an event is written with the text that the formatter of the style makes of it. -/
inductive Output where
  | write (sink : Nat) (event : LogEvent) (style : PatternStyle)
  | flush (sink : Nat)
  deriving DecidableEq, Repr

inductive Outcome where
  /-- below the level -/
  | quiet
  | accepted (item : QueueItem)
  /-- `enqueueItem` found the logger stopping -/
  | rejected (item : QueueItem)
  /-- `enqueueItem` found the queue full -/
  | dropped (item : QueueItem)
  /-- `flush` was told that its item is processed -/
  | flushed (item : QueueItem)
  /-- `flush` has flushed the sinks itself -/
  | fellBack
  deriving DecidableEq, Repr

/-- How far a `log` or a `flush` is. -/
inductive Call where
  /-- at `shouldLog` -/
  | logging (event : LogEvent)
  /-- at the load of `m_stopping` -/
  | flushing
  /-- at the `fetch_add` -/
  | numbering (event : LogEvent) (flushOnly : Bool)
  | locking (item : QueueItem)
  /-- at the first load of `m_stopping` -/
  | locked (item : QueueItem)
  /-- at the test of the size of a queue that discards the newest -/
  | sizing (item : QueueItem)
  | predicate (item : QueueItem)
  /-- the predicate was false -/
  | window (item : QueueItem)
  | blocked (item : QueueItem)
  | woken (item : QueueItem)
  /-- out of the wait, at the second load of `m_stopping` -/
  | through (item : QueueItem)
  | pushing (item : QueueItem)
  | notifying (item : QueueItem)
  | flushLocking (item : QueueItem)
  | flushPredicate (item : QueueItem)
  | flushWindow (item : QueueItem)
  | flushBlocked (item : QueueItem)
  | flushWoken (item : QueueItem)
  /-- at the copy of the sinks -/
  | fallback
  | flushingSinks (sinks : List Nat)
  | returned (outcome : Outcome)
  deriving DecidableEq, Repr

/-- What the worker copies for a batch. -/
structure Batch where
  sinks : List Nat
  style : PatternStyle
  flushOn : Level
  deriving DecidableEq, Repr

inductive Worker where
  /-- at the load of `m_flushOn` -/
  | loading
  | locking (flushOn : Level)
  | predicate (flushOn : Level)
  | window (flushOn : Level)
  | blocked (flushOn : Level)
  | woken (flushOn : Level)
  | through (flushOn : Level)
  | notifying (batch : Batch) (items : List QueueItem)
  | items (batch : Batch) (items : List QueueItem)
  /-- the calls of sinks that are still to be made for the item -/
  | calling (batch : Batch) (item : QueueItem) (rest : List QueueItem) (todo : List Output)
  /-- behind the store of `m_processedSequence` -/
  | notifyingFlush (batch : Batch) (rest : List QueueItem)
  /-- out of the loop, at the copy of the sinks -/
  | exiting
  | closing (sinks : List Nat)
  | exited
  deriving DecidableEq, Repr

/-- Where `stop` is, once it has set the flag. -/
inductive Stop where
  | uncalled
  | notifying
  | notifyingFlush
  | joining
  | joined
  deriving DecidableEq, Repr

structure Logger where
  queueCapacity : Nat
  overflowPolicy : AsyncOverflowPolicy
  level : Level
  flushOn : Level
  style : PatternStyle
  sinks : List Nat
  queue : List QueueItem
  droppedCount : Nat
  nextSequence : Nat
  processedSequence : Nat
  stopping : Bool
  calls : List Call
  worker : Worker
  stopper : Stop
  accepted : List QueueItem
  processed : List (QueueItem × Batch)
  output : List Output
  deriving DecidableEq, Repr

/-- The constructor: with a sink for the console, number 0. -/
def make (style : PatternStyle) (queueCapacity : Nat) (overflowPolicy : AsyncOverflowPolicy) : Logger :=
  ⟨if queueCapacity = 0 then 8192 else queueCapacity, overflowPolicy, .info, .error, style, [0], [], 0, 0, 0, false, [],
    .loading, .uncalled, [], [], []⟩

/-! ## The mutex and the condition variables -/

def Call.holds : Call → Bool
  | .locked _ | .sizing _ | .predicate _ | .window _ | .through _ | .pushing _ | .flushPredicate _ | .flushWindow _ => true
  | _ => false

def Worker.holds : Worker → Bool
  | .predicate _ | .window _ | .through _ => true
  | _ => false

def free (s : Logger) : Bool := !s.worker.holds && s.calls.all (!·.holds)

def Call.wake : Call → Call
  | .blocked item => .woken item
  | c => c

def Call.wakeFlush : Call → Call
  | .flushBlocked item => .flushWoken item
  | c => c

def Worker.wake : Worker → Worker
  | .blocked flushOn => .woken flushOn
  | w => w

/-- `m_cv.notify_all()`. -/
def notifyAll (s : Logger) : Logger := { s with worker := s.worker.wake, calls := s.calls.map Call.wake }

/-- `m_flushCv.notify_all()`. -/
def notifyFlush (s : Logger) : Logger := { s with calls := s.calls.map Call.wakeFlush }

/-! ## The calls -/

def setCall (k : Nat) (c : Call) (s : Logger) : Logger := { s with calls := s.calls.set k c }

def shouldLog (s : Logger) (level : Level) : Bool := s.level.toNat ≤ level.toNat

/-- An item that `enqueueItem` does not accept while the logger is stopping. -/
def refuse (item : QueueItem) : Call := if item.flushOnly then .fallback else .returned (.rejected item)

def push (item : QueueItem) (s : Logger) : Logger :=
  { s with queue := s.queue ++ [item], accepted := s.accepted ++ [item] }

/-- The next step of a call, if it can make one. -/
def callStep (k : Nat) (s : Logger) : Option Logger :=
  match s.calls[k]? with
  | some (.logging event) =>
    some (setCall k (if shouldLog s event.level then .numbering event false else .returned .quiet) s)
  | some .flushing => some (setCall k (if s.stopping then .fallback else .numbering ⟨.info, ""⟩ true) s)
  | some (.numbering event flushOnly) =>
    some (setCall k (.locking ⟨event, s.nextSequence + 1, flushOnly⟩) { s with nextSequence := s.nextSequence + 1 })
  | some (.locking item) => if free s then some (setCall k (.locked item) s) else none
  | some (.locked item) =>
    if s.stopping then some (setCall k (refuse item) s)
    else if s.overflowPolicy = .block ∨ item.flushOnly then some (setCall k (.predicate item) s)
    else some (setCall k (.sizing item) s)
  | some (.sizing item) =>
    if s.queueCapacity ≤ s.queue.length then
      some (setCall k (.returned (.dropped item)) { s with droppedCount := s.droppedCount + 1 })
    else some (setCall k (.notifying item) (push item s))
  | some (.predicate item) =>
    some (setCall k (if s.stopping || s.queue.length < s.queueCapacity then .through item else .window item) s)
  | some (.window item) => some (setCall k (.blocked item) s)
  | some (.woken item) => if free s then some (setCall k (.predicate item) s) else none
  | some (.through item) => some (setCall k (if s.stopping then refuse item else .pushing item) s)
  | some (.pushing item) => some (setCall k (.notifying item) (push item s))
  | some (.notifying item) =>
    some (setCall k (if item.flushOnly then .flushLocking item else .returned (.accepted item)) (notifyAll s))
  | some (.flushLocking item) => if free s then some (setCall k (.flushPredicate item) s) else none
  | some (.flushPredicate item) =>
    some (setCall k (if item.sequence ≤ s.processedSequence then .returned (.flushed item) else .flushWindow item) s)
  | some (.flushWindow item) => some (setCall k (.flushBlocked item) s)
  | some (.flushWoken item) => if free s then some (setCall k (.flushPredicate item) s) else none
  | some .fallback => if free s then some (setCall k (.flushingSinks s.sinks) s) else none
  | some (.flushingSinks []) => some (setCall k (.returned .fellBack) s)
  | some (.flushingSinks (sink :: rest)) =>
    some (setCall k (.flushingSinks rest) { s with output := s.output ++ [.flush sink] })
  | some (.blocked _) | some (.flushBlocked _) | some (.returned _) | none => none

/-- A blocked call wakes up by itself. -/
def callWake (k : Nat) (s : Logger) : Option Logger :=
  match s.calls[k]? with
  | some (.blocked item) => some (setCall k (.woken item) s)
  | some (.flushBlocked item) => some (setCall k (.flushWoken item) s)
  | _ => none

/-! ## The worker -/

def goto (w : Worker) (s : Logger) : Logger := { s with worker := w }

/-- What the sinks are called with for an item. -/
def outputs (batch : Batch) (item : QueueItem) : List Output :=
  if item.flushOnly then batch.sinks.map .flush
  else batch.sinks.map (.write · item.event batch.style) ++
    if batch.flushOn.toNat ≤ item.event.level.toNat then batch.sinks.map .flush else []

/-- The next step of `workerLoop`, if it can make one. -/
def workerStep (s : Logger) : Option Logger :=
  match s.worker with
  | .loading => some (goto (.locking s.flushOn) s)
  | .locking flushOn => if free s then some (goto (.predicate flushOn) s) else none
  | .predicate flushOn => some (goto (if s.stopping || !s.queue.isEmpty then .through flushOn else .window flushOn) s)
  | .window flushOn => some (goto (.blocked flushOn) s)
  | .woken flushOn => if free s then some (goto (.predicate flushOn) s) else none
  | .through flushOn =>
    if s.stopping && s.queue.isEmpty then some (goto .exiting s)
    else some { s with worker := .notifying ⟨s.sinks, s.style, flushOn⟩ s.queue, queue := [] }
  | .notifying batch items => some (goto (.items batch items) (notifyAll s))
  | .items _ [] => some (goto .loading s)
  | .items batch (item :: rest) => some (goto (.calling batch item rest (outputs batch item)) s)
  | .calling batch item rest (o :: todo) =>
    some { s with worker := .calling batch item rest todo, output := s.output ++ [o] }
  | .calling batch item rest [] =>
    some { s with
      worker := .notifyingFlush batch rest, processedSequence := item.sequence
      processed := s.processed ++ [(item, batch)] }
  | .notifyingFlush batch rest => some (goto (.items batch rest) (notifyFlush s))
  | .exiting => if free s then some (goto (.closing s.sinks) s) else none
  | .closing (sink :: rest) => some { s with worker := .closing rest, output := s.output ++ [.flush sink] }
  | .closing [] => some (goto .exited s)
  | .blocked _ | .exited => none

def workerWake (s : Logger) : Option Logger :=
  match s.worker with
  | .blocked flushOn => some (goto (.woken flushOn) s)
  | _ => none

/-! ## Stopping -/

/-- The `compare_exchange` of `stop()`. -/
def stop (s : Logger) : Logger := if s.stopping then s else { s with stopping := true, stopper := .notifying }

def stopStep (s : Logger) : Option Logger :=
  match s.stopper with
  | .notifying => some { notifyAll s with stopper := .notifyingFlush }
  | .notifyingFlush => some { notifyFlush s with stopper := .joining }
  | .joining => if s.worker = .exited then some { s with stopper := .joined } else none
  | .uncalled | .joined => none

/-! ## Steps -/

inductive Act where
  | setLevel (level : Level)
  | setFlushOn (level : Level)
  | setPatternStyle (style : PatternStyle)
  | addSink (sink : Option Nat)
  | clearSinks
  | log (level : Level) (message : String)
  | flush
  | call (k : Nat)
  | callWake (k : Nat)
  | worker
  | workerWake
  | stop
  | stopStep
  deriving DecidableEq, Repr

def addSink (sink : Option Nat) (s : Logger) : Option Logger :=
  match sink with
  -- a null pointer is ignored
  | none => some s
  | some sink => if free s then some { s with sinks := s.sinks ++ [sink] } else none

def step (s : Logger) : Act → Option Logger
  | .setLevel level => some { s with level := level }
  | .setFlushOn level => some { s with flushOn := level }
  | .setPatternStyle style => if free s then some { s with style := style } else none
  | .addSink sink => addSink sink s
  | .clearSinks => if free s then some { s with sinks := [] } else none
  | .log level message => some { s with calls := s.calls ++ [.logging ⟨level, message⟩] }
  | .flush => some { s with calls := s.calls ++ [.flushing] }
  | .call k => callStep k s
  | .callWake k => callWake k s
  | .worker => workerStep s
  | .workerWake => workerWake s
  | .stop => some (stop s)
  | .stopStep => stopStep s

def machine (style : PatternStyle) (queueCapacity : Nat) (overflowPolicy : AsyncOverflowPolicy) : Machine Logger Act :=
  ⟨make style queueCapacity overflowPolicy, step⟩

end Dbase.Log.AsyncLogger
