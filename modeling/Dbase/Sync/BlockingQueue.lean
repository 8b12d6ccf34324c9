/-
  Dbase.Sync.BlockingQueue — `BlockingQueue<T>`.

  One mutex, two condition variables, a deque and the stop flag. Each call is one critical section of a
  monitor: `body` runs it from the test of its wait predicate on. `push` and the pops notify after they
  have released the mutex, `tryPush` and `stop` while they hold it. Nothing that a call does with a
  `T` throws: the construction in `emplace`, a copy, a move, the deque's allocation.
-/

import Dbase.Lib.Monitor

namespace Dbase.Sync.BlockingQueue

open Dbase.Lib
open Dbase.Lib.Monitor (Outcome Note Object)

variable {T : Type}

structure Queue (T : Type) where
  queue : List T
  stopped : Bool
  deriving DecidableEq, Repr

inductive Cond where
  | notEmpty
  | notFull
  deriving DecidableEq, Repr

inductive Call (T : Type) where
  /-- `push` and `emplace` -/
  | push (value : T)
  | pop
  | popFor
  | tryPush (value : T)
  | tryPop
  | stop
  | stopped
  | empty
  | size
  deriving DecidableEq, Repr

inductive Ret (T : Type) where
  | done
  /-- `std::runtime_error("BlockingQueue stopped")` -/
  | threw
  | value (v : T)
  | nullopt
  | bool (b : Bool)
  | count (n : Nat)
  deriving DecidableEq, Repr

/-- The predicate of `waitUntilPushable`. -/
def pushable (capacity : Nat) (q : Queue T) : Bool := q.stopped || capacity = 0 || q.queue.length < capacity

/-- The predicate of `pop` and `popFor`. -/
def ready (q : Queue T) : Bool := q.stopped || !q.queue.isEmpty

def emplace (capacity : Nat) (value : T) (q : Queue T) : Outcome (Queue T) Cond (Ret T) :=
  if pushable capacity q then
    if q.stopped then .leave q [] [] .threw
    else .leave { q with queue := q.queue ++ [value] } [] [.one .notEmpty] .done
  else .wait

/-- The front is moved out, or the queue was stopped. -/
def popFront (q : Queue T) : Outcome (Queue T) Cond (Ret T) :=
  match q.queue with
  | [] => .leave q [] [] .threw
  | value :: rest => .leave { q with queue := rest } [] [.one .notFull] (.value value)

def pop (q : Queue T) : Outcome (Queue T) Cond (Ret T) := if ready q then popFront q else .wait

/-- `wait_for` tests the predicate once more when the time is up. -/
def popFor (late : Bool) (q : Queue T) : Outcome (Queue T) Cond (Ret T) :=
  if ready q then popFront q else if late then .leave q [] [] .nullopt else .wait

def tryEmplaceImpl (capacity : Nat) (value : T) (q : Queue T) : Outcome (Queue T) Cond (Ret T) :=
  if q.stopped then .leave q [] [] (.bool false)
  else if capacity ≠ 0 ∧ q.queue.length ≥ capacity then .leave q [] [] (.bool false)
  else .leave { q with queue := q.queue ++ [value] } [.one .notEmpty] [] (.bool true)

def tryPop (q : Queue T) : Outcome (Queue T) Cond (Ret T) :=
  match q.queue with
  | [] => .leave q [] [] .nullopt
  | value :: rest => .leave { q with queue := rest } [] [.one .notFull] (.value value)

def stop (q : Queue T) : Outcome (Queue T) Cond (Ret T) :=
  if q.stopped then .leave q [] [] .done
  else .leave { q with stopped := true } [.all .notEmpty, .all .notFull] [] .done

def body (capacity : Nat) (c : Call T) (late : Bool) (q : Queue T) : Outcome (Queue T) Cond (Ret T) :=
  match c with
  | .push value => emplace capacity value q
  | .pop => pop q
  | .popFor => popFor late q
  | .tryPush value => tryEmplaceImpl capacity value q
  | .tryPop => tryPop q
  | .stop => stop q
  | .stopped => .leave q [] [] (.bool q.stopped)
  | .empty => .leave q [] [] (.bool q.queue.isEmpty)
  | .size => .leave q [] [] (.count q.queue.length)

def waitsOn : Call T → Option Cond
  | .push _ => some .notFull
  | .pop => some .notEmpty
  | .popFor => some .notEmpty
  | _ => none

def object (T : Type) (capacity : Nat) : Object (Queue T) Cond (Call T) (Ret T) where
  init := ⟨[], false⟩
  body := body capacity
  waitsOn := waitsOn
  timed c := match c with
    | .popFor => true
    | _ => false

abbrev State (T : Type) := Monitor.St (Queue T) Cond (Call T) (Ret T)

/-- Any number of threads that use the queue. -/
def machine (T : Type) (capacity : Nat) : Machine (State T) (Monitor.Act (Call T)) := Monitor.machine (object T capacity)

end Dbase.Sync.BlockingQueue
