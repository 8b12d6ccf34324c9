/-
  Dbase.Net.EventLoopThread — `EventLoopThread` (`event_loop_thread.cpp`): a thread that makes an
  event loop, hands it out and runs it, and the owner that starts and stops it.

  `threadFunc` is its stages: the loop is made, `m_loop` set, the latch counted down, `loop()`
  entered and left, `m_loop` cleared and the loop destroyed, which is a local of `threadFunc`. The owner waits
  on the latch in `startLoop`, and in `stop` looks at `m_loop`, stores the quit, writes the wakeup and joins. In
  between, once `startLoop` has returned the loop, other threads make any of the calls of `EventLoop.Other`,
  and the user's callbacks run inside `loop()`. An exception that leaves `threadFunc` ends the process, so no
  step follows it.

  Nothing holds the loop alive for a call of another thread. What such a call does once the loop is destroyed
  is undefined; here it changes nothing and is recorded in `dangled`.

  `asked` and `askedFromOutside` record that a `quit()` was made, and that one was made on another
  thread; `polls` counts the polls the loop has begun since. No step reads these and `dangled`.
-/

import Dbase.Net.EventLoopProofs

namespace Dbase.Net.EventLoopThread

open Dbase.Net.EventLoop

variable {F : Type}

/-- How far `threadFunc` is. -/
inductive Stage where
  | idle
  /-- the thread runs -/
  | started
  /-- `EventLoop loop;` -/
  | constructed
  /-- `m_loop = &loop;` -/
  | published
  /-- `m_latch.countDown();` -/
  | counted
  /-- in `loop.loop()` -/
  | looping
  | returned
  /-- `m_loop = nullptr;`, and the loop is destroyed -/
  | ended
  deriving DecidableEq, Repr

inductive Owner where
  | idle
  /-- in `startLoop`, in `m_latch.wait()` -/
  | waiting
  /-- `startLoop` has returned the loop -/
  | started
  /-- `startLoop` has thrown: it found no loop -/
  | failed
  /-- in `stop`, which has found `m_loop` set and calls `quit()` -/
  | quitting
  /-- in `stop`, in `quit()`, before its wakeup -/
  | waking
  /-- in `stop`, in `m_thread.join()` -/
  | joining
  | stopped
  deriving DecidableEq, Repr

structure LoopThread (F : Type) where
  stage : Stage
  owner : Owner
  /-- `m_loop` is set -/
  mLoop : Bool
  latch : Nat
  loop : Loop F
  asked : Bool
  askedFromOutside : Bool
  polls : Nat
  dangled : Bool
  deriving DecidableEq, Repr

inductive Label (F : Type) where
  | startLoop
  | startReturns
  | stop
  | stopQuit
  | stopWakeup
  | join
  /-- the next stage of `threadFunc` -/
  | thread
  /-- the next step inside `loop()`, or of the user code there -/
  | inLoop (a : Act F)
  | other (o : Other F)
  | tick (elapsed : Nat)
  deriving DecidableEq, Repr

def make : LoopThread F := ⟨.idle, .idle, false, 1, EventLoop.make, false, false, 0, false⟩

/-- The owner has the loop, or has had it. -/
def handedOut : Owner → Bool
  | .idle => false
  | .waiting => false
  | .failed => false
  | _ => true

/-- What the loop thread does inside `loop()`. -/
def insideLoop : Act F → Bool
  | .next => true
  | .pollReturns _ => true
  | .call _ => true
  | .returns => true
  | _ => false

def threadFunc (s : LoopThread F) : Option (LoopThread F) :=
  match s.stage with
  | .started => some { s with stage := .constructed, loop := { EventLoop.make with clock := s.loop.clock } }
  | .constructed => some { s with stage := .published, mLoop := true }
  | .published => some { s with stage := .counted, latch := s.latch - 1 }
  | .counted => (enter s.loop).map fun l => { s with stage := .looping, loop := l }
  | .returned => some { s with stage := .ended, mLoop := false }
  | _ => none

/-- The ghost fields after a `quit()`. -/
def ask (fromOutside : Bool) (s : LoopThread F) : LoopThread F :=
  { s with asked := true, askedFromOutside := s.askedFromOutside || fromOutside }

/-- `quit()` on the loop thread. -/
def isQuit : Act F → Bool
  | .call .quit => true
  | _ => false

/-- `poll` begins. -/
def beginsPoll (s : Loop F) : Act F → Bool
  | .next =>
    match s.pc with
    | .poll => true
    | _ => false
  | _ => false

variable (capacity : ℕ+)

/-- A step of the loop thread in `loop()`; at the end of it `loop()` returns to `threadFunc`. -/
def inLoopStep (a : Act F) (s : LoopThread F) : Option (LoopThread F) :=
  if s.stage = .looping ∧ insideLoop a = true then
    (EventLoop.step capacity s.loop a).map fun l =>
      let polls := if s.asked && beginsPoll s.loop a then s.polls + 1 else s.polls
      let s := { s with loop := l, polls := polls, stage := if inLoop l.pc then .looping else .returned }
      if isQuit a then ask false s else s
  else none

/-- A thread that has the loop calls it, or goes on with its call. -/
def otherStep (o : Other F) (s : LoopThread F) : Option (LoopThread F) :=
  if handedOut s.owner then
    (EventLoop.other capacity s.loop o).map fun l =>
      if s.stage = .ended then { s with dangled := true }
      else
        match o with
        | .quit => ask true { s with loop := l }
        | _ => { s with loop := l }
  else none

def step (s : LoopThread F) : Label F → Option (LoopThread F)
  | .startLoop => if s.owner = .idle then some { s with owner := .waiting, stage := .started } else none
  | .startReturns =>
    if s.owner = .waiting ∧ s.latch = 0 then some { s with owner := if s.mLoop then .started else .failed } else none
  | .stop =>
    if s.owner = .started then some { s with owner := if s.mLoop then .quitting else .joining } else none
  | .stopQuit =>
    if s.owner = .quitting then
      some (if s.stage = .ended then { s with owner := .waking, dangled := true }
        else ask true { s with owner := .waking, loop := { s.loop with quit := true } })
    else none
  | .stopWakeup =>
    if s.owner = .waking then
      some (if s.stage = .ended then { s with owner := .joining, dangled := true }
        else { s with owner := .joining, loop := wakeup capacity s.loop })
    else none
  | .join => if s.owner = .joining ∧ s.stage = .ended then some { s with owner := .stopped, mLoop := false } else none
  | .thread => threadFunc s
  | .inLoop a => inLoopStep capacity a s
  | .other o => otherStep capacity o s
  | .tick elapsed => some { s with loop := { s.loop with clock := s.loop.clock + elapsed } }

def loopThread : Lib.Machine (LoopThread F) (Label F) := ⟨make, step capacity⟩

end Dbase.Net.EventLoopThread
