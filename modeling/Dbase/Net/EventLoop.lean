/-
  Dbase.Net.EventLoop — `EventLoop` (`event_loop.h`, `event_loop.cpp`) and its `WakeupChannel`
  (`wakeup_channel.cpp`) as a machine of the loop thread and any number of other threads.

  The loop thread is its program counter `Pc`, over the phases of `loop()`: `processTimers`, `poll`,
  the active channels, `doPendingFunctors`, `processTimers` again. User code runs in four places (a
  timer callback, a channel callback, a functor, and outside `loop()`); there the loop thread may
  make any calls of the loop's interface, one step each, and then returns or throws. `runInLoop`
  on the loop thread is the functor's own code and makes no step.

  Another thread's `queueInLoop` is two steps, the append under the lock and the wakeup
  (`waking` counts the callers in between), and so is its `quit`; its `runAfter` takes the id in a
  step before these (`created`). A timer's `cancelled` flag is whether its id is in `cancelled`. The
  timer heap is the list of its tasks in the order of `TimerCompare`.

  The wakeup socket holds a number of bytes up to a capacity that is the kernel's; a write into
  a full socket is refused, and `WakeupChannel::wakeup` ignores that. Time is in nanoseconds; the source counts them
  in `int64`, so a run stands for one in which the clock and every delay or interval added to it stay below `2 ^ 63`.

  `queued` and `ran` record the functors in the order they were queued and started; no step reads
  them.
-/

import Dbase.Lib.Machine

namespace Dbase.Net.EventLoop

variable {F : Type}

structure TimerTask (F : Type) where
  id : Nat
  expiration : Nat
  interval : Nat
  repeats : Bool
  callback : F
  deriving DecidableEq, Repr

/-- A queued functor: a user's, or one of the two lambdas of `runAt` and `cancelTimer`. -/
inductive Functor (F : Type) where
  | user (f : F)
  | addTimerInLoop (task : TimerTask F)
  | cancelTimerInLoop (timerId : Nat)
  deriving DecidableEq, Repr

inductive Channel where
  | wakeupFd
  | user (fd : Nat)
  deriving DecidableEq, Repr

inductive Pc (F : Type) where
  /-- outside `loop()` -/
  | outside
  /-- `while (!m_quit)` -/
  | check
  /-- the head of the loop in `processTimers`, and whether it is the second one of the turn -/
  | timers (second : Bool) (now : Nat)
  | timerCallback (second : Bool) (now : Nat) (task : TimerTask F)
  /-- `getPollTimeoutMs()` is next -/
  | poll
  /-- inside `poll` -/
  | polling (timeoutMs : Nat)
  /-- the active channels still to be handled -/
  | channels (rest : List Channel)
  | channelCallback (rest : List Channel)
  /-- the head of the loop in `WakeupChannel::handleRead` -/
  | wakeupRead (rest : List Channel)
  /-- `doPendingFunctors` has set its flag and not swapped yet -/
  | swap
  /-- the functors of the batch still to be run -/
  | functors (rest : List (Functor F))
  | functorBody (rest : List (Functor F))
  deriving DecidableEq, Repr

structure Loop (F : Type) where
  pc : Pc F
  looping : Bool
  quit : Bool
  pendingFunctors : List (Functor F)
  callingPendingFunctors : Bool
  wakeupBytes : Nat
  timers : List (TimerTask F)
  timerMap : List Nat
  cancelled : List Nat
  nextTimerId : Nat
  clock : Nat
  created : List (TimerTask F)
  waking : Nat
  quitting : Nat
  queued : List (Functor F)
  ran : List (Functor F)
  deriving DecidableEq, Repr

def make : Loop F where
  pc := .outside
  looping := false
  quit := false
  pendingFunctors := []
  callingPendingFunctors := false
  wakeupBytes := 0
  timers := []
  timerMap := []
  cancelled := []
  nextTimerId := 1
  clock := 0
  created := []
  waking := 0
  quitting := 0
  queued := []
  ran := []

/-- `runAfter(delay, cb)` and `runEvery(interval, cb)`, in milliseconds. -/
inductive TimerRequest (F : Type) where
  | runAfter (delay : Int) (cb : F)
  | runEvery (interval : Int) (cb : F)
  deriving DecidableEq, Repr

/-- What user code calls on the loop thread. -/
inductive Call (F : Type) where
  | queueInLoop (f : F)
  | timer (request : TimerRequest F)
  | cancelTimer (timerId : Nat)
  | quit
  deriving DecidableEq, Repr

/-- What another thread does. -/
inductive Other (F : Type) where
  | queueInLoop (f : F)
  | makeTimer (request : TimerRequest F)
  | queueTimer (i : Nat)
  | cancelTimer (timerId : Nat)
  | wakeup
  | quit
  | quitWakeup
  deriving DecidableEq, Repr

inductive Act (F : Type) where
  /-- `loop()` is called -/
  | loop
  /-- the loop thread's next step inside `loop()` -/
  | next
  /-- `poll` returns with active channels -/
  | pollReturns (active : List Channel)
  | call (c : Call F)
  /-- user code returns to `loop()` -/
  | returns
  /-- user code, or `poll`, throws, and `loop()` lets the exception through -/
  | throws
  | other (o : Other F)
  | tick (elapsed : Nat)
  deriving DecidableEq, Repr

/-! ## Wakeups and functors -/

variable (capacity : ℕ+)

/-- `WakeupChannel::wakeup`. -/
def wakeup (s : Loop F) : Loop F :=
  if s.wakeupBytes < capacity then { s with wakeupBytes := s.wakeupBytes + 1 } else s

/-- Under the lock of `queueInLoop`. -/
def enqueue (f : Functor F) (s : Loop F) : Loop F :=
  { s with pendingFunctors := s.pendingFunctors ++ [f], queued := s.queued ++ [f] }

/-- `!isInLoopThread() || m_callingPendingFunctors` -/
def mustWake (inLoopThread : Bool) (s : Loop F) : Bool := !inLoopThread || s.callingPendingFunctors

/-- `queueInLoop` on the loop thread. -/
def queueInLoop (f : Functor F) (s : Loop F) : Loop F :=
  let s := enqueue f s
  if mustWake true s then wakeup capacity s else s

/-- `queueInLoop` on another thread, up to its wakeup. -/
def queueFromOther (f : Functor F) (s : Loop F) : Loop F :=
  let s := enqueue f s
  if mustWake false s then { s with waking := s.waking + 1 } else s

/-! ## Timers -/

def nsPerMs : Nat := 1000000

/-- `TimerCompare`: `a` is not after `b`. -/
def notAfter (a b : TimerTask F) : Prop :=
  a.expiration < b.expiration ∨ (a.expiration = b.expiration ∧ a.id ≤ b.id)

instance : DecidableRel (notAfter (F := F)) := fun _ _ => inferInstanceAs (Decidable (_ ∨ _))

/-- `m_timers.push` -/
def push (task : TimerTask F) (timers : List (TimerTask F)) : List (TimerTask F) := timers.orderedInsert notAfter task

/-- `runAt`, up to where it looks at the thread: the task with its id, or the exception of `runEvery`. -/
def makeTimer (s : Loop F) : TimerRequest F → Option (TimerTask F × Loop F)
  | .runAfter delay cb =>
    some (⟨s.nextTimerId, s.clock + delay.toNat * nsPerMs, 0, false, cb⟩, { s with nextTimerId := s.nextTimerId + 1 })
  | .runEvery interval cb =>
    if interval ≤ 0 then none
    else
      some (⟨s.nextTimerId, s.clock + interval.toNat * nsPerMs, interval.toNat * nsPerMs, true, cb⟩,
        { s with nextTimerId := s.nextTimerId + 1 })

def addTimerInLoop (task : TimerTask F) (s : Loop F) : Loop F :=
  let wake :=
    match s.timers with
    | [] => true
    | top :: _ => decide (task.expiration < top.expiration)
  let s := { s with timerMap := s.timerMap.insert task.id, timers := push task s.timers }
  if wake then wakeup capacity s else s

def cancelTimerInLoop (timerId : Nat) (s : Loop F) : Loop F :=
  if timerId ∉ s.timerMap then s
  else { s with cancelled := timerId :: s.cancelled, timerMap := s.timerMap.erase timerId }

def getPollTimeoutMs (s : Loop F) : Nat :=
  match s.timers with
  | [] => 10000
  | top :: _ =>
    if top.id ∈ s.cancelled then 0
    else if top.expiration ≤ s.clock then 0
    else
      let diff := (top.expiration - s.clock) / nsPerMs
      if diff = 0 then 0 else if diff > 2 ^ 31 - 1 then 2 ^ 31 - 1 else diff

/-- One turn of the loop in `processTimers`; `now` was read when it began. -/
def processTimers (second : Bool) (now : Nat) (s : Loop F) : Loop F :=
  match s.timers with
  | [] => { s with pc := if second then .check else .poll }
  | task :: rest =>
    if task.id ∈ s.cancelled then { s with timers := rest }
    else if task.expiration > now then { s with pc := if second then .check else .poll }
    else if task.id ∉ s.timerMap then { s with timers := rest }
    else { s with timers := rest, pc := .timerCallback second now task }

/-- After the callback of a timer: a repeating one goes back, unless it was cancelled. -/
def timerReturns (second : Bool) (now : Nat) (task : TimerTask F) (s : Loop F) : Loop F :=
  if task.repeats ∧ task.id ∉ s.cancelled then
    { s with timers := push { task with expiration := s.clock + task.interval } s.timers, pc := .timers second now }
  else { s with timerMap := s.timerMap.erase task.id, pc := .timers second now }

/-! ## The machine -/

/-- One turn of the loop in `WakeupChannel::handleRead`. -/
def wakeupRead (rest : List Channel) (s : Loop F) : Loop F :=
  let n := min s.wakeupBytes 256
  { s with wakeupBytes := s.wakeupBytes - n, pc := if n < 256 then .channels rest else .wakeupRead rest }

/-- A functor of the batch begins; the loop's own two run in one step. -/
def runFunctor (f : Functor F) (rest : List (Functor F)) (s : Loop F) : Loop F :=
  let s := { s with ran := s.ran ++ [f], pc := .functors rest }
  match f with
  | .user _ => { s with pc := .functorBody rest }
  | .addTimerInLoop task => addTimerInLoop capacity task s
  | .cancelTimerInLoop timerId => cancelTimerInLoop timerId s

/-- The loop thread's next step, where it does not wait for `poll` or for user code. -/
def next (s : Loop F) : Option (Loop F) :=
  match s.pc with
  | .check =>
    if s.quit then some { s with looping := false, pc := .outside } else some { s with pc := .timers false s.clock }
  | .timers second now => some (processTimers second now s)
  | .poll => some { s with pc := .polling (getPollTimeoutMs s) }
  | .channels [] => some { s with callingPendingFunctors := true, pc := .swap }
  | .channels (.wakeupFd :: rest) => some { s with pc := .wakeupRead rest }
  | .channels (.user _ :: rest) => some { s with pc := .channelCallback rest }
  | .wakeupRead rest => some (wakeupRead rest s)
  | .swap => some { s with pendingFunctors := [], pc := .functors s.pendingFunctors }
  | .functors [] => some { s with callingPendingFunctors := false, pc := .timers true s.clock }
  | .functors (f :: rest) => some (runFunctor capacity f rest s)
  | .outside => none
  | .polling _ => none
  | .timerCallback _ _ _ => none
  | .channelCallback _ => none
  | .functorBody _ => none

/-- User code runs on the loop thread. -/
def inUserCode : Pc F → Bool
  | .outside => true
  | .timerCallback _ _ _ => true
  | .channelCallback _ => true
  | .functorBody _ => true
  | _ => false

def call (s : Loop F) : Call F → Option (Loop F)
  | .queueInLoop f => some (queueInLoop capacity (.user f) s)
  | .timer request => (makeTimer s request).map fun (task, s) => addTimerInLoop capacity task s
  | .cancelTimer timerId => some (if timerId = 0 then s else cancelTimerInLoop timerId s)
  | .quit => some { s with quit := true }

def returns (s : Loop F) : Option (Loop F) :=
  match s.pc with
  | .timerCallback second now task => some (timerReturns second now task s)
  | .channelCallback rest => some { s with pc := .channels rest }
  | .functorBody rest => some { s with pc := .functors rest }
  | _ => none

/-- The exception leaves `loop()`: `m_looping` stays set, and what is left of a batch is gone. -/
def throws (s : Loop F) : Option (Loop F) :=
  match s.pc with
  | .timerCallback _ _ _ => some { s with pc := .outside }
  | .channelCallback _ => some { s with pc := .outside }
  | .functorBody _ => some { s with pc := .outside }
  | .polling _ => some { s with pc := .outside }
  | _ => none

/-- The poller is level triggered: it reports the wakeup descriptor only if it is readable. -/
def pollReturns (active : List Channel) (s : Loop F) : Option (Loop F) :=
  match s.pc with
  | .polling _ => if .wakeupFd ∈ active ∧ s.wakeupBytes = 0 then none else some { s with pc := .channels active }
  | _ => none

def other (s : Loop F) : Other F → Option (Loop F)
  | .queueInLoop f => some (queueFromOther (.user f) s)
  | .makeTimer request => (makeTimer s request).map fun (task, s) => { s with created := s.created ++ [task] }
  | .queueTimer i =>
    (s.created[i]?).map fun task => queueFromOther (.addTimerInLoop task) { s with created := s.created.eraseIdx i }
  | .cancelTimer timerId => some (if timerId = 0 then s else queueFromOther (.cancelTimerInLoop timerId) s)
  | .wakeup => if s.waking = 0 then none else some (wakeup capacity { s with waking := s.waking - 1 })
  | .quit => some { s with quit := true, quitting := s.quitting + 1 }
  | .quitWakeup => if s.quitting = 0 then none else some (wakeup capacity { s with quitting := s.quitting - 1 })

/-- `loop()` is entered, unless it is looping already (it throws then). -/
def enter (s : Loop F) : Option (Loop F) :=
  match s.pc with
  | .outside => if s.looping then none else some { s with looping := true, quit := false, pc := .check }
  | _ => none

def step (s : Loop F) : Act F → Option (Loop F)
  | .loop => enter s
  | .next => next capacity s
  | .pollReturns active => pollReturns active s
  | .call c => if inUserCode s.pc then call capacity s c else none
  | .returns => returns s
  | .throws => throws s
  | .other o => other capacity s o
  | .tick elapsed => some { s with clock := s.clock + elapsed }

def eventLoop : Lib.Machine (Loop F) (Act F) := ⟨make, step capacity⟩

end Dbase.Net.EventLoop
