/-
  Dbase.Time.TimerWheel — `dbase::time::TimerMgr` (`timer_wheel.h`, `timer_wheel.cpp`).

  Five wheels of 256, 64, 64, 64 and 64 slots; a slot is a list of timers, linked through
  the timers themselves. A timer is its address, its `timeout_` and its `pOwner`, the slot it
  is linked into; a `DoubleLink` is the list of the timers between its head and its tail.
  `timeout` is a `uint32_t`: sums and differences are formed modulo `2 ^ 32`.

  The clock and the callbacks are the caller's (`Env`): the `i`-th reading of `getNow()`, of
  whichever clock the manager was started with, and what the `i`-th call of `onTimeOut` does.
  A callback registers and unregisters timers.
  `log` records what the callers and `step` did, in order; no function reads it.

  The drain loop of `step` is run for as many turns as the list has timers when it begins.
-/

import Dbase.Lib.Word
import Mathlib

namespace Dbase.Time.TimerWheel

open Dbase.Lib.Word

abbrev TimerId := Nat

def wheelCnt : Nat := 5

def elementCntPerWheel (wheel_no : Nat) : Nat := [256, 64, 64, 64, 64].getD wheel_no 64

def rightShiftPerWheel (wheel_no : Nat) : Nat := [8, 6, 6, 6, 6].getD wheel_no 6

def baseTickPerWheel (wheel_no : Nat) : Nat :=
  [1, 256, 256 * 64, 256 * 64 * 64, 256 * 64 * 64 * 64].getD wheel_no (256 * 64 * 64 * 64 * 64)

/-- What a callback, or the program between two calls, does to the manager. -/
inductive Act where
  | registerTimer (timer : Option TimerId) (timeout : UInt32)
  | unRegisterTimer (timer : Option TimerId)
  deriving DecidableEq, Repr

structure Env where
  getNow : Nat → Nat
  onTimeOut : Nat → TimerId → List Act

/-- Where a registration comes from: from outside a step, or from a callback while the slot
    `cur_slot` of wheel `wheel_no` is drained. -/
inductive Origin where
  | outside
  | callback (wheel_no cur_slot : Nat)
  deriving DecidableEq, Repr

inductive Event where
  | registered (timer : TimerId) (timeout : Nat) (origin : Origin)
  | unregistered (timer : TimerId)
  | fired (timer : TimerId) (tick : Nat)
  | stepped
  deriving DecidableEq, Repr

structure Mgr where
  cur_slot : Nat → Nat
  tlist : Nat → Nat → List TimerId
  timeout_ : TimerId → UInt32
  pOwner : TimerId → Option (Nat × Nat)
  last_tick : Nat
  /-- the readings of the clock so far -/
  reads : Nat
  /-- the calls of `onTimeOut` so far -/
  calls : Nat
  log : List Event

/-- `TimerMgr()`. -/
def make : Mgr where
  cur_slot := fun _ => 0
  tlist := fun _ _ => []
  timeout_ := fun _ => 0
  pOwner := fun _ => none
  last_tick := 0
  reads := 0
  calls := 0
  log := []

def Mgr.note (m : Mgr) (e : Event) : Mgr := { m with log := m.log ++ [e] }

def Mgr.called (m : Mgr) (t : TimerId) : Mgr :=
  { m with calls := m.calls + 1, log := m.log ++ [.fired t m.last_tick] }

/-! ## The lists -/

def Mgr.setList (m : Mgr) (w s : Nat) (l : List TimerId) : Mgr :=
  { m with tlist := fun w' s' => if w' = w ∧ s' = s then l else m.tlist w' s' }

def Mgr.setOwner (m : Mgr) (t : TimerId) (o : Option (Nat × Nat)) : Mgr :=
  { m with pOwner := fun u => if u = t then o else m.pOwner u }

def Mgr.setTimeOut (m : Mgr) (t : TimerId) (timeout : UInt32) : Mgr :=
  { m with timeout_ := fun u => if u = t then timeout else m.timeout_ u }

def Mgr.setSlot (m : Mgr) (w c : Nat) : Mgr :=
  { m with cur_slot := fun w' => if w' = w then c else m.cur_slot w' }

def isRegistered (m : Mgr) (t : TimerId) : Bool := (m.pOwner t).isSome

/-- `DoubleLink::Remove`. -/
def remove (m : Mgr) (t : TimerId) : Mgr :=
  match m.pOwner t with
  | none => m
  | some (w, s) => (m.setList w s ((m.tlist w s).erase t)).setOwner t none

/-- `DoubleLink::Push` on the list of a slot. -/
def push (m : Mgr) (w s : Nat) (t : TimerId) : Mgr :=
  if isRegistered m t then m else (m.setList w s (m.tlist w s ++ [t])).setOwner t (some (w, s))

/-- `DoubleLink::Pop`. -/
def pop (m : Mgr) (w s : Nat) : Option TimerId × Mgr :=
  match m.tlist w s with
  | [] => (none, m)
  | t :: _ => (some t, remove m t)

/-! ## Registration -/

def unRegisterTimer (m : Mgr) : Option TimerId → Int × Mgr
  | none => (-1, m)
  | some t => if isRegistered m t then (0, remove m t) else (-1, m)

/-- The `while` loop of `registerTimer`: the wheel, and `offset` and `left` there. -/
def climb (cur_slot : Nat → Nat) : Nat → Nat → Nat → Nat → Nat × Nat × Nat
  | 0, wheel_no, offset, left => (wheel_no, offset, left)
  | n + 1, wheel_no, offset, left =>
    if wheel_no + 1 < wheelCnt ∧ elementCntPerWheel wheel_no ≤ offset then
      climb cur_slot n (wheel_no + 1) (offset >>> rightShiftPerWheel wheel_no)
        (wsub 32 left (wmul 32 (baseTickPerWheel wheel_no)
          (wsub 32 (wsub 32 (elementCntPerWheel wheel_no) (cur_slot wheel_no)) (if wheel_no = 0 then 0 else 1))))
    else (wheel_no, offset, left)

/-- The timeout with the lag of `last_tick_` behind the clock added, if there is one. -/
def lagged (E : Env) (m : Mgr) (timeout : UInt32) : UInt32 × Mgr :=
  if 0 < m.last_tick then
    let cur_tick := E.getNow m.reads
    let m := { m with reads := m.reads + 1 }
    if m.last_tick < cur_tick then (UInt32.ofNat ((cur_tick - m.last_tick) + timeout.toNat), m) else (timeout, m)
  else (timeout, m)

/-- The rest of `registerTimer`, with the effective timeout. -/
def place (m : Mgr) (t : TimerId) (timeout : Nat) : Mgr :=
  let (wheel_no, offset, left) := climb m.cur_slot wheelCnt 0 timeout timeout
  let left := wsub 32 left (wmul 32 (baseTickPerWheel wheel_no) (wsub 32 offset 1))
  let slot := (offset + m.cur_slot wheel_no) % elementCntPerWheel wheel_no
  push (m.setTimeOut t (UInt32.ofNat left)) wheel_no slot t

def registerTimer (E : Env) (m : Mgr) : Option TimerId → UInt32 → Int × Mgr
  | none, _ => (-1, m)
  | some t, timeout =>
    let m := if isRegistered m t then (unRegisterTimer m (some t)).2 else m
    let (timeout, m) := lagged E m timeout
    (0, place m t (if timeout = 0 then 1 else timeout.toNat))

/-- A call of the program, recorded: an unregistration only where a timer was registered. -/
def act (E : Env) (origin : Origin) (m : Mgr) : Act → Mgr
  | .unRegisterTimer timer =>
    match timer with
    | none => (unRegisterTimer m none).2
    | some t => (unRegisterTimer (if isRegistered m t then m.note (.unregistered t) else m) (some t)).2
  | .registerTimer timer timeout =>
    match timer with
    | none => (registerTimer E m none timeout).2
    | some t =>
      let m := if isRegistered m t then m.note (.unregistered t) else m
      (registerTimer E (m.note (.registered t timeout.toNat origin)) (some t) timeout).2

/-! ## Steps -/

/-- `timer->onTimeOut()`, while the current slot of wheel `wheel_no` is drained. -/
def onTimeOut (E : Env) (wheel_no : Nat) (m : Mgr) (t : TimerId) : Mgr :=
  (E.onTimeOut m.calls t).foldl (act E (.callback wheel_no (m.cur_slot wheel_no))) (m.called t)

/-- The `while` loop of `step` over the list of the current slot. -/
def drain (E : Env) (wheel_no : Nat) : Nat → Mgr → Mgr
  | 0, m => m
  | n + 1, m =>
    match pop m wheel_no (m.cur_slot wheel_no) with
    | (none, m) => m
    | (some t, m) =>
      if wheel_no = 0 ∨ m.timeout_ t = 0 then drain E wheel_no n (onTimeOut E wheel_no m t)
      else drain E wheel_no n (registerTimer E m (some t) (m.timeout_ t)).2

/-- One wheel of the `for` loop: move it and drain the slot it comes to. -/
def turn (E : Env) (wheel_no : Nat) (m : Mgr) : Mgr :=
  let m := m.setSlot wheel_no ((m.cur_slot wheel_no + 1) % elementCntPerWheel wheel_no)
  drain E wheel_no (m.tlist wheel_no (m.cur_slot wheel_no)).length m

/-- The `for` loop of `step`, with `n` wheels to go. -/
def turns (E : Env) : Nat → Nat → Mgr → Mgr
  | 0, _, m => m
  | n + 1, wheel_no, m =>
    let m := turn E wheel_no m
    if m.cur_slot wheel_no ≠ 0 then m else turns E n (wheel_no + 1) m

def step (E : Env) (m : Mgr) : Mgr := turns E wheelCnt 0 (m.note .stepped)

/-- The `while` loop of `tickInternal`. -/
def catchUp (E : Env) : Nat → Mgr → Mgr
  | 0, m => m
  | count + 1, m => catchUp E count (step E { m with last_tick := m.last_tick + 1 })

def tickInternal (E : Env) (m : Mgr) (cur_tick : Nat) : Mgr :=
  if cur_tick ≤ m.last_tick then m else catchUp E (cur_tick - m.last_tick) m

def resetWheels (m : Mgr) : Mgr := { m with cur_slot := fun _ => 0 }

/-- `initTick()` and `initTickMs()`, at the time `now` of the clock they choose. -/
def initTick (m : Mgr) (now : Nat) : Mgr := resetWheels { m with last_tick := now }

end Dbase.Time.TimerWheel
