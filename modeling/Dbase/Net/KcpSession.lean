/-
  Dbase.Net.KcpSession — `KcpSession` in small steps: the handlers of one session on its loop thread, its update timer,
  and the user's callbacks.

  The loop thread is a stack of tasks, what is still to be done, innermost first: what follows the receive loop in
  `inputPacketInLoop` or `updateInLoop`, the head or the end of that loop, `handleClose`, a callback to be invoked, or the
  user's code of one. `runInLoop` runs at once there; user code makes any calls, one step each, and returns. Calls with an
  empty stack are those of the loop, of other handlers and of functors that other threads have queued.

  What the functions of ikcp return is a label, and so is the clock, which stands still within a step. Of the loop a
  session sees its own timers, and the next id; a timer that was cancelled does not fire. An exception that leaves a
  callback leaves `loop()` too, so no step follows it.

  `established` and `closes` record what has happened; the first says when user code may run, and no handler reads them.
-/

import Dbase.Error
import Dbase.Lib.Machine

namespace Dbase.Net.KcpSession

inductive State where
  | connecting
  | connected
  | disconnecting
  | disconnected
  deriving DecidableEq, Repr

structure Options where
  conv : UInt32 := 0
  token : UInt32 := 0
  mtu : Int := 1400
  sndWnd : Int := 128
  rcvWnd : Int := 128
  nodelay : Int := 1
  interval : Int := 20
  resend : Int := 2
  nc : Int := 1
  idleTimeout : Int := 0
  maxMessageBytes : Nat := 16 * 1024 * 1024
  deriving DecidableEq, Repr

/-- A callback with its arguments besides the session. -/
inductive Callback where
  | message (payload : List UInt8)
  | writeComplete
  | close
  | error (e : Error)
  deriving DecidableEq, Repr

/-- Which callbacks are set. -/
structure Callbacks where
  message : Bool
  writeComplete : Bool
  close : Bool
  error : Bool
  deriving DecidableEq, Repr

inductive Task where
  | invoke (cb : Callback)
  /-- the code of a callback -/
  | user
  | handleClose
  /-- the head of the loop in `drainRecvQueue` -/
  | drainTurn
  /-- the end of `drainRecvQueue` -/
  | drainEnd
  /-- the end of `inputPacketInLoop` -/
  | inputEnd
  /-- the end of `updateInLoop` -/
  | updateEnd (now : UInt32)
  deriving DecidableEq, Repr

structure Timer where
  id : Nat
  delay : Nat
  deriving DecidableEq, Repr

/-- The session, and what the loop has of it: its timers, and the id of the next one. -/
structure Session where
  state : State
  updateTimerId : Nat
  lastActiveTickMs : Int
  timers : List Timer
  nextTimerId : Nat
  deriving DecidableEq, Repr

/-- What a step is told by the clock and by ikcp, where it asks. -/
structure Answers where
  /-- the clock in milliseconds -/
  tick : Int := 0
  send : Int := 0
  input : Int := 0
  check : UInt32 := 0
  peek : Int := -1
  /-- the message that `ikcp_recv` copies; none for a negative result -/
  recv : Option (List UInt8) := none
  waitsnd : Int := 0
  /-- the ids that the loop has given to other timers meanwhile -/
  taken : Nat := 0
  deriving DecidableEq, Repr

structure Config where
  options : Options
  callbacks : Callbacks

/-- `if (m_xCallback)` -/
def isSet (cfg : Config) : Callback → Bool
  | .message _ => cfg.callbacks.message
  | .writeComplete => cfg.callbacks.writeComplete
  | .close => cfg.callbacks.close
  | .error _ => cfg.callbacks.error

/-! ## The members, up to their callbacks -/

def nowMs (k : Answers) : UInt32 := UInt32.ofNat (k.tick % 2 ^ 32).toNat

def touchActive (k : Answers) (s : Session) : Session := { s with lastActiveTickMs := k.tick }

def idleFor (k : Answers) (s : Session) : Int := k.tick - s.lastActiveTickMs

def cancelUpdateTimer (s : Session) : Session :=
  if s.updateTimerId ≠ 0 then
    { s with timers := s.timers.filter (·.id ≠ s.updateTimerId), updateTimerId := 0 }
  else s

def scheduleUpdate (now : UInt32) (k : Answers) (s : Session) : Session :=
  if s.state = .disconnected then s
  else
    let next := k.check
    let delay := if next ≤ now then 0 else (next - now).toNat
    let s := cancelUpdateTimer s
    let id := s.nextTimerId + k.taken
    { s with updateTimerId := id, timers := s.timers ++ [⟨id, delay⟩], nextTimerId := id + 1 }

/-- What a member leaves of the session, and what it has still to do. -/
abbrev Todo := Session × List Task

/-- `handleError`; without a callback it only logs. -/
def handleError (code : ErrorCode) (message : String) : Task := .invoke (.error ⟨code, message, 0⟩)

def handleClose (s : Session) : Todo :=
  if s.state = .disconnected then (s, [])
  else ({ cancelUpdateTimer s with state := .disconnected }, [.invoke .close])

def connectEstablished (k : Answers) (s : Session) : Todo :=
  (scheduleUpdate (nowMs k) k { s with state := .connected }, [])

def connectDestroyed (s : Session) : Todo :=
  if s.state = .disconnected then (s, []) else ({ cancelUpdateTimer s with state := .disconnected }, [])

def sendInLoop (data : List UInt8) (k : Answers) (s : Session) : Todo :=
  if s.state = .disconnected ∨ s.state = .disconnecting then (s, [])
  else if data.length > 2 ^ 31 - 1 then (s, [handleError .invalidArgument "KcpSession send payload too large"])
  else if k.send < 0 then (s, [handleError .ioError "KcpSession ikcp_send failed"])
  else (scheduleUpdate (nowMs k) k (touchActive k s), [])

def send (data : List UInt8) (k : Answers) (s : Session) : Todo :=
  if data.isEmpty then (s, []) else sendInLoop data k s

def inputPacketInLoop (k : Answers) (s : Session) : Todo :=
  if s.state = .disconnected then (s, [])
  else if k.input < 0 then (s, [handleError .parseError ("KcpSession ikcp_input failed: " ++ toString k.input)])
  else (touchActive k s, [.drainTurn, .inputEnd])

def inputPacket (packet : List UInt8) (k : Answers) (s : Session) : Todo :=
  if packet.isEmpty then (s, []) else inputPacketInLoop k s

/-- The last test of `inputPacketInLoop` and `updateInLoop`. -/
def closeIfSent (k : Answers) (s : Session) : Todo :=
  if s.state = .disconnecting ∧ k.waitsnd = 0 then handleClose s else (s, [])

def inputEnd (k : Answers) (s : Session) : Todo := closeIfSent k (scheduleUpdate (nowMs k) k s)

def updateInLoop (k : Answers) (s : Session) : Todo :=
  if s.state = .disconnected then (s, []) else (s, [.drainTurn, .updateEnd (nowMs k)])

def updateEnd (cfg : Config) (now : UInt32) (k : Answers) (s : Session) : Todo :=
  let s := scheduleUpdate now k s
  if cfg.options.idleTimeout > 0 ∧ idleFor k s ≥ cfg.options.idleTimeout then
    (s, [handleError .timeout "KcpSession idle timeout", .handleClose])
  else closeIfSent k s

/-- `static_cast<int>(m_options.maxMessageBytes)` -/
def maxMessageInt (cfg : Config) : Int := (cfg.options.maxMessageBytes : Int).bmod (2 ^ 32)

/-- One turn of the loop in `drainRecvQueue`. -/
def drainTurn (cfg : Config) (k : Answers) (s : Session) : Todo :=
  if k.peek < 0 then (s, [.drainEnd])
  else if k.peek > maxMessageInt cfg then (s, [handleError .invalidState "KcpSession message too large", .handleClose])
  else
    match k.recv with
    | none => (s, [.drainEnd])
    | some payload => (touchActive k s, [.invoke (.message payload), .drainTurn])

def drainEnd (cfg : Config) (k : Answers) (s : Session) : Todo :=
  if cfg.callbacks.writeComplete ∧ k.waitsnd = 0 then (s, [.invoke .writeComplete]) else (s, [])

def shutdown (k : Answers) (s : Session) : Todo :=
  if s.state = .disconnected then (s, [])
  else
    let s := { s with state := .disconnecting }
    if k.waitsnd = 0 then handleClose s else (s, [])

def forceClose (s : Session) : Todo := handleClose s

/-! ## The machine -/

inductive Call where
  | connectEstablished
  | connectDestroyed
  | send (data : List UInt8)
  | inputPacket (packet : List UInt8)
  | shutdown
  | forceClose
  deriving DecidableEq, Repr

inductive Label where
  /-- the task on top goes on -/
  | next (k : Answers)
  /-- user code, or with an empty stack the loop, calls -/
  | call (c : Call) (k : Answers)
  /-- a callback returns -/
  | returns
  /-- a timer of the session fires -/
  | fire (timer : Timer) (k : Answers)
  deriving DecidableEq, Repr

structure Sys where
  session : Session
  stack : List Task
  established : Bool
  closes : Nat
  deriving DecidableEq, Repr

/-- A member has run: its tasks go on top of `rest`. -/
def Sys.did (s : Sys) (t : Todo) (rest : List Task) : Sys := { s with session := t.1, stack := t.2 ++ rest }

/-- A callback begins. -/
def Sys.begins (s : Sys) (cb : Callback) (rest : List Task) : Sys :=
  { s with stack := .user :: rest, closes := s.closes + if cb = .close then 1 else 0 }

def next (cfg : Config) (k : Answers) (s : Sys) : Task → List Task → Option Sys
  | .invoke cb, rest => some (if isSet cfg cb then s.begins cb rest else s.did (s.session, []) rest)
  | .user, _ => none
  | .handleClose, rest => some (s.did (handleClose s.session) rest)
  | .drainTurn, rest => some (s.did (drainTurn cfg k s.session) rest)
  | .drainEnd, rest => some (s.did (drainEnd cfg k s.session) rest)
  | .inputEnd, rest => some (s.did (inputEnd k s.session) rest)
  | .updateEnd now, rest => some (s.did (updateEnd cfg now k s.session) rest)

def perform (k : Answers) (s : Session) : Call → Todo
  | .connectEstablished => connectEstablished k s
  | .connectDestroyed => connectDestroyed s
  | .send data => send data k s
  | .inputPacket packet => inputPacket packet k s
  | .shutdown => shutdown k s
  | .forceClose => forceClose s

/-- `connectEstablished` comes once, before anything else; then user code may call in a callback, or between handlers. -/
def mayCall (s : Sys) (c : Call) : Bool :=
  if c = .connectEstablished then !s.established
  else
    s.established &&
      match s.stack with
      | [] => true
      | .user :: _ => true
      | _ => false

def step (cfg : Config) (s : Sys) : Label → Option Sys
  | .next k =>
    match s.stack with
    | task :: rest => next cfg k s task rest
    | [] => none
  | .call c k =>
    if mayCall s c then some ({ s with established := true }.did (perform k s.session c) s.stack) else none
  | .returns =>
    match s.stack with
    | .user :: rest => some { s with stack := rest }
    | _ => none
  | .fire timer k =>
    if s.stack = [] ∧ timer ∈ s.session.timers then
      let session := { s.session with timers := s.session.timers.erase timer }
      some (s.did (updateInLoop k session) [])
    else none

/-- A session that was constructed at a time, with the next id of its loop. -/
def make (tick : Int) (nextTimerId : Nat) : Sys := ⟨⟨.connecting, 0, tick, [], nextTimerId⟩, [], false, 0⟩

/-- The ids of a loop begin with 1. -/
def session (cfg : Config) (tick : Int) (timersBefore : Nat) : Lib.Machine Sys Label :=
  ⟨make tick (timersBefore + 1), step cfg⟩

/-- The callback a step starts. -/
def starts (cfg : Config) (s : Sys) : Label → Option Callback
  | .next _ =>
    match s.stack with
    | .invoke cb :: _ => if isSet cfg cb then some cb else none
    | _ => none
  | _ => none

end Dbase.Net.KcpSession
