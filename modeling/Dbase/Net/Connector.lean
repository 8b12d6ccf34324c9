/-
  Dbase.Net.Connector — `Connector` (`connector.h`, `connector.cpp`) on its loop thread.

  There `start` runs inline, `stop` and `restart` act through the loop's queue, and a failed attempt comes
  back through a timer. The queue is the loop's: `φ` is what others put into it. A socket is known by the
  number of its creation, a channel by its socket. What the system decides is an argument: the answer to a
  connect, the error of a socket, whether it is connected to itself.

  `opened` are the sockets that are neither closed nor handed over, `registered` the channels the poller has,
  `destroyed` the channels that no longer exist. `last` is the last call, and `delivered` whether a connection was
  delivered since. No member reads them.

  An event is that of the channel the connector has. A channel that was destroyed while the poller had it
  (`Connector.registered_channel_is_destroyed`) can have events too: a use after free in the source, and no step here.
-/

import Dbase.Lib.Machine

namespace Dbase.Net.Connector

open Dbase.Lib

variable {φ : Type}

inductive State where
  | disconnected
  | connecting
  | connected
  deriving DecidableEq, Repr

inductive Functor (φ : Type) where
  | stopInLoop
  /-- the functor of `restart` -/
  | restartInLoop
  | deleteChannel (ch : Nat)
  | other (f : φ)
  deriving DecidableEq, Repr

inductive Call where
  | start
  | stop
  | restart
  deriving DecidableEq, Repr

structure Conn (φ : Type) where
  started : Bool
  state : State
  channel : Option Nat
  socket : Option Nat
  initialRetryDelayMs : Int
  maxRetryDelayMs : Int
  retryDelayMs : Int
  /-- whether it is set -/
  newConnectionCallback : Bool
  /-- 0 is none -/
  retryTimerId : Nat
  functors : List (Functor φ)
  /-- the retry timers that are armed, each with its delay -/
  timers : List (Nat × Int)
  nextTimerId : Nat
  nextSocket : Nat
  opened : List Nat
  registered : List Nat
  destroyed : List Nat
  last : Option Call
  delivered : Bool
  deriving DecidableEq, Repr

/-- The constructor. -/
def make : Conn φ :=
  ⟨false, .disconnected, none, none, 500, 30000, 500, false, 0, [], [], 1, 0, [], [], [], none, false⟩

/-! ## Errors -/

def ewouldblock : Int := 11
def enetunreach : Int := 101
def econnreset : Int := 104
def etimedout : Int := 110
def econnrefused : Int := 111
def ehostunreach : Int := 113
def ealready : Int := 114
def einprogress : Int := 115

def isInProgressError (err : Int) : Bool := err == einprogress || err == ealready || err == ewouldblock

def isRetryableConnectError (err : Int) : Bool :=
  err == econnrefused || err == enetunreach || err == ehostunreach || err == etimedout || err == econnreset

/-- How the system answers an attempt. -/
inductive Attempt where
  /-- there is no socket to be had, and `createNonblockingSocket` throws -/
  | noSocket
  /-- `SocketOps::connect` returns no error; `soError` is the socket's -/
  | succeeded (soError : Int)
  | failed (errno : Int)
  deriving DecidableEq, Repr

/-! ## Timers and sockets -/

def setState (state : State) (c : Conn φ) : Conn φ := { c with state := state }

def setNewConnectionCallback (on : Bool) (c : Conn φ) : Conn φ := { c with newConnectionCallback := on }

def setRetryDelayMs (initialDelayMs maxDelayMs : Int) (c : Conn φ) : Conn φ :=
  let initialDelayMs := if initialDelayMs ≤ 0 then 1 else initialDelayMs
  let maxDelayMs := if maxDelayMs < initialDelayMs then initialDelayMs else maxDelayMs
  { c with initialRetryDelayMs := initialDelayMs, maxRetryDelayMs := maxDelayMs, retryDelayMs := initialDelayMs }

/-- `cancelTimer`, on the loop thread. -/
def cancelTimer (id : Nat) (c : Conn φ) : Conn φ := { c with timers := c.timers.filter (·.1 ≠ id) }

def cancelRetry (c : Conn φ) : Conn φ :=
  if c.retryTimerId ≠ 0 then cancelTimer c.retryTimerId { c with retryTimerId := 0 } else c

/-- `m_retryTimerId = m_loop->runAfter(..)`. -/
def runAfter (delay : Int) (c : Conn φ) : Conn φ :=
  { c with
    retryTimerId := c.nextTimerId
    timers := c.timers ++ [(c.nextTimerId, if delay < 0 then 0 else delay)]
    nextTimerId := c.nextTimerId + 1 }

/-- The end of `retry`: the doubling is that of a 32-bit `int`. -/
def doubleDelay (c : Conn φ) : Conn φ :=
  if c.retryDelayMs < c.maxRetryDelayMs then
    let delay := (c.retryDelayMs * 2).bmod (2 ^ 32)
    { c with retryDelayMs := if c.maxRetryDelayMs < delay then c.maxRetryDelayMs else delay }
  else c

def retry (c : Conn φ) : Conn φ :=
  let c := setState .disconnected c
  if c.started then doubleDelay (runAfter c.retryDelayMs (cancelRetry c)) else c

def openSocket (c : Conn φ) : Conn φ := { c with nextSocket := c.nextSocket + 1, opened := c.nextSocket :: c.opened }

/-- The socket is closed, or is no longer the connector's. -/
def closeSocket (sock : Option Nat) (c : Conn φ) : Conn φ := { c with opened := c.opened.filter (some · ≠ sock) }

/-- What it returns is `m_socket` before it. -/
def removeAndResetChannelRaw (c : Conn φ) : Conn φ :=
  match c.channel with
  | none => { c with socket := none }
  | some ch =>
    { c with
      channel := none
      socket := none
      registered := c.registered.erase ch
      functors := c.functors ++ [.deleteChannel ch] }

/-! ## Attempts -/

/-- The assignment to `m_channel` destroys the channel it held. -/
def connecting (sock : Nat) (c : Conn φ) : Conn φ :=
  { c with
    state := .connecting
    socket := some sock
    channel := some sock
    destroyed := c.channel.toList ++ c.destroyed
    registered := sock :: c.registered }

def connect (answer : Attempt) (c : Conn φ) : Conn φ :=
  let sock := c.nextSocket
  match answer with
  | .noSocket => c
  | .succeeded err =>
    if err = 0 || isInProgressError err then connecting sock (openSocket c)
    else if isRetryableConnectError err then retry (closeSocket (some sock) (openSocket c))
    else closeSocket (some sock) (openSocket c)
  | .failed err =>
    if isInProgressError err then connecting sock (openSocket c)
    else if isRetryableConnectError err then retry (closeSocket (some sock) (openSocket c))
    else closeSocket (some sock) (openSocket c)

def startInLoop (answer : Attempt) (c : Conn φ) : Conn φ :=
  if !c.started then c else if c.state = .disconnected then connect answer c else c

def stopInLoop (c : Conn φ) : Conn φ :=
  let c := { c with started := false }
  if c.state = .connecting then closeSocket c.socket (setState .disconnected (removeAndResetChannelRaw c))
  else if c.channel.isSome then closeSocket c.socket (removeAndResetChannelRaw c)
  else c

/-- With whether the socket goes to the callback. `selfConnect` is `none` where an address of the socket
    cannot be had: `isSelfConnect` throws, and the socket is closed as it goes out of scope. -/
def handleWrite (soError : Int) (selfConnect : Option Bool) (c : Conn φ) : Conn φ × Bool :=
  if c.state ≠ .connecting then (c, false)
  else
    let sock := c.socket
    let c := removeAndResetChannelRaw c
    if soError ≠ 0 then (retry (closeSocket sock c), false)
    else
      match selfConnect with
      | none => (closeSocket sock c, false)
      | some true => (retry (closeSocket sock c), false)
      | some false =>
        let c := { c with state := .connected, retryDelayMs := c.initialRetryDelayMs }
        if c.started && c.newConnectionCallback then (closeSocket sock { c with delivered := true }, true)
        else (closeSocket sock c, false)

def handleError (c : Conn φ) : Conn φ :=
  if c.state ≠ .connecting then c else retry (closeSocket c.socket (removeAndResetChannelRaw c))

/-- `handleEvent` of the channel: the error callback, then the write callback. -/
def handleEvent (error write : Bool) (soError : Int) (selfConnect : Option Bool) (c : Conn φ) : Conn φ × Bool :=
  let c := if error then handleError c else c
  if write then handleWrite soError selfConnect c else (c, false)

/-! ## The calls and the loop -/

/-- A call is noted. -/
def called (call : Call) (c : Conn φ) : Conn φ := { c with last := some call, delivered := false }

def start (answer : Attempt) (c : Conn φ) : Conn φ := startInLoop answer (called .start { c with started := true })

def stop (c : Conn φ) : Conn φ :=
  let c := cancelRetry (called .stop { c with started := false })
  { c with functors := c.functors ++ [.stopInLoop] }

def restart (c : Conn φ) : Conn φ :=
  let c := cancelRetry (called .restart c)
  { c with
    retryDelayMs := c.initialRetryDelayMs
    started := true
    functors := c.functors ++ [.restartInLoop] }

def runFunctor (answer : Attempt) : Functor φ → Conn φ → Conn φ
  | .stopInLoop, c => stopInLoop c
  | .restartInLoop, c => startInLoop answer (setState .disconnected c)
  | .deleteChannel ch, c => { c with destroyed := ch :: c.destroyed }
  | .other _, c => c

inductive Act where
  | setNewConnectionCallback (on : Bool)
  | setRetryDelayMs (initialDelayMs maxDelayMs : Int)
  | start (answer : Attempt)
  | stop
  | restart
  /-- the loop runs the functor that is next -/
  | functor (answer : Attempt)
  /-- a retry timer expires -/
  | fire (id : Nat) (answer : Attempt)
  | event (error write : Bool) (soError : Int) (selfConnect : Option Bool)
  deriving DecidableEq, Repr

def functor (answer : Attempt) (c : Conn φ) : Option (Conn φ) :=
  match c.functors with
  | [] => none
  | f :: fs => some (runFunctor answer f { c with functors := fs })

def fire (id : Nat) (answer : Attempt) (c : Conn φ) : Option (Conn φ) :=
  if c.timers.any (·.1 = id) then some (startInLoop answer (cancelTimer id c)) else none

def event (error write : Bool) (soError : Int) (selfConnect : Option Bool) (c : Conn φ) : Option (Conn φ × Bool) :=
  if c.channel.isSome then some (handleEvent error write soError selfConnect c) else none

def step (c : Conn φ) : Act → Option (Conn φ)
  | .setNewConnectionCallback on => some (setNewConnectionCallback on c)
  | .setRetryDelayMs initialDelayMs maxDelayMs => some (setRetryDelayMs initialDelayMs maxDelayMs c)
  | .start answer => some (start answer c)
  | .stop => some (stop c)
  | .restart => some (restart c)
  | .functor answer => functor answer c
  | .fire id answer => fire id answer c
  | .event error write soError selfConnect => (event error write soError selfConnect c).map (·.1)

def machine (φ : Type) : Machine (Conn φ) Act := ⟨make, step⟩

end Dbase.Net.Connector
