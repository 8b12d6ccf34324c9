/-
  Dbase.Net.TcpClient — `TcpClient` (`tcp_client.h`, `tcp_client.cpp`) over its connector, on one loop.

  A connection is known by the number of its creation, and only its state is kept. `handleClose` sets the state,
  runs the connection callback and then `removeConnection`: a connection in between is in `closing`, innermost
  first. The callback may make any call of the client and close other connections, but no functor, timer or
  event of the loop runs meanwhile.

  A call from another thread is what it does to what the threads share, in any order: each store and
  each `queueInLoop` is a step of its own (`Effect`), so every interleaving of such calls is a run. Among these are
  runs in which the store of a `shutdown` brings a closed connection back to Disconnecting. Its second close can make the
  functor of `restart` meet an attempt under way, whose channel is then destroyed while the poller has it; an event of
  that channel is a use after free in the source and no step here.
-/

import Dbase.Net.Connector
import Dbase.Net.TcpConnection

namespace Dbase.Net.TcpClient

open Dbase.Lib

/-- What else is in the loop's queue. -/
inductive Queued where
  | startInLoop
  | cancelTimerInLoop (id : Nat)
  | connectDestroyed (id : Nat)
  | shutdownInLoop (id : Nat)
  | forceCloseInLoop (id : Nat)
  deriving DecidableEq, Repr

structure Client where
  connector : Connector.Conn Queued
  connectRequested : Bool
  retry : Bool
  conns : List TcpConnection.State
  connection : Option Nat
  closing : List Nat
  deriving DecidableEq, Repr

/-- The constructor. -/
def make : Client := ⟨Connector.setNewConnectionCallback true Connector.make, false, false, [], none, []⟩

def queueInLoop (f : Connector.Functor Queued) (s : Client) : Client :=
  { s with connector := { s.connector with functors := s.connector.functors ++ [f] } }

/-! ## Connections -/

/-- `shutdown()` on the loop thread; what is left to write is not kept. -/
def shutdown (id : Nat) (s : Client) : Client :=
  if s.conns[id]? = some .connected then { s with conns := s.conns.set id .disconnecting } else s

/-- `handleClose()` until it calls back. -/
def handleClose (id : Nat) (s : Client) : Client :=
  match s.conns[id]? with
  | none | some .disconnected => s
  | some _ => { s with conns := s.conns.set id .disconnected, closing := id :: s.closing }

def connectDestroyed (id : Nat) (s : Client) : Client := { s with conns := s.conns.set id .disconnected }

/-- `addresses` is whether the addresses of the socket can be had; if not, an exception leaves. -/
def newConnection (addresses : Bool) (s : Client) : Client :=
  if !s.connectRequested then s
  else if !addresses then s
  else { s with conns := s.conns ++ [.connected], connection := some s.conns.length }

def removeConnection (id : Nat) (s : Client) : Client :=
  let s := if s.connection = some id then { s with connection := none } else s
  let s := queueInLoop (.other (.connectDestroyed id)) s
  if s.retry && s.connectRequested then { s with connector := Connector.restart s.connector } else s

/-! ## The calls -/

def enableRetry (on : Bool) (s : Client) : Client := { s with retry := on }

def connect (answer : Connector.Attempt) (s : Client) : Client :=
  { s with connectRequested := true, connector := Connector.start answer s.connector }

def disconnect (s : Client) : Client :=
  let s := { s with connectRequested := false }
  match s.connection with
  | some id => shutdown id s
  | none => { s with connector := Connector.stop s.connector }

def stop (s : Client) : Client :=
  let s := { s with connectRequested := false, connector := Connector.stop s.connector }
  match s.connection with
  | some id => handleClose id s
  | none => s

/-- What another thread does. -/
inductive Effect where
  | storeConnectRequested (on : Bool)
  | storeStarted (on : Bool)
  /-- `cancelRetry` forgets the timer -/
  | clearRetryTimerId
  /-- `shutdown` has seen Connected, perhaps long ago -/
  | storeDisconnecting (id : Nat)
  | queueStartInLoop
  | queueStopInLoop
  | queueCancelTimer (id : Nat)
  | queueShutdown (id : Nat)
  | queueForceClose (id : Nat)
  deriving DecidableEq, Repr

def effect (e : Effect) (s : Client) : Client :=
  match e with
  | .storeConnectRequested on => { s with connectRequested := on }
  | .storeStarted on => { s with connector := { s.connector with started := on } }
  | .clearRetryTimerId => { s with connector := { s.connector with retryTimerId := 0 } }
  | .storeDisconnecting id => { s with conns := s.conns.set id .disconnecting }
  | .queueStartInLoop => queueInLoop (.other .startInLoop) s
  | .queueStopInLoop => queueInLoop .stopInLoop s
  | .queueCancelTimer id => queueInLoop (.other (.cancelTimerInLoop id)) s
  | .queueShutdown id => queueInLoop (.other (.shutdownInLoop id)) s
  | .queueForceClose id => queueInLoop (.other (.forceCloseInLoop id)) s

/-! ## The loop -/

def runQueued (answer : Connector.Attempt) (f : Queued) (s : Client) : Client :=
  match f with
  | .startInLoop => { s with connector := Connector.startInLoop answer s.connector }
  | .cancelTimerInLoop id => { s with connector := Connector.cancelTimer id s.connector }
  | .connectDestroyed id => connectDestroyed id s
  | .shutdownInLoop _ => s
  | .forceCloseInLoop id => handleClose id s

def runFunctor (answer : Connector.Attempt) (f : Connector.Functor Queued) (s : Client) : Client :=
  match f with
  | .other f => runQueued answer f s
  | f => { s with connector := Connector.runFunctor answer f s.connector }

inductive Act where
  | enableRetry (on : Bool)
  | setRetryDelayMs (initialDelayMs maxDelayMs : Int)
  | connect (answer : Connector.Attempt)
  | disconnect
  | stop
  /-- by the user, who has the connection -/
  | shutdown (id : Nat)
  /-- by the peer, an error or the user -/
  | close (id : Nat)
  /-- the connection callback of the innermost `handleClose` has returned -/
  | closed
  | functor (answer : Connector.Attempt)
  | fire (id : Nat) (answer : Connector.Attempt)
  | event (error write : Bool) (soError : Int) (selfConnect : Option Bool) (addresses : Bool)
  | other (e : Effect)
  deriving DecidableEq, Repr

def closed (s : Client) : Option Client :=
  match s.closing with
  | [] => none
  | id :: rest => some (removeConnection id { s with closing := rest })

def functor (answer : Connector.Attempt) (s : Client) : Option Client :=
  match s.closing, s.connector.functors with
  | [], f :: fs => some (runFunctor answer f { s with connector := { s.connector with functors := fs } })
  | _, _ => none

def fire (id : Nat) (answer : Connector.Attempt) (s : Client) : Option Client :=
  if s.closing.isEmpty then (Connector.fire id answer s.connector).map fun c => { s with connector := c } else none

def event (error write : Bool) (soError : Int) (selfConnect : Option Bool) (addresses : Bool) (s : Client) :
    Option Client :=
  if s.closing.isEmpty then
    (Connector.event error write soError selfConnect s.connector).map fun (c, called) =>
      let s := { s with connector := c }
      if called then newConnection addresses s else s
  else none

def step (s : Client) : Act → Option Client
  | .enableRetry on => some (enableRetry on s)
  | .setRetryDelayMs initialDelayMs maxDelayMs =>
    some { s with connector := Connector.setRetryDelayMs initialDelayMs maxDelayMs s.connector }
  | .connect answer => some (connect answer s)
  | .disconnect => some (disconnect s)
  | .stop => some (stop s)
  | .shutdown id => some (shutdown id s)
  | .close id => some (handleClose id s)
  | .closed => closed s
  | .functor answer => functor answer s
  | .fire id answer => fire id answer s
  | .event error write soError selfConnect addresses => event error write soError selfConnect addresses s
  | .other e => some (effect e s)

def machine : Machine Client Act := ⟨make, step⟩

end Dbase.Net.TcpClient
