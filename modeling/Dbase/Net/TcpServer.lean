/-
  Dbase.Net.TcpServer — `TcpServer`: the registry of connections, the loops that run them, and the idle
  check, in any interleaving.

  Loop 0 is the server's own (`m_loop`); 1, 2, .. are those of the thread pool. A loop is its queue
  of functors, oldest first, and what its thread is in the middle of. Each connection is a machine of
  `TcpConnectionSteps`, and a step of it is a step here; its close callback is `removeConnection`. A
  functor begins when the loop thread is in no handler of a connection and in no check. A connection
  is in user code's hands from `connectEstablished` on.

  `checkIdleConnections` makes a step of each load, each reading of the clock and each `queueInLoop`, and
  the stores of `touchActive` are steps too. `newConnection`, `removeConnectionInLoop` and the functor of a
  heartbeat up to its callback are one step each. The clock counts nanoseconds.

  The settings are those of `start()`; no step changes them. The fields of a member from `establishes` on
  record what has happened to it.
-/

import Dbase.Net.TcpConnectionSteps

namespace Dbase.Net.TcpServer

open Dbase.Net.Buffer (SysRead SysWrite Buf)
open Dbase.Net.TcpConnection (Callbacks Conn OutputOverflowPolicy)
open Dbase.Net.TcpConnection.Steps (Sys Task Label)

structure Config where
  name : String
  threadCount : Nat
  conn : TcpConnection.Steps.Config
  /-- the input buffer of a new connection -/
  input : Buf
  connectionCallback : Bool
  writeCompleteCallback : Bool
  highWaterMarkCallback : Bool
  heartbeatCallback : Bool
  idleCallback : Bool
  maxOutputBufferBytes : Nat
  outputOverflowPolicy : OutputOverflowPolicy
  autoReadFlowControlEnabled : Bool
  readPauseHighWaterMark : Nat
  readResumeLowWaterMark : Nat
  /-- in milliseconds -/
  idleTimeout : Nat
  /-- in milliseconds -/
  heartbeatInterval : Nat

/-- What is queued in a loop, by the index of its connection. -/
inductive Functor where
  | connectEstablished (i : Nat)
  | connectDestroyed (i : Nat)
  | removeConnectionInLoop (i : Nat)
  /-- what a call of the connection from another thread queued: the oldest of its own queue -/
  | connection (i : Nat)
  | heartbeat (i : Nat)
  | forceClose (i : Nat)
  | idle (i : Nat)
  deriving DecidableEq, Repr

/-- How far the loop thread is in the stores of `touchActive` or `connectEstablished`. -/
inductive Touch where
  | done
  | lastActive (tick : Nat)
  | lastProbe
  deriving DecidableEq, Repr

structure Member where
  name : String
  ioLoop : Nat
  sys : Sys
  lastActiveAtTick : Nat
  lastProbeAtTick : Nat
  touch : Touch
  establishes : Nat
  removals : Nat
  destroys : Nat
  /-- when data was received last -/
  lastData : Option Nat
  /-- when a heartbeat callback was started last, since data was received -/
  lastBeat : Option Nat
  deriving DecidableEq, Repr

/-- Where `checkIdleConnections` is with a connection. -/
inductive Stage where
  /-- the head of the loop over `m_connections`, or past it -/
  | visit
  | idleFor (i : Nat)
  /-- `idleFor` has loaded the tick -/
  | idleNow (i tick : Nat)
  | lastProbeAt (i idle : Nat)
  | probeIdleFor (i idle : Nat)
  /-- `probeIdleFor` has loaded the tick -/
  | probeNow (i idle tick : Nat)
  deriving DecidableEq, Repr

structure Check where
  stage : Stage
  todo : List Nat
  heartbeatConnections : List Nat
  idleConnections : List Nat
  deriving DecidableEq, Repr

structure Server where
  queues : Nat → List Functor
  connections : List (String × Nat)
  nextConnId : Nat
  /-- `m_next` of the thread pool -/
  next : Nat
  /-- every connection there has been -/
  members : List Member
  check : Option Check
  clock : Nat

inductive Act where
  | accept
  | connection (i : Nat) (a : Label)
  | touch (i : Nat)
  | functor (loop : Nat) (r : SysWrite)
  /-- the timer calls `checkIdleConnections`; the order in which it will find the connections -/
  | startCheck (order : List Nat)
  | check
  | tick (now : Nat)
  deriving DecidableEq, Repr

/-! ## Time -/

def nsPerTick : Nat := 1000

def nsPerMs : Nat := 1000000

def toTick (now : Nat) : Nat := now / nsPerTick

def fromTick (tick : Nat) : Nat := tick * nsPerTick

/-- `idleFor()` and `probeIdleFor()`, in milliseconds. -/
def sinceTick (now tick : Nat) : Nat := if tick = 0 then 0 else (now - fromTick tick) / nsPerMs

/-- How often `startIdleCheck` has the check run, in milliseconds; 0 for never. -/
def baseInterval (cfg : Config) : Nat :=
  if 0 < cfg.idleTimeout ∧ 0 < cfg.heartbeatInterval then
    min (max 1000 (cfg.idleTimeout / 2)) cfg.heartbeatInterval
  else if 0 < cfg.idleTimeout then max 1000 (cfg.idleTimeout / 2)
  else if 0 < cfg.heartbeatInterval then cfg.heartbeatInterval
  else 0

/-! ## The registry and the loops -/

def emplace (name : String) (i : Nat) (l : List (String × Nat)) : List (String × Nat) :=
  if l.any (·.1 = name) then l else l ++ [(name, i)]

def erase (name : String) (l : List (String × Nat)) : List (String × Nat) := l.filter (·.1 ≠ name)

namespace Server

def queueInLoop (loop : Nat) (f : Functor) (s : Server) : Server :=
  { s with queues := Function.update s.queues loop (s.queues loop ++ [f]) }

def put (i : Nat) (m : Member) (s : Server) : Server := { s with members := s.members.set i m }

/-- The thread of a loop is in no handler and in no check. -/
def idle (s : Server) (loop : Nat) : Bool :=
  (decide (loop ≠ 0) || s.check.isNone) &&
    s.members.all fun m => decide (m.ioLoop ≠ loop) || (m.sys.stack.isEmpty && decide (m.touch = .done))

end Server

variable (cfg : Config)

/-- `EventLoopThreadPool::getNextLoop`, with `m_next` after it. -/
def getNextLoop (next : Nat) : Nat × Nat :=
  if cfg.threadCount = 0 then (0, next)
  else (next + 1, if next + 1 ≥ cfg.threadCount then 0 else next + 1)

def serverName : String := if cfg.name = "" then "TcpServer" else cfg.name

def connName (id : Nat) : String := serverName cfg ++ "-" ++ toString id

def callbacks : Callbacks where
  connection := cfg.connectionCallback
  writeComplete := cfg.writeCompleteCallback
  close := true
  error := false
  highWaterMark := cfg.highWaterMarkCallback

def configured : Conn :=
  let c := { TcpConnection.make (callbacks cfg) with
    maxOutputBufferBytes := cfg.maxOutputBufferBytes, outputOverflowPolicy := cfg.outputOverflowPolicy }
  if cfg.autoReadFlowControlEnabled then
    TcpConnection.enableAutoReadFlowControl cfg.readPauseHighWaterMark cfg.readResumeLowWaterMark c
  else c

def newMember (name : String) (ioLoop : Nat) : Member where
  name := name
  ioLoop := ioLoop
  sys := { TcpConnection.Steps.make (callbacks cfg) cfg.input with conn := configured cfg }
  lastActiveAtTick := 0
  lastProbeAtTick := 0
  touch := .done
  establishes := 0
  removals := 0
  destroys := 0
  lastData := none
  lastBeat := none

/-- `connectEstablished()` up to its stores, unless it throws. -/
def connectEstablished (i : Nat) (s : Server) : Option Server :=
  (s.members[i]?).bind fun m =>
    (TcpConnection.Steps.step cfg.conn m.sys (.call .connectEstablished (.take 0))).map fun sys =>
      s.put i { m with sys := sys, touch := .lastActive (toTick s.clock), establishes := m.establishes + 1 }

/-- A connection is made and registered. -/
def register (s : Server) : Server :=
  { s with
    members := s.members ++ [newMember cfg (connName cfg s.nextConnId) (getNextLoop cfg s.next).1]
    connections := emplace (connName cfg s.nextConnId) s.members.length s.connections
    nextConnId := s.nextConnId + 1
    next := (getNextLoop cfg s.next).2 }

/-- `newConnection`; its `runInLoop` runs at once on the server's own loop. -/
def newConnection (s : Server) : Option Server :=
  if (getNextLoop cfg s.next).1 = 0 then connectEstablished cfg s.members.length (register cfg s)
  else some ((register cfg s).queueInLoop (getNextLoop cfg s.next).1 (.connectEstablished s.members.length))

def removeConnectionInLoop (i : Nat) (m : Member) (s : Server) : Server :=
  if s.connections.any (·.1 = m.name) then
    ({ s with connections := erase m.name s.connections }.put i { m with removals := m.removals + 1 }).queueInLoop
      m.ioLoop (.connectDestroyed i)
  else s

/-- The functor of a heartbeat: `markKeepAliveProbeSent`, and the callback starts. -/
def heartbeat (i : Nat) (m : Member) (s : Server) : Server :=
  s.put i { m with lastProbeAtTick := toTick s.clock, lastBeat := some s.clock }

/-- A connection steps, and nothing else. -/
def stepMember (i : Nat) (a : Label) (s : Server) : Option Server :=
  (s.members[i]?).bind fun m =>
    (TcpConnection.Steps.step cfg.conn m.sys a).map fun sys => s.put i { m with sys := sys }

def connectDestroyed (i : Nat) (s : Server) : Option Server :=
  (s.members[i]?).bind fun m =>
    (TcpConnection.Steps.step cfg.conn m.sys (.call .connectDestroyed (.take 0))).map fun sys =>
      s.put i { m with sys := sys, destroys := m.destroys + 1 }

def runFunctor (f : Functor) (r : SysWrite) (s : Server) : Option Server :=
  match f with
  | .connectEstablished i => connectEstablished cfg i s
  | .connectDestroyed i => connectDestroyed cfg i s
  | .removeConnectionInLoop i => (s.members[i]?).map fun m => removeConnectionInLoop i m s
  | .connection i => stepMember cfg i (.functor r) s
  | .heartbeat i => (s.members[i]?).map fun m => heartbeat i m s
  | .forceClose i => stepMember cfg i (.call (.api .forceClose) (.take 0)) s
  | .idle _ => some s

/-! ## The connections -/

/-- The read of `handleRead` returns bytes. -/
def receives (sys : Sys) (r : SysRead) : Bool :=
  match (Buffer.readFdResult cfg.conn.alloc sys.inputBuffer r).1 with
  | .ok (.ok io) => decide (io.status = .ok)
  | _ => false

/-- Whether a step of a connection may be taken now; the steps of its life are the server's. -/
def mayStep (s : Server) (m : Member) : Label → Bool
  | .other _ => true
  | .call .connectEstablished _ => false
  | .call .connectDestroyed _ => false
  | .functor _ => false
  | .event _ => s.idle m.ioLoop
  | _ => decide (m.touch = .done) && (decide (m.ioLoop ≠ 0) || s.check.isNone)

def closeIsNext (sys : Sys) : Label → Bool
  | .next => decide (sys.stack.head? = some (.invoke .close))
  | _ => false

/-- The close callback of a connection runs: `removeConnection`. -/
def removeConnection (i : Nat) (m : Member) (s : Server) : Option Server :=
  ((TcpConnection.Steps.step cfg.conn m.sys .next).bind (TcpConnection.Steps.step cfg.conn · .returns)).map fun sys =>
    (s.put i { m with sys := sys }).queueInLoop 0 (.removeConnectionInLoop i)

/-- What a step of a connection does besides: bytes that came in are to be noted, and a call of another
    thread reaches the queue of the loop. -/
def stepped (i : Nat) (m : Member) (a : Label) (sys : Sys) (s : Server) : Server :=
  match a with
  | .other (.queueInLoop _) => (s.put i { m with sys := sys }).queueInLoop m.ioLoop (.connection i)
  | .read r =>
    if receives cfg m.sys r then
      s.put i
        { m with sys := sys, touch := .lastActive (toTick s.clock), lastData := some s.clock, lastBeat := none }
    else s.put i { m with sys := sys }
  | _ => s.put i { m with sys := sys }

def connectionStep (i : Nat) (a : Label) (s : Server) : Option Server :=
  (s.members[i]?).bind fun m =>
    if m.establishes = 0 ∨ mayStep s m a = false then none
    else if closeIsNext m.sys a then removeConnection cfg i m s
    else (TcpConnection.Steps.step cfg.conn m.sys a).map fun sys => stepped cfg i m a sys s

/-- The next store of `touchActive` or `connectEstablished`. -/
def touchStep (i : Nat) (s : Server) : Option Server :=
  (s.members[i]?).bind fun m =>
    match m.touch with
    | .done => none
    | .lastActive tick => some (s.put i { m with lastActiveAtTick := tick, touch := .lastProbe })
    | .lastProbe => some (s.put i { m with lastProbeAtTick := 0, touch := .done })

/-! ## The idle check -/

/-- The check is done with a connection. -/
def Check.visits (c : Check) : Check := { c with stage := .visit }

def checkStage (c : Check) (i : Nat) (m : Member) (now : Nat) : Check :=
  match c.stage with
  | .visit => if m.sys.conn.state = .connected then { c with stage := .idleFor i } else c
  | .idleFor _ => { c with stage := .idleNow i m.lastActiveAtTick }
  | .idleNow _ tick =>
    let idle := sinceTick now tick
    if 0 < cfg.idleTimeout ∧ idle ≥ cfg.idleTimeout then { c.visits with idleConnections := c.idleConnections ++ [i] }
    else if 0 < cfg.heartbeatInterval ∧ cfg.heartbeatCallback then { c with stage := .lastProbeAt i idle }
    else c.visits
  | .lastProbeAt _ idle =>
    if m.lastProbeAtTick = 0 then
      if idle ≥ cfg.heartbeatInterval then { c.visits with heartbeatConnections := c.heartbeatConnections ++ [i] }
      else c.visits
    else { c with stage := .probeIdleFor i idle }
  | .probeIdleFor _ idle => { c with stage := .probeNow i idle m.lastProbeAtTick }
  | .probeNow _ idle tick =>
    if idle ≥ cfg.heartbeatInterval ∧ sinceTick now tick ≥ cfg.heartbeatInterval then
      { c.visits with heartbeatConnections := c.heartbeatConnections ++ [i] }
    else c.visits

/-- The connection the check looks at next, and the check with it taken off its list. -/
def Check.current (c : Check) : Option (Nat × Check) :=
  match c.stage with
  | .visit =>
    match c.todo with
    | i :: todo => some (i, { c with todo := todo })
    | [] => none
  | .idleFor i => some (i, c)
  | .idleNow i _ => some (i, c)
  | .lastProbeAt i _ => some (i, c)
  | .probeIdleFor i _ => some (i, c)
  | .probeNow i _ _ => some (i, c)

/-- What the check queues next, once the loop over `m_connections` has ended. -/
def Check.pop (c : Check) : Option (Nat × Functor × Check) :=
  match c.heartbeatConnections, c.idleConnections with
  | i :: rest, _ => some (i, .heartbeat i, { c with heartbeatConnections := rest })
  | [], i :: rest => some (i, if cfg.idleCallback then .idle i else .forceClose i, { c with idleConnections := rest })
  | [], [] => none

def checkStep (c : Check) (s : Server) : Option Server :=
  match c.current with
  | some (i, c) => (s.members[i]?).map fun m => { s with check := some (checkStage cfg c i m s.clock) }
  | none =>
    match c.pop cfg with
    | some (i, f, c) => (s.members[i]?).map fun m => { s with check := some c }.queueInLoop m.ioLoop f
    | none => some { s with check := none }

/-! ## The machine -/

def step (s : Server) : Act → Option Server
  | .accept => if s.idle 0 then newConnection cfg s else none
  | .connection i a => connectionStep cfg i a s
  | .touch i => touchStep i s
  | .functor loop r =>
    match s.queues loop with
    | f :: rest =>
      if s.idle loop then runFunctor cfg f r { s with queues := Function.update s.queues loop rest } else none
    | [] => none
  | .startCheck order =>
    if s.idle 0 ∧ 0 < baseInterval cfg ∧ order.Perm (s.connections.map (·.2)) then
      some { s with check := some ⟨.visit, order, [], []⟩ }
    else none
  | .check =>
    match s.check with
    | some c => checkStep cfg c s
    | none => none
  | .tick now => if s.clock ≤ now then some { s with clock := now } else none

def make : Server := ⟨fun _ => [], [], 1, 0, [], none, 0⟩

def server : Lib.Machine Server Act := ⟨make, step cfg⟩

end Dbase.Net.TcpServer
