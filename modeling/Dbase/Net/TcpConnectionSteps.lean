/-
  Dbase.Net.TcpConnectionSteps — `TcpConnection` in small steps: the loop thread with its handlers and
  the user's callbacks, and other threads that call the connection meanwhile.

  The loop thread is a stack of tasks, what is still to be done, innermost first: a handler of
  `Channel::handleEventWithGuard`, the head of a loop in `handleRead`, `handleWrite` or
  `handleCodecMessages`, what follows a callback in a member, a callback to be invoked, or the
  user's code of one. User code makes any calls, one step each, and returns; it may also run
  outside the handlers of this connection (an empty stack), as in a timer or another
  connection's callback. The kernel's answers are labels. An exception that leaves a callback, a
  buffer or the codec leaves `loop()` too, so no step follows it.

  On another thread `send`, `forceClose` and `shutdown` look at the state first and call `queueInLoop`
  in a later step (`calls` holds those in between); `shutdown` also stores `Disconnecting` in a step of
  its own (`shutting` counts the calls that have seen `Connected` and not stored yet).

  The members without callbacks are those of `TcpConnection`; a half-close is its event in `log`. The
  fields from `established` on record what has happened; no step reads them.
-/

import Dbase.Lib.Machine
import Dbase.Net.FrameLoops
import Dbase.Net.TcpConnection

namespace Dbase.Net.TcpConnection.Steps

open Dbase.Net.Buffer (SysRead SysWrite Buf Alloc IoStatus IoResult taken socketWrite errnoOf isWouldBlockError)
open Dbase.Net.LengthFieldCodec (Codec tryDecode)
open Dbase.Net.FrameLoops (kCodecError)

/-- A callback, with its arguments besides the connection and the input buffer; the connection
    callback is `up` from `connectEstablished` and `down` from the two that end a connection. -/
inductive Callback where
  | up
  | down
  | close
  | message
  | frame (payload : List UInt8)
  | writeComplete
  | error (err : Int)
  | highWaterMark (bytes : Nat)
  deriving DecidableEq, Repr

inductive Task where
  | invoke (cb : Callback)
  /-- the code of a callback -/
  | user
  /-- the end of `handleErrorAndClose` -/
  | closeUnlessWouldBlock (err : Int)
  | handleClose
  | handleError
  | handleWrite
  /-- the head of the loop in `handleRead` -/
  | readTurn
  /-- the head of the loop in `handleCodecMessages` -/
  | codecTurn
  /-- the head of the loop in `handleWrite` -/
  | writeTurn
  /-- the end of `sendInLoop` after an append; `direct` if a direct write came before it -/
  | subscribe (direct : Bool)
  /-- the end of `handleWrite` -/
  | afterWriteComplete
  /-- the end of `connectDestroyed` -/
  | remove
  deriving DecidableEq, Repr

/-- A functor that a call on another thread queues. -/
inductive Functor where
  | sendInLoop (data : List UInt8)
  | shutdownInLoop
  | forceCloseInLoop
  | startRead
  | stopRead
  deriving DecidableEq, Repr

/-- What the loop thread calls. -/
inductive Call where
  | api (a : Api)
  /-- what user code does to `inputBuffer()` -/
  | input (b : Buf)
  | connectEstablished
  | connectDestroyed
  deriving DecidableEq, Repr

inductive Other where
  | send (data : List UInt8)
  | forceClose
  | startRead
  | stopRead
  /-- `shutdown` sees `Connected` -/
  | shutdown
  /-- `shutdown` stores `Disconnecting` -/
  | shutdownStore
  | queueInLoop (i : Nat)
  deriving DecidableEq, Repr

structure Revents where
  error : Bool
  read : Bool
  write : Bool
  close : Bool
  deriving DecidableEq, Repr

inductive Label where
  /-- the task on top goes on -/
  | next
  | read (r : SysRead)
  | write (r : SysWrite)
  | socketError (err : Int)
  /-- user code calls; the kernel's answer to a direct write -/
  | call (c : Call) (r : SysWrite)
  | returns
  | event (revents : Revents)
  | functor (r : SysWrite)
  | other (o : Other)
  deriving DecidableEq, Repr

structure Sys where
  conn : Conn
  inputBuffer : Buf
  stack : List Task
  queue : List Functor
  calls : List Functor
  shutting : Nat
  established : Bool
  /-- has been `Disconnected` -/
  closed : Bool
  /-- `connectDestroyed` has run -/
  destroyed : Bool
  ups : Nat
  downs : Nat
  closes : Nat
  /-- the last of `startRead` and `stopRead` was not `stopRead` -/
  wants : Bool
  deriving DecidableEq, Repr

/-- What does not change: the codec, and the two callbacks for input. -/
structure Config where
  alloc : Alloc
  codec : Option Codec
  messageCallback : Bool
  frameMessageCallback : Bool

/-- `if (m_xCallback)` -/
def isSet (cfg : Config) (c : Conn) : Callback → Bool
  | .up => c.callbacks.connection
  | .down => c.callbacks.connection
  | .close => c.callbacks.close
  | .message => cfg.messageCallback
  | .frame _ => cfg.frameMessageCallback
  | .writeComplete => c.callbacks.writeComplete
  | .error _ => c.callbacks.error
  | .highWaterMark _ => c.callbacks.highWaterMark

/-! ## The members, up to their callbacks -/

/-- What a member leaves of the connection, and what it has still to do. -/
abbrev Todo := Conn × List Task

def handleClose (c : Conn) : Todo :=
  if c.state = .disconnected then (c, [])
  else ({ c with state := .disconnected, channel := c.channel.disableAll }, [.invoke .down, .invoke .close])

def handleErrorAndClose (err : Int) (c : Conn) : Todo := (c, [.invoke (.error err), .closeUnlessWouldBlock err])

/-- `handleError()`, with what `getSocketError` reports. -/
def handleError (err : Int) (c : Conn) : Todo := if err = 0 then (c, []) else handleErrorAndClose err c

def handleOutputOverflow (c : Conn) : Todo :=
  match c.outputOverflowPolicy with
  | .ignore => (c, [])
  | .closeConnection => (c, [.invoke (.error kOutputBufferOverflowError), .handleClose])
  | .reportError => (c, [.invoke (.error kOutputBufferOverflowError)])

/-- `handleOutputBufferAppend`, and what `sendInLoop` does if it returns true. -/
def handleOutputBufferAppend (data : List UInt8) (direct : Bool) (c : Conn) : Todo :=
  let oldBytes := c.outputBuffer.length
  let newBytes := oldBytes + data.length
  if newBytes > c.maxOutputBufferBytes then handleOutputOverflow c
  else
    let c := { c with outputBuffer := c.outputBuffer ++ data }
    if c.callbacks.highWaterMark ∧ oldBytes < c.maxOutputBufferBytes ∧ newBytes ≥ c.maxOutputBufferBytes then
      (c, [.invoke (.highWaterMark newBytes), .subscribe direct])
    else (c, [.subscribe direct])

def sendInLoop (data : List UInt8) (r : SysWrite) (c : Conn) : Todo :=
  if c.state = .disconnected ∨ data.length = 0 then (c, [])
  else if !c.channel.writing ∧ c.outputBuffer.length = 0 then
    let n := socketWrite r data.length
    let c := { c with writes := c.writes + 1, wire := c.wire ++ data.take (taken r data.length) }
    if 0 ≤ n then
      let written := n.toNat
      if written < data.length then handleOutputBufferAppend (data.drop written) true c
      else (c, [.invoke .writeComplete])
    else if isWouldBlockError (errnoOf r) then handleOutputBufferAppend data true c
    else handleErrorAndClose (errnoOf r) c
  else handleOutputBufferAppend data false c

def send (data : List UInt8) (r : SysWrite) (c : Conn) : Todo :=
  if c.state = .disconnected ∨ data.length = 0 then (c, []) else sendInLoop data r c

def forceClose (c : Conn) : Todo := if c.state = .disconnected then (c, []) else handleClose c

/-- The end of `sendInLoop`: subscribe to write events, and pause reading if the buffer is full. -/
def subscribe (direct : Bool) (c : Conn) : Conn :=
  maybePauseReadForFlowControl
    (if direct || !c.channel.writing then { c with channel := c.channel.enableWriting } else c)

/-- One turn of the loop in `handleWrite`, with the kernel's answer. -/
def writeTurn (r : SysWrite) (c : Conn) : Todo :=
  let (ret, out) := writeFdResult c.outputBuffer r
  let c := { c with writes := c.writes + 1, outputBuffer := out,
                    wire := c.wire ++ c.outputBuffer.take (taken r c.outputBuffer.length) }
  match ret with
  | .error e => handleErrorAndClose e.code.toInt c
  | .ok io =>
    match io.status with
    | .ok => (maybeResumeReadForFlowControl c, [.writeTurn])
    | .wouldBlock => (c, [])
    | .endOfFile => handleClose c
    | .empty => (c, [])

/-- The loop in `handleWrite` ends with the buffer empty. -/
def drained (c : Conn) : Todo :=
  (maybeResumeReadForFlowControl { c with channel := c.channel.disableWriting },
    [.invoke .writeComplete, .afterWriteComplete])

/-- `connectEstablished()`, unless it throws. -/
def connectEstablished (c : Conn) : Option Todo :=
  if c.state ≠ .connecting then none
  else some ({ c with state := .connected, channel := c.channel.enableReading }, [.invoke .up])

def connectDestroyed (c : Conn) : Todo :=
  if c.state ≠ .disconnected then ({ c with state := .disconnected }, [.invoke .down, .remove]) else (c, [.remove])

def api (a : Api) (r : SysWrite) (c : Conn) : Todo :=
  match a with
  | .send data => send data r c
  | .shutdown => (shutdown c, [])
  | .forceClose => forceClose c
  | .startRead => (startRead c, [])
  | .stopRead => (stopRead c, [])
  | .enableAutoReadFlowControl hi lo => (enableAutoReadFlowControl hi lo c, [])
  | .disableAutoReadFlowControl => (disableAutoReadFlowControl c, [])
  | .setMaxOutputBufferBytes bytes => ({ c with maxOutputBufferBytes := bytes }, [])
  | .setOutputOverflowPolicy policy => ({ c with outputOverflowPolicy := policy }, [])

/-- A queued functor does what the call does on the loop thread, but for the state it looked at. -/
def runFunctor (f : Functor) (r : SysWrite) (c : Conn) : Todo :=
  match f with
  | .sendInLoop data => sendInLoop data r c
  | .shutdownInLoop => (shutdownInLoop c, [])
  | .forceCloseInLoop => forceClose c
  | .startRead => (startRead c, [])
  | .stopRead => (stopRead c, [])

/-! ## The machine -/

/-- A member has run: its tasks go on top of `rest`. -/
def Sys.did (s : Sys) (t : Todo) (rest : List Task) : Sys :=
  { s with conn := t.1, stack := t.2 ++ rest, closed := s.closed || decide (t.1.state = .disconnected) }

/-- A callback begins. -/
def Sys.begins (s : Sys) (cb : Callback) (rest : List Task) : Sys :=
  { s with
    stack := .user :: rest
    ups := s.ups + if cb = .up then 1 else 0
    downs := s.downs + if cb = .down then 1 else 0
    closes := s.closes + if cb = .close then 1 else 0 }

variable (cfg : Config)

/-- A turn of the loop in `handleCodecMessages`; none if the codec throws. -/
def codecTurn (codec : Codec) (b : Buf) : Option (Buf × List Task) :=
  match tryDecode codec b with
  | (.error _, _) => none
  | (.ok result, b) =>
    match result.status with
    | .needMoreData => some (b, [])
    | .ok => some (b, [.invoke (.frame result.payload), .codecTurn])
    | .invalidLength => some (b, [.invoke (.error kCodecError), .handleClose])
    | .exceedMaxFrameLength => some (b, [.invoke (.error kCodecError), .handleClose])

/-- What `handleRead` does with bytes that arrived, before it reads again. -/
def received : List Task :=
  if cfg.codec.isSome ∧ cfg.frameMessageCallback then [.codecTurn, .readTurn]
  else if cfg.messageCallback then [.invoke .message, .readTurn]
  else [.readTurn]

/-- A turn of the loop in `handleRead`; none if the buffer throws. -/
def readTurn (r : SysRead) (s : Sys) (rest : List Task) : Option Sys :=
  match Buffer.readFdResult cfg.alloc s.inputBuffer r with
  | (.error _, _) => none
  | (.ok (.error e), b) => some ({ s with inputBuffer := b }.did (handleErrorAndClose e.code.toInt s.conn) rest)
  | (.ok (.ok io), b) =>
    match io.status with
    | .ok => some ({ s with inputBuffer := b }.did (s.conn, received cfg) rest)
    | .wouldBlock => some ({ s with inputBuffer := b }.did (s.conn, []) rest)
    | .endOfFile => some ({ s with inputBuffer := b }.did (handleClose s.conn) rest)
    | .empty => some ({ s with inputBuffer := b }.did (s.conn, []) rest)

/-- The task on top goes on, where it needs nothing of the kernel or the user. -/
def next (s : Sys) : Task → List Task → Option Sys
  | .invoke cb, rest => some (if isSet cfg s.conn cb then s.begins cb rest else s.did (s.conn, []) rest)
  | .closeUnlessWouldBlock err, rest =>
    some (if err = Buffer.EAGAIN then s.did (s.conn, []) rest else s.did (handleClose s.conn) rest)
  | .handleClose, rest => some (s.did (handleClose s.conn) rest)
  | .handleWrite, rest => some (s.did (s.conn, if s.conn.channel.writing then [.writeTurn] else []) rest)
  | .codecTurn, rest =>
    match cfg.codec with
    | none => none
    | some codec => (codecTurn codec s.inputBuffer).map fun t => { s with inputBuffer := t.1 }.did (s.conn, t.2) rest
  | .writeTurn, rest => if s.conn.outputBuffer.length = 0 then some (s.did (drained s.conn) rest) else none
  | .subscribe direct, rest => some (s.did (subscribe direct s.conn, []) rest)
  | .afterWriteComplete, rest =>
    some (s.did (if s.conn.state = .disconnecting then shutdownInLoop s.conn else s.conn, []) rest)
  | .remove, rest =>
    some ({ s with destroyed := true }.did ({ s.conn with channel := s.conn.channel.disableAll.remove }, []) rest)
  | .user, _ => none
  | .handleError, _ => none
  | .readTurn, _ => none

/-- The user's last request for reading, after a call. -/
def wantsAfter (wants : Bool) : Call → Bool
  | .api .startRead => true
  | .api .stopRead => false
  | .connectEstablished => true
  | _ => wants

def perform (s : Sys) (call : Call) (r : SysWrite) : Option Sys :=
  match call with
  | .api a => some ({ s with wants := wantsAfter s.wants call }.did (api a r s.conn) s.stack)
  | .input b => some { s with inputBuffer := b }
  | .connectEstablished =>
    (connectEstablished s.conn).map fun t =>
      { s with established := true, wants := wantsAfter s.wants call }.did t s.stack
  | .connectDestroyed => some (s.did (connectDestroyed s.conn) s.stack)

/-- User code may run: in a callback, or with no handler on the stack. -/
def userCode : List Task → Bool
  | [] => true
  | .user :: _ => true
  | _ => false

def dispatch (revents : Revents) : List Task :=
  (if revents.error then [.handleError] else []) ++ (if revents.read then [.readTurn] else []) ++
    (if revents.write then [.handleWrite] else []) ++ (if revents.close then [.handleClose] else [])

def functorWants (wants : Bool) : Functor → Bool
  | .startRead => true
  | .stopRead => false
  | _ => wants

def other (s : Sys) : Other → Option Sys
  | .send data =>
    if s.conn.state = .disconnected ∨ data.length = 0 then none else some { s with calls := s.calls ++ [.sendInLoop data] }
  | .forceClose => if s.conn.state = .disconnected then none else some { s with calls := s.calls ++ [.forceCloseInLoop] }
  | .startRead => some { s with calls := s.calls ++ [.startRead] }
  | .stopRead => some { s with calls := s.calls ++ [.stopRead] }
  | .shutdown => if s.conn.state = .connected then some { s with shutting := s.shutting + 1 } else none
  | .shutdownStore =>
    if s.shutting = 0 then none
    else
      some { s with
        conn := { s.conn with state := .disconnecting }
        shutting := s.shutting - 1
        calls := s.calls ++ [.shutdownInLoop] }
  | .queueInLoop i => (s.calls[i]?).map fun f => { s with calls := s.calls.eraseIdx i, queue := s.queue ++ [f] }

def step (s : Sys) : Label → Option Sys
  | .next =>
    match s.stack with
    | task :: rest => next cfg s task rest
    | [] => none
  | .read r =>
    match s.stack with
    | .readTurn :: rest => readTurn cfg r s rest
    | _ => none
  | .write r =>
    match s.stack with
    | .writeTurn :: rest => if s.conn.outputBuffer.length = 0 then none else some (s.did (writeTurn r s.conn) rest)
    | _ => none
  | .socketError err =>
    match s.stack with
    | .handleError :: rest => some (s.did (handleError err s.conn) rest)
    | _ => none
  | .call c r => if userCode s.stack then perform s c r else none
  | .returns =>
    match s.stack with
    | .user :: rest => some { s with stack := rest }
    | _ => none
  | .event revents => if s.stack = [] then some { s with stack := dispatch revents } else none
  | .functor r =>
    match s.stack, s.queue with
    | [], f :: rest => some ({ s with queue := rest, wants := functorWants s.wants f }.did (runFunctor f r s.conn) [])
    | _, _ => none
  | .other o => other s o

def make (callbacks : Callbacks) (input : Buf) : Sys where
  conn := TcpConnection.make callbacks
  inputBuffer := input
  stack := []
  queue := []
  calls := []
  shutting := 0
  established := false
  closed := false
  destroyed := false
  ups := 0
  downs := 0
  closes := 0
  wants := true

/-- A connection with its callbacks and its input buffer. -/
def connection (callbacks : Callbacks) (input : Buf) : Lib.Machine Sys Label := ⟨make callbacks input, step cfg⟩

/-- The callback a step starts. -/
def starts (s : Sys) : Label → Option Callback
  | .next =>
    match s.stack with
    | .invoke cb :: _ => if isSet cfg s.conn cb then some cb else none
    | _ => none
  | _ => none

end Dbase.Net.TcpConnection.Steps
