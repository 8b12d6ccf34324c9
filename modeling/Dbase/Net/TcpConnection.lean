/-
  Dbase.Net.TcpConnection — the writing side of `TcpConnection` (`tcp_connection.h`,
  `tcp_connection.cpp`) on its loop thread: sending, write events, closing, output
  overflow and the flow control that pauses reading.

  `m_outputBuffer` is the list of its readable bytes; `Buffer.readable_bytes_model` says that
  `append` and `writeFdResult` are what they are here. The channel is its interest set and
  whether the poller has it.

  Callbacks are `std::function` members and may be empty. What a callback does is the
  user's: a function `user` from the callback and the connection to the connection as the
  callback leaves it. The members below take it as a parameter, and `userAt` ties the knot: the
  `i`-th callback makes the calls `Env.acts i`, each of which may call back again, to a
  nesting depth that is given. The kernel is its answers, `Env.write i` to the `i`-th `write`.

  `wire` is what the kernel has taken, and `log` what happened, in order; no member reads them.
-/

import Dbase.Net.Buffer

namespace Dbase.Net.TcpConnection

open Dbase.Net.Buffer (SysWrite IoStatus IoResult taken socketWrite errnoOf isWouldBlockError)

inductive State where
  | disconnected
  | connecting
  | connected
  | disconnecting
  deriving DecidableEq, Repr

inductive OutputOverflowPolicy where
  | ignore
  | closeConnection
  | reportError
  deriving DecidableEq, Repr

def kOutputBufferOverflowError : Int := -1002

/-- A callback, with its arguments besides the connection. -/
inductive Cb where
  | connection
  | writeComplete
  | close
  | error (err : Int)
  | highWaterMark (bytes : Nat)
  deriving DecidableEq, Repr

/-- Which of the callbacks are set. -/
structure Callbacks where
  connection : Bool
  writeComplete : Bool
  close : Bool
  error : Bool
  highWaterMark : Bool
  deriving DecidableEq, Repr

inductive Event where
  /-- a send begins: whether a direct write is tried, the kernel's answer to it, and the limit
      and the policy in force -/
  | sent (data : List UInt8) (direct : Bool) (answer : SysWrite) (limit : Nat) (policy : OutputOverflowPolicy)
  | called (cb : Cb)
  | shutdownWrite
  deriving DecidableEq, Repr

structure Channel where
  reading : Bool
  writing : Bool
  registered : Bool
  deriving DecidableEq, Repr

/-- `update()`: the poller keeps a channel exactly as long as it has an interest. -/
def Channel.update (ch : Channel) : Channel := { ch with registered := ch.reading || ch.writing }

def Channel.enableReading (ch : Channel) : Channel := ({ ch with reading := true } : Channel).update
def Channel.disableReading (ch : Channel) : Channel := ({ ch with reading := false } : Channel).update
def Channel.enableWriting (ch : Channel) : Channel := ({ ch with writing := true } : Channel).update
def Channel.disableWriting (ch : Channel) : Channel := ({ ch with writing := false } : Channel).update
def Channel.disableAll (ch : Channel) : Channel := ({ ch with reading := false, writing := false } : Channel).update
def Channel.remove (ch : Channel) : Channel := { ch with registered := false }

structure Conn where
  state : State
  channel : Channel
  outputBuffer : List UInt8
  maxOutputBufferBytes : Nat
  outputOverflowPolicy : OutputOverflowPolicy
  autoReadFlowControlEnabled : Bool
  readPauseHighWaterMark : Nat
  readResumeLowWaterMark : Nat
  readPausedByFlowControl : Bool
  callbacks : Callbacks
  writes : Nat
  calls : Nat
  wire : List UInt8
  log : List Event
  deriving DecidableEq, Repr

/-- A new connection, with the defaults of its members. -/
def make (callbacks : Callbacks) : Conn where
  state := .connecting
  channel := ⟨false, false, false⟩
  outputBuffer := []
  maxOutputBufferBytes := 64 * 1024 * 1024
  outputOverflowPolicy := .closeConnection
  autoReadFlowControlEnabled := false
  readPauseHighWaterMark := 0
  readResumeLowWaterMark := 0
  readPausedByFlowControl := false
  callbacks := callbacks
  writes := 0
  calls := 0
  wire := []
  log := []

/-- A call of the public interface. -/
inductive Api where
  | send (data : List UInt8)
  | shutdown
  | forceClose
  | startRead
  | stopRead
  | enableAutoReadFlowControl (pauseHighWaterMark resumeLowWaterMark : Nat)
  | disableAutoReadFlowControl
  | setMaxOutputBufferBytes (bytes : Nat)
  | setOutputOverflowPolicy (policy : OutputOverflowPolicy)
  deriving DecidableEq, Repr

structure Env where
  write : Nat → SysWrite
  acts : Nat → Cb → List Api

def Conn.note (c : Conn) (e : Event) : Conn := { c with log := c.log ++ [e] }

abbrev User := Cb → Conn → Conn

section
variable (user : User) (E : Env)

/-- `if (m_xCallback) { m_xCallback(...); }` -/
def invoke (isSet : Bool) (cb : Cb) (c : Conn) : Conn := if isSet then user cb c else c

/-! ## Closing -/

def handleClose (c : Conn) : Conn :=
  if c.state = .disconnected then c
  else
    let c := { c with state := .disconnected, channel := c.channel.disableAll }
    let c := invoke user c.callbacks.connection .connection c
    invoke user c.callbacks.close .close c

def handleErrorAndClose (err : Int) (c : Conn) : Conn :=
  let c := invoke user c.callbacks.error (.error err) c
  if err = Buffer.EAGAIN then c else handleClose user c

/-- `handleError()`, with what `getSocketError` reports. -/
def handleError (err : Int) (c : Conn) : Conn := if err = 0 then c else handleErrorAndClose user err c

/-! ## Flow control -/

def maybePauseReadForFlowControl (c : Conn) : Conn :=
  if !c.autoReadFlowControlEnabled then c
  else if c.readPausedByFlowControl then c
  else if c.outputBuffer.length < c.readPauseHighWaterMark then c
  else
    let c := if c.channel.reading then { c with channel := c.channel.disableReading } else c
    { c with readPausedByFlowControl := true }

def maybeResumeReadForFlowControl (c : Conn) : Conn :=
  if !c.autoReadFlowControlEnabled then c
  else if !c.readPausedByFlowControl then c
  else if c.outputBuffer.length > c.readResumeLowWaterMark then c
  else
    let c := if !c.channel.reading then { c with channel := c.channel.enableReading } else c
    { c with readPausedByFlowControl := false }

def disableAutoReadFlowControl (c : Conn) : Conn :=
  { c with autoReadFlowControlEnabled := false, readPauseHighWaterMark := 0, readResumeLowWaterMark := 0,
           readPausedByFlowControl := false }

def enableAutoReadFlowControl (pauseHighWaterMark resumeLowWaterMark : Nat) (c : Conn) : Conn :=
  if pauseHighWaterMark = 0 then disableAutoReadFlowControl c
  else
    { c with autoReadFlowControlEnabled := true, readPauseHighWaterMark := pauseHighWaterMark,
             readResumeLowWaterMark :=
               if pauseHighWaterMark ≤ resumeLowWaterMark then pauseHighWaterMark / 2 else resumeLowWaterMark }

def startRead (c : Conn) : Conn :=
  let c := if !c.channel.reading then { c with channel := c.channel.enableReading } else c
  { c with readPausedByFlowControl := false }

def stopRead (c : Conn) : Conn :=
  if c.channel.reading then { c with channel := c.channel.disableReading } else c

/-! ## Sending -/

def handleOutputOverflow (c : Conn) : Conn :=
  match c.outputOverflowPolicy with
  | .ignore => c
  | .closeConnection => handleClose user (invoke user c.callbacks.error (.error kOutputBufferOverflowError) c)
  | .reportError => invoke user c.callbacks.error (.error kOutputBufferOverflowError) c

def handleOutputBufferAppend (data : List UInt8) (c : Conn) : Bool × Conn :=
  let oldBytes := c.outputBuffer.length
  let newBytes := oldBytes + data.length
  if newBytes > c.maxOutputBufferBytes then (false, handleOutputOverflow user c)
  else
    let c := { c with outputBuffer := c.outputBuffer ++ data }
    if c.callbacks.highWaterMark ∧ oldBytes < c.maxOutputBufferBytes ∧ newBytes ≥ c.maxOutputBufferBytes then
      (true, invoke user c.callbacks.highWaterMark (.highWaterMark newBytes) c)
    else (true, c)

/-- The buffered part of a send: append, then subscribe to write events. -/
def appendAndSubscribe (data : List UInt8) (c : Conn) : Conn :=
  match handleOutputBufferAppend user data c with
  | (false, c) => c
  | (true, c) => maybePauseReadForFlowControl { c with channel := c.channel.enableWriting }

def sendInLoop (data : List UInt8) (c : Conn) : Conn :=
  if c.state = .disconnected ∨ data.length = 0 then c
  else if !c.channel.writing ∧ c.outputBuffer.length = 0 then
    let r := E.write c.writes
    let n := socketWrite r data.length
    let c := c.note (.sent data true r c.maxOutputBufferBytes c.outputOverflowPolicy)
    let c := { c with writes := c.writes + 1, wire := c.wire ++ data.take (taken r data.length) }
    if 0 ≤ n then
      let written := n.toNat
      if written < data.length then appendAndSubscribe user (data.drop written) c
      else invoke user c.callbacks.writeComplete .writeComplete c
    else if isWouldBlockError (errnoOf r) then appendAndSubscribe user data c
    else handleErrorAndClose user (errnoOf r) c
  else
    let c := c.note (.sent data false (.take 0) c.maxOutputBufferBytes c.outputOverflowPolicy)
    match handleOutputBufferAppend user data c with
    | (false, c) => c
    | (true, c) =>
      let c := if !c.channel.writing then { c with channel := c.channel.enableWriting } else c
      maybePauseReadForFlowControl c

def send (data : List UInt8) (c : Conn) : Conn :=
  if c.state = .disconnected ∨ data.length = 0 then c else sendInLoop user E data c

def shutdownInLoop (c : Conn) : Conn :=
  if c.state = .disconnected then c
  else if !c.channel.writing ∧ c.outputBuffer.length = 0 then c.note .shutdownWrite
  else c

def shutdown (c : Conn) : Conn :=
  if c.state ≠ .connected then c else shutdownInLoop { c with state := .disconnecting }

def forceClose (c : Conn) : Conn := if c.state = .disconnected then c else handleClose user c

/-! ## Write events -/

/-- `Buffer::writeFdResult` on the readable bytes. -/
def writeFdResult (out : List UInt8) (r : SysWrite) : Except Error IoResult × List UInt8 :=
  if out.length = 0 then (.ok ⟨0, .empty⟩, out)
  else
    let n := socketWrite r out.length
    if 0 < n then (.ok ⟨n.toNat, .ok⟩, out.drop n.toNat)
    else if n = 0 then (.ok ⟨0, .endOfFile⟩, out)
    else if isWouldBlockError (errnoOf r) then (.ok ⟨0, .wouldBlock⟩, out)
    else (.error (makeSystemError "Buffer::writeFdResult failed" (errnoOf r)), out)

/-- The `while` loop of `handleWrite`, for at most one turn a byte; whether it left the function. -/
def writeLoop : Nat → Conn → Bool × Conn
  | 0, c => (false, c)
  | k + 1, c =>
    if c.outputBuffer.length = 0 then (false, c)
    else
      let r := E.write c.writes
      let (ret, out) := writeFdResult c.outputBuffer r
      let c := { c with writes := c.writes + 1, outputBuffer := out,
                        wire := c.wire ++ c.outputBuffer.take (taken r c.outputBuffer.length) }
      match ret with
      | .error e => (true, handleErrorAndClose user e.code.toInt c)
      | .ok io =>
        match io.status with
        | .ok => writeLoop k (maybeResumeReadForFlowControl c)
        | .wouldBlock => (true, c)
        | .endOfFile => (true, handleClose user c)
        | .empty => (false, c)

def handleWrite (c : Conn) : Conn :=
  if !c.channel.writing then c
  else
    match writeLoop user E c.outputBuffer.length c with
    | (true, c) => c
    | (false, c) =>
      if c.outputBuffer.length > 0 then c
      else
        let c := maybeResumeReadForFlowControl { c with channel := c.channel.disableWriting }
        let c := invoke user c.callbacks.writeComplete .writeComplete c
        if c.state = .disconnecting then shutdownInLoop c else c

/-! ## The lifetime of a connection -/

/-- `connectEstablished()`; `std::logic_error` leaves the connection as it is. -/
def connectEstablished (c : Conn) : Conn :=
  if c.state ≠ .connecting then c
  else
    let c := { c with state := .connected, channel := c.channel.enableReading }
    invoke user c.callbacks.connection .connection c

def connectDestroyed (c : Conn) : Conn :=
  let c :=
    if c.state ≠ .disconnected then
      let c := { c with state := .disconnected }
      invoke user c.callbacks.connection .connection c
    else c
  { c with channel := c.channel.disableAll.remove }

def api (c : Conn) : Api → Conn
  | .send data => send user E data c
  | .shutdown => shutdown c
  | .forceClose => forceClose user c
  | .startRead => startRead c
  | .stopRead => stopRead c
  | .enableAutoReadFlowControl hi lo => enableAutoReadFlowControl hi lo c
  | .disableAutoReadFlowControl => disableAutoReadFlowControl c
  | .setMaxOutputBufferBytes bytes => { c with maxOutputBufferBytes := bytes }
  | .setOutputOverflowPolicy policy => { c with outputOverflowPolicy := policy }

end

/-- A callback that makes the calls of `Env.acts`, at most `depth` callbacks deep. -/
def userAt (E : Env) : Nat → User
  | 0, cb, c => { c.note (.called cb) with calls := c.calls + 1 }
  | depth + 1, cb, c =>
    (E.acts c.calls cb).foldl (api (userAt E depth) E) { c.note (.called cb) with calls := c.calls + 1 }

/-- What the loop thread does with a connection. -/
inductive Op where
  | api (a : Api)
  | handleWrite
  | handleClose
  | handleError (err : Int)
  | connectEstablished
  | connectDestroyed
  deriving DecidableEq, Repr

def exec (E : Env) (depth : Nat) (c : Conn) : Op → Conn
  | .api a => api (userAt E depth) E c a
  | .handleWrite => handleWrite (userAt E depth) E c
  | .handleClose => handleClose (userAt E depth) c
  | .handleError err => handleError (userAt E depth) err c
  | .connectEstablished => connectEstablished (userAt E depth) c
  | .connectDestroyed => connectDestroyed (userAt E depth) c

end Dbase.Net.TcpConnection
