/-
  Dbase.Net.KcpServer — `KcpServer`: datagrams from any peers come to sessions, which are opened by the first datagram of
  their key (`kcp_server.cpp`, `kcp_packet.cpp`, the constructor of `KcpSession`, and of `ikcp.c` what it calls and the
  checks of `ikcp_input` on the first segment).

  A session is known by its number, in the order of the constructor calls; a peer is its `toIpPort()`; loop 0 is the
  server's own. A datagram comes with what happens while it is handled: the sessions that close in the connection
  callback of a new session and while the session has its input, and what the memory of a new control block holds where
  `ikcp_create` does not write. A session on another loop closes at any time, and its entry is erased by a functor that
  its close callback posts. The settings are those of `start()`; allocations succeed and callbacks do not throw.
-/

import Dbase.Lib.Bytes
import Dbase.Lib.Machine
import Dbase.Lib.Path
import Dbase.Net.KcpSession

namespace Dbase.Net.KcpServer

open Dbase.Lib
open Dbase.Lib.Bytes (leDecode)

inductive Thrown where
  | invalidArgument (what : String)
  | runtimeError (what : String)
  deriving DecidableEq, Repr

/-! ## ikcp -/

/-- Of a control block, what its segments carry. -/
structure ControlBlock where
  conv : UInt32
  token : UInt32
  deriving DecidableEq, Repr

def IKCP_OVERHEAD : Nat := 28

/-- `ikcp_create`, in memory that holds a token already. -/
def ikcpCreate (conv memory : UInt32) : ControlBlock := ⟨conv, memory⟩

def ikcpSettoken (token : UInt32) (kcp : ControlBlock) : Int × ControlBlock := (0, { kcp with token := token })

def ikcpSetmtu (mtu : Int) : Int := if mtu < 50 ∨ mtu < IKCP_OVERHEAD then -1 else 0

/-- `ikcp_decode32u` of a host that is little endian. -/
def ikcpDecode32u (data : List UInt8) : UInt32 := UInt32.ofNat (leDecode (data.take 4))

/-- Why the first segment of a packet is refused. -/
inductive Refusal where
  | short
  | conv
  | length
  | token
  deriving DecidableEq, Repr

/-- The checks of `ikcp_input` on the first segment, in order, up to that of the token. -/
def firstSegment (kcp : ControlBlock) (data : List UInt8) : Option Refusal :=
  let len := ikcpDecode32u (data.drop 24)
  if data.length < IKCP_OVERHEAD then some .short
  else if ikcpDecode32u data ≠ kcp.conv then some .conv
  else if data.length - IKCP_OVERHEAD < len.toNat ∨ 2 ^ 31 ≤ len.toNat then some .length
  else if ikcpDecode32u (data.drop 4) ≠ kcp.token then some .token
  else none

/-! ## Packets -/

structure KcpPacketHeader where
  conv : UInt32
  token : UInt32
  deriving DecidableEq, Repr

def kHeaderSize : Nat := 8

def decode32uLE (data : List UInt8) : UInt32 :=
  (data.getD 0 0).toUInt32 ||| ((data.getD 1 0).toUInt32 <<< 8) ||| ((data.getD 2 0).toUInt32 <<< 16) |||
    ((data.getD 3 0).toUInt32 <<< 24)

def tryParseHeader (packet : List UInt8) : Option KcpPacketHeader :=
  if packet.length < kHeaderSize then none else some ⟨decode32uLE packet, decode32uLE (packet.drop 4)⟩

/-! ## Sessions -/

structure SessionOptions where
  mtu : Int := 1400
  sndWnd : Int := 128
  rcvWnd : Int := 128
  nodelay : Int := 1
  interval : Int := 20
  resend : Int := 2
  nc : Int := 1
  idleTimeout : Int := 0
  maxMessageBytes : Nat := 16 * 1024 * 1024
  deriving DecidableEq, Repr

structure SessionKey where
  conv : UInt32
  token : UInt32
  peer : String
  deriving DecidableEq, Repr

structure SessionEntry where
  session : Nat
  loop : Nat
  deriving DecidableEq, Repr

structure Session where
  options : KcpSession.Options
  peerAddr : String
  loop : Nat
  kcp : ControlBlock
  /-- `Disconnected` -/
  closed : Bool
  deriving DecidableEq, Repr

/-- The checks of the constructor of `KcpSession`, and the control block it makes. -/
def construct (memory : UInt32) (options : KcpSession.Options) : Except Thrown ControlBlock :=
  if options.conv = 0 then .error (.invalidArgument "KcpSession conv must not be 0")
  else
    let kcp := ikcpCreate options.conv memory
    let (ret, kcp) := if options.token ≠ 0 then ikcpSettoken options.token kcp else (0, kcp)
    if ret ≠ 0 then .error (.runtimeError "KcpSession ikcp_settoken failed")
    else if ikcpSetmtu options.mtu ≠ 0 then .error (.runtimeError "KcpSession ikcp_setmtu failed")
    else .ok kcp

def makeSessionKey (conv token : UInt32) (peer : String) : SessionKey := ⟨conv, token, peer⟩

/-! ## The server -/

/-- The settings, and which loop a key comes to. -/
structure Config where
  sessionOptions : SessionOptions
  getLoopForHash : SessionKey → Nat

structure Server where
  /-- every session that was constructed -/
  objects : List Session
  sessions : List (SessionKey × SessionEntry)
  /-- the functors that close callbacks have posted -/
  erasures : List Nat
  deriving DecidableEq, Repr

structure Datagram where
  bytes : List UInt8
  peer : String
  deriving DecidableEq, Repr

/-- What happens while a datagram is handled. -/
structure Meanwhile where
  memory : UInt32 := 0
  /-- the sessions that close in the connection callback -/
  connection : List Nat := []
  /-- the sessions that close while the session has its input -/
  input : List Nat := []
  deriving DecidableEq, Repr

def buildSessionOptions (o : SessionOptions) (conv token : UInt32) : KcpSession.Options where
  conv := conv
  token := token
  mtu := o.mtu
  sndWnd := o.sndWnd
  rcvWnd := o.rcvWnd
  nodelay := o.nodelay
  interval := o.interval
  resend := o.resend
  nc := o.nc
  idleTimeout := o.idleTimeout
  maxMessageBytes := o.maxMessageBytes

def findSession (s : Server) (key : SessionKey) : Option SessionEntry := s.sessions.lookup key

/-- The functor of `handleSessionClose`. -/
def erase (id : Nat) (s : Server) : Server := { s with sessions := s.sessions.eraseP (·.2.session = id) }

/-- A session closes; on the server's own loop its functor runs at once. -/
def close (s : Server) (id : Nat) : Server :=
  match s.objects[id]? with
  | none => s
  | some x =>
    if x.closed then s
    else
      let s := { s with objects := s.objects.set id { x with closed := true } }
      if x.loop = 0 then erase id s else { s with erasures := s.erasures ++ [id] }

/-- `createSession`, and the number of the session it returns. -/
def createSession (cfg : Config) (m : Meanwhile) (conv token : UInt32) (peer : String) (s : Server) :
    Except Thrown (Server × Nat) :=
  let key := makeSessionKey conv token peer
  let ioLoop := cfg.getLoopForHash key
  let options := buildSessionOptions cfg.sessionOptions conv token
  match construct m.memory options with
  | .error e => .error e
  | .ok kcp =>
    let id := s.objects.length
    let s := { s with
      objects := s.objects ++ [⟨options, peer, ioLoop, kcp, false⟩]
      sessions := Entries.emplace key ⟨id, ioLoop⟩ s.sessions }
    .ok (m.connection.foldl close s, id)

/-- One turn of the loop in `handleRead`, and the session that the datagram is given to. -/
def receive (cfg : Config) (s : Server) (d : Datagram) (m : Meanwhile) : Except Thrown (Server × Option Nat) :=
  match tryParseHeader d.bytes with
  | none => .ok (s, none)
  | some header =>
    let key := makeSessionKey header.conv header.token d.peer
    match findSession s key with
    | some entry => .ok (m.input.foldl close s, some entry.session)
    | none =>
      match createSession cfg m header.conv header.token d.peer s with
      | .error e => .error e
      | .ok (s, _) =>
        match findSession s key with
        | none => .ok (s, none)
        | some entry => .ok (m.input.foldl close s, some entry.session)

/-- `handleRead`, with the datagrams up to `WouldBlock`, and where each of them went. -/
def handleRead (cfg : Config) (s : Server) : List (Datagram × Meanwhile) → Except Thrown (Server × List (Option Nat))
  | [] => .ok (s, [])
  | (d, m) :: rest =>
    match receive cfg s d m with
    | .error e => .error e
    | .ok (s, given) =>
      match handleRead cfg s rest with
      | .error e => .error e
      | .ok (s, more) => .ok (s, given :: more)

/-! ## The machine -/

inductive Label where
  | datagram (d : Datagram) (m : Meanwhile)
  /-- a session closes outside `handleRead` -/
  | close (id : Nat)
  /-- the oldest functor that a close callback has posted -/
  | erase
  deriving DecidableEq, Repr

/-- An exception that leaves `handleRead` leaves `loop()` too. -/
def step (cfg : Config) (s : Server) : Label → Option Server
  | .datagram d m =>
    match receive cfg s d m with
    | .error _ => none
    | .ok (s, _) => some s
  | .close id => some (close s id)
  | .erase =>
    match s.erasures with
    | [] => none
    | id :: rest => some (erase id { s with erasures := rest })

def server (cfg : Config) : Machine Server Label := ⟨⟨[], [], []⟩, step cfg⟩

end Dbase.Net.KcpServer
