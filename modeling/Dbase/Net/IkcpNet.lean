/-
  Dbase.Net.IkcpNet — two ends of one conversation, and the network between them.

  Every call of ikcp is a step of its own, in any order and with any clock: what `KcpSession` does in one handler is some
  of these steps in a row. The network keeps every datagram that was ever sent. It delivers any of them at any time, so it
  loses, repeats and reorders as it likes, and it brings datagrams of other conversations (`stray`); it does not forge.

  Sequence numbers are 32 bits, so a datagram must not be delivered too late (`Fresh`): neither end may have numbered more
  than `2 ^ 30` segments since it was sent. `accepted`, `delivered`, `numbered` and `sent` record what has happened, and no
  call reads them.
-/

import Dbase.Lib.Machine
import Dbase.Net.Ikcp
import Dbase.Net.IkcpWire
import Dbase.Net.KcpSession

namespace Dbase.Net.Ikcp

open Dbase.Lib
open Dbase.Net.KcpSession (Options)

/-- `ikcp_create`, and the token where the options have one. -/
def newBlock (o : Options) (memory : UInt32) : Kcpcb :=
  if o.token ≠ 0 then (ikcpSettoken o.token (ikcpCreate o.conv memory)).2 else ikcpCreate o.conv memory

/-- What the constructor of `KcpSession` makes of new memory; none for an exception. -/
def construct (o : Options) (memory : UInt32) : Option Kcpcb :=
  if o.conv = 0 then none
  else if (ikcpSetmtu o.mtu (newBlock o memory)).1 ≠ 0 then none
  else
    some (ikcpNodelay o.nodelay o.interval o.resend o.nc
      (ikcpWndsize o.sndWnd o.rcvWnd (ikcpSetmtu o.mtu (newBlock o memory)).2))

/-- Two new sessions of one conversation. -/
structure Pairing where
  options : Bool → Options
  memory : Bool → UInt32
  kcp : Bool → Kcpcb
  made : ∀ b, construct (options b) (memory b) = some (kcp b)
  conv : ∀ b, (kcp b).conv = (kcp !b).conv
  token : ∀ b, (kcp b).token = (kcp !b).token
  /-- The size of a block does not wrap. -/
  mtu : ∀ b, (options b).mtu < 2 ^ 30
  rcvWnd : ∀ b, (options b).rcvWnd ≤ 2 ^ 29

/-- A datagram, and how many segments its sender and the other end had numbered when it was sent. -/
structure Packet where
  bytes : List UInt8
  own : Nat
  other : Nat
  deriving DecidableEq, Repr

structure End where
  kcp : Kcpcb
  accepted : List (List UInt8)
  delivered : List (List UInt8)
  numbered : Nat
  sent : List Packet
  /-- a flush has written behind its block -/
  overrun : Bool
  deriving DecidableEq, Repr

abbrev Ends := Bool → End

inductive Label where
  | send (b : Bool) (message : List UInt8)
  | recv (b : Bool) (len : Int)
  | update (b : Bool) (current : UInt32)
  | flush (b : Bool)
  /-- a datagram of the other end arrives -/
  | deliver (b : Bool) (k : Nat)
  | stray (b : Bool) (data : List UInt8)
  deriving DecidableEq, Repr

/-- The length is an `int`. -/
def End.send (message : List UInt8) (e : End) : Option End :=
  if message.length < 2 ^ 31 then
    let result := ikcpSend message e.kcp
    some { e with kcp := result.2, accepted := if result.1 = 0 then e.accepted ++ [message] else e.accepted }
  else none

def End.recv (len : Int) (e : End) : End :=
  let result := ikcpRecv len e.kcp
  { e with
    kcp := result.2.2, delivered := if 0 ≤ result.1 ∧ 0 ≤ len then e.delivered ++ [result.2.1] else e.delivered }

/-- After `ikcp_update` or `ikcp_flush`, with what it has sent. -/
def End.flushed (other : Nat) (result : Kcpcb × List (List UInt8) × Bool) (e : End) : End :=
  let numbered := e.numbered + (e.kcp.sndQueue.length - result.1.sndQueue.length)
  { e with
    kcp := result.1, numbered, sent := e.sent ++ result.2.1.map fun bytes => ⟨bytes, numbered, other⟩,
    overrun := e.overrun || result.2.2 }

def End.input (data : List UInt8) (e : End) : End := { e with kcp := (ikcpInput data e.kcp).2 }

def step (s : Ends) : Label → Option Ends
  | .send b message => ((s b).send message).map (Function.update s b)
  | .recv b len => some (Function.update s b ((s b).recv len))
  | .update b current => some (Function.update s b ((s b).flushed (s !b).numbered (ikcpUpdate current (s b).kcp)))
  | .flush b => some (Function.update s b ((s b).flushed (s !b).numbered (ikcpFlush (s b).kcp)))
  | .deliver b k => (s !b).sent[k]?.map fun p => Function.update s b ((s b).input p.bytes)
  | .stray b data =>
    if Foreign (s b).kcp data ∧ data.length < 2 ^ 31 then some (Function.update s b ((s b).input data)) else none

/-- No more numbers than this may be given while a datagram is on its way. -/
def lifetime : Nat := 2 ^ 30

/-- No datagram is delivered too late. -/
def Fresh (s : Ends) : Label → Prop
  | .deliver b k => ∀ p ∈ (s !b).sent[k]?, (s !b).numbered ≤ p.own + lifetime ∧ (s b).numbered ≤ p.other + lifetime
  | _ => True

instance (s : Ends) (a : Label) : Decidable (Fresh s a) := by
  unfold Fresh
  split <;> infer_instance

def net (p : Pairing) : Lib.Machine Ends Label := ⟨fun b => ⟨p.kcp b, [], [], 0, [], false⟩, step⟩

end Dbase.Net.Ikcp
