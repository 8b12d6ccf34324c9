/-
  Dbase.Net.EpollPoller — `EpollPoller` (`epoll_poller.h`, `epoll_poller.cpp`) and the interest list of its epoll instance.

  The poller has a map from descriptors to channels, and chooses by it what to ask of the kernel, which has a list of its
  own. A call of `epoll_ctl` fails where the kernel refuses it for any reason (`Answer`), and where the list does not allow
  it: what is there cannot be added, and what is not there cannot be changed or deleted. A call that fails leaves the list.

  `issued` are the calls of `epoll_ctl` so far. No member reads them.
-/

import Dbase.Lib.Machine

namespace Dbase.Net.EpollPoller

open Dbase.Lib

/-! ## Channels -/

def kNoneEvent : UInt32 := 0
def kReadEvent : UInt32 := 1
def kWriteEvent : UInt32 := 2

/-- What the poller asks of a channel; `address` is that of the object. -/
structure Channel where
  address : Nat
  fd : Int
  events : UInt32
  edgeTriggered : Bool
  deriving DecidableEq, Repr

def Channel.isNoneEvent (c : Channel) : Bool := c.events == kNoneEvent

def Channel.isReading (c : Channel) : Bool := c.events &&& kReadEvent != 0

def Channel.isWriting (c : Channel) : Bool := c.events &&& kWriteEvent != 0

/-! ## The kernel -/

def epollin : UInt32 := 1
def epollpri : UInt32 := 2
def epollout : UInt32 := 4
def epollrdhup : UInt32 := 0x2000
def epollet : UInt32 := 0x80000000

def enoent : Int := 2
def eexist : Int := 17

inductive Operation where
  | add
  | mod
  | del
  deriving DecidableEq, Repr

structure EpollEvent where
  events : UInt32
  ptr : Nat
  deriving DecidableEq, Repr

abbrev InterestList := Int → Option EpollEvent

/-- Why the kernel refuses an operation that its list allows, if it does. -/
abbrev Answer := Option Int

/-- The error number, if it fails, and the list. -/
def epollCtl (answer : Answer) (operation : Operation) (fd : Int) (ev : EpollEvent) (list : InterestList) :
    Option Int × InterestList :=
  match answer, operation, list fd with
  | some errno, _, _ => (some errno, list)
  | none, .add, some _ => (some eexist, list)
  | none, .add, none => (none, Function.update list fd (some ev))
  | none, .mod, some _ => (none, Function.update list fd (some ev))
  | none, .mod, none => (some enoent, list)
  | none, .del, some _ => (none, Function.update list fd none)
  | none, .del, none => (some enoent, list)

/-! ## The poller -/

structure Poller where
  /-- `m_channels` -/
  channels : Int → Option Nat
  kernel : InterestList
  issued : List (Operation × Int)

inductive Thrown where
  | invalidArgument (what : String)
  /-- with the number whose text is appended -/
  | runtimeError (what : String) (errno : Int)
  deriving DecidableEq, Repr

/-- How a call ends, and what it leaves. -/
abbrev Ended := Except Thrown Unit × Poller

def toEpollEvents (channel : Channel) : UInt32 :=
  let events := 0
  let events := if channel.isReading then events ||| (epollin ||| epollpri ||| epollrdhup) else events
  let events := if channel.isWriting then events ||| epollout else events
  if channel.edgeTriggered then events ||| epollet else events

def update (answer : Answer) (operation : Operation) (channel : Channel) (s : Poller) : Ended :=
  let ev := ⟨toEpollEvents channel, channel.address⟩
  let issued := s.issued ++ [(operation, channel.fd)]
  match epollCtl answer operation channel.fd ev s.kernel with
  | (none, kernel) => (.ok (), { s with kernel, issued })
  | (some errno, kernel) =>
    (.error (.runtimeError "EpollPoller::update epoll_ctl failed: " errno), { s with kernel, issued })

/-- `update(EPOLL_CTL_DEL, channel); m_channels.erase(it);` -/
def deleteAndErase (answer : Answer) (channel : Channel) (s : Poller) : Ended :=
  match update answer .del channel s with
  | (.error e, s) => (.error e, s)
  | (.ok _, s) => (.ok (), { s with channels := Function.update s.channels channel.fd none })

/-- A channel that is `none` is null. -/
def updateChannel (answer : Answer) (channel : Option Channel) (s : Poller) : Ended :=
  match channel with
  | none => (.error (.invalidArgument "EpollPoller::updateChannel channel is null"), s)
  | some channel =>
    let it := s.channels channel.fd
    if channel.isNoneEvent then
      if it.isSome then deleteAndErase answer channel s else (.ok (), s)
    else if it.isNone then
      update answer .add channel { s with channels := Function.update s.channels channel.fd (some channel.address) }
    else update answer .mod channel s

def removeChannel (answer : Answer) (channel : Option Channel) (s : Poller) : Ended :=
  match channel with
  | none => (.ok (), s)
  | some channel => if (s.channels channel.fd).isNone then (.ok (), s) else deleteAndErase answer channel s

/-! ## The machine -/

inductive Call where
  | updateChannel (channel : Option Channel)
  | removeChannel (channel : Option Channel)
  deriving DecidableEq, Repr

def perform (answer : Answer) (s : Poller) : Call → Ended
  | .updateChannel channel => updateChannel answer channel s
  | .removeChannel channel => removeChannel answer channel s

/-- The constructor, with the epoll instance that it has created. -/
def make : Poller := ⟨fun _ => none, fun _ => none, []⟩

/-- Calls one after the other, whether they throw or not. -/
def machine : Machine Poller (Call × Answer) := ⟨make, fun s (call, answer) => some (perform answer s call).2⟩

end Dbase.Net.EpollPoller
