/-
  Dbase.Net.TcpClientProofs — a client that can reconnect.

  The connector and the client each have an idea of being connected. Where no step sets them apart, a connector
  that is Connected stands for a connection of the client that is not Disconnected, once everything queued has run;
  so `connect()` begins an attempt whenever there is no connection and none is under way
  (`client_can_reconnect`). A connection that is removed with retry off, or after the request was withdrawn, sets
  them apart for good (`connect_does_nothing_after_a_close`).
-/

import Dbase.Net.ConnectorProofs
import Dbase.Net.TcpClient

namespace Dbase.Net.Connector

variable {φ : Type} {c c' : Conn φ}

/-! ## What the connector keeps -/

/-- The connector does not become Connected, and an attempt has its channel. The queue grows only by functors
    of the connector. -/
structure Calm (c c' : Conn φ) : Prop where
  callback : c'.newConnectionCallback = c.newConnectionCallback
  channel : (c.state = .connecting → c.channel.isSome = true) → c'.state = .connecting → c'.channel.isSome = true
  connected : c'.state = .connected → c.state = .connected
  queued : ∀ f ∈ c.functors, f ∈ c'.functors
  others : ∀ f, .other f ∈ c'.functors → .other f ∈ c.functors

theorem Calm.trans {c'' : Conn φ} (h : Calm c c') (h' : Calm c' c'') : Calm c c'' where
  callback := h'.callback.trans h.callback
  channel hc := h'.channel (h.channel hc)
  connected hc := h.connected (h'.connected hc)
  queued f hf := h'.queued f (h.queued f hf)
  others f hf := h.others f (h'.others f hf)

theorem mem_deletions {f : φ} {fs more : List (Functor φ)} (hmore : ∀ g ∈ more, ∃ ch, g = .deleteChannel ch)
    (h : .other f ∈ fs ++ more) : .other f ∈ fs := by
  rcases List.mem_append.mp h with h | h
  · exact h
  · obtain ⟨ch, hch⟩ := hmore _ h
    cases hch

theorem connect_calm (answer : Attempt) (c : Conn φ) : Calm c (connect answer c) := by
  have ho := connect_outcome answer c
  generalize connect answer c = c' at ho
  cases ho with
  | threw => exact ⟨rfl, fun h => h, fun h => h, fun _ h => h, fun _ h => h⟩
  | begun => exact ⟨rfl, fun _ _ => rfl, (by simp [connecting]), fun _ h => h, fun _ h => h⟩
  | retried =>
    obtain ⟨_, _, _, _, he⟩ := retry_frame (closeSocket (some c.nextSocket) (openSocket c))
    rw [he]
    exact ⟨rfl, (by simp), (by simp), fun _ h => h, fun _ h => h⟩
  | gaveUp _ => exact ⟨rfl, fun h => h, fun h => h, fun _ h => h, fun _ h => h⟩

/-- An attempt opens a socket. -/
theorem connect_nextSocket (c : Conn φ) {answer : Attempt} (ha : answer ≠ .noSocket) :
    (connect answer c).nextSocket = c.nextSocket + 1 := by
  have ho := connect_outcome answer c
  generalize connect answer c = c' at ho
  cases ho with
  | threw => contradiction
  | begun => rfl
  | retried =>
    obtain ⟨_, _, _, _, he⟩ := retry_frame (closeSocket (some c.nextSocket) (openSocket c))
    rw [he]
    rfl
  | gaveUp _ => rfl

theorem startInLoop_calm (answer : Attempt) (c : Conn φ) : Calm c (startInLoop answer c) := by
  rcases startInLoop_cases answer c with ⟨-, -, he⟩ | ⟨-, he⟩
  · rw [he]
    exact connect_calm answer c
  · rw [he]
    exact ⟨rfl, fun h => h, fun h => h, fun _ h => h, fun _ h => h⟩

theorem start_calm (answer : Attempt) (c : Conn φ) : Calm c (start answer c) := by
  have hcalled : Calm c (called .start { c with started := true }) :=
    ⟨rfl, fun h => h, fun h => h, fun _ h => h, fun _ h => h⟩
  exact hcalled.trans (startInLoop_calm answer _)

theorem stop_calm (c : Conn φ) : Calm c (stop c) := by
  obtain ⟨_, he⟩ := stop_frame c
  rw [he]
  exact ⟨rfl, fun h => h, fun h => h, fun _ h => List.mem_append_left _ h, by simp⟩

theorem restart_calm (c : Conn φ) : Calm c (restart c) := by
  obtain ⟨_, he⟩ := restart_frame c
  rw [he]
  exact ⟨rfl, fun h => h, fun h => h, fun _ h => List.mem_append_left _ h, by simp⟩

theorem stopInLoop_calm (c : Conn φ) : Calm c (stopInLoop c) := by
  obtain ⟨_, _, _, _, _, he, hne, hconn, hmore⟩ := stopInLoop_frame c
  rw [he]
  exact ⟨rfl, fun _ h => absurd h hne, hconn, fun _ h => List.mem_append_left _ h, fun _ h => mem_deletions hmore h⟩

theorem retry_release_calm (c : Conn φ) : Calm c (retry (release c)) := by
  obtain ⟨_, _, _, _, hretry⟩ := retry_frame (release c)
  obtain ⟨_, _, _, he, hmore⟩ := release_frame c
  rw [hretry, he]
  exact ⟨rfl, (by simp), (by simp), fun _ h => List.mem_append_left _ h,
    fun _ h => mem_deletions hmore h⟩

end Dbase.Net.Connector

namespace Dbase.Net.TcpClient

open Dbase.Lib
open Dbase.Net.Connector (Calm)

variable {s s' : Client}

/-! ## The two ideas of being connected -/

/-- The connection exists and is not Disconnected. -/
def Live (s : Client) (id : Nat) : Prop := ∃ st, s.conns[id]? = some st ∧ st ≠ .disconnected

/-- An attempt has its channel, and what will be destroyed is not the client's connection. -/
structure Sound (s : Client) : Prop where
  callback : s.connector.newConnectionCallback = true
  channel : s.connector.state = .connecting → s.connector.channel.isSome = true
  closing : ∀ id ∈ s.closing, id < s.conns.length
  destroyed : ∀ id, .other (.connectDestroyed id) ∈ s.connector.functors →
    id < s.conns.length ∧ s.connection ≠ some id

/-- A connector that is Connected will start again, or stands for the client's connection, which may be about to be
    removed. -/
structure Together (s : Client) : Prop extends Sound s where
  connected : s.connector.state = .connected → .restartInLoop ∈ s.connector.functors ∨
    ∃ id, s.connection = some id ∧ (Live s id ∨ id ∈ s.closing)

theorem Sound.calm (h : Sound s) {c : Connector.Conn Queued} (hc : Calm s.connector c) :
    Sound { s with connector := c } where
  callback := hc.callback.trans h.callback
  channel := hc.channel h.channel
  closing := h.closing
  destroyed id hid := h.destroyed id (hc.others _ hid)

/-- A step of the connector that does not connect it. -/
theorem Together.calm (h : Together s) {c : Connector.Conn Queued} (hc : Calm s.connector c) :
    Together { s with connector := c } where
  toSound := h.toSound.calm hc
  connected hconn := (h.connected (hc.connected hconn)).imp_left (hc.queued _)

/-- A functor that neither restarts the connector nor destroys a connection is queued or run. -/
theorem Together.queueInLoop (h : Together s) {f : Connector.Functor Queued}
    (hf : ∀ id, f ≠ .other (.connectDestroyed id)) : Together (queueInLoop f s) where
  callback := h.callback
  channel := h.channel
  connected hconn := (h.connected hconn).imp_left (List.mem_append_left _)
  closing := h.closing
  destroyed id hid := by
    rcases List.mem_append.mp hid with hid | hid
    · exact h.destroyed id hid
    · exact absurd (List.mem_singleton.mp hid).symm (hf id)

/-- The states of connections may change where the current one stays alive or is about to be removed. -/
theorem Together.setConn (h : Together s) {id : Nat} {st : TcpConnection.State} {closing : List Nat}
    (hcur : s.connection = some id → st ≠ .disconnected ∨ id ∈ closing) (hsub : ∀ x ∈ s.closing, x ∈ closing)
    (hclosing : ∀ x ∈ closing, x < s.conns.length) :
    Together { s with conns := s.conns.set id st, closing := closing } where
  callback := h.callback
  channel := h.channel
  connected hconn := by
    refine (h.connected hconn).imp_right fun ⟨cur, hcurrent, hrest⟩ => ⟨cur, hcurrent, ?_⟩
    rcases hrest with ⟨st', hst', hne⟩ | hin
    · by_cases heq : id = cur
      · subst heq
        refine (hcur hcurrent).imp_left fun hst => ⟨st, ?_, hst⟩
        have hlt : id < s.conns.length := (List.getElem?_eq_some_iff.mp hst').1
        simp [hlt]
      · exact .inl ⟨st', by simp [List.getElem?_set_ne heq, hst'], hne⟩
    · exact .inr (hsub cur hin)
  closing x hx := by simpa using hclosing x hx
  destroyed x hx := by simpa using h.destroyed x hx

theorem Together.shutdown (h : Together s) (id : Nat) : Together (shutdown id s) := by
  unfold TcpClient.shutdown
  split
  · exact h.setConn (fun _ => .inl (by simp)) (fun _ hx => hx) h.closing
  · exact h

theorem Together.handleClose (h : Together s) (id : Nat) : Together (handleClose id s) := by
  unfold TcpClient.handleClose
  split
  · exact h
  · exact h
  · rename_i st hne hst
    have hlt : id < s.conns.length := (List.getElem?_eq_some_iff.mp hst).1
    refine h.setConn (fun _ => .inr (by simp)) (fun _ hx => List.mem_cons_of_mem _ hx) fun x hx => ?_
    rcases List.mem_cons.mp hx with rfl | hx
    · exact hlt
    · exact h.closing x hx

theorem Sound.newConnection (h : Sound s) {addresses : Bool} (hreq : s.connectRequested = true)
    (hadd : addresses = true) : Together (newConnection addresses s) := by
  unfold TcpClient.newConnection
  simp only [hreq, hadd, Bool.not_true, Bool.false_eq_true, if_false]
  refine ⟨⟨h.callback, h.channel, fun id hid => ?_, ?_⟩, fun _ => .inr ⟨_, rfl, .inl ⟨.connected, by simp, by simp⟩⟩⟩
  · simpa using Nat.lt_succ_of_lt (h.closing id hid)
  · intro id hid
    have hlt := (h.destroyed id hid).1
    refine ⟨by simpa using Nat.lt_succ_of_lt hlt, fun heq => ?_⟩
    simp only [Option.some.injEq] at heq
    omega

/-- The step sets the two apart: the current connection is removed without a restart of the connector, or an attempt
    completes and no connection comes of it. -/
def strands (s : Client) : Act → Bool
  | .closed =>
    s.connector.state = .connected && s.closing.head? = s.connection &&
      !(s.retry && s.connectRequested) && Connector.Functor.restartInLoop ∉ s.connector.functors
  | .event error write soError selfConnect addresses =>
    Connector.completes error write soError s.connector &&
      (selfConnect.isNone ||
        selfConnect = some false && !(s.connector.started && s.connectRequested && addresses))
  | _ => false

/-- The connection is taken out of the client and will be destroyed. -/
def detach (id : Nat) (s : Client) : Client :=
  queueInLoop (.other (.connectDestroyed id))
    { s with connection := if s.connection = some id then none else s.connection }

theorem removeConnection_eq (id : Nat) (s : Client) : removeConnection id s =
    if s.retry && s.connectRequested then { detach id s with connector := Connector.restart (detach id s).connector }
    else detach id s := by
  by_cases hcur : s.connection = some id
  · simp only [removeConnection, detach, hcur, if_true]
    rfl
  · simp only [removeConnection, detach, hcur, if_false]
    rfl

theorem detach_connection (id : Nat) (s : Client) {x : Nat} (h : (detach id s).connection = some x) :
    s.connection = some x ∧ x ≠ id := by
  simp only [detach, TcpClient.queueInLoop] at h
  split at h
  · cases h
  · rename_i hne
    refine ⟨h, ?_⟩
    rintro rfl
    exact hne h

theorem Sound.detach {id : Nat} {rest : List Nat} (h : Sound s) (hcl : s.closing = id :: rest) :
    Sound (detach id { s with closing := rest }) where
  callback := h.callback
  channel := h.channel
  closing x hx := h.closing x (by simp [hcl, show x ∈ rest from hx])
  destroyed x hx := by
    rcases List.mem_append.mp hx with hx | hx
    · exact ⟨(h.destroyed x hx).1, fun heq => (h.destroyed x hx).2 (detach_connection id _ heq).1⟩
    · obtain rfl : x = id := by simpa using hx
      exact ⟨h.closing x (by simp [hcl]), fun heq => (detach_connection x _ heq).2 rfl⟩

theorem Together.removeConnection {id : Nat} {rest : List Nat} (h : Together s) (hcl : s.closing = id :: rest)
    (hok : strands s .closed = false) : Together (removeConnection id { s with closing := rest }) := by
  have hsound := h.toSound.detach hcl
  rw [removeConnection_eq]
  split
  · refine ⟨hsound.calm (Connector.restart_calm _), fun _ => .inl ?_⟩
    obtain ⟨_, he⟩ := Connector.restart_frame (TcpClient.detach id { s with closing := rest }).connector
    rw [he]
    simp
  · rename_i hno
    refine ⟨hsound, fun hc => ?_⟩
    by_cases hre : Connector.Functor.restartInLoop ∈ s.connector.functors
    · exact .inl (List.mem_append_left _ hre)
    · -- so it is not the current connection that goes
      have hne : s.connection ≠ some id := by
        intro heq
        have hc' : s.connector.state = .connected := hc
        simp_all [strands]
      obtain ⟨cur, hcur, hrest⟩ := (h.connected hc).resolve_left hre
      refine .inr ⟨cur, ?_, hrest.imp_right fun hin => ?_⟩
      · simp [TcpClient.detach, TcpClient.queueInLoop, hcur, hcur ▸ hne]
      · rw [hcl] at hin
        rcases List.mem_cons.mp hin with rfl | hin
        · exact absurd hcur hne
        · exact hin

/-- The head of the queue, which is no restart, leaves it. -/
theorem Together.pop (h : Together s) {f : Connector.Functor Queued} {fs : List (Connector.Functor Queued)}
    (hq : s.connector.functors = f :: fs) (hf : f ≠ .restartInLoop) :
    Together { s with connector := { s.connector with functors := fs } } where
  callback := h.callback
  channel := h.channel
  connected hconn := (h.connected hconn).imp_left fun hre => Connector.mem_tail hq hre hf
  closing := h.closing
  destroyed id hid := h.destroyed id (hq ▸ List.mem_cons_of_mem _ hid)

theorem Together.runFunctor (h : Together s) {f : Connector.Functor Queued} {fs : List (Connector.Functor Queued)}
    (hq : s.connector.functors = f :: fs) (answer : Connector.Attempt) :
    Together (runFunctor answer f { s with connector := { s.connector with functors := fs } }) := by
  cases f with
  | stopInLoop => exact (h.pop hq (by simp)).calm (Connector.stopInLoop_calm _)
  | restartInLoop =>
    -- whatever the connector stood for, it is Disconnected now
    have hdisc : Together { s with connector := Connector.setState .disconnected { s.connector with functors := fs } } :=
      { callback := h.callback
        channel := by simp [Connector.setState]
        connected := by simp [Connector.setState]
        closing := h.closing
        destroyed := fun id hid => h.destroyed id (hq ▸ List.mem_cons_of_mem _ hid) }
    exact hdisc.calm (Connector.startInLoop_calm answer _)
  | deleteChannel ch =>
    exact (h.pop hq (by simp)).calm ⟨rfl, fun h => h, fun h => h, fun _ h => h, fun _ h => h⟩
  | other f =>
    have hpop := h.pop hq (by simp)
    cases f with
    | startInLoop => exact hpop.calm (Connector.startInLoop_calm answer _)
    | cancelTimerInLoop id => exact hpop.calm ⟨rfl, fun h => h, fun h => h, fun _ h => h, fun _ h => h⟩
    | connectDestroyed id =>
      have hcur : s.connection ≠ some id := (h.destroyed id (by simp [hq])).2
      exact hpop.setConn (fun heq => absurd heq hcur) (fun _ hx => hx) hpop.closing
    | shutdownInLoop id => exact hpop
    | forceCloseInLoop id => exact hpop.handleClose id

theorem Together.event (h : Together s) {error write : Bool} {soError : Int} {selfConnect : Option Bool}
    {addresses : Bool} {r : Connector.Conn Queued × Bool}
    (hd : Connector.Dispatch s.connector error write soError selfConnect r)
    (hok : strands s (.event error write soError selfConnect addresses) = false) :
    Together (if r.2 then TcpClient.newConnection addresses { s with connector := r.1 }
      else { s with connector := r.1 }) := by
  cases hd with
  | ignored => exact h
  | retried _ => exact h.calm (Connector.retry_release_calm _)
  | threw hc => simp [strands, hc] at hok
  | delivered hc hst _ =>
    simp only [strands, hc, hst, Option.isNone_some, Bool.false_or, Bool.true_and, decide_true, Bool.not_eq_false',
      Bool.and_eq_true] at hok
    obtain ⟨_, _, _, he, hmore⟩ := Connector.release_frame s.connector
    have hsound : Sound { s with connector := Connector.establish true (Connector.release s.connector) } := by
      rw [he]
      refine ⟨h.callback, by simp [Connector.establish], h.closing, fun id hid => ?_⟩
      exact h.destroyed id (Connector.mem_deletions hmore hid)
    exact hsound.newConnection hok.1 hok.2
  | dropped hc hno =>
    have hst : s.connector.started = false := by simpa [h.callback] using hno
    simp [strands, hc, hst] at hok

theorem Together.effect (h : Together s) (e : Effect) : Together (effect e s) := by
  cases e with
  | storeConnectRequested on => exact ⟨⟨h.callback, h.channel, h.closing, h.destroyed⟩, h.connected⟩
  | storeStarted on => exact h.calm ⟨rfl, fun h => h, fun h => h, fun _ h => h, fun _ h => h⟩
  | clearRetryTimerId => exact h.calm ⟨rfl, fun h => h, fun h => h, fun _ h => h, fun _ h => h⟩
  | storeDisconnecting id => exact h.setConn (fun _ => .inl (by simp)) (fun _ hx => hx) h.closing
  | queueStartInLoop => exact h.queueInLoop (by simp)
  | queueStopInLoop => exact h.queueInLoop (by simp)
  | queueCancelTimer id => exact h.queueInLoop (by simp)
  | queueShutdown id => exact h.queueInLoop (by simp)
  | queueForceClose id => exact h.queueInLoop (by simp)

/-- A withdrawn or repeated request by itself changes nothing here. -/
theorem Together.requested (h : Together s) (on : Bool) : Together { s with connectRequested := on } :=
  ⟨⟨h.callback, h.channel, h.closing, h.destroyed⟩, h.connected⟩

theorem Together.disconnect (h : Together s) : Together (disconnect s) := by
  simp only [TcpClient.disconnect]
  split
  · exact (h.requested false).shutdown _
  · exact (h.requested false).calm (Connector.stop_calm _)

theorem Together.stop (h : Together s) : Together (stop s) := by
  have hstop := (h.requested false).calm (Connector.stop_calm _)
  simp only [TcpClient.stop]
  split
  · exact hstop.handleClose _
  · exact hstop

theorem step_together {a : Act} (hok : strands s a = false) (hs : step s a = some s') (h : Together s) :
    Together s' := by
  cases a with
  | enableRetry on =>
    obtain rfl : enableRetry on s = s' := by simpa [step] using hs
    exact ⟨⟨h.callback, h.channel, h.closing, h.destroyed⟩, h.connected⟩
  | setRetryDelayMs initialDelayMs maxDelayMs =>
    obtain rfl : { s with connector := Connector.setRetryDelayMs initialDelayMs maxDelayMs s.connector } = s' := by
      simpa [step] using hs
    exact h.calm ⟨rfl, fun h => h, fun h => h, fun _ h => h, fun _ h => h⟩
  | connect answer =>
    obtain rfl : connect answer s = s' := by simpa [step] using hs
    exact (h.requested true).calm (Connector.start_calm answer _)
  | disconnect =>
    obtain rfl : disconnect s = s' := by simpa [step] using hs
    exact h.disconnect
  | stop =>
    obtain rfl : stop s = s' := by simpa [step] using hs
    exact h.stop
  | shutdown id =>
    obtain rfl : shutdown id s = s' := by simpa [step] using hs
    exact h.shutdown id
  | close id =>
    obtain rfl : handleClose id s = s' := by simpa [step] using hs
    exact h.handleClose id
  | closed =>
    simp only [step, closed] at hs
    match hcl : s.closing with
    | [] => simp [hcl] at hs
    | id :: rest =>
      obtain rfl : removeConnection id { s with closing := rest } = s' := by simpa [hcl] using hs
      exact h.removeConnection hcl hok
  | functor answer =>
    simp only [step, functor] at hs
    split at hs
    · rename_i f fs _ hq
      obtain rfl : runFunctor answer f { s with connector := { s.connector with functors := fs } } = s' := by
        simpa using hs
      exact h.runFunctor hq answer
    · cases hs
  | fire id answer =>
    simp only [step, fire, Connector.fire] at hs
    split at hs
    · split at hs
      · obtain rfl : { s with connector := Connector.startInLoop answer (Connector.cancelTimer id s.connector) } = s' := by
          simpa using hs
        have hfired : Calm s.connector (Connector.cancelTimer id s.connector) :=
          ⟨rfl, fun h => h, fun h => h, fun _ h => h, fun _ h => h⟩
        exact h.calm (hfired.trans (Connector.startInLoop_calm answer _))
      · cases hs
    · cases hs
  | event error write soError selfConnect addresses =>
    simp only [step, event, Connector.event] at hs
    split at hs
    · split at hs
      · simp only [Option.map_some, Option.some.injEq] at hs
        rw [← hs]
        exact h.event (Connector.handleEvent_dispatch ..) hok
      · cases hs
    · cases hs
  | other e =>
    obtain rfl : effect e s = s' := by simpa [step] using hs
    exact h.effect e

/-- `connect()` on a connector that is not Connected: an attempt is under way, or this is one. -/
theorem connect_attempts (h : s.connector.state ≠ .connected) {answer : Connector.Attempt} (ha : answer ≠ .noSocket) :
    s.connector.state = .connecting ∨
      (connect answer s).connector.nextSocket = s.connector.nextSocket + 1 := by
  match hst : s.connector.state with
  | .connecting => exact .inl rfl
  | .connected => exact absurd hst h
  | .disconnected =>
    refine .inr ?_
    rcases Connector.startInLoop_cases answer (Connector.called .start { s.connector with started := true }) with
      ⟨-, -, he⟩ | ⟨hno, -⟩
    · simp only [connect, Connector.start, he]
      exact Connector.connect_nextSocket _ ha
    · simp [Connector.called, hst] at hno

/-- In every run in which no step sets the client and its connector apart: when everything queued has run, a
    connector that is Connected stands for a connection that is not Disconnected; and if there is no connection,
    an attempt is under way or `connect()` begins one. -/
theorem client_can_reconnect (h : machine.Reach (fun s a => strands s a = false) s)
    (hq : s.connector.functors = []) (hcl : s.closing = []) :
    (s.connector.state = .connected → ∃ id, s.connection = some id ∧ Live s id) ∧
      (s.connection = none → ∀ answer, answer ≠ .noSocket →
        (s.connector.state = .connecting ∧ s.connector.channel.isSome = true) ∨
          (connect answer s).connector.nextSocket = s.connector.nextSocket + 1) := by
  have ht : Together s := by
    refine h.inv (I := Together) ?_ fun s a s' ht hok hstep => step_together hok hstep ht
    refine ⟨⟨rfl, by simp [machine, make, Connector.make, Connector.setNewConnectionCallback], by simp [machine, make], ?_⟩, ?_⟩
    all_goals simp [machine, make, Connector.make, Connector.setNewConnectionCallback]
  have hconn : s.connector.state = .connected → ∃ id, s.connection = some id ∧ Live s id := by
    intro hc
    simpa [hq, hcl] using ht.connected hc
  refine ⟨hconn, fun hnone answer ha => ?_⟩
  have hne : s.connector.state ≠ .connected := by
    intro hc
    obtain ⟨id, hid, -⟩ := hconn hc
    simp [hnone] at hid
  exact (connect_attempts hne ha).imp_left fun hc => ⟨hc, ht.channel hc⟩

/-- With retry on, the peer closes; the connector restarts, the attempt is refused, and `disconnect()` gives up. -/
theorem client_can_reconnect_after_a_close :
    ∃ s, machine.Reach (fun s a => strands s a = false) s ∧ s.connection = none ∧ s.conns = [.disconnected] ∧
      (s.connector.state = .connecting ∧ s.connector.channel.isSome = true ∨
        (connect (.succeeded 0) s).connector.nextSocket = s.connector.nextSocket + 1) := by
  obtain ⟨s, hr, hs⟩ := Machine.Reach.of_run machine (fun s a => strands s a = false)
    (fun s => s.connector.functors == [] && s.closing == [] && s.connection == none && s.conns == [.disconnected])
    [.enableRetry true, .connect (.succeeded 0), .event false true 0 (some false) true, .functor (.succeeded 0), .close 0,
      .closed, .functor (.succeeded 0), .functor (.failed Connector.econnrefused), .disconnect, .functor (.succeeded 0)]
    (by decide +kernel)
  simp only [Bool.and_eq_true, beq_iff_eq] at hs
  obtain ⟨⟨⟨hq, hcl⟩, hnone⟩, hconns⟩ := hs
  exact ⟨s, hr, hnone, hconns, (client_can_reconnect hr hq hcl).2 hnone (.succeeded 0) (by simp)⟩

/-- The peer closes and retry is off, which it is unless it is asked for: the connector stays Connected, and
    `connect()` does nothing. -/
theorem connect_does_nothing_after_a_close :
    ∃ s, machine.Reach (fun _ _ => True) s ∧ s.connector.functors = [] ∧ s.closing = [] ∧
      s.connector.state = .connected ∧ s.connection = none ∧
      ∀ answer, (connect answer s).connector.nextSocket = s.connector.nextSocket ∧
        (connect answer s).connector.state = .connected ∧ (connect answer s).connector.timers = [] := by
  obtain ⟨s, hr, hs⟩ := Machine.Reach.of_run machine (fun _ _ => True)
    (fun s => s.connector.functors == [] && s.closing == [] && s.connector.state == .connected &&
      s.connection == none && s.connector.timers == [])
    [.connect (.succeeded 0), .event false true 0 (some false) true, .functor (.succeeded 0), .close 0, .closed,
      .functor (.succeeded 0)]
    (by decide +kernel)
  simp only [Bool.and_eq_true, beq_iff_eq] at hs
  obtain ⟨⟨⟨⟨hq, hcl⟩, hst⟩, hnone⟩, htimers⟩ := hs
  refine ⟨s, hr, hq, hcl, hst, hnone, fun answer => ?_⟩
  rcases Connector.startInLoop_cases answer (Connector.called .start { s.connector with started := true }) with
    ⟨-, hd, -⟩ | ⟨-, he⟩
  · simp [Connector.called, hst] at hd
  · simp only [connect, Connector.start, he]
    exact ⟨rfl, hst, htimers⟩

end Dbase.Net.TcpClient
