/-
  Dbase.Net.ConnectorProofs — what a connector owns, and whose request it obeys.

  (1) At most one attempt (`one_attempt_at_a_time`). Where a step leaves no attempt behind, the state is
  Connecting exactly as long as there is a channel and a socket; these are the only ones that are open and
  registered, and no channel that the poller has is destroyed. The functor of `restart` leaves one behind when it
  finds an attempt under way (`registered_channel_is_destroyed`), and so does `isSelfConnect` when it throws.

  (2) The last request (`last_request_is_obeyed`), where no attempt is left behind. Once the queue is empty, the
  connector is started exactly if `start` or `restart` was the last call; after `stop` no attempt and no timer is left,
  and otherwise one of them is until a connection is delivered. A `stop` whose functor runs after the next call undoes
  that call (`stop_undoes_a_later_start`).
-/

import Dbase.Net.Connector

namespace Dbase.Net.Connector

open Dbase.Lib

variable {φ : Type} {c c' : Conn φ}

/-! ## What an attempt comes to -/

/-- The errors a connect may have: none, in progress, or one to retry after. -/
def Attempt.retryable : Attempt → Bool
  | .noSocket => false
  | .succeeded err => err = 0 || isInProgressError err || isRetryableConnectError err
  | .failed err => isInProgressError err || isRetryableConnectError err

inductive Outcome (c : Conn φ) : Attempt → Conn φ → Prop
  | threw : Outcome c .noSocket c
  | begun {answer : Attempt} : Outcome c answer (connecting c.nextSocket (openSocket c))
  | retried {answer : Attempt} : Outcome c answer (retry (closeSocket (some c.nextSocket) (openSocket c)))
  | gaveUp {answer : Attempt} : answer.retryable = false →
      Outcome c answer (closeSocket (some c.nextSocket) (openSocket c))

theorem connect_outcome (answer : Attempt) (c : Conn φ) : Outcome c answer (connect answer c) := by
  cases answer with
  | noSocket => exact .threw
  | succeeded err =>
    simp only [connect]
    split
    · exact .begun
    · split
      · exact .retried
      · refine .gaveUp ?_
        simp_all [Attempt.retryable]
  | failed err =>
    simp only [connect]
    split
    · exact .begun
    · split
      · exact .retried
      · refine .gaveUp ?_
        simp_all [Attempt.retryable]

/-- `startInLoop` is a new attempt, or nothing. -/
theorem startInLoop_cases (answer : Attempt) (c : Conn φ) :
    (c.started = true ∧ c.state = .disconnected ∧ startInLoop answer c = connect answer c) ∨
      ((c.started = false ∨ c.state ≠ .disconnected) ∧ startInLoop answer c = c) := by
  unfold startInLoop
  cases hst : c.started with
  | false => exact .inr ⟨.inl rfl, by simp⟩
  | true =>
    by_cases hd : c.state = .disconnected
    · exact .inl ⟨rfl, hd, by simp [hd]⟩
    · exact .inr ⟨.inr hd, by simp [hd]⟩

/-- The timers that `cancelRetry` leaves. -/
def remaining (c : Conn φ) : List (Nat × Int) :=
  if c.retryTimerId ≠ 0 then c.timers.filter (·.1 ≠ c.retryTimerId) else c.timers

theorem cancelRetry_frame (c : Conn φ) : ∃ id, cancelRetry c = { c with retryTimerId := id, timers := remaining c } := by
  unfold cancelRetry remaining
  split
  · exact ⟨_, rfl⟩
  · exact ⟨_, rfl⟩

theorem doubleDelay_frame (c : Conn φ) : ∃ delay, doubleDelay c = { c with retryDelayMs := delay } := by
  simp only [doubleDelay]
  split
  · exact ⟨_, rfl⟩
  · exact ⟨_, rfl⟩

theorem retry_stopped (h : c.started = false) : retry c = setState .disconnected c :=
  if_neg (by simp [setState, h])

theorem retry_started (h : c.started = true) : ∃ delay next, retry c = { c with
    state := .disconnected, retryTimerId := c.nextTimerId, timers := remaining c ++ [(c.nextTimerId, delay)]
    nextTimerId := c.nextTimerId + 1, retryDelayMs := next } := by
  obtain ⟨id, hcancel⟩ := cancelRetry_frame (setState .disconnected c)
  obtain ⟨next, hdouble⟩ := doubleDelay_frame (runAfter c.retryDelayMs (cancelRetry (setState .disconnected c)))
  have hretry : retry c = doubleDelay (runAfter c.retryDelayMs (cancelRetry (setState .disconnected c))) := if_pos h
  refine ⟨if c.retryDelayMs < 0 then 0 else c.retryDelayMs, next, ?_⟩
  rw [hretry, hdouble, hcancel]
  rfl

/-- What `retry` changes. -/
theorem retry_frame (c : Conn φ) : ∃ id timers next delay, retry c = { c with
    state := .disconnected, retryTimerId := id, timers := timers, nextTimerId := next, retryDelayMs := delay } := by
  by_cases hst : c.started = true
  · obtain ⟨_, _, he⟩ := retry_started hst
    rw [he]
    exact ⟨_, _, _, _, rfl⟩
  · rw [retry_stopped (by simpa using hst)]
    exact ⟨_, _, _, _, rfl⟩

theorem stop_frame (c : Conn φ) : ∃ id, stop c = { c with
    started := false, retryTimerId := id, timers := remaining c, functors := c.functors ++ [.stopInLoop]
    last := some .stop, delivered := false } := by
  obtain ⟨id, he⟩ := cancelRetry_frame (called .stop { c with started := false })
  simp only [stop, he]
  exact ⟨id, rfl⟩

theorem restart_frame (c : Conn φ) : ∃ id, restart c = { c with
    started := true, retryDelayMs := c.initialRetryDelayMs, retryTimerId := id, timers := remaining c
    functors := c.functors ++ [.restartInLoop], last := some .restart, delivered := false } := by
  obtain ⟨id, he⟩ := cancelRetry_frame (called .restart c)
  simp only [restart, he]
  exact ⟨id, rfl⟩

@[simp] theorem retry_state (c : Conn φ) : (retry c).state = .disconnected := by
  obtain ⟨_, _, _, _, he⟩ := retry_frame c
  rw [he]

@[simp] theorem removeAndResetChannelRaw_started (c : Conn φ) : (removeAndResetChannelRaw c).started = c.started := by
  unfold removeAndResetChannelRaw
  cases c.channel
  all_goals rfl

@[simp] theorem removeAndResetChannelRaw_newConnectionCallback (c : Conn φ) :
    (removeAndResetChannelRaw c).newConnectionCallback = c.newConnectionCallback := by
  unfold removeAndResetChannelRaw
  cases c.channel
  all_goals rfl

@[simp] theorem removeAndResetChannelRaw_delivered (c : Conn φ) : (removeAndResetChannelRaw c).delivered = c.delivered := by
  unfold removeAndResetChannelRaw
  cases c.channel
  all_goals rfl

/-- The attempt is given up: the channel leaves the poller, and the socket is closed. -/
def release (c : Conn φ) : Conn φ := closeSocket c.socket (removeAndResetChannelRaw c)

/-- What giving up an attempt changes. -/
theorem release_frame (c : Conn φ) : ∃ opened registered more, release c = { c with
    channel := none, socket := none, opened := opened, registered := registered, functors := c.functors ++ more } ∧
    ∀ f ∈ more, ∃ ch, f = .deleteChannel ch := by
  unfold release removeAndResetChannelRaw
  cases hch : c.channel with
  | none =>
    refine ⟨c.opened.filter (some · ≠ c.socket), c.registered, [], ?_, by simp⟩
    simp [closeSocket]
  | some ch => exact ⟨_, _, [.deleteChannel ch], rfl, by simp⟩

theorem stopInLoop_connecting (h : c.state = .connecting) :
    stopInLoop c = setState .disconnected (release { c with started := false }) :=
  if_pos h

theorem stopInLoop_idle (h : c.state ≠ .connecting) (hch : c.channel = none) :
    stopInLoop c = { c with started := false } :=
  (if_neg h).trans (if_neg (by simp [hch]))

/-- What `stopInLoop` changes. -/
theorem stopInLoop_frame (c : Conn φ) : ∃ state socket opened registered more, stopInLoop c = { c with
    started := false, state := state, channel := none, socket := socket, opened := opened, registered := registered
    functors := c.functors ++ more } ∧
    state ≠ .connecting ∧ (state = .connected → c.state = .connected) ∧ ∀ f ∈ more, ∃ ch, f = .deleteChannel ch := by
  obtain ⟨opened, registered, more, he, hmore⟩ := release_frame { c with started := false }
  by_cases hc : c.state = .connecting
  · rw [stopInLoop_connecting hc, he]
    exact ⟨_, _, _, _, more, rfl, by simp, by simp, hmore⟩
  · by_cases hch : c.channel = none
    · rw [stopInLoop_idle hc hch]
      refine ⟨c.state, c.socket, c.opened, c.registered, [], ?_, hc, fun h => h, by simp⟩
      simp [hch]
    · have hrel : stopInLoop c = release { c with started := false } :=
        (if_neg hc).trans (if_pos (Option.isSome_iff_ne_none.mpr hch))
      rw [hrel, he]
      exact ⟨_, _, _, _, more, rfl, hc, fun h => h, hmore⟩

/-- The write event finds the attempt complete. -/
def completes (error write : Bool) (soError : Int) (c : Conn φ) : Bool :=
  c.state = .connecting && !error && write && soError = 0

/-- The attempt has become a connection. -/
def establish (delivered : Bool) (c : Conn φ) : Conn φ :=
  { c with state := .connected, retryDelayMs := c.initialRetryDelayMs, delivered := delivered }

/-- What an event does. -/
inductive Dispatch (c : Conn φ) (error write : Bool) (soError : Int) : Option Bool → Conn φ × Bool → Prop
  | ignored {selfConnect : Option Bool} : Dispatch c error write soError selfConnect (c, false)
  | retried {selfConnect : Option Bool} : c.state = .connecting →
      Dispatch c error write soError selfConnect (retry (release c), false)
  | threw : completes error write soError c = true → Dispatch c error write soError none (release c, false)
  | delivered : completes error write soError c = true → c.started = true → c.newConnectionCallback = true →
      Dispatch c error write soError (some false) (establish true (release c), true)
  | dropped : completes error write soError c = true → (c.started && c.newConnectionCallback) = false →
      Dispatch c error write soError (some false) (establish c.delivered (release c), false)

theorem handleWrite_dispatch (soError : Int) (selfConnect : Option Bool) (c : Conn φ) :
    Dispatch c false true soError selfConnect (handleWrite soError selfConnect c) := by
  unfold handleWrite
  by_cases hc : c.state = .connecting
  · rw [if_neg (by simpa using hc)]
    by_cases herr : soError = 0
    · rw [if_neg (by simpa using herr)]
      have hcomp : completes false true soError c = true := by simp [completes, hc, herr]
      match selfConnect with
      | none => exact .threw hcomp
      | some true => exact .retried hc
      | some false =>
        dsimp only
        rw [removeAndResetChannelRaw_started, removeAndResetChannelRaw_newConnectionCallback]
        by_cases hcb : (c.started && c.newConnectionCallback) = true
        · rw [if_pos hcb]
          obtain ⟨hst, hnew⟩ := Bool.and_eq_true_iff.mp hcb
          have hdel := Dispatch.delivered hcomp hst hnew
          simpa [establish, release, closeSocket] using hdel
        · rw [if_neg hcb]
          have hdrop := Dispatch.dropped hcomp (by simpa using hcb)
          simpa [establish, release, closeSocket] using hdrop
    · rw [if_pos herr]
      exact .retried hc
  · rw [if_pos hc]
    exact .ignored

theorem handleEvent_dispatch (error write : Bool) (soError : Int) (selfConnect : Option Bool) (c : Conn φ) :
    Dispatch c error write soError selfConnect (handleEvent error write soError selfConnect c) := by
  unfold handleEvent
  cases error with
  | false =>
    cases write with
    | false => exact .ignored
    | true => exact handleWrite_dispatch soError selfConnect c
  | true =>
    -- after the error callback there is no attempt, and the write callback returns at once
    have hwrite : handleWrite soError selfConnect (handleError c) = (handleError c, false) := by
      refine if_pos ?_
      unfold handleError
      split
      · assumption
      · simp
    have herror : Dispatch c true write soError selfConnect (handleError c, false) := by
      unfold handleError
      split
      · exact .ignored
      · rename_i hc
        exact .retried (by simpa using hc)
    cases write with
    | false => exact herror
    | true =>
      show Dispatch c true true soError selfConnect (handleWrite soError selfConnect (handleError c))
      rw [hwrite]
      exact herror

/-- What a step can do. -/
inductive Move (c : Conn φ) : Act → Conn φ → Prop
  | setNewConnectionCallback (on : Bool) : Move c (.setNewConnectionCallback on) (setNewConnectionCallback on c)
  | setRetryDelayMs (initialDelayMs maxDelayMs : Int) :
      Move c (.setRetryDelayMs initialDelayMs maxDelayMs) (setRetryDelayMs initialDelayMs maxDelayMs c)
  | start (answer : Attempt) : Move c (.start answer) (start answer c)
  | stop : Move c .stop (stop c)
  | restart : Move c .restart (restart c)
  | functor {f : Functor φ} {fs : List (Functor φ)} (answer : Attempt) : c.functors = f :: fs →
      Move c (.functor answer) (runFunctor answer f { c with functors := fs })
  | fire (id : Nat) (answer : Attempt) : c.timers.any (·.1 = id) = true →
      Move c (.fire id answer) (startInLoop answer (cancelTimer id c))
  | event {error write : Bool} {soError : Int} {selfConnect : Option Bool} {r : Conn φ × Bool} :
      c.channel.isSome = true → Dispatch c error write soError selfConnect r →
      Move c (.event error write soError selfConnect) r.1

theorem step_move {a : Act} (h : step c a = some c') : Move c a c' := by
  cases a with
  | setNewConnectionCallback on =>
    obtain rfl : setNewConnectionCallback on c = c' := by simpa [step] using h
    exact .setNewConnectionCallback on
  | setRetryDelayMs initialDelayMs maxDelayMs =>
    obtain rfl : setRetryDelayMs initialDelayMs maxDelayMs c = c' := by simpa [step] using h
    exact .setRetryDelayMs _ _
  | start answer =>
    obtain rfl : start answer c = c' := by simpa [step] using h
    exact .start answer
  | stop =>
    obtain rfl : stop c = c' := by simpa [step] using h
    exact .stop
  | restart =>
    obtain rfl : restart c = c' := by simpa [step] using h
    exact .restart
  | functor answer =>
    simp only [step, functor] at h
    match hq : c.functors with
    | [] => simp [hq] at h
    | f :: fs =>
      obtain rfl : runFunctor answer f { c with functors := fs } = c' := by simpa [hq] using h
      exact .functor answer hq
  | fire id answer =>
    simp only [step, fire] at h
    split at h
    · rename_i ht
      obtain rfl : startInLoop answer (cancelTimer id c) = c' := by simpa using h
      exact .fire id answer ht
    · cases h
  | event error write soError selfConnect =>
    simp only [step, event] at h
    split at h
    · rename_i hch
      obtain rfl : (handleEvent error write soError selfConnect c).1 = c' := by simpa using h
      exact .event hch (handleEvent_dispatch ..)
    · cases h

/-! ## At most one attempt -/

/-- The channel is destroyed, or will be by a functor. -/
def gone (c : Conn φ) (ch : Nat) : Prop := ch ∈ c.destroyed ∨ .deleteChannel ch ∈ c.functors

structure Idle (c : Conn φ) : Prop where
  channel : c.channel = none
  socket : c.socket = none
  opened : c.opened = []
  registered : c.registered = []
  older : ∀ x, gone c x → x < c.nextSocket

structure Busy (ch : Nat) (c : Conn φ) : Prop where
  channel : c.channel = some ch
  socket : c.socket = some ch
  opened : c.opened = [ch]
  registered : c.registered = [ch]
  next : ch < c.nextSocket
  -- so that the channel is none of these
  older : ∀ x, gone c x → x < ch

inductive Single (c : Conn φ) : Prop
  | idle : c.state ≠ .connecting → Idle c → Single c
  | busy (ch : Nat) : c.state = .connecting → Busy ch c → Single c

/-- The two own the same, and no other channel is gone. -/
structure Same (c c' : Conn φ) : Prop where
  channel : c'.channel = c.channel
  socket : c'.socket = c.socket
  opened : c'.opened = c.opened
  registered : c'.registered = c.registered
  nextSocket : c'.nextSocket = c.nextSocket
  gone : ∀ x, gone c' x → gone c x

theorem Idle.of_same (h : Idle c) (hs : Same c c') : Idle c' where
  channel := hs.channel.trans h.channel
  socket := hs.socket.trans h.socket
  opened := hs.opened.trans h.opened
  registered := hs.registered.trans h.registered
  older x hx := hs.nextSocket ▸ h.older x (hs.gone x hx)

theorem Busy.of_same {ch : Nat} (h : Busy ch c) (hs : Same c c') : Busy ch c' where
  channel := hs.channel.trans h.channel
  socket := hs.socket.trans h.socket
  opened := hs.opened.trans h.opened
  registered := hs.registered.trans h.registered
  next := hs.nextSocket ▸ h.next
  older x hx := h.older x (hs.gone x hx)

theorem Single.of_same (h : Single c) (hstate : c'.state = c.state) (hs : Same c c') : Single c' := by
  cases h with
  | idle hne hi => exact .idle (hstate ▸ hne) (hi.of_same hs)
  | busy ch heq hb => exact .busy ch (hstate.trans heq) (hb.of_same hs)

theorem setState_same (state : State) (c : Conn φ) : Same c (setState state c) :=
  ⟨rfl, rfl, rfl, rfl, rfl, fun _ h => h⟩

theorem retry_same (c : Conn φ) : Same c (retry c) := by
  obtain ⟨_, _, _, _, he⟩ := retry_frame c
  rw [he]
  exact ⟨rfl, rfl, rfl, rfl, rfl, fun _ h => h⟩

/-- A functor that deletes no channel is queued. -/
theorem gone_of_snoc {f : Functor φ} (hf : ∀ ch, f ≠ .deleteChannel ch) (hd : c'.destroyed = c.destroyed)
    (hq : c'.functors = c.functors ++ [f]) {x : Nat} (h : gone c' x) : gone c x := by
  rcases h with hx | hx
  · exact .inl (hd ▸ hx)
  · rw [hq] at hx
    rcases List.mem_append.mp hx with hx | hx
    · exact .inr hx
    · exact absurd (List.mem_singleton.mp hx).symm (hf x)

/-- The channel is given up, and its socket with it. -/
theorem Busy.release {ch : Nat} (h : Busy ch c) : Idle (release c) := by
  simp only [Connector.release, removeAndResetChannelRaw, h.channel, closeSocket]
  refine ⟨rfl, rfl, by simp [h.opened, h.socket], by simp [h.registered], fun x hx => ?_⟩
  have hnext := h.next
  rcases hx with hx | hx
  · exact (h.older x (.inl hx)).trans hnext
  · rcases List.mem_append.mp hx with hx | hx
    · exact (h.older x (.inr hx)).trans hnext
    · obtain rfl : x = ch := by simpa using hx
      exact hnext

/-- A socket that is opened and closed again leaves nothing behind. -/
theorem Idle.tried (h : Idle c) : Idle (closeSocket (some c.nextSocket) (openSocket c)) where
  channel := h.channel
  socket := h.socket
  opened := by simp [closeSocket, openSocket, h.opened]
  registered := h.registered
  older x hx := (h.older x hx).trans (Nat.lt_succ_self _)

theorem Idle.connecting (h : Idle c) : Busy c.nextSocket (connecting c.nextSocket (openSocket c)) where
  channel := rfl
  socket := rfl
  opened := by simp [Connector.connecting, openSocket, h.opened]
  registered := by simp [Connector.connecting, openSocket, h.registered]
  next := Nat.lt_succ_self _
  older x hx := h.older x (by simpa [gone, Connector.connecting, openSocket, h.channel] using hx)

theorem Idle.retry (h : Idle c) : Single (retry c) := .idle (by simp) (h.of_same (retry_same c))

theorem Idle.connect (h : Idle c) (hne : c.state ≠ .connecting) (answer : Attempt) : Single (connect answer c) := by
  have ho := connect_outcome answer c
  generalize Connector.connect answer c = c' at ho
  cases ho with
  | threw => exact .idle hne h
  | begun => exact .busy _ rfl h.connecting
  | retried => exact h.tried.retry
  | gaveUp => exact .idle hne h.tried

theorem Single.startInLoop (h : Single c) (answer : Attempt) : Single (startInLoop answer c) := by
  rcases startInLoop_cases answer c with ⟨-, hd, he⟩ | ⟨-, he⟩
  · rw [he]
    cases h with
    | idle hne hi => exact hi.connect hne answer
    | busy ch hc _ => simp [hd] at hc
  · rw [he]
    exact h

theorem Single.stopInLoop (h : Single c) : Single (stopInLoop c) := by
  cases h with
  | idle hne hi =>
    rw [stopInLoop_idle hne hi.channel]
    exact .idle hne (hi.of_same ⟨rfl, rfl, rfl, rfl, rfl, fun _ h => h⟩)
  | busy ch hc hb =>
    rw [stopInLoop_connecting hc]
    have hb' : Busy ch { c with started := false } := hb.of_same ⟨rfl, rfl, rfl, rfl, rfl, fun _ h => h⟩
    exact .idle (by simp [setState]) (hb'.release.of_same (setState_same _ _))

theorem Idle.establish (h : Idle c) (delivered : Bool) : Single (establish delivered c) :=
  .idle (by simp [Connector.establish]) (h.of_same ⟨rfl, rfl, rfl, rfl, rfl, fun _ h => h⟩)

theorem Single.dispatch (h : Single c) {error write : Bool} {soError : Int} {selfConnect : Option Bool}
    {r : Conn φ × Bool} (hd : Dispatch c error write soError selfConnect r)
    (hself : completes error write soError c = true → selfConnect ≠ none) : Single r.1 := by
  cases h with
  | idle hne hi =>
    have hcomp : completes error write soError c = false := by simp [completes, hne]
    cases hd with
    | ignored => exact .idle hne hi
    | retried hc => exact absurd hc hne
    | threw hc => simp [hcomp] at hc
    | delivered hc => simp [hcomp] at hc
    | dropped hc => simp [hcomp] at hc
  | busy ch hc hb =>
    cases hd with
    | ignored => exact .busy ch hc hb
    | retried _ => exact hb.release.retry
    | threw hc => exact absurd rfl (hself hc)
    | delivered _ _ _ => exact hb.release.establish true
    | dropped _ _ => exact hb.release.establish c.delivered

theorem same_pop {f : Functor φ} {fs : List (Functor φ)} (hq : c.functors = f :: fs) :
    Same c { c with functors := fs } := by
  refine ⟨rfl, rfl, rfl, rfl, rfl, fun x hx => ?_⟩
  rcases hx with hx | hx
  · exact .inl hx
  · exact .inr (hq ▸ List.mem_cons_of_mem f hx)

theorem Single.runFunctor (h : Single c) {f : Functor φ} {fs : List (Functor φ)} (hq : c.functors = f :: fs)
    (answer : Attempt) (hf : f = .restartInLoop → c.state ≠ .connecting) :
    Single (runFunctor answer f { c with functors := fs }) := by
  have hpop : Single { c with functors := fs } := h.of_same rfl (same_pop hq)
  cases f with
  | stopInLoop => exact hpop.stopInLoop
  | restartInLoop =>
    refine Single.startInLoop ?_ answer
    cases hpop with
    | idle _ hi => exact .idle (by simp [setState]) (hi.of_same (setState_same _ _))
    | busy ch hc _ => exact absurd hc (hf rfl)
  | deleteChannel ch =>
    refine h.of_same rfl ⟨rfl, rfl, rfl, rfl, rfl, fun x hx => ?_⟩
    rcases hx with hx | hx
    · rcases List.mem_cons.mp hx with rfl | hx
      · exact .inr (by simp [hq])
      · exact .inl hx
    · exact .inr (hq ▸ List.mem_cons_of_mem _ hx)
  | other f => exact hpop

/-- The step leaves an attempt behind: the functor of `restart` finds one under way, or `isSelfConnect`
    throws. -/
def forgets (c : Conn φ) : Act → Bool
  | .functor _ =>
    match c.functors with
    | .restartInLoop :: _ => c.state = .connecting
    | _ => false
  | .event error write soError selfConnect => completes error write soError c && selfConnect.isNone
  | _ => false

theorem step_single {a : Act} (hok : forgets c a = false) (h : step c a = some c') (hs : Single c) : Single c' := by
  cases step_move h with
  | setNewConnectionCallback on => exact hs.of_same rfl ⟨rfl, rfl, rfl, rfl, rfl, fun _ h => h⟩
  | setRetryDelayMs initialDelayMs maxDelayMs => exact hs.of_same rfl ⟨rfl, rfl, rfl, rfl, rfl, fun _ h => h⟩
  | start answer =>
    have hcalled : Single (called .start { c with started := true }) :=
      hs.of_same rfl ⟨rfl, rfl, rfl, rfl, rfl, fun _ h => h⟩
    exact hcalled.startInLoop answer
  | stop =>
    obtain ⟨_, he⟩ := stop_frame c
    rw [he]
    exact hs.of_same rfl ⟨rfl, rfl, rfl, rfl, rfl, fun _ => gone_of_snoc (f := .stopInLoop) (by simp) (by rfl) (by rfl)⟩
  | restart =>
    obtain ⟨_, he⟩ := restart_frame c
    rw [he]
    exact hs.of_same rfl ⟨rfl, rfl, rfl, rfl, rfl, fun _ => gone_of_snoc (f := .restartInLoop) (by simp) (by rfl) (by rfl)⟩
  | functor answer hq =>
    refine hs.runFunctor hq answer fun hf => ?_
    simpa [forgets, hq, hf] using hok
  | fire id answer _ =>
    have hfired : Single (cancelTimer id c) := hs.of_same rfl ⟨rfl, rfl, rfl, rfl, rfl, fun _ h => h⟩
    exact hfired.startInLoop answer
  | event _ hd =>
    refine hs.dispatch hd fun hc hnone => ?_
    simp [forgets, hc, hnone] at hok

/-- What the connector owns: at most one attempt. -/
structure OneAttempt (c : Conn φ) : Prop where
  channel : c.state = .connecting ↔ c.channel.isSome
  socket : c.channel.isSome ↔ c.socket.isSome
  opened : ∀ sock ∈ c.opened, c.socket = some sock
  registered : ∀ ch ∈ c.registered, ch ∉ c.destroyed

theorem Single.oneAttempt (h : Single c) : OneAttempt c := by
  cases h with
  | idle hne hi =>
    exact ⟨by simp [hne, hi.channel], by simp [hi.channel, hi.socket], by simp [hi.opened], by simp [hi.registered]⟩
  | busy ch hc hb =>
    refine ⟨by simp [hc, hb.channel], by simp [hb.channel, hb.socket], by simp [hb.opened, hb.socket], ?_⟩
    intro x hx hgone
    obtain rfl : x = ch := by simpa [hb.registered] using hx
    exact lt_irrefl x (hb.older x (.inl hgone))

/-- In every run in which no step leaves an attempt behind, the connector owns at most one at a time. -/
theorem one_attempt_at_a_time (h : (machine φ).Reach (fun c a => forgets c a = false) c) : OneAttempt c := by
  have hs : Single c := by
    refine h.inv ?_ fun c a c' hs hok hstep => step_single hok hstep hs
    exact .idle (by simp [machine, make]) ⟨rfl, rfl, rfl, rfl, by simp [gone, machine, make]⟩
  exact hs.oneAttempt

/-- A refused attempt is retried after its timer, and the next one is under way. -/
theorem one_attempt_at_a_time_retried :
    ∃ c : Conn Empty, (machine Empty).Reach (fun c a => forgets c a = false) c ∧ c.socket = some 1 ∧
      OneAttempt c := by
  obtain ⟨c, hr, hc⟩ := Machine.Reach.of_run (machine Empty) (fun c a => forgets c a = false)
    (fun c => c.socket == some 1)
    [.start (.succeeded 0), .event true false 0 none, .functor .noSocket, .fire 1 (.succeeded einprogress)]
    (by decide +kernel)
  exact ⟨c, hr, by simpa using hc, one_attempt_at_a_time hr⟩

/-- `restart` while an attempt is under way: its functor puts a new channel in the place of the old one, which the
    poller still has, and whose socket nobody closes. -/
theorem registered_channel_is_destroyed :
    ∃ c : Conn Empty, (machine Empty).Reach (fun _ _ => True) c ∧ ¬ OneAttempt c ∧
      (∃ ch ∈ c.registered, ch ∈ c.destroyed) ∧ ∃ sock ∈ c.opened, c.socket ≠ some sock := by
  obtain ⟨c, hr, hc⟩ := Machine.Reach.of_run (machine Empty) (fun _ _ => True)
    (fun c => c.registered == [1, 0] && c.destroyed == [0] && c.opened == [1, 0] && c.socket == some 1)
    [.start (.succeeded 0), .restart, .functor (.succeeded 0)] (by decide +kernel)
  simp only [Bool.and_eq_true, beq_iff_eq] at hc
  obtain ⟨⟨⟨hreg, hdes⟩, hopen⟩, hsock⟩ := hc
  refine ⟨c, hr, fun h => ?_, ⟨0, by simp [hreg], by simp [hdes]⟩, ⟨0, by simp [hopen], by simp [hsock]⟩⟩
  exact h.registered 0 (by simp [hreg]) (by simp [hdes])

/-! ## The last request -/

/-- The last call asks for a connection. -/
def wanted (c : Conn φ) : Bool := c.last = some .start || c.last = some .restart

/-- An attempt is under way, or will be when its timer expires. -/
def Trying (c : Conn φ) : Prop := c.state = .connecting ∨ c.state = .disconnected ∧ c.timers ≠ []

/-- At most one timer is armed, and the connector knows its id. -/
structure Timers (c : Conn φ) : Prop where
  known : ∀ t ∈ c.timers, t.1 = c.retryTimerId ∧ c.retryTimerId ≠ 0
  next : c.nextTimerId ≠ 0

theorem Timers.remaining (h : Timers c) : remaining c = [] := by
  unfold Connector.remaining
  split
  · rw [List.filter_eq_nil_iff]
    intro t ht
    simp [(h.known t ht).1]
  · rename_i hid
    refine List.eq_nil_iff_forall_not_mem.mpr fun t ht => ?_
    exact hid (h.known t ht).2

theorem Timers.cancelTimer (h : Timers c) (id : Nat) : Timers (cancelTimer id c) where
  known t ht := h.known t (List.mem_filter.mp ht).1
  next := h.next

/-- An attempt is made, and it is under way or will be repeated. -/
structure Tries (c c' : Conn φ) : Prop where
  timers : Timers c'
  channel : c'.state = .connecting → c'.channel.isSome = true
  trying : Trying c'
  started : c'.started = true
  last : c'.last = c.last

theorem retry_tries (h : Timers c) (hst : c.started = true) : Tries c (retry c) := by
  obtain ⟨delay, next, he⟩ := retry_started hst
  rw [he, h.remaining]
  exact ⟨⟨by simp [h.next], by simp⟩, by simp, .inr ⟨rfl, by simp⟩, hst, rfl⟩

theorem connect_tries (h : Timers c) (hst : c.started = true) {answer : Attempt} (hr : answer.retryable = true) :
    Tries c (connect answer c) := by
  have ho := connect_outcome answer c
  generalize connect answer c = c' at ho
  cases ho with
  | threw => simp [Attempt.retryable] at hr
  | begun => exact ⟨⟨h.known, h.next⟩, fun _ => rfl, .inl rfl, hst, rfl⟩
  | retried =>
    have htry : Tries _ (retry (closeSocket (some c.nextSocket) (openSocket c))) := retry_tries ⟨h.known, h.next⟩ hst
    exact ⟨htry.timers, htry.channel, htry.trying, htry.started, htry.last⟩
  | gaveUp hno => simp [hno] at hr

/-- After `stop` nothing is left once its functor has run; after `start` and `restart` the connector tries, or
    will when the functor of `restart` runs. -/
structure Obeys (c : Conn φ) : Prop where
  timers : Timers c
  channel : c.state = .connecting → c.channel.isSome = true
  stopped : wanted c = false → c.started = false ∧ c.timers = [] ∧
    (.stopInLoop ∈ c.functors ∨ c.channel = none ∧ c.state ≠ .connecting)
  wanted : wanted c = true → .stopInLoop ∈ c.functors ∨
    c.started = true ∧ (c.delivered = true ∨ Trying c ∨ .restartInLoop ∈ c.functors)

theorem Tries.obeys (h : Tries c c') (hw : wanted c = true) : Obeys c' where
  timers := h.timers
  channel := h.channel
  stopped hnot := by
    have hw' : Connector.wanted c' = true := by simpa [Connector.wanted, h.last] using hw
    simp [hnot] at hw'
  wanted _ := .inr ⟨h.started, .inr (.inl h.trying)⟩

/-- The connect errors are in progress or retryable. -/
def answered : Act → Bool
  | .start answer | .functor answer | .fire _ answer => answer.retryable
  | _ => true

def Functor.isCall : Functor φ → Bool
  | .stopInLoop | .restartInLoop => true
  | _ => false

/-- The step goes against the last request: a `start` that finds the state Connected and nothing in the queue to
    change it, the functor of a `stop` that is not the last call any more, an attempt that completes with no
    callback to deliver it to. -/
def undoes (c : Conn φ) : Act → Bool
  | .start _ => c.state = .connected && !c.functors.any Functor.isCall
  | .functor _ =>
    match c.functors with
    | .stopInLoop :: _ => c.last ≠ some .stop
    | _ => false
  | .event error write soError selfConnect =>
    completes error write soError c && selfConnect = some false && c.started && !c.newConnectionCallback
  | _ => false

theorem Obeys.start (h : Obeys c) {answer : Attempt} (hr : answer.retryable = true)
    (hok : undoes c (.start answer) = false) : Obeys (start answer c) := by
  have ht : Timers (called .start { c with started := true }) := ⟨h.timers.known, h.timers.next⟩
  unfold Connector.start
  rcases startInLoop_cases answer (called .start { c with started := true }) with ⟨hst, -, he⟩ | ⟨hno, he⟩
  · rw [he]
    exact (connect_tries ht hst hr).obeys rfl
  · rw [he]
    refine ⟨ht, h.channel, by simp [Connector.wanted, called], fun _ => ?_⟩
    have hstate : c.state ≠ .disconnected := by
      rcases hno with hno | hno
      · simp [called] at hno
      · exact hno
    match hc : c.state with
    | .disconnected => exact absurd hc hstate
    | .connecting => exact .inr ⟨rfl, .inr (.inl (.inl rfl))⟩
    | .connected =>
      simp only [undoes, hc, decide_true, Bool.true_and, Bool.not_eq_false', List.any_eq_true] at hok
      obtain ⟨f, hf, hcall⟩ := hok
      match f with
      | .stopInLoop => exact .inl hf
      | .restartInLoop => exact .inr ⟨rfl, .inr (.inr hf)⟩

theorem Obeys.stop (h : Obeys c) : Obeys (stop c) := by
  obtain ⟨id, he⟩ := stop_frame c
  rw [he, h.timers.remaining]
  exact ⟨⟨by simp, h.timers.next⟩, h.channel, fun _ => ⟨rfl, rfl, .inl (by simp)⟩, by simp [Connector.wanted]⟩

theorem Obeys.restart (h : Obeys c) : Obeys (restart c) := by
  obtain ⟨id, he⟩ := restart_frame c
  rw [he, h.timers.remaining]
  exact ⟨⟨by simp, h.timers.next⟩, h.channel, by simp [Connector.wanted], fun _ => .inr ⟨rfl, .inr (.inr (by simp))⟩⟩

/-- What is in the queue is still there behind its head. -/
theorem mem_tail {f g : Functor φ} {fs : List (Functor φ)} (hq : c.functors = f :: fs) (hg : g ∈ c.functors)
    (hne : f ≠ g) : g ∈ fs := by
  rw [hq] at hg
  rcases List.mem_cons.mp hg with rfl | hg
  · exact absurd rfl hne
  · exact hg

/-- A functor that is no call only leaves the queue. -/
theorem Obeys.pop (h : Obeys c) {f : Functor φ} {fs : List (Functor φ)} (hq : c.functors = f :: fs)
    (hf : f.isCall = false) : Obeys { c with functors := fs } where
  timers := ⟨h.timers.known, h.timers.next⟩
  channel := h.channel
  stopped hnot := by
    obtain ⟨hst, ht, hrest⟩ := h.stopped hnot
    refine ⟨hst, ht, hrest.imp_left fun hstop => mem_tail hq hstop ?_⟩
    rintro rfl
    simp [Functor.isCall] at hf
  wanted hw := by
    refine (h.wanted hw).imp (fun hstop => mem_tail hq hstop ?_) fun ⟨hst, hrest⟩ => ⟨hst, ?_⟩
    · rintro rfl
      simp [Functor.isCall] at hf
    · refine hrest.imp_right fun hrest => hrest.imp_right fun hre => mem_tail hq hre ?_
      rintro rfl
      simp [Functor.isCall] at hf

theorem Obeys.runFunctor (h : Obeys c) {f : Functor φ} {fs : List (Functor φ)} (hq : c.functors = f :: fs)
    {answer : Attempt} (hr : answer.retryable = true) (hok : undoes c (.functor answer) = false) :
    Obeys (runFunctor answer f { c with functors := fs }) := by
  have ht : Timers { c with functors := fs } := ⟨h.timers.known, h.timers.next⟩
  cases f with
  | stopInLoop =>
    have hlast : c.last = some .stop := by simpa [undoes, hq] using hok
    have hnot : Connector.wanted c = false := by simp [Connector.wanted, hlast]
    obtain ⟨state, _, _, _, _, he, hstate, -, -⟩ := stopInLoop_frame { c with functors := fs }
    simp only [Connector.runFunctor, he]
    refine ⟨⟨ht.known, ht.next⟩, fun hc => absurd hc hstate, fun _ => ?_, fun hw => ?_⟩
    · exact ⟨rfl, (h.stopped hnot).2.1, .inr ⟨rfl, hstate⟩⟩
    · exact absurd (hnot.symm.trans hw) (by simp)
  | restartInLoop =>
    have ht' : Timers (setState .disconnected { c with functors := fs }) := ⟨ht.known, ht.next⟩
    rcases startInLoop_cases answer (setState .disconnected { c with functors := fs }) with ⟨hst, -, he⟩ | ⟨hno, he⟩
    · simp only [Connector.runFunctor, he]
      refine (connect_tries ht' hst hr).obeys ?_
      -- a connector that is started was asked to be
      by_contra hnot
      have hst' := (h.stopped (Bool.eq_false_iff.mpr hnot)).1
      simp [setState, hst'] at hst
    · have hst : c.started = false := by
        rcases hno with hno | hno
        · exact hno
        · simp [setState] at hno
      simp only [Connector.runFunctor, he]
      refine ⟨ht', by simp [setState], fun hnot => ⟨hst, (h.stopped hnot).2.1, ?_⟩, fun hw => ?_⟩
      · rcases (h.stopped hnot).2.2 with hstop | ⟨hch, -⟩
        · exact .inl (mem_tail hq hstop (by simp))
        · exact .inr ⟨hch, by simp [setState]⟩
      · rcases h.wanted hw with hstop | ⟨hst', -⟩
        · exact .inl (mem_tail hq hstop (by simp))
        · simp [hst] at hst'
  | deleteChannel ch =>
    have hpop := h.pop hq rfl
    exact ⟨⟨hpop.timers.known, hpop.timers.next⟩, hpop.channel, hpop.stopped, hpop.wanted⟩
  | other f => exact h.pop hq rfl

theorem Obeys.fire (h : Obeys c) {id : Nat} {answer : Attempt} (hr : answer.retryable = true)
    (hid : c.timers.any (·.1 = id) = true) : Obeys (startInLoop answer (cancelTimer id c)) := by
  have hw : Connector.wanted c = true := by
    by_contra hnot
    simp [(h.stopped (by simpa using hnot)).2.1] at hid
  rcases startInLoop_cases answer (Connector.cancelTimer id c) with ⟨hst, -, he⟩ | ⟨hno, he⟩
  · rw [he]
    exact (connect_tries (h.timers.cancelTimer id) hst hr).obeys hw
  · rw [he]
    refine ⟨h.timers.cancelTimer id, h.channel, fun hnot => absurd (hnot.symm.trans hw) (by simp), fun _ => ?_⟩
    refine (h.wanted hw).imp_right fun ⟨hst, hrest⟩ => ⟨hst, hrest.imp_right fun hrest => ?_⟩
    refine hrest.imp_left fun htry => ?_
    -- the connector is started, so it is for its state that it does nothing
    rcases htry with hc | ⟨hd, -⟩
    · exact .inl hc
    · rcases hno with hno | hno
      · simp [Connector.cancelTimer, hst] at hno
      · exact absurd hd hno

/-- Not started although asked to be: a `stop` is still to run. -/
theorem Obeys.pending (h : Obeys c) (hw : Connector.wanted c = true) (hst : c.started = false) :
    .stopInLoop ∈ c.functors := by
  rcases h.wanted hw with hstop | ⟨hst', -⟩
  · exact hstop
  · simp [hst] at hst'

theorem Obeys.event (h : Obeys c) {error write : Bool} {soError : Int} {selfConnect : Option Bool}
    {r : Conn φ × Bool} (hd : Dispatch c error write soError selfConnect r)
    (hleft : forgets c (.event error write soError selfConnect) = false)
    (hok : undoes c (.event error write soError selfConnect) = false) : Obeys r.1 := by
  obtain ⟨_, _, more, he, -⟩ := release_frame c
  cases hd with
  | ignored => exact h
  | retried hc =>
    have ht : Timers (release c) := he ▸ ⟨h.timers.known, h.timers.next⟩
    by_cases hst : c.started = true
    · have hw : Connector.wanted (release c) = true := by
        rw [he]
        by_contra hnot
        simp [(h.stopped (Bool.eq_false_iff.mpr hnot)).1] at hst
      exact (retry_tries ht (he ▸ hst)).obeys hw
    · have hst : c.started = false := by simpa using hst
      rw [retry_stopped (he ▸ hst), he]
      refine ⟨⟨h.timers.known, h.timers.next⟩, by simp [setState], fun hnot => ?_, fun hw => ?_⟩
      · exact ⟨hst, (h.stopped hnot).2.1, .inr ⟨rfl, by simp [setState]⟩⟩
      · exact .inl (List.mem_append_left _ (h.pending hw hst))
  | threw hc => simp [forgets, hc] at hleft
  | delivered hc hst _ =>
    rw [he]
    refine ⟨⟨h.timers.known, h.timers.next⟩, by simp [establish], fun hnot => ?_, fun hw => ?_⟩
    · simp [(h.stopped hnot).1] at hst
    · exact (h.wanted hw).imp (List.mem_append_left _) fun _ => ⟨hst, .inl rfl⟩
  | dropped hc hno =>
    have hst : c.started = false := by
      by_contra hst
      simp_all [undoes]
    rw [he]
    refine ⟨⟨h.timers.known, h.timers.next⟩, by simp [establish], fun hnot => ?_, fun hw => ?_⟩
    · exact ⟨hst, (h.stopped hnot).2.1, .inr ⟨rfl, by simp [establish]⟩⟩
    · exact .inl (List.mem_append_left _ (h.pending hw hst))

theorem step_obeys {a : Act} (hans : answered a = true) (hleft : forgets c a = false) (hok : undoes c a = false)
    (hs : step c a = some c') (h : Obeys c) : Obeys c' := by
  cases step_move hs with
  | setNewConnectionCallback on => exact ⟨⟨h.timers.known, h.timers.next⟩, h.channel, h.stopped, h.wanted⟩
  | setRetryDelayMs initialDelayMs maxDelayMs =>
    exact ⟨⟨h.timers.known, h.timers.next⟩, h.channel, h.stopped, h.wanted⟩
  | start answer => exact h.start hans hok
  | stop => exact h.stop
  | restart => exact h.restart
  | functor answer hq => exact h.runFunctor hq hans hok
  | fire id answer hid => exact h.fire hans hid
  | event _ hd => exact h.event hd hleft hok

/-- The connector does what the last call asked for. -/
structure ObeysLast (c : Conn φ) : Prop where
  started : c.started = true ↔ c.last = some .start ∨ c.last = some .restart
  stopped : c.last = some .stop → c.channel = none ∧ c.state ≠ .connecting ∧ c.timers = []
  trying : c.last = some .start ∨ c.last = some .restart → c.delivered = false →
    (c.state = .connecting ∧ c.channel.isSome = true) ∨ c.timers ≠ []

theorem wanted_iff : wanted c = true ↔ c.last = some .start ∨ c.last = some .restart := by
  simp [wanted]

theorem Obeys.last (h : Obeys c) (hq : c.functors = []) : ObeysLast c := by
  have hw : c.last = some .start ∨ c.last = some .restart →
      c.started = true ∧ (c.delivered = true ∨ Trying c) := by
    intro hlast
    simpa [hq] using h.wanted (wanted_iff.mpr hlast)
  refine ⟨⟨fun hst => ?_, fun hlast => (hw hlast).1⟩, fun hlast => ?_, fun hlast hdel => ?_⟩
  · by_contra hlast
    have hnot : Connector.wanted c = false := Bool.eq_false_iff.mpr (mt wanted_iff.mp hlast)
    simp [(h.stopped hnot).1] at hst
  · obtain ⟨-, ht, hrest⟩ := h.stopped (by simp [Connector.wanted, hlast])
    simp only [hq, List.not_mem_nil, false_or] at hrest
    exact ⟨hrest.1, hrest.2, ht⟩
  · rcases (hw hlast).2 with hd | hc | ⟨-, ht⟩
    · simp [hdel] at hd
    · exact .inl ⟨hc, h.channel hc⟩
    · exact .inr ht

/-- Connects are in progress or retryable, no attempt is left behind, and nothing goes against the last request. -/
def obedient (c : Conn φ) (a : Act) : Bool := answered a && !forgets c a && !undoes c a

/-- In every run of such steps: once the queue is empty, the last request is obeyed. -/
theorem last_request_is_obeyed (h : (machine φ).Reach (fun c a => obedient c a = true) c) (hq : c.functors = []) :
    ObeysLast c := by
  have ho : Obeys c := by
    refine h.inv (I := Obeys) ?_ fun c a c' ho hok hstep => ?_
    · refine ⟨⟨by simp [machine, make], by simp [machine, make]⟩, by simp [machine, make], fun _ => ?_, ?_⟩
      · exact ⟨rfl, rfl, .inr ⟨rfl, by simp [machine, make]⟩⟩
      · simp [Connector.wanted, machine, make]
    · simp only [obedient, Bool.and_eq_true, Bool.not_eq_true'] at hok
      exact step_obeys hok.1.1 hok.1.2 hok.2 hstep ho
  exact ho.last hq

/-- Stopped while an attempt is under way, and started again once that has taken effect. -/
theorem last_request_is_obeyed_started_again :
    ∃ c : Conn Empty, (machine Empty).Reach (fun c a => obedient c a = true) c ∧ c.functors = [] ∧
      c.socket = some 2 ∧ ObeysLast c := by
  obtain ⟨c, hr, hc⟩ := Machine.Reach.of_run (machine Empty) (fun c a => obedient c a = true)
    (fun c => c.functors == [] && c.socket == some 2)
    [.start (.succeeded 0), .stop, .functor (.succeeded 0), .functor (.succeeded 0), .start (.failed econnrefused),
      .fire 1 (.succeeded 0)]
    (by decide +kernel)
  simp only [Bool.and_eq_true, beq_iff_eq] at hc
  exact ⟨c, hr, hc.1, hc.2, last_request_is_obeyed hr hc.1⟩

/-- `stop` and then `start`: the attempt begins at once, and the functor of `stop` ends it. -/
theorem stop_undoes_a_later_start :
    ∃ c : Conn Empty, (machine Empty).Reach (fun _ a => answered a = true) c ∧ c.functors = [] ∧
      c.last = some .start ∧ c.started = false ∧ ¬ ObeysLast c := by
  obtain ⟨c, hr, hc⟩ := Machine.Reach.of_run (machine Empty) (fun _ a => answered a = true)
    (fun c => c.functors == [] && c.last == some .start && c.started == false)
    [.stop, .start (.succeeded 0), .functor (.succeeded 0), .functor (.succeeded 0)] (by decide +kernel)
  simp only [Bool.and_eq_true, beq_iff_eq] at hc
  obtain ⟨⟨hq, hlast⟩, hst⟩ := hc
  refine ⟨c, hr, hq, hlast, hst, fun h => ?_⟩
  have hst' := h.started.mpr (.inl hlast)
  simp [hst] at hst'

end Dbase.Net.Connector
