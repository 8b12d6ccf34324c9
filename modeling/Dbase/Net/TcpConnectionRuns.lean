/-
  Dbase.Net.TcpConnectionRuns — the life of a connection over whole runs, in any interleaving of its
  loop thread with others: how it ends, and what may still happen then.

  `Move` is what a step can do, and `step_move` that every step is one of these.

  Proved (`lives_once`): if no other thread stores `Disconnecting` over `Disconnected`, that state is
  never left, and the connection callback is called once for up and once for down. The store of a
  `shutdown` that has seen `Connected` before the close revives it.

  Proved (`silent_after_close`): nothing is reported after the close callback if the handlers that go on
  find nothing to report; `handleRead` does not look at the state before it reads again.
-/

import Dbase.Net.TcpConnectionSteps

namespace Dbase.Net.TcpConnection.Steps

open Dbase.Net.Buffer (SysRead SysWrite Buf IoStatus IoResult taken socketWrite errnoOf isWouldBlockError)
open Dbase.Net.LengthFieldCodec (Codec tryDecode)

variable {cfg : Config} {s s' : Sys} {a : Label}

/-! ## What a step does -/

inductive Move (cfg : Config) (s : Sys) : Label → Sys → Prop
  | begins {cb : Callback} {rest : List Task} : s.stack = .invoke cb :: rest → isSet cfg s.conn cb = true →
      Move cfg s .next (s.begins cb rest)
  | skips {cb : Callback} {rest : List Task} : s.stack = .invoke cb :: rest → isSet cfg s.conn cb = false →
      Move cfg s .next (s.did (s.conn, []) rest)
  | keeps {err : Int} {rest : List Task} : s.stack = .closeUnlessWouldBlock err :: rest →
      Move cfg s .next (s.did (s.conn, []) rest)
  | closes {task : Task} {rest : List Task} : s.stack = task :: rest →
      task = .handleClose ∨ (∃ err, task = .closeUnlessWouldBlock err) → Move cfg s .next (s.did (handleClose s.conn) rest)
  | handleWrite {rest : List Task} : s.stack = .handleWrite :: rest →
      Move cfg s .next (s.did (s.conn, if s.conn.channel.writing then [.writeTurn] else []) rest)
  | decodes {codec : Codec} {b : Buf} {new rest : List Task} : s.stack = .codecTurn :: rest → cfg.codec = some codec →
      codecTurn codec s.inputBuffer = some (b, new) →
      Move cfg s .next ({ s with inputBuffer := b }.did (s.conn, new) rest)
  | drained {rest : List Task} : s.stack = .writeTurn :: rest → s.conn.outputBuffer = [] →
      Move cfg s .next (s.did (drained s.conn) rest)
  | subscribes {direct : Bool} {rest : List Task} : s.stack = .subscribe direct :: rest →
      Move cfg s .next (s.did (subscribe direct s.conn, []) rest)
  | afterWriteComplete {rest : List Task} : s.stack = .afterWriteComplete :: rest →
      Move cfg s .next (s.did (if s.conn.state = .disconnecting then shutdownInLoop s.conn else s.conn, []) rest)
  | removes {rest : List Task} : s.stack = .remove :: rest →
      Move cfg s .next
        ({ s with destroyed := true }.did ({ s.conn with channel := s.conn.channel.disableAll.remove }, []) rest)
  | received {r : SysRead} {io : IoResult} {b : Buf} {rest : List Task} : s.stack = .readTurn :: rest →
      Buffer.readFdResult cfg.alloc s.inputBuffer r = (.ok (.ok io), b) → io.status = .ok →
      Move cfg s (.read r) ({ s with inputBuffer := b }.did (s.conn, received cfg) rest)
  | readRests {r : SysRead} {b : Buf} {rest : List Task} : s.stack = .readTurn :: rest →
      Move cfg s (.read r) ({ s with inputBuffer := b }.did (s.conn, []) rest)
  | readEnds {r : SysRead} {b : Buf} {rest : List Task} : s.stack = .readTurn :: rest →
      Move cfg s (.read r) ({ s with inputBuffer := b }.did (handleClose s.conn) rest)
  | readFails {r : SysRead} {e : Error} {b : Buf} {rest : List Task} : s.stack = .readTurn :: rest →
      Buffer.readFdResult cfg.alloc s.inputBuffer r = (.ok (.error e), b) →
      Move cfg s (.read r) ({ s with inputBuffer := b }.did (handleErrorAndClose e.code.toInt s.conn) rest)
  | writes {r : SysWrite} {rest : List Task} : s.stack = .writeTurn :: rest → s.conn.outputBuffer ≠ [] →
      Move cfg s (.write r) (s.did (writeTurn r s.conn) rest)
  | socketError {err : Int} {rest : List Task} : s.stack = .handleError :: rest →
      Move cfg s (.socketError err) (s.did (handleError err s.conn) rest)
  | api {a : Api} {r : SysWrite} : userCode s.stack = true →
      Move cfg s (.call (.api a) r) ({ s with wants := wantsAfter s.wants (.api a) }.did (api a r s.conn) s.stack)
  | input {b : Buf} {r : SysWrite} : Move cfg s (.call (.input b) r) { s with inputBuffer := b }
  | establishes {r : SysWrite} : userCode s.stack = true → s.conn.state = .connecting →
      Move cfg s (.call .connectEstablished r)
        ({ s with established := true, wants := true }.did
          ({ s.conn with state := .connected, channel := s.conn.channel.enableReading }, [.invoke .up]) s.stack)
  | destroys {r : SysWrite} : userCode s.stack = true →
      Move cfg s (.call .connectDestroyed r) (s.did (connectDestroyed s.conn) s.stack)
  | returns {rest : List Task} : s.stack = .user :: rest → Move cfg s .returns { s with stack := rest }
  | event {revents : Revents} : s.stack = [] → Move cfg s (.event revents) { s with stack := dispatch revents }
  | functor {f : Functor} {rest : List Functor} {r : SysWrite} : s.stack = [] → s.queue = f :: rest →
      Move cfg s (.functor r)
        ({ s with queue := rest, wants := functorWants s.wants f }.did (runFunctor f r s.conn) [])
  | call {f : Functor} {o : Other} : Move cfg s (.other o) { s with calls := s.calls ++ [f] }
  | sees : s.conn.state = .connected → Move cfg s (.other .shutdown) { s with shutting := s.shutting + 1 }
  | stores : s.shutting ≠ 0 →
      Move cfg s (.other .shutdownStore)
        { s with conn := { s.conn with state := .disconnecting }, shutting := s.shutting - 1,
                 calls := s.calls ++ [.shutdownInLoop] }
  | queues {i : Nat} {f : Functor} :
      Move cfg s (.other (.queueInLoop i)) { s with calls := s.calls.eraseIdx i, queue := s.queue ++ [f] }

theorem next_move {task : Task} {rest : List Task} (hs : s.stack = task :: rest) (h : next cfg s task rest = some s') :
    Move cfg s .next s' := by
  cases task with
  | invoke cb =>
    simp only [next, Option.some.injEq] at h
    subst h
    split
    · rename_i hset
      exact .begins hs hset
    · rename_i hset
      exact .skips hs (by simpa using hset)
  | closeUnlessWouldBlock err =>
    simp only [next, Option.some.injEq] at h
    subst h
    split
    · exact .keeps hs
    · exact .closes hs (Or.inr ⟨err, rfl⟩)
  | handleClose =>
    simp only [next, Option.some.injEq] at h
    subst h
    exact .closes hs (Or.inl rfl)
  | handleWrite =>
    simp only [next, Option.some.injEq] at h
    subst h
    exact .handleWrite hs
  | codecTurn =>
    simp only [next] at h
    split at h
    · cases h
    · rename_i codec hc
      obtain ⟨⟨b, new⟩, ht, rfl⟩ := Option.map_eq_some_iff.mp h
      exact .decodes hs hc ht
  | writeTurn =>
    simp only [next] at h
    split at h
    · rename_i hlen
      cases h
      exact .drained hs (List.length_eq_zero_iff.mp hlen)
    · cases h
  | subscribe direct =>
    simp only [next, Option.some.injEq] at h
    subst h
    exact .subscribes hs
  | afterWriteComplete =>
    simp only [next, Option.some.injEq] at h
    subst h
    exact .afterWriteComplete hs
  | remove =>
    simp only [next, Option.some.injEq] at h
    subst h
    exact .removes hs
  | user => cases h
  | handleError => cases h
  | readTurn => cases h

theorem readTurn_move {r : SysRead} {rest : List Task} (hs : s.stack = .readTurn :: rest)
    (h : readTurn cfg r s rest = some s') : Move cfg s (.read r) s' := by
  unfold readTurn at h
  split at h
  · cases h
  · rename_i e b hread
    cases h
    exact .readFails hs hread
  · rename_i io b hread
    split at h
    · rename_i hok
      cases h
      exact .received hs hread hok
    · cases h
      exact .readRests hs
    · cases h
      exact .readEnds hs
    · cases h
      exact .readRests hs

theorem perform_move {c : Call} {r : SysWrite} (hu : userCode s.stack = true) (h : perform s c r = some s') :
    Move cfg s (.call c r) s' := by
  cases c with
  | api a =>
    simp only [perform, Option.some.injEq] at h
    subst h
    exact .api hu
  | input b =>
    simp only [perform, Option.some.injEq] at h
    subst h
    exact .input
  | connectEstablished =>
    obtain ⟨t, ht, rfl⟩ := Option.map_eq_some_iff.mp h
    unfold connectEstablished at ht
    split at ht
    · cases ht
    · rename_i hst
      cases ht
      exact .establishes hu (not_not.mp hst)
  | connectDestroyed =>
    simp only [perform, Option.some.injEq] at h
    subst h
    exact .destroys hu

theorem other_move {o : Other} (h : other s o = some s') : Move cfg s (.other o) s' := by
  cases o with
  | send data =>
    simp only [other] at h
    split at h
    · cases h
    · cases h
      exact .call
  | forceClose =>
    simp only [other] at h
    split at h
    · cases h
    · cases h
      exact .call
  | startRead =>
    simp only [other, Option.some.injEq] at h
    subst h
    exact .call
  | stopRead =>
    simp only [other, Option.some.injEq] at h
    subst h
    exact .call
  | shutdown =>
    simp only [other] at h
    split at h
    · rename_i hst
      cases h
      exact .sees hst
    · cases h
  | shutdownStore =>
    simp only [other] at h
    split at h
    · cases h
    · rename_i hn
      cases h
      exact .stores hn
  | queueInLoop i =>
    obtain ⟨f, -, rfl⟩ := Option.map_eq_some_iff.mp h
    exact .queues

/-- Every step of the loop thread, of user code and of the other threads. -/
theorem step_move (h : step cfg s a = some s') : Move cfg s a s' := by
  cases a with
  | next =>
    simp only [step] at h
    split at h
    · rename_i task rest hs
      exact next_move hs h
    · cases h
  | read r =>
    simp only [step] at h
    split at h
    · rename_i rest hs
      exact readTurn_move hs h
    · cases h
  | write r =>
    simp only [step] at h
    split at h
    · rename_i rest hs
      split at h
      · cases h
      · rename_i hlen
        cases h
        exact .writes hs fun he => hlen (by rw [he]; rfl)
    · cases h
  | socketError err =>
    simp only [step] at h
    split at h
    · rename_i rest hs
      cases h
      exact .socketError hs
    · cases h
  | call c r =>
    simp only [step] at h
    split at h
    · rename_i hu
      exact perform_move hu h
    · cases h
  | returns =>
    simp only [step] at h
    split at h
    · rename_i rest hs
      cases h
      exact .returns hs
    · cases h
  | event revents =>
    simp only [step] at h
    split at h
    · rename_i hs
      cases h
      exact .event hs
    · cases h
  | functor r =>
    simp only [step] at h
    split at h
    · rename_i f rest hs hq
      cases h
      exact .functor hs hq
    · cases h
  | other o => exact other_move h

/-! ## The stack -/

/-- A task that may lie under another: a callback is invoked as soon as it is due, but for the close
    callback, which waits for the connection callback to return. -/
def under : Task → Bool
  | .invoke .close => true
  | .invoke _ => false
  | .writeTurn => false
  | _ => true

def Stacked (l : List Task) : Prop := ∀ t ∈ l.tail, under t = true

theorem stacked_append {new rest : List Task} (hnew : Stacked new) (hrest : ∀ t ∈ rest, under t = true) :
    Stacked (new ++ rest) := by
  cases new with
  | nil =>
    intro t ht
    exact hrest t (List.mem_of_mem_tail ht)
  | cons x xs =>
    intro t ht
    rcases List.mem_append.mp ht with h | h
    · exact hnew t h
    · exact hrest t h

theorem Stacked.rest {task : Task} {rest : List Task} (h : Stacked s.stack) (hs : s.stack = task :: rest) :
    ∀ t ∈ rest, under t = true := by
  rw [hs] at h
  exact h

theorem Stacked.userCode (h : Stacked s.stack) (hu : userCode s.stack = true) : ∀ t ∈ s.stack, under t = true := by
  cases hs : s.stack with
  | nil => exact fun t ht => absurd ht List.not_mem_nil
  | cons task rest =>
    cases task with
    | user =>
      intro t ht
      rcases List.mem_cons.mp ht with rfl | ht
      · rfl
      · exact h.rest hs t ht
    | _ => rw [hs] at hu; cases hu

/-! ## The life of a connection -/

/-- A task that invokes none of the callbacks of a connection's life, and is not its end. -/
def lifeless : Task → Bool
  | .invoke .up => false
  | .invoke .down => false
  | .invoke .close => false
  | .remove => false
  | _ => true

/-- What a member does to the state, and what it invokes with that. -/
inductive Ends (c : Conn) : Todo → Prop
  | goesOn {c' : Conn} {new : List Task} : c'.state = c.state → c'.callbacks = c.callbacks →
      (∀ t ∈ new, lifeless t = true) → Stacked new → Ends c (c', new)
  | shutsDown {c' : Conn} : c.state = .connected → c'.state = .disconnecting → c'.callbacks = c.callbacks → Ends c (c', [])
  | closes {c' : Conn} : c.state ≠ .disconnected → c'.state = .disconnected → c'.callbacks = c.callbacks →
      Ends c (c', [.invoke .down, .invoke .close])
  | destroys {c' : Conn} : c.state ≠ .disconnected → c'.state = .disconnected → c'.callbacks = c.callbacks →
      Ends c (c', [.invoke .down, .remove])
  | removes : c.state = .disconnected → Ends c (c, [.remove])

/-- The connection keeps its state, with these tasks to do. -/
theorem Ends.tasks {c c' : Conn} {new : List Task} (h : (new.all lifeless && new.tail.all under) = true)
    (hst : c'.state = c.state) (hcb : c'.callbacks = c.callbacks) : Ends c (c', new) := by
  rw [Bool.and_eq_true, List.all_eq_true, List.all_eq_true] at h
  exact .goesOn hst hcb h.1 h.2

theorem Ends.none {c c' : Conn} (hst : c'.state = c.state) (hcb : c'.callbacks = c.callbacks) : Ends c (c', []) :=
  .goesOn hst hcb (fun _ ht => absurd ht List.not_mem_nil) (fun _ ht => absurd ht List.not_mem_nil)

theorem handleClose_ends {c c' : Conn} (hst : c'.state = c.state) (hcb : c'.callbacks = c.callbacks) :
    Ends c (handleClose c') := by
  unfold handleClose
  split
  · exact .none hst hcb
  · rename_i h
    exact .closes (hst ▸ h) rfl hcb

theorem handleErrorAndClose_ends {c c' : Conn} (err : Int) (hst : c'.state = c.state) (hcb : c'.callbacks = c.callbacks) :
    Ends c (handleErrorAndClose err c') := .tasks rfl hst hcb

theorem handleError_ends (err : Int) (c : Conn) : Ends c (handleError err c) := by
  unfold handleError
  split
  · exact .none rfl rfl
  · exact handleErrorAndClose_ends err rfl rfl

theorem handleOutputBufferAppend_ends {c c' : Conn} (data : List UInt8) (direct : Bool) (hst : c'.state = c.state)
    (hcb : c'.callbacks = c.callbacks) : Ends c (handleOutputBufferAppend data direct c') := by
  unfold handleOutputBufferAppend
  simp only
  split
  · unfold handleOutputOverflow
    split
    · exact .none hst hcb
    · exact .tasks rfl hst hcb
    · exact .tasks rfl hst hcb
  · split
    · exact .tasks rfl hst hcb
    · exact .tasks rfl hst hcb

theorem sendInLoop_ends (data : List UInt8) (r : SysWrite) (c : Conn) : Ends c (sendInLoop data r c) := by
  unfold sendInLoop
  split
  · exact .none rfl rfl
  · split
    · simp only
      split
      · split
        · exact handleOutputBufferAppend_ends _ _ rfl rfl
        · exact .tasks rfl rfl rfl
      · split
        · exact handleOutputBufferAppend_ends _ _ rfl rfl
        · exact handleErrorAndClose_ends _ rfl rfl
    · exact handleOutputBufferAppend_ends _ _ rfl rfl

theorem send_ends (data : List UInt8) (r : SysWrite) (c : Conn) : Ends c (send data r c) := by
  unfold send
  split
  · exact .none rfl rfl
  · exact sendInLoop_ends data r c

theorem forceClose_ends (c : Conn) : Ends c (forceClose c) := by
  unfold forceClose
  split
  · exact .none rfl rfl
  · exact handleClose_ends rfl rfl

theorem shutdownInLoop_steady (c : Conn) :
    (shutdownInLoop c).state = c.state ∧ (shutdownInLoop c).callbacks = c.callbacks := by
  unfold shutdownInLoop
  split
  · exact ⟨rfl, rfl⟩
  · split <;> exact ⟨rfl, rfl⟩

theorem shutdown_ends (c : Conn) : Ends c (shutdown c, []) := by
  unfold shutdown
  split
  · exact .none rfl rfl
  · rename_i h
    obtain ⟨hst, hcb⟩ := shutdownInLoop_steady { c with state := .disconnecting }
    exact .shutsDown (not_not.mp h) hst hcb

theorem maybePause_steady (c : Conn) : (maybePauseReadForFlowControl c).state = c.state ∧
    (maybePauseReadForFlowControl c).callbacks = c.callbacks := by
  unfold maybePauseReadForFlowControl
  repeat' split
  all_goals exact ⟨rfl, rfl⟩

theorem maybeResume_steady (c : Conn) : (maybeResumeReadForFlowControl c).state = c.state ∧
    (maybeResumeReadForFlowControl c).callbacks = c.callbacks := by
  unfold maybeResumeReadForFlowControl
  repeat' split
  all_goals exact ⟨rfl, rfl⟩

theorem subscribe_ends (direct : Bool) (c : Conn) : Ends c (subscribe direct c, []) := by
  unfold subscribe
  obtain ⟨hst, hcb⟩ := maybePause_steady
    (if direct || !c.channel.writing then { c with channel := c.channel.enableWriting } else c)
  refine .none (hst.trans ?_) (hcb.trans ?_)
  · split <;> rfl
  · split <;> rfl

theorem drained_ends (c : Conn) : Ends c (drained c) := by
  obtain ⟨hst, hcb⟩ := maybeResume_steady { c with channel := c.channel.disableWriting }
  exact .tasks rfl hst hcb

theorem writeTurn_ends (r : SysWrite) (c : Conn) : Ends c (writeTurn r c) := by
  unfold writeTurn
  simp only
  split
  · exact handleErrorAndClose_ends _ rfl rfl
  · split
    · obtain ⟨hst, hcb⟩ := maybeResume_steady
        { c with
          writes := c.writes + 1, outputBuffer := (writeFdResult c.outputBuffer r).2,
          wire := c.wire ++ c.outputBuffer.take (taken r c.outputBuffer.length) }
      exact .tasks rfl hst hcb
    · exact .none rfl rfl
    · exact handleClose_ends rfl rfl
    · exact .none rfl rfl

theorem connectDestroyed_ends (c : Conn) : Ends c (connectDestroyed c) := by
  unfold connectDestroyed
  split
  · rename_i h
    exact .destroys h rfl rfl
  · rename_i h
    exact .removes (not_not.mp h)

theorem startRead_steady (c : Conn) : (startRead c).state = c.state ∧ (startRead c).callbacks = c.callbacks := by
  unfold startRead
  simp only
  split <;> exact ⟨rfl, rfl⟩

theorem stopRead_steady (c : Conn) : (stopRead c).state = c.state ∧ (stopRead c).callbacks = c.callbacks := by
  unfold stopRead
  split <;> exact ⟨rfl, rfl⟩

theorem enableAutoReadFlowControl_steady (hi lo : Nat) (c : Conn) :
    (enableAutoReadFlowControl hi lo c).state = c.state ∧ (enableAutoReadFlowControl hi lo c).callbacks = c.callbacks := by
  unfold enableAutoReadFlowControl
  split <;> exact ⟨rfl, rfl⟩

theorem api_ends (a : Api) (r : SysWrite) (c : Conn) : Ends c (api a r c) := by
  cases a with
  | send data => exact send_ends data r c
  | shutdown => exact shutdown_ends c
  | forceClose => exact forceClose_ends c
  | startRead => exact .none (startRead_steady c).1 (startRead_steady c).2
  | stopRead => exact .none (stopRead_steady c).1 (stopRead_steady c).2
  | enableAutoReadFlowControl hi lo =>
    exact .none (enableAutoReadFlowControl_steady hi lo c).1 (enableAutoReadFlowControl_steady hi lo c).2
  | disableAutoReadFlowControl => exact .none rfl rfl
  | setMaxOutputBufferBytes bytes => exact .none rfl rfl
  | setOutputOverflowPolicy policy => exact .none rfl rfl

theorem runFunctor_ends (f : Functor) (r : SysWrite) (c : Conn) : Ends c (runFunctor f r c) := by
  cases f with
  | sendInLoop data => exact sendInLoop_ends data r c
  | shutdownInLoop => exact .none (shutdownInLoop_steady c).1 (shutdownInLoop_steady c).2
  | forceCloseInLoop => exact forceClose_ends c
  | startRead => exact .none (startRead_steady c).1 (startRead_steady c).2
  | stopRead => exact .none (stopRead_steady c).1 (stopRead_steady c).2

theorem received_ends (cfg : Config) (c : Conn) : Ends c (c, received cfg) := by
  unfold received
  split
  · exact .tasks rfl rfl rfl
  · split <;> exact .tasks rfl rfl rfl

theorem codecTurn_ends {codec : Codec} {b b' : Buf} {new : List Task} (h : codecTurn codec b = some (b', new)) (c : Conn) :
    Ends c (c, new) := by
  unfold codecTurn at h
  split at h
  · cases h
  · split at h <;> cases h <;> exact .tasks rfl rfl rfl

def pending (cb : Callback) (l : List Task) : Nat := l.count (.invoke cb)

/-- A callback of a connection's life. -/
def ofLife : Callback → Bool
  | .up => true
  | .down => true
  | .close => true
  | _ => false

theorem pending_lifeless {cb : Callback} (hcb : ofLife cb = true) {l : List Task} (h : ∀ t ∈ l, lifeless t = true) :
    pending cb l = 0 := by
  refine List.count_eq_zero.mpr fun hmem => ?_
  have := h _ hmem
  cases cb <;> simp_all [lifeless, ofLife]

@[simp] theorem pending_append (cb : Callback) (l r : List Task) : pending cb (l ++ r) = pending cb l + pending cb r :=
  List.count_append

@[simp] theorem pending_nil (cb : Callback) : pending cb [] = 0 := rfl

theorem pending_cons (cb : Callback) (t : Task) (l : List Task) :
    pending cb (t :: l) = pending cb l + if t = .invoke cb then 1 else 0 := by
  simp [pending, List.count_cons]

/-- Only the close callback waits under another task. -/
theorem pending_under {cb : Callback} (hcb : cb ≠ .close) {l : List Task} (h : ∀ t ∈ l, under t = true) :
    pending cb l = 0 := by
  refine List.count_eq_zero.mpr fun hmem => ?_
  have := h _ hmem
  cases cb <;> simp_all [under]

/-- A store of `Disconnecting` finds the connection not `Disconnected`. -/
def steady (s : Sys) : Label → Bool
  | .other .shutdownStore => decide (s.conn.state ≠ .disconnected)
  | _ => true

/-- What the callbacks of a connection's life have come to. -/
structure Lived (callbacks : Callbacks) (s : Sys) : Prop where
  set : s.conn.callbacks = callbacks
  stacked : Stacked s.stack
  begun : s.established = true → s.conn.state ≠ .connecting
  absorbed : s.closed = true ↔ s.conn.state = .disconnected
  ups : callbacks.connection = true → s.ups + pending .up s.stack = s.established.toNat
  downs : callbacks.connection = true → s.downs + pending .down s.stack = s.closed.toNat
  closes : s.closes + pending .close s.stack ≤ s.closed.toNat
  removing : .remove ∈ s.stack → s.closed = true
  destroyed : s.destroyed = true → s.closed = true ∧ pending .down s.stack = 0

variable {callbacks : Callbacks}

theorem Lived.opened (hl : Lived callbacks s) (h : s.conn.state ≠ .disconnected) : s.closed = false := by
  by_contra hc
  exact h (hl.absorbed.mp (by simpa using hc))

/-- The task on top is done with. -/
theorem Lived.pop (hl : Lived callbacks s) {task : Task} {rest : List Task} (hs : s.stack = task :: rest)
    (ht : callbacks.connection = true → task ≠ .invoke .up ∧ task ≠ .invoke .down) :
    Lived callbacks { s with stack := rest } := by
  have hle : ∀ cb, pending cb rest ≤ pending cb s.stack := fun cb => by
    rw [hs, pending_cons]
    exact Nat.le_add_right _ _
  refine ⟨hl.set, ?_, hl.begun, hl.absorbed, ?_, ?_, ?_, ?_, ?_⟩
  · intro t h
    exact hl.stacked.rest hs t (List.mem_of_mem_tail h)
  · intro hset
    have h := hl.ups hset
    rw [hs, pending_cons, if_neg (ht hset).1] at h
    exact h
  · intro hset
    have h := hl.downs hset
    rw [hs, pending_cons, if_neg (ht hset).2] at h
    exact h
  · exact (Nat.add_le_add_left (hle .close) _).trans hl.closes
  · intro hr
    apply hl.removing
    rw [hs]
    exact List.mem_cons_of_mem _ hr
  · intro hd
    obtain ⟨hc, h0⟩ := hl.destroyed hd
    exact ⟨hc, Nat.le_zero.mp (h0 ▸ hle .down)⟩

/-- The connection ends: the connection callback is due, and the close callback or the removal after it. -/
theorem Lived.ending (hl : Lived callbacks s) (hunder : ∀ t ∈ s.stack, under t = true) {c' : Conn} {last : Task}
    (hst : s.conn.state ≠ .disconnected) (hst' : c'.state = .disconnected) (hcb : c'.callbacks = s.conn.callbacks)
    (hlast : last = .invoke .close ∨ last = .remove) :
    Lived callbacks (s.did (c', [.invoke .down, last]) s.stack) := by
  have hopen := hl.opened hst
  have hnew : Stacked [.invoke .down, last] := by
    rcases hlast with rfl | rfl <;> exact fun t ht => by simp at ht; rw [ht]; rfl
  have hup : pending .up [.invoke .down, last] = 0 := by rcases hlast with rfl | rfl <;> decide
  have hdown : pending .down [.invoke .down, last] = 1 := by rcases hlast with rfl | rfl <;> decide
  have hclose : pending .close [.invoke .down, last] ≤ 1 := by rcases hlast with rfl | rfl <;> decide
  have hended : (s.closed || decide (c'.state = .disconnected)) = true := by simp [hst']
  refine ⟨hcb.trans hl.set, stacked_append hnew hunder, ?_, ?_, ?_, ?_, ?_, fun _ => hended, ?_⟩
  · intro _
    rw [Sys.did, hst']
    decide
  · simp [Sys.did, hst']
  · intro hset
    simp only [Sys.did, pending_append, hup, Nat.zero_add]
    exact hl.ups hset
  · intro hset
    have h0 := hl.downs hset
    rw [hopen] at h0
    simp only [Sys.did, pending_append, hdown, hended, Bool.toNat_true, Bool.toNat_false] at h0 ⊢
    omega
  · have h0 := hl.closes
    rw [hopen] at h0
    simp only [Sys.did, pending_append, hended, Bool.toNat_true, Bool.toNat_false] at h0 ⊢
    omega
  · intro hd
    have := (hl.destroyed hd).1
    rw [hopen] at this
    cases this

/-- A member runs, with `s.stack` under its tasks. -/
theorem Lived.did (hl : Lived callbacks s) (hunder : ∀ t ∈ s.stack, under t = true) {t : Todo} (he : Ends s.conn t) :
    Lived callbacks (s.did t s.stack) := by
  have hdown : pending .down s.stack = 0 := pending_under (by decide) hunder
  cases he with
  | @goesOn c' new hst hcb hlife hnew =>
    have h0 : ∀ cb, ofLife cb = true → pending cb (new ++ s.stack) = pending cb s.stack := fun cb hcb => by
      rw [pending_append, pending_lifeless hcb hlife, Nat.zero_add]
    have hclosed : (s.closed || decide (c'.state = .disconnected)) = s.closed := by
      rw [hst]
      by_cases h : s.conn.state = .disconnected
      · rw [hl.absorbed.mpr h]
        rfl
      · simp [h]
    refine ⟨hcb.trans hl.set, stacked_append hnew hunder, ?_, ?_, ?_, ?_, ?_, ?_, ?_⟩
    · intro h
      rw [Sys.did, hst]
      exact hl.begun h
    · simp only [Sys.did, hst]
      rw [← hst, hclosed, hst]
      exact hl.absorbed
    · simp only [Sys.did, h0 .up rfl]
      exact hl.ups
    · simp only [Sys.did, h0 .down rfl, hclosed]
      exact hl.downs
    · simp only [Sys.did, h0 .close rfl, hclosed]
      exact hl.closes
    · intro hr
      simp only [Sys.did, hclosed]
      rcases List.mem_append.mp hr with hr | hr
      · cases hlife _ hr
      · exact hl.removing hr
    · simp only [Sys.did, h0 .down rfl, hclosed]
      exact hl.destroyed
  | shutsDown hst hst' hcb =>
    have hopen := hl.opened (by rw [hst]; decide)
    refine ⟨hcb.trans hl.set, hl.stacked, ?_, ?_, hl.ups, ?_, ?_, ?_, ?_⟩
    · intro _
      rw [Sys.did, hst']
      decide
    · simp [Sys.did, hst', hopen]
    · simpa [Sys.did, hst', hopen] using hl.downs
    · simpa [Sys.did, hst', hopen] using hl.closes
    · simpa [Sys.did, hst', hopen] using hl.removing
    · simpa [Sys.did, hst', hopen] using hl.destroyed
  | closes hst hst' hcb => exact hl.ending hunder hst hst' hcb (Or.inl rfl)
  | destroys hst hst' hcb => exact hl.ending hunder hst hst' hcb (Or.inr rfl)
  | removes hst =>
    have hclosed : (s.closed || decide (s.conn.state = .disconnected)) = s.closed := by rw [hl.absorbed.mpr hst]; rfl
    have h0 : ∀ cb, pending cb ([.remove] ++ s.stack) = pending cb s.stack := fun cb => by simp [pending_cons]
    refine ⟨hl.set, hunder, hl.begun, ?_, ?_, ?_, ?_, fun _ => ?_, ?_⟩
    · simp only [Sys.did, hclosed]
      exact hl.absorbed
    · simp only [Sys.did, h0]
      exact hl.ups
    · simp only [Sys.did, h0, hclosed]
      exact hl.downs
    · simp only [Sys.did, h0, hclosed]
      exact hl.closes
    · simp only [Sys.did, hclosed]
      exact hl.absorbed.mpr hst
    · simp only [Sys.did, h0, hclosed]
      exact hl.destroyed

theorem Lived.begins (hl : Lived callbacks s) {cb : Callback} {rest : List Task} (hs : s.stack = .invoke cb :: rest) :
    Lived callbacks (s.begins cb rest) := by
  have hcount : ∀ cb', pending cb' s.stack = pending cb' (.user :: rest) + if cb = cb' then 1 else 0 := by
    intro cb'
    simp [hs, pending_cons]
  refine ⟨hl.set, hl.stacked.rest hs, hl.begun, hl.absorbed, ?_, ?_, ?_, ?_, ?_⟩
  · intro hset
    have h := hl.ups hset
    rw [hcount] at h
    simp only [Sys.begins]
    omega
  · intro hset
    have h := hl.downs hset
    rw [hcount] at h
    simp only [Sys.begins]
    omega
  · have h := hl.closes
    rw [hcount] at h
    simp only [Sys.begins]
    omega
  · intro hr
    apply hl.removing
    rw [hs]
    exact List.mem_cons_of_mem _ ((List.mem_cons.mp hr).resolve_left (by decide))
  · intro hd
    obtain ⟨hc, h0⟩ := hl.destroyed hd
    rw [hcount] at h0
    exact ⟨hc, (Nat.add_eq_zero_iff.mp h0).1⟩

/-- A task on top that is none of the connection's life runs a member. -/
theorem Lived.task (hl : Lived callbacks s) {task : Task} {rest : List Task} (hs : s.stack = task :: rest)
    (ht : lifeless task = true) {b : Buf} {t : Todo} (he : Ends s.conn t) :
    Lived callbacks ({ s with inputBuffer := b }.did t rest) := by
  have hpop : Lived callbacks { s with stack := rest } := by
    refine hl.pop hs fun _ => ⟨?_, ?_⟩ <;> rintro rfl <;> cases ht
  have hin : Lived callbacks { s with inputBuffer := b, stack := rest } := { hpop with }
  exact hin.did (hl.stacked.rest hs) he

theorem Lived.removes (hl : Lived callbacks s) {rest : List Task} (hs : s.stack = .remove :: rest) :
    Lived callbacks
      ({ s with destroyed := true }.did ({ s.conn with channel := s.conn.channel.disableAll.remove }, []) rest) := by
  have hclosed : s.closed = true := hl.removing (by rw [hs]; exact List.mem_cons_self)
  have hunder := hl.stacked.rest hs
  have hpop : Lived callbacks { s with stack := rest } := hl.pop hs fun _ => ⟨by decide, by decide⟩
  have hgone : Lived callbacks { s with destroyed := true, stack := rest } :=
    { hpop with destroyed := fun _ => ⟨hclosed, pending_under (by decide) hunder⟩ }
  exact hgone.did hunder (.none rfl rfl)

theorem Lived.establishes (hl : Lived callbacks s) (hu : userCode s.stack = true) (hst : s.conn.state = .connecting) :
    Lived callbacks ({ s with established := true, wants := true }.did
      ({ s.conn with state := .connected, channel := s.conn.channel.enableReading }, [.invoke .up]) s.stack) := by
  have hunder := hl.stacked.userCode hu
  have hopen := hl.opened (by rw [hst]; decide)
  have hnew : s.established = false := by
    by_contra h
    exact hl.begun (by simpa using h) hst
  have hclosed : (s.closed || decide (State.connected = State.disconnected)) = s.closed := by simp
  refine ⟨hl.set, hunder, fun _ => (by simp [Sys.did]), ?_, ?_, ?_, ?_, ?_, ?_⟩
  · simp [Sys.did, hopen]
  · intro hset
    have h := hl.ups hset
    rw [hnew] at h
    simp only [Sys.did, List.cons_append, List.nil_append, pending_cons, if_true, Bool.toNat_true, Bool.toNat_false] at h ⊢
    omega
  · intro hset
    have h := hl.downs hset
    simpa [Sys.did, pending_cons] using h
  · have h := hl.closes
    simpa [Sys.did, pending_cons] using h
  · intro hr
    simp only [Sys.did, hclosed]
    exact hl.removing ((List.mem_cons.mp hr).resolve_left (by decide))
  · intro hd
    have := (hl.destroyed hd).1
    rw [hopen] at this
    cases this

theorem dispatch_tasks (revents : Revents) :
    (∀ t ∈ dispatch revents, under t = true) ∧ ∀ t ∈ dispatch revents, lifeless t = true := by
  have hall : ∀ t ∈ dispatch revents, (under t && lifeless t) = true := by
    intro t ht
    simp only [dispatch, List.mem_append] at ht
    rcases ht with ((ht | ht) | ht) | ht <;> split at ht <;>
      first
      | (rw [List.mem_singleton.mp ht]; rfl)
      | cases ht
  refine ⟨fun t ht => ?_, fun t ht => ?_⟩
  · have := hall t ht
    rw [Bool.and_eq_true] at this
    exact this.1
  · have := hall t ht
    rw [Bool.and_eq_true] at this
    exact this.2

theorem Lived.event (hl : Lived callbacks s) (hs : s.stack = []) (revents : Revents) :
    Lived callbacks { s with stack := dispatch revents } := by
  obtain ⟨hunder, hlife⟩ := dispatch_tasks revents
  have h0 : ∀ cb, ofLife cb = true → pending cb (dispatch revents) = pending cb s.stack := fun cb hcb => by
    rw [pending_lifeless hcb hlife, hs, pending_nil]
  refine ⟨hl.set, fun t ht => hunder t (List.mem_of_mem_tail ht), hl.begun, hl.absorbed, ?_, ?_, ?_, ?_, ?_⟩
  · simp only [h0 .up rfl]
    exact hl.ups
  · simp only [h0 .down rfl]
    exact hl.downs
  · simp only [h0 .close rfl]
    exact hl.closes
  · intro hr
    cases hlife _ hr
  · simp only [h0 .down rfl]
    exact hl.destroyed

theorem Move.lived (h : Move cfg s a s') (hok : steady s a = true) (hl : Lived callbacks s) : Lived callbacks s' := by
  cases h with
  | begins hs => exact hl.begins hs
  | @skips cb rest hs hset =>
    have hpop : Lived callbacks { s with stack := rest } := by
      refine hl.pop hs fun hconn => ⟨?_, ?_⟩ <;> rintro heq <;> cases heq <;>
        simp [isSet, hl.set, hconn] at hset
    exact hpop.did (hl.stacked.rest hs) (.none rfl rfl)
  | keeps hs => exact hl.task hs rfl (.none rfl rfl)
  | closes hs ht =>
    rcases ht with rfl | ⟨err, rfl⟩
    · exact hl.task hs rfl (handleClose_ends rfl rfl)
    · exact hl.task hs rfl (handleClose_ends rfl rfl)
  | handleWrite hs =>
    refine hl.task hs rfl ?_
    split
    · exact .tasks rfl rfl rfl
    · exact .none rfl rfl
  | decodes hs _ hd => exact hl.task hs rfl (codecTurn_ends hd _)
  | drained hs => exact hl.task hs rfl (drained_ends _)
  | subscribes hs => exact hl.task hs rfl (subscribe_ends _ _)
  | afterWriteComplete hs =>
    refine hl.task hs rfl ?_
    split
    · exact .none (shutdownInLoop_steady _).1 (shutdownInLoop_steady _).2
    · exact .none rfl rfl
  | removes hs => exact hl.removes hs
  | received hs => exact hl.task hs rfl (received_ends _ _)
  | readRests hs => exact hl.task hs rfl (.none rfl rfl)
  | readEnds hs => exact hl.task hs rfl (handleClose_ends rfl rfl)
  | readFails hs => exact hl.task hs rfl (handleErrorAndClose_ends _ rfl rfl)
  | writes hs => exact hl.task hs rfl (writeTurn_ends _ _)
  | socketError hs => exact hl.task hs rfl (handleError_ends _ _)
  | @api a r hu =>
    have hw : Lived callbacks { s with wants := wantsAfter s.wants (.api a) } := { hl with }
    exact hw.did (hl.stacked.userCode hu) (api_ends a r s.conn)
  | input => exact { hl with }
  | establishes hu hst => exact hl.establishes hu hst
  | destroys hu => exact hl.did (hl.stacked.userCode hu) (connectDestroyed_ends _)
  | returns hs => exact hl.pop hs fun _ => ⟨by decide, by decide⟩
  | event hs => exact hl.event hs _
  | @functor f rest r hs hq =>
    have hw : Lived callbacks { s with queue := rest, wants := functorWants s.wants f } := { hl with }
    have hdid := hw.did (hl.stacked.userCode (by rw [hs]; rfl)) (runFunctor_ends f r s.conn)
    rw [show ({ s with queue := rest, wants := functorWants s.wants f } : Sys).stack = [] from hs] at hdid
    exact hdid
  | call => exact { hl with }
  | sees => exact { hl with }
  | stores hn =>
    have hst : s.conn.state ≠ .disconnected := by simpa [steady] using hok
    have hopen := hl.opened hst
    exact { hl with begun := fun _ => (by simp), absorbed := (by simp [hopen]) }
  | queues => exact { hl with }

/-- A connection that has been `Disconnected` has been so ever since. -/
theorem Move.closed (h : Move cfg s a s') (hc : s.closed = true) : s'.closed = true := by
  cases h with
  | returns => exact hc
  | event => exact hc
  | begins => exact hc
  | input => exact hc
  | call => exact hc
  | sees => exact hc
  | stores => exact hc
  | queues => exact hc
  | _ => simp [Sys.did, hc]

theorem make_lived (callbacks : Callbacks) (input : Buf) : Lived callbacks (make callbacks input) where
  set := rfl
  stacked _ ht := absurd ht List.not_mem_nil
  begun h := by cases h
  absorbed := by simp [make, TcpConnection.make]
  ups _ := rfl
  downs _ := rfl
  closes := le_rfl
  removing h := absurd h List.not_mem_nil
  destroyed h := by cases h

theorem Lived.of_reach {input : Buf} {ok : Sys → Label → Prop} (hok : ∀ s a, ok s a → steady s a = true)
    (hr : (connection cfg callbacks input).Reach ok s) : Lived callbacks s :=
  hr.inv (I := Lived callbacks) (make_lived callbacks input) fun s a _ hl h hstep => (step_move hstep).lived (hok s a h) hl

/-- If no store of `Disconnecting` finds the connection `Disconnected`: `Disconnected` is never left; an
    established connection gets one connection-up callback; and when `connectDestroyed` has run it has
    had one connection-down callback and at most one close callback. -/
theorem lives_once {input : Buf} (hr : (connection cfg callbacks input).Reach (fun s a => steady s a = true) s) :
    (∀ a s', steady s a = true → step cfg s a = some s' → s.conn.state = .disconnected → s'.conn.state = .disconnected) ∧
      (callbacks.connection = true → s.established = true →
        s.ups ≤ 1 ∧ (.invoke .up ∉ s.stack → s.ups = 1) ∧ (s.destroyed = true → s.downs = 1)) ∧
      s.closes ≤ 1 := by
  have hl := Lived.of_reach (fun _ _ h => h) hr
  refine ⟨?_, ?_, ?_⟩
  · intro a s' hok hstep hst
    have hm := step_move hstep
    exact (hm.lived hok hl).absorbed.mp (hm.closed (hl.absorbed.mpr hst))
  · intro hset hest
    have hups := hl.ups hset
    have hdowns := hl.downs hset
    rw [hest, Bool.toNat_true] at hups
    refine ⟨by omega, fun hnot => ?_, fun hd => ?_⟩
    · have h0 : pending .up s.stack = 0 := List.count_eq_zero.mpr hnot
      omega
    · obtain ⟨hc, h0⟩ := hl.destroyed hd
      rw [hc, h0] at hdowns
      exact hdowns
  · have := hl.closes
    have := Bool.toNat_le s.closed
    omega

/-- A connection with every callback set. -/
def allSet : Callbacks := ⟨true, true, true, true, true⟩

def plain : Config := ⟨Buffer.roomy, none, true, false⟩

/-- `m_inputBuffer`, as it is made. -/
def freshInput : Buf := ⟨List.replicate 1032 0, 8, 8⟩

/-- It was established, shut down from another thread, closed and destroyed. -/
def lived : Sys :=
  { make allSet freshInput with
    conn := { TcpConnection.make allSet with state := .disconnected }
    calls := [.shutdownInLoop]
    established := true
    closed := true
    destroyed := true
    ups := 1
    downs := 1
    closes := 1 }

theorem lives_once_shutdown : lived.ups = 1 ∧ lived.downs = 1 ∧ lived.closes ≤ 1 := by
  have hrun : (connection plain allSet freshInput).run (fun s a => steady s a = true) (make allSet freshInput)
      [.call .connectEstablished (.take 0), .next, .returns, .other .shutdown, .other .shutdownStore, .event ⟨false, false, false, true⟩,
        .next, .next, .returns, .next, .returns, .call .connectDestroyed (.take 0), .next] = some lived := by decide +kernel
  have hr : (connection plain allSet freshInput).Reach (fun s a => steady s a = true) lived :=
    Lib.Machine.Reach.run Lib.Machine.Reach.init hrun
  obtain ⟨-, hlife, hcloses⟩ := lives_once hr
  exact ⟨(hlife rfl rfl).2.1 (by decide), (hlife rfl rfl).2.2 rfl, hcloses⟩

/-- Another thread's `shutdown` sees `Connected`; the loop thread closes the connection and calls back. -/
def closedUnderShutdown : Sys :=
  { lived with destroyed := false, calls := [], shutting := 1 }

/-- The other thread stores `Disconnecting`, and the connection is closed a second time. -/
def livedTwice : Sys := { lived with downs := 2, closes := 2 }

theorem a_store_after_the_close_revives :
    (connection plain allSet freshInput).Reach (fun _ _ => True) closedUnderShutdown ∧
      closedUnderShutdown.conn.state = .disconnected ∧
      (step plain closedUnderShutdown (.other .shutdownStore)).map (·.conn.state) = some .disconnecting ∧
      (connection plain allSet freshInput).Reach (fun _ _ => True) livedTwice ∧
      livedTwice.established = true ∧ livedTwice.destroyed = true ∧ livedTwice.downs = 2 ∧ livedTwice.closes = 2 := by
  have hrun : (connection plain allSet freshInput).run (fun _ _ => True) (make allSet freshInput)
      [.call .connectEstablished (.take 0), .next, .returns, .other .shutdown, .call (.api .forceClose) (.take 0), .next, .returns,
        .next, .returns] = some closedUnderShutdown := by decide +kernel
  have hr : (connection plain allSet freshInput).Reach (fun _ _ => True) closedUnderShutdown :=
    Lib.Machine.Reach.run Lib.Machine.Reach.init hrun
  have hrun' : (connection plain allSet freshInput).run (fun _ _ => True) closedUnderShutdown
      [.other .shutdownStore, .call (.api .forceClose) (.take 0), .next, .returns, .next, .returns,
        .call .connectDestroyed (.take 0), .next] = some livedTwice := by decide +kernel
  exact ⟨hr, rfl, rfl, hr.run hrun', rfl, rfl, rfl, rfl⟩

/-! ## After the close callback -/

/-- A callback that reports what happens on the connection. -/
def reports : Callback → Bool
  | .message => true
  | .frame _ => true
  | .writeComplete => true
  | .error _ => true
  | _ => false

/-- The kernel has neither bytes nor an error for `handleRead`. -/
def readsNothing (cfg : Config) (b : Buf) (r : SysRead) : Bool :=
  match (Buffer.readFdResult cfg.alloc b r).1 with
  | .ok (.ok io) => decide (io.status ≠ .ok)
  | .ok (.error _) => false
  | .error _ => true

/-- The codec wants more data. -/
def decodesNothing (cfg : Config) (b : Buf) : Bool :=
  match cfg.codec with
  | none => true
  | some codec => decide ((codecTurn codec b).map (·.2) = some [])

/-- Where the loop thread goes on with a connection whose close callback has been called, it finds
    nothing to report: no bytes and no error to read, no frame, no socket error, no write interest. -/
def findsNothing (cfg : Config) (s : Sys) : Label → Bool
  | .read r => readsNothing cfg s.inputBuffer r
  | .socketError err => decide (err = 0)
  | .next =>
    match s.stack with
    | .codecTurn :: _ => decodesNothing cfg s.inputBuffer
    | .handleWrite :: _ => !s.conn.channel.writing
    | _ => true
  | _ => true

def quietEnd (cfg : Config) (s : Sys) (a : Label) : Bool :=
  steady s a && (decide (s.closes = 0) || findsNothing cfg s a)

/-- No member has anything to do for a `Disconnected` connection. -/
theorem handleClose_disconnected {c : Conn} (h : c.state = .disconnected) : handleClose c = (c, []) := if_pos h

theorem api_disconnected {c : Conn} (h : c.state = .disconnected) (a : Api) (r : SysWrite) : (api a r c).2 = [] := by
  cases a with
  | send data => simp [api, send, h]
  | forceClose => simp [api, forceClose, h]
  | _ => rfl

theorem runFunctor_disconnected {c : Conn} (h : c.state = .disconnected) (f : Functor) (r : SysWrite) :
    (runFunctor f r c).2 = [] := by
  cases f with
  | sendInLoop data => simp [runFunctor, sendInLoop, h]
  | forceCloseInLoop => simp [runFunctor, forceClose, h]
  | _ => rfl

/-- After the close callback, no callback is due but a close callback. -/
def Silent (s : Sys) : Prop := 0 < s.closes → ∀ t ∈ s.stack, under t = true

theorem Silent.did {t : Todo} {rest : List Task} (hrest : ∀ t ∈ rest, under t = true) (hnew : 0 < s.closes → t.2 = []) :
    Silent (s.did t rest) := by
  intro hc x hx
  rw [Sys.did, hnew hc] at hx
  exact hrest x hx

theorem Move.silent (h : Move cfg s a s') (hok : quietEnd cfg s a = true) (hl : Lived callbacks s) (hs : Silent s) :
    Silent s' := by
  have hdisc : 0 < s.closes → s.conn.state = .disconnected := by
    intro hc
    apply hl.absorbed.mp
    have h1 := hl.closes
    cases hcl : s.closed with
    | true => rfl
    | false =>
      rw [hcl, Bool.toNat_false] at h1
      omega
  have hfinds : 0 < s.closes → findsNothing cfg s a = true := by
    intro hc
    rw [quietEnd, Bool.and_eq_true, Bool.or_eq_true, decide_eq_true_eq] at hok
    exact hok.2.resolve_left (by omega)
  have hclose : 0 < s.closes → (handleClose s.conn).2 = [] := fun hc => by rw [handleClose_disconnected (hdisc hc)]
  cases h with
  | begins hst =>
    intro _ x hx
    rcases List.mem_cons.mp hx with rfl | hx
    · rfl
    · exact hl.stacked.rest hst x hx
  | skips hst => exact Silent.did (hl.stacked.rest hst) fun _ => rfl
  | keeps hst => exact Silent.did (hl.stacked.rest hst) fun _ => rfl
  | closes hst => exact Silent.did (hl.stacked.rest hst) hclose
  | handleWrite hst =>
    refine Silent.did (hl.stacked.rest hst) fun hc => ?_
    have := hfinds hc
    simp only [findsNothing, hst, Bool.not_eq_true'] at this
    simp [this]
  | decodes hst hcodec hd =>
    refine Silent.did (hl.stacked.rest hst) fun hc => ?_
    have := hfinds hc
    simpa [findsNothing, hst, decodesNothing, hcodec, hd] using this
  | drained hst =>
    refine Silent.did (hl.stacked.rest hst) fun hc => ?_
    have := hs hc .writeTurn (by rw [hst]; exact List.mem_cons_self)
    cases this
  | subscribes hst => exact Silent.did (hl.stacked.rest hst) fun _ => rfl
  | afterWriteComplete hst => exact Silent.did (hl.stacked.rest hst) fun _ => rfl
  | removes hst => exact Silent.did (hl.stacked.rest hst) fun _ => rfl
  | received hst hread hio =>
    refine Silent.did (hl.stacked.rest hst) fun hc => ?_
    have := hfinds hc
    simp [findsNothing, readsNothing, hread, hio] at this
  | readRests hst => exact Silent.did (hl.stacked.rest hst) fun _ => rfl
  | readEnds hst => exact Silent.did (hl.stacked.rest hst) hclose
  | readFails hst hread =>
    refine Silent.did (hl.stacked.rest hst) fun hc => ?_
    have := hfinds hc
    simp [findsNothing, readsNothing, hread] at this
  | writes hst =>
    refine Silent.did (hl.stacked.rest hst) fun hc => ?_
    have := hs hc .writeTurn (by rw [hst]; exact List.mem_cons_self)
    cases this
  | socketError hst =>
    refine Silent.did (hl.stacked.rest hst) fun hc => ?_
    have := hfinds hc
    simp only [findsNothing, decide_eq_true_eq] at this
    simp [handleError, this]
  | api hu => exact Silent.did (hl.stacked.userCode hu) fun hc => api_disconnected (hdisc hc) _ _
  | input => exact hs
  | establishes hu hst =>
    intro hc
    have := hdisc hc
    rw [hst] at this
    cases this
  | destroys hu =>
    intro hc x hx
    rw [Sys.did, connectDestroyed, if_neg (not_not.mpr (hdisc hc))] at hx
    rcases List.mem_cons.mp hx with rfl | hx
    · rfl
    · exact hl.stacked.userCode hu x hx
  | returns hst => exact fun _ => hl.stacked.rest hst
  | event hst => exact fun _ => (dispatch_tasks _).1
  | functor hst hq =>
    exact Silent.did (fun _ ht => absurd ht List.not_mem_nil) fun hc => runFunctor_disconnected (hdisc hc) _ _
  | call => exact hs
  | sees => exact hs
  | stores => exact hs
  | queues => exact hs

/-- If the loop thread finds nothing to report where it goes on with a connection whose close callback
    has been called, no message, frame, write-complete or error callback starts any more. -/
theorem silent_after_close {input : Buf}
    (hr : (connection cfg callbacks input).Reach (fun s a => quietEnd cfg s a = true) s) (hc : 0 < s.closes) :
    (starts cfg s a).any reports = false := by
  have hsteady : ∀ s a, quietEnd cfg s a = true → steady s a = true := fun s a h => by
    rw [quietEnd, Bool.and_eq_true] at h
    exact h.1
  have hinv : Lived callbacks s ∧ Silent s := by
    refine hr.inv (I := fun s => Lived callbacks s ∧ Silent s) ⟨make_lived _ _, fun h => (by cases h)⟩ ?_
    rintro s a s' ⟨hl, hs⟩ hok hstep
    have hm := step_move hstep
    exact ⟨hm.lived (hsteady s a hok) hl, hm.silent hok hl hs⟩
  have hs := hinv.2 hc
  unfold starts
  split
  · split
    · rename_i cb rest hst
      -- what starts is on top of the stack
      have hunder := hs (.invoke cb) (by rw [hst]; exact List.mem_cons_self)
      split
      · cases cb <;> first | rfl | cases hunder
      · rfl
    · rfl
  · rfl

/-- Bytes arrive, and the message callback closes the connection; the next read would block. -/
theorem silent_after_close_blocked :
    ∃ s, (connection plain allSet freshInput).Reach (fun s a => quietEnd plain s a = true) s ∧ 0 < s.closes ∧
      (starts plain s .next).any reports = false := by
  obtain ⟨s, hr, hc⟩ := Lib.Machine.Reach.of_run (connection plain allSet freshInput)
    (fun s a => quietEnd plain s a = true) (fun s => decide (0 < s.closes))
    [.call .connectEstablished (.take 0), .next, .returns, .event ⟨false, true, false, false⟩, .read (.data [1]), .next,
      .call (.api .forceClose) (.take 0), .next, .returns, .next, .returns, .returns, .read (.fail 11)] (by decide +kernel)
  have hc' : 0 < s.closes := of_decide_eq_true hc
  exact ⟨s, hr, hc', silent_after_close hr hc'⟩

/-- The same with more bytes to read: `handleRead` goes on, and the message callback is called again. -/
theorem a_message_follows_the_close :
    ∃ s, (connection plain allSet freshInput).Reach (fun _ _ => True) s ∧ s.conn.state = .disconnected ∧ 0 < s.closes ∧
      starts plain s .next = some .message := by
  obtain ⟨s, hr, hp⟩ := Lib.Machine.Reach.of_run (connection plain allSet freshInput) (fun _ _ => True)
    (fun s => decide (s.conn.state = .disconnected ∧ 0 < s.closes ∧ starts plain s .next = some .message))
    [.call .connectEstablished (.take 0), .next, .returns, .event ⟨false, true, false, false⟩, .read (.data [1]), .next,
      .call (.api .forceClose) (.take 0), .next, .returns, .next, .returns, .returns, .read (.data [2])] (by decide +kernel)
  exact ⟨s, hr, of_decide_eq_true hp⟩

end Dbase.Net.TcpConnection.Steps
