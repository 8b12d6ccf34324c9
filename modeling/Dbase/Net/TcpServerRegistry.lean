/-
  Dbase.Net.TcpServerRegistry — every connection of a server is established once and, if it is closed,
  removed and destroyed once, in that order, in any interleaving of the loops.

  `Life` is what the server owes one connection: what is queued for it, what has been done, and whether
  the registry holds it. A step of the server is a move of one life or leaves all as they are
  (`step_life`), so what the moves keep (`Life.Kept`) holds of every connection in every run.
-/

import Dbase.Net.TcpConnectionRuns
import Dbase.Net.TcpServer

/-! ## The life of a connection -/

namespace Dbase.Net.TcpServer

/-- What is queued for a connection, what has been done for it, and how it stands. -/
structure Life where
  establishing : Nat
  established : Nat
  closed : Bool
  /-- the close callback is about to be called -/
  due : Bool
  closes : Nat
  removing : Nat
  removals : Nat
  held : Bool
  destroying : Nat
  destroys : Nat
  deriving DecidableEq, Repr

namespace Life

inductive Move (l : Life) : Life → Prop
  | establishes {n : Nat} : l.establishing = n + 1 →
      Move l { l with establishing := n, established := l.established + 1 }
  | goesOn {closed due : Bool} : 0 < l.established → (l.closed = true → closed = true) → (l.due = true → due = true) →
      (due = true → closed = true) → (closed = true → l.closed = true ∨ due = true) →
      Move l { l with closed := closed, due := due }
  | callsBack {due : Bool} : l.due = true →
      Move l { l with due := due, closes := l.closes + 1, removing := l.removing + 1 }
  | removes {n : Nat} : l.removing = n + 1 → l.held = true →
      Move l { l with removing := n, held := false, removals := l.removals + 1, destroying := l.destroying + 1 }
  | findsNothing {n : Nat} : l.removing = n + 1 → l.held = false → Move l { l with removing := n }
  | destroys {n : Nat} {closed due : Bool} : l.destroying = n + 1 → (l.closed = true → closed = true) →
      (l.due = true → due = true) → (due = true → closed = true) →
      Move l { l with destroying := n, destroys := l.destroys + 1, closed := closed, due := due }

structure Kept (l : Life) : Prop where
  once : l.establishing + l.established = 1
  alive : l.closed = true → 0 < l.established
  due : l.due = true → l.closed = true
  called : l.closed = true → l.due = true ∨ 0 < l.closes
  closes : 0 < l.closes → l.closed = true
  asked : 0 < l.removing + l.removals → 0 < l.closes
  heard : 0 < l.closes → 0 < l.removing + l.removals
  held : l.removals + l.held.toNat = 1
  destroyed : l.destroying + l.destroys = l.removals

theorem Move.kept {l l' : Life} (h : Move l l') (hk : Kept l) : Kept l' := by
  cases h with
  | establishes hn =>
    have := hk.once
    exact { hk with once := by simp only; omega, alive := fun h => Nat.lt_succ_of_lt (hk.alive h) }
  | goesOn hest hclosed hdue hclosing hshut =>
    refine { hk with alive := fun _ => hest, due := hclosing, called := fun h => ?_, closes := fun h => hclosed (hk.closes h) }
    rcases hshut h with h | h
    · exact (hk.called h).imp_left hdue
    · exact Or.inl h
  | callsBack hdue =>
    refine { hk with
      due := fun _ => hk.due hdue
      called := fun _ => Or.inr (Nat.succ_pos _)
      closes := fun _ => hk.due hdue
      asked := fun _ => Nat.succ_pos _
      heard := fun _ => ?_ }
    simp only
    omega
  | removes hn hheld =>
    have h1 := hk.held
    have h2 := hk.destroyed
    have h3 := hk.asked (by omega)
    rw [hheld, Bool.toNat_true] at h1
    refine { hk with asked := fun _ => h3, heard := fun _ => ?_, held := ?_, destroyed := ?_ } <;>
      simp only [Bool.toNat_false] <;> omega
  | findsNothing hn hheld =>
    have h1 := hk.held
    have h3 := hk.asked (by omega)
    rw [hheld, Bool.toNat_false] at h1
    refine { hk with asked := fun _ => h3, heard := fun _ => ?_ }
    simp only
    omega
  | destroys hn hclosed hdue hclosing =>
    have h2 := hk.destroyed
    have h3 := hk.asked (by omega)
    have hest := hk.alive (hk.closes h3)
    refine { hk with
      alive := fun _ => hest, due := hclosing, called := fun _ => Or.inr h3, closes := fun _ => hclosed (hk.closes h3)
      destroyed := ?_ }
    simp only
    omega

end Life

end Dbase.Net.TcpServer

/-! ## What a step of a connection is to its server -/

namespace Dbase.Net.TcpConnection.Steps

open Dbase.Net.Buffer (Buf SysWrite)
open Dbase.Net.LengthFieldCodec (Codec)

variable {cfg : Config} {callbacks : Callbacks} {s s' : Sys} {a : Label}

/-- A connection that is `Disconnected`, or about to call back, is marked as closed. -/
structure Marked (callbacks : Callbacks) (s : Sys) : Prop where
  set : s.conn.callbacks = callbacks
  closed : s.conn.state = .disconnected → s.closed = true
  due : .invoke .close ∈ s.stack → s.closed = true

/-- A step that neither establishes nor calls the close callback: the connection stays closed, its
    callback stays due, and one that gets closed has its callback due. -/
structure Lives (s s' : Sys) : Prop where
  closes : s'.closes = s.closes
  closed : s.closed = true → s'.closed = true
  due : .invoke .close ∈ s.stack → .invoke .close ∈ s'.stack
  closing : s'.closed = true → s.closed = true ∨ .invoke .close ∈ s'.stack

theorem Ends.due {c : Conn} {t : Todo} (h : Ends c t) (hdue : .invoke .close ∈ t.2) : t.1.state = .disconnected := by
  cases h with
  | goesOn _ _ hnew =>
    have := hnew _ hdue
    cases this
  | shutsDown => cases hdue
  | closes _ h => exact h
  | destroys _ h => exact h
  | removes h => exact h

theorem Ends.set {c : Conn} {t : Todo} (h : Ends c t) : t.1.callbacks = c.callbacks := by
  cases h with
  | goesOn _ h => exact h
  | shutsDown _ _ h => exact h
  | closes _ _ h => exact h
  | destroys _ _ h => exact h
  | removes => rfl

theorem Ends.closing {c : Conn} {t : Todo} (h : Ends c t) (hst : t.1.state = .disconnected) (hr : .remove ∉ t.2) :
    c.state = .disconnected ∨ .invoke .close ∈ t.2 := by
  cases h with
  | goesOn h => exact Or.inl (h ▸ hst)
  | shutsDown _ h =>
    rw [h] at hst
    cases hst
  | closes => exact Or.inr (by simp)
  | destroys => exact absurd (by simp) hr
  | removes h => exact Or.inl h

theorem Marked.did {s₀ : Sys} (hm : Marked callbacks s) {t : Todo} {rest : List Task} (hc : s₀.closed = s.closed)
    (hrest : ∀ t ∈ rest, t ∈ s.stack) (he : Ends s.conn t) : Marked callbacks (s₀.did t rest) where
  set := he.set.trans hm.set
  closed h := by
    have h : t.1.state = .disconnected := h
    simp [Sys.did, h]
  due h := by
    simp only [Sys.did, hc, Bool.or_eq_true, decide_eq_true_eq]
    rcases List.mem_append.mp h with h | h
    · exact Or.inr (he.due h)
    · exact Or.inl (hm.due (hrest _ h))

theorem Lives.did {s₀ : Sys} (hm : Marked callbacks s) {t : Todo} {rest : List Task} (hc : s₀.closed = s.closed)
    (hcl : s₀.closes = s.closes) (hrest : .invoke .close ∈ s.stack → .invoke .close ∈ rest) (he : Ends s.conn t)
    (hr : .remove ∉ t.2) : Lives s (s₀.did t rest) where
  closes := hcl
  closed h := by simp [Sys.did, hc, h]
  due h := List.mem_append_right _ (hrest h)
  closing h := by
    simp only [Sys.did, hc, Bool.or_eq_true, decide_eq_true_eq] at h
    rcases h with h | h
    · exact Or.inl h
    · exact (he.closing h hr).imp hm.closed (List.mem_append_left _)

/-- A task other than the close callback leaves the stack. -/
theorem close_mem_rest {task : Task} {rest : List Task} (hs : s.stack = task :: rest) (hne : task ≠ .invoke .close)
    (h : .invoke .close ∈ s.stack) : .invoke .close ∈ rest := by
  rw [hs] at h
  exact (List.mem_cons.mp h).resolve_left (Ne.symm hne)

/-- Only `connectDestroyed` takes the channel out of the poller. -/
theorem handleOutputBufferAppend_stays (data : List UInt8) (direct : Bool) (c : Conn) :
    .remove ∉ (handleOutputBufferAppend data direct c).2 := by
  unfold handleOutputBufferAppend handleOutputOverflow
  simp only
  repeat' split
  all_goals simp

theorem handleClose_stays (c : Conn) : .remove ∉ (handleClose c).2 := by
  unfold handleClose
  split <;> simp

theorem sendInLoop_stays (data : List UInt8) (r : SysWrite) (c : Conn) : .remove ∉ (sendInLoop data r c).2 := by
  unfold sendInLoop handleErrorAndClose
  simp only
  repeat' split
  all_goals first | exact handleOutputBufferAppend_stays _ _ _ | simp

theorem forceClose_stays (c : Conn) : .remove ∉ (forceClose c).2 := by
  unfold forceClose
  split
  · simp
  · exact handleClose_stays c

theorem api_stays (a : Api) (r : SysWrite) (c : Conn) : .remove ∉ (api a r c).2 := by
  cases a with
  | send data =>
    simp only [api, send]
    split
    · simp
    · exact sendInLoop_stays data r c
  | forceClose => exact forceClose_stays c
  | _ => exact List.not_mem_nil

theorem runFunctor_stays (f : Functor) (r : SysWrite) (c : Conn) : .remove ∉ (runFunctor f r c).2 := by
  cases f with
  | sendInLoop data => exact sendInLoop_stays data r c
  | forceCloseInLoop => exact forceClose_stays c
  | _ => exact List.not_mem_nil

theorem writeTurn_stays (r : SysWrite) (c : Conn) : .remove ∉ (writeTurn r c).2 := by
  unfold writeTurn handleErrorAndClose
  simp only
  repeat' split
  all_goals first | exact handleClose_stays _ | simp

theorem handleError_stays (err : Int) (c : Conn) : .remove ∉ (handleError err c).2 := by
  unfold handleError handleErrorAndClose
  split <;> simp

theorem codecTurn_stays {codec : Codec} {b b' : Buf} {new : List Task} (h : codecTurn codec b = some (b', new)) :
    .remove ∉ new := by
  unfold codecTurn at h
  split at h
  · cases h
  · split at h <;> cases h <;> simp

theorem received_stays (cfg : Config) : .remove ∉ received cfg := by
  unfold received
  repeat' split
  all_goals simp

/-- A task of the stack, other than the close callback, runs. -/
theorem Lives.task {s₀ : Sys} (hm : Marked callbacks s) {task : Task} {t : Todo} {rest : List Task} (hs : s.stack = task :: rest)
    (hne : task ≠ .invoke .close) (hc : s₀.closed = s.closed) (hcl : s₀.closes = s.closes) (he : Ends s.conn t)
    (hr : .remove ∉ t.2) : Lives s (s₀.did t rest) := .did hm hc hcl (close_mem_rest hs hne) he hr

/-- The step is not one of those that the server makes for a connection. -/
def ordinary (s : Sys) : Label → Bool
  | .call .connectEstablished _ => false
  | .call .connectDestroyed _ => false
  | .next => decide (s.stack.head? ≠ some (.invoke .close))
  | _ => true

theorem Move.lives (h : Move cfg s a s') (hm : Marked callbacks s) (hok : ordinary s a = true) : Lives s s' := by
  have hstay : ∀ {s₀ : Sys}, s₀.stack = s.stack → s₀.closed = s.closed → s₀.closes = s.closes → Lives s s₀ := by
    intro s₀ hs hc hcl
    exact ⟨hcl, fun h => hc.trans h, fun h => hs ▸ h, fun h => Or.inl (hc.symm.trans h)⟩
  cases h with
  | @begins cb rest hs =>
    have hne : cb ≠ .close := by simpa [ordinary, hs] using hok
    refine ⟨by simp [Sys.begins, hne], id, fun h => ?_, Or.inl⟩
    exact List.mem_cons_of_mem _ (close_mem_rest hs (by simpa using hne) h)
  | @skips cb rest hs =>
    have hne : cb ≠ .close := by simpa [ordinary, hs] using hok
    exact .task hm hs (by simpa using hne) rfl rfl (.none rfl rfl) List.not_mem_nil
  | keeps hs => exact .task hm hs (by simp) rfl rfl (.none rfl rfl) List.not_mem_nil
  | closes hs ht =>
    refine .task hm hs ?_ rfl rfl (handleClose_ends rfl rfl) (handleClose_stays _)
    rcases ht with rfl | ⟨err, rfl⟩ <;> simp
  | handleWrite hs =>
    refine .task hm hs (by simp) rfl rfl ?_ ?_
    · split
      · exact .tasks rfl rfl rfl
      · exact .none rfl rfl
    · dsimp only
      split <;> simp
  | decodes hs _ hnew => exact .task hm hs (by simp) rfl rfl (codecTurn_ends hnew _) (codecTurn_stays hnew)
  | drained hs => exact .task hm hs (by simp) rfl rfl (drained_ends _) (by simp [Steps.drained])
  | subscribes hs => exact .task hm hs (by simp) rfl rfl (subscribe_ends _ _) List.not_mem_nil
  | afterWriteComplete hs =>
    refine .task hm hs (by simp) rfl rfl ?_ List.not_mem_nil
    split
    · exact .none (shutdownInLoop_steady _).1 (shutdownInLoop_steady _).2
    · exact .none rfl rfl
  | removes hs =>
    refine .task hm hs (by simp) rfl rfl ?_ List.not_mem_nil
    exact .none rfl rfl
  | received hs => exact .task hm hs (by simp) rfl rfl (received_ends _ _) (received_stays _)
  | readRests hs => exact .task hm hs (by simp) rfl rfl (.none rfl rfl) List.not_mem_nil
  | readEnds hs => exact .task hm hs (by simp) rfl rfl (handleClose_ends rfl rfl) (handleClose_stays _)
  | readFails hs =>
    exact .task hm hs (by simp) rfl rfl (handleErrorAndClose_ends _ rfl rfl) (by simp [handleErrorAndClose])
  | writes hs => exact .task hm hs (by simp) rfl rfl (writeTurn_ends _ _) (writeTurn_stays _ _)
  | socketError hs => exact .task hm hs (by simp) rfl rfl (handleError_ends _ _) (handleError_stays _ _)
  | api => exact .did hm rfl rfl id (api_ends _ _ _) (api_stays _ _ _)
  | input => exact hstay rfl rfl rfl
  | establishes => cases hok
  | destroys => cases hok
  | returns hs =>
    exact ⟨rfl, id, close_mem_rest hs (by simp), Or.inl⟩
  | event hs =>
    refine ⟨rfl, id, fun h => ?_, Or.inl⟩
    rw [hs] at h
    cases h
  | functor hs =>
    refine .did hm rfl rfl (fun h => ?_) (runFunctor_ends _ _ _) (runFunctor_stays _ _ _)
    rw [hs] at h
    exact h
  | call => exact hstay rfl rfl rfl
  | sees => exact hstay rfl rfl rfl
  | stores => exact hstay rfl rfl rfl
  | queues => exact hstay rfl rfl rfl

theorem Marked.task {s₀ : Sys} (hm : Marked callbacks s) {task : Task} {t : Todo} {rest : List Task}
    (hs : s.stack = task :: rest) (hc : s₀.closed = s.closed) (he : Ends s.conn t) : Marked callbacks (s₀.did t rest) := by
  refine hm.did hc (fun t ht => ?_) he
  rw [hs]
  exact List.mem_cons_of_mem _ ht

theorem Move.marked (h : Move cfg s a s') (hm : Marked callbacks s) : Marked callbacks s' := by
  cases h with
  | begins hs =>
    refine ⟨hm.set, hm.closed, fun h => hm.due ?_⟩
    rw [hs]
    exact List.mem_cons_of_mem _ ((List.mem_cons.mp h).resolve_left (by simp))
  | skips hs => exact hm.task hs rfl (.none rfl rfl)
  | keeps hs => exact hm.task hs rfl (.none rfl rfl)
  | closes hs => exact hm.task hs rfl (handleClose_ends rfl rfl)
  | handleWrite hs =>
    refine hm.task hs rfl ?_
    split
    · exact .tasks rfl rfl rfl
    · exact .none rfl rfl
  | decodes hs _ hnew => exact hm.task hs rfl (codecTurn_ends hnew _)
  | drained hs => exact hm.task hs rfl (drained_ends _)
  | subscribes hs => exact hm.task hs rfl (subscribe_ends _ _)
  | afterWriteComplete hs =>
    refine hm.task hs rfl ?_
    split
    · exact .none (shutdownInLoop_steady _).1 (shutdownInLoop_steady _).2
    · exact .none rfl rfl
  | removes hs => exact hm.task hs rfl (.none rfl rfl)
  | received hs => exact hm.task hs rfl (received_ends _ _)
  | readRests hs => exact hm.task hs rfl (.none rfl rfl)
  | readEnds hs => exact hm.task hs rfl (handleClose_ends rfl rfl)
  | readFails hs => exact hm.task hs rfl (handleErrorAndClose_ends _ rfl rfl)
  | writes hs => exact hm.task hs rfl (writeTurn_ends _ _)
  | socketError hs => exact hm.task hs rfl (handleError_ends _ _)
  | api => exact hm.did rfl (fun _ ht => ht) (api_ends _ _ _)
  | input => exact ⟨hm.set, hm.closed, hm.due⟩
  | establishes _ hst =>
    refine ⟨hm.set, fun h => (by cases h), fun h => ?_⟩
    have hdue := hm.due ((List.mem_cons.mp h).resolve_left (by simp))
    simp [Sys.did, hdue]
  | destroys => exact hm.did rfl (fun _ ht => ht) (connectDestroyed_ends _)
  | returns hs =>
    refine ⟨hm.set, hm.closed, fun h => hm.due ?_⟩
    rw [hs]
    exact List.mem_cons_of_mem _ h
  | @event revents hs =>
    refine ⟨hm.set, hm.closed, fun h => ?_⟩
    have := (dispatch_tasks revents).2 _ h
    cases this
  | functor => exact hm.did rfl (fun _ ht => absurd ht List.not_mem_nil) (runFunctor_ends _ _ _)
  | call => exact ⟨hm.set, hm.closed, hm.due⟩
  | sees => exact ⟨hm.set, hm.closed, hm.due⟩
  | stores => exact ⟨hm.set, fun h => (by cases h), hm.due⟩
  | queues => exact ⟨hm.set, hm.closed, hm.due⟩

theorem Marked.of_reach {input : Buf} {ok : Sys → Label → Prop} (hr : (connection cfg callbacks input).Reach ok s) :
    Marked callbacks s := by
  refine hr.inv (I := Marked callbacks) ⟨rfl, fun h => (by cases h), fun h => (by cases h)⟩ ?_
  intro s a s' hm _ hstep
  exact (step_move hstep).marked hm

/-- The close callback is called, and returns. -/
theorem close_returns {rest : List Task} {t : Sys} (hm : Marked callbacks s) (hset : callbacks.close = true)
    (hs : s.stack = .invoke .close :: rest) (h : step cfg s .next = some t) (h' : step cfg t .returns = some s') :
    s' = { s with stack := rest, closes := s.closes + 1 } := by
  have hclose : isSet cfg s.conn .close = true := by
    rw [← hset, ← hm.set]
    rfl
  simp only [step, hs, next, hclose, if_true, Option.some.injEq] at h
  subst h
  simpa [step, Sys.begins] using h'.symm

theorem destroyed_after {r : SysWrite} (h : step cfg s (.call .connectDestroyed r) = some s') :
    s'.closes = s.closes ∧ (s.closed = true → s'.closed = true) ∧
      (.invoke .close ∈ s.stack → .invoke .close ∈ s'.stack) := by
  have hmove : Move cfg s (.call .connectDestroyed r) s' := step_move h
  cases hmove with
  | destroys =>
    refine ⟨rfl, fun h => ?_, List.mem_append_right _⟩
    simp [Sys.did, h]

end Dbase.Net.TcpConnection.Steps

/-! ## What a step of the server does -/

namespace Dbase.Net.TcpServer

open Dbase.Net.Buffer (SysRead SysWrite Buf)
open Dbase.Net.TcpConnection.Steps (Sys Task Label Marked Lives)

variable {cfg : Config} {s s' : Server} {a : Act}

/-- The oldest functor of a loop is taken from its queue. -/
def Server.pop (s : Server) (loop : Nat) (rest : List Functor) : Server :=
  { s with queues := Function.update s.queues loop rest }

inductive Move (cfg : Config) (s : Server) : Act → Server → Prop
  | acceptsHere {sys : Sys} : (getNextLoop cfg s.next).1 = 0 →
      TcpConnection.Steps.step cfg.conn (newMember cfg (connName cfg s.nextConnId) 0).sys
        (.call .connectEstablished (.take 0)) = some sys →
      Move cfg s .accept
        ((register cfg s).put s.members.length
          { newMember cfg (connName cfg s.nextConnId) 0 with
            sys := sys, touch := .lastActive (toTick s.clock), establishes := 1 })
  | accepts : (getNextLoop cfg s.next).1 ≠ 0 →
      Move cfg s .accept
        ((register cfg s).queueInLoop (getNextLoop cfg s.next).1 (.connectEstablished s.members.length))
  | callsBack {i : Nat} {m : Member} {t sys : Sys} {rest : List Task} : s.members[i]? = some m → m.establishes ≠ 0 →
      m.sys.stack = .invoke .close :: rest → TcpConnection.Steps.step cfg.conn m.sys .next = some t →
      TcpConnection.Steps.step cfg.conn t .returns = some sys →
      Move cfg s (.connection i .next) ((s.put i { m with sys := sys }).queueInLoop 0 (.removeConnectionInLoop i))
  | lives {i : Nat} {m : Member} {a : Label} {sys : Sys} : s.members[i]? = some m → m.establishes ≠ 0 →
      mayStep s m a = true → closeIsNext m.sys a = false → TcpConnection.Steps.step cfg.conn m.sys a = some sys →
      Move cfg s (.connection i a) (stepped cfg i m a sys s)
  | storesActive {i tick : Nat} {m : Member} : s.members[i]? = some m → m.touch = .lastActive tick →
      Move cfg s (.touch i) (s.put i { m with lastActiveAtTick := tick, touch := .lastProbe })
  | storesProbe {i : Nat} {m : Member} : s.members[i]? = some m → m.touch = .lastProbe →
      Move cfg s (.touch i) (s.put i { m with lastProbeAtTick := 0, touch := .done })
  | establishes {loop i : Nat} {rest : List Functor} {r : SysWrite} {m : Member} {sys : Sys} :
      s.queues loop = .connectEstablished i :: rest → s.members[i]? = some m →
      TcpConnection.Steps.step cfg.conn m.sys (.call .connectEstablished (.take 0)) = some sys →
      Move cfg s (.functor loop r)
        ((s.pop loop rest).put i
          { m with sys := sys, touch := .lastActive (toTick s.clock), establishes := m.establishes + 1 })
  | destroys {loop i : Nat} {rest : List Functor} {r : SysWrite} {m : Member} {sys : Sys} :
      s.queues loop = .connectDestroyed i :: rest → s.members[i]? = some m →
      TcpConnection.Steps.step cfg.conn m.sys (.call .connectDestroyed (.take 0)) = some sys →
      Move cfg s (.functor loop r) ((s.pop loop rest).put i { m with sys := sys, destroys := m.destroys + 1 })
  | removes {loop i : Nat} {rest : List Functor} {r : SysWrite} {m : Member} :
      s.queues loop = .removeConnectionInLoop i :: rest → s.members[i]? = some m →
      s.connections.any (·.1 = m.name) = true →
      Move cfg s (.functor loop r)
        (({ s.pop loop rest with connections := erase m.name s.connections }.put i
          { m with removals := m.removals + 1 }).queueInLoop m.ioLoop (.connectDestroyed i))
  | findsNothing {loop i : Nat} {rest : List Functor} {r : SysWrite} {m : Member} :
      s.queues loop = .removeConnectionInLoop i :: rest → s.members[i]? = some m →
      s.connections.any (·.1 = m.name) = false → Move cfg s (.functor loop r) (s.pop loop rest)
  | runs {loop i : Nat} {rest : List Functor} {r : SysWrite} {m : Member} {sys : Sys} :
      s.queues loop = .connection i :: rest → s.members[i]? = some m →
      TcpConnection.Steps.step cfg.conn m.sys (.functor r) = some sys →
      Move cfg s (.functor loop r) ((s.pop loop rest).put i { m with sys := sys })
  | beats {loop i : Nat} {rest : List Functor} {r : SysWrite} {m : Member} :
      s.queues loop = .heartbeat i :: rest → s.idle loop = true → s.members[i]? = some m →
      Move cfg s (.functor loop r)
        ((s.pop loop rest).put i { m with lastProbeAtTick := toTick s.clock, lastBeat := some s.clock })
  | forceCloses {loop i : Nat} {rest : List Functor} {r : SysWrite} {m : Member} {sys : Sys} :
      s.queues loop = .forceClose i :: rest → s.members[i]? = some m →
      TcpConnection.Steps.step cfg.conn m.sys (.call (.api .forceClose) (.take 0)) = some sys →
      Move cfg s (.functor loop r) ((s.pop loop rest).put i { m with sys := sys })
  | idles {loop i : Nat} {rest : List Functor} {r : SysWrite} : s.queues loop = .idle i :: rest →
      Move cfg s (.functor loop r) (s.pop loop rest)
  | startsCheck {order : List Nat} : s.check = none → order.Perm (s.connections.map (·.2)) →
      Move cfg s (.startCheck order) { s with check := some ⟨.visit, order, [], []⟩ }
  | looks {c c' : Check} {i : Nat} {m : Member} : s.check = some c → c.current = some (i, c') → s.members[i]? = some m →
      Move cfg s .check { s with check := some (checkStage cfg c' i m s.clock) }
  | queuesOne {c c' : Check} {i : Nat} {f : Functor} {m : Member} : s.check = some c → c.current = none →
      c.pop cfg = some (i, f, c') → s.members[i]? = some m →
      Move cfg s .check ({ s with check := some c' }.queueInLoop m.ioLoop f)
  | endsCheck : Move cfg s .check { s with check := none }
  | ticks {now : Nat} : s.clock ≤ now → Move cfg s (.tick now) { s with clock := now }

theorem newConnection_move (h : newConnection cfg s = some s') : Move cfg s .accept s' := by
  unfold newConnection at h
  split at h
  · rename_i hloop
    have hm : (register cfg s).members[s.members.length]? = some (newMember cfg (connName cfg s.nextConnId) 0) := by
      simp [register, hloop]
    simp only [connectEstablished, hm, Option.bind_some] at h
    obtain ⟨sys, hsys, rfl⟩ := Option.map_eq_some_iff.mp h
    exact .acceptsHere hloop hsys
  · rename_i hloop
    cases h
    exact .accepts hloop

theorem connectionStep_move {i : Nat} {a : Label} (h : connectionStep cfg i a s = some s') :
    Move cfg s (.connection i a) s' := by
  obtain ⟨m, hm, h⟩ := Option.bind_eq_some_iff.mp h
  split at h
  · cases h
  · rename_i hmay
    rw [not_or, Bool.not_eq_false] at hmay
    split at h
    · rename_i hclose
      obtain ⟨sys, hsys, rfl⟩ := Option.map_eq_some_iff.mp h
      obtain ⟨t, ht, hsys⟩ := Option.bind_eq_some_iff.mp hsys
      cases a with
      | next =>
        obtain ⟨rest, hs⟩ : ∃ rest, m.sys.stack = .invoke .close :: rest :=
          List.head?_eq_some_iff.mp (of_decide_eq_true hclose)
        exact .callsBack hm hmay.1 hs ht hsys
      | _ => cases hclose
    · rename_i hclose
      obtain ⟨sys, hsys, rfl⟩ := Option.map_eq_some_iff.mp h
      exact .lives hm hmay.1 hmay.2 (by simpa using hclose) hsys

theorem runFunctor_move {loop : Nat} {f : Functor} {rest : List Functor} {r : SysWrite} (hq : s.queues loop = f :: rest)
    (hidle : s.idle loop = true) (h : runFunctor cfg f r (s.pop loop rest) = some s') : Move cfg s (.functor loop r) s' := by
  cases f with
  | connectEstablished i =>
    obtain ⟨m, hm, h⟩ := Option.bind_eq_some_iff.mp h
    obtain ⟨sys, hsys, rfl⟩ := Option.map_eq_some_iff.mp h
    exact .establishes hq hm hsys
  | connectDestroyed i =>
    obtain ⟨m, hm, h⟩ := Option.bind_eq_some_iff.mp h
    obtain ⟨sys, hsys, rfl⟩ := Option.map_eq_some_iff.mp h
    exact .destroys hq hm hsys
  | removeConnectionInLoop i =>
    obtain ⟨m, hm, rfl⟩ := Option.map_eq_some_iff.mp h
    unfold removeConnectionInLoop
    split
    · rename_i hany
      exact .removes hq hm hany
    · rename_i hany
      exact .findsNothing hq hm (eq_false_of_ne_true hany)
  | connection i =>
    obtain ⟨m, hm, h⟩ := Option.bind_eq_some_iff.mp h
    obtain ⟨sys, hsys, rfl⟩ := Option.map_eq_some_iff.mp h
    exact .runs hq hm hsys
  | heartbeat i =>
    obtain ⟨m, hm, rfl⟩ := Option.map_eq_some_iff.mp h
    exact .beats hq hidle hm
  | forceClose i =>
    obtain ⟨m, hm, h⟩ := Option.bind_eq_some_iff.mp h
    obtain ⟨sys, hsys, rfl⟩ := Option.map_eq_some_iff.mp h
    exact .forceCloses hq hm hsys
  | idle i =>
    cases h
    exact .idles hq

theorem checkStep_move {c : Check} (hc : s.check = some c) (h : checkStep cfg c s = some s') : Move cfg s .check s' := by
  unfold checkStep at h
  split at h
  · rename_i i c' hcur
    obtain ⟨m, hm, rfl⟩ := Option.map_eq_some_iff.mp h
    exact .looks hc hcur hm
  · rename_i hcur
    split at h
    · rename_i i f c' hpop
      obtain ⟨m, hm, rfl⟩ := Option.map_eq_some_iff.mp h
      exact .queuesOne hc hcur hpop hm
    · cases h
      exact .endsCheck

theorem idle_check (h : s.idle 0 = true) : s.check = none := by
  simp only [Server.idle, ne_eq, not_true_eq_false, decide_false, Bool.false_or, Bool.and_eq_true] at h
  exact Option.isNone_iff_eq_none.mp h.1

theorem step_move (h : step cfg s a = some s') : Move cfg s a s' := by
  cases a with
  | accept =>
    simp only [step] at h
    split at h
    · exact newConnection_move h
    · cases h
  | connection i a => exact connectionStep_move h
  | touch i =>
    obtain ⟨m, hm, h⟩ := Option.bind_eq_some_iff.mp h
    split at h
    · cases h
    · rename_i tick ht
      cases h
      exact .storesActive hm ht
    · rename_i ht
      cases h
      exact .storesProbe hm ht
  | functor loop r =>
    simp only [step] at h
    split at h
    · rename_i f rest hq
      split at h
      · rename_i hidle
        exact runFunctor_move hq hidle h
      · cases h
    · cases h
  | startCheck order =>
    simp only [step] at h
    split at h
    · rename_i hok
      cases h
      exact .startsCheck (idle_check hok.1) hok.2.2
    · cases h
  | check =>
    simp only [step] at h
    split at h
    · rename_i c hc
      exact checkStep_move hc h
    · cases h
  | tick now =>
    simp only [step] at h
    split at h
    · rename_i hle
      cases h
      exact .ticks hle
    · cases h

/-! ## Looking up a connection -/

theorem put_member {i j : Nat} {m m' : Member} (hi : s.members[i]? = some m) :
    (s.put i m').members[j]? = if j = i then some m' else s.members[j]? := by
  obtain ⟨hlt, -⟩ := List.getElem?_eq_some_iff.mp hi
  simp only [Server.put, List.getElem?_set]
  by_cases h : i = j
  · subst h
    simp [hlt]
  · rw [if_neg h, if_neg (Ne.symm h)]

theorem put_self {i : Nat} {m m' : Member} (hi : s.members[i]? = some m) : (s.put i m').members[i]? = some m' := by
  rw [put_member hi, if_pos rfl]

/-- A connection after one of them was changed. -/
theorem put_cases {t : Server} {i j : Nat} {m₀ m₁ m m' : Member} (ht : t.members = s.members)
    (hi : s.members[i]? = some m₀) (hj : s.members[j]? = some m) (hj' : (t.put i m₁).members[j]? = some m') :
    (j = i ∧ m = m₀ ∧ m' = m₁) ∨ (j ≠ i ∧ m' = m) := by
  rw [put_member (ht ▸ hi)] at hj'
  split at hj'
  · rename_i h
    subst h
    rw [hi] at hj
    cases hj
    cases hj'
    exact Or.inl ⟨rfl, rfl, rfl⟩
  · rename_i h
    rw [ht, hj] at hj'
    cases hj'
    exact Or.inr ⟨h, rfl⟩

theorem queueInLoop_queues (loop : Nat) (f : Functor) (k : Nat) :
    (s.queueInLoop loop f).queues k = if k = loop then s.queues loop ++ [f] else s.queues k := by
  simp only [Server.queueInLoop, Function.update_apply]

theorem pop_queues (loop : Nat) (rest : List Functor) (k : Nat) :
    (s.pop loop rest).queues k = if k = loop then rest else s.queues k := by
  simp only [Server.pop, Function.update_apply]

/-- Counting a functor in a queue that got one more. -/
theorem count_queueInLoop (loop : Nat) (f g : Functor) (k : Nat) :
    ((s.queueInLoop loop f).queues k).count g = (s.queues k).count g + if k = loop ∧ f = g then 1 else 0 := by
  rw [queueInLoop_queues]
  by_cases hk : k = loop
  · by_cases hf : f = g
    · simp [hk, hf]
    · simp [hk, hf, List.count_append]
  · simp [hk]

theorem count_pop {loop : Nat} {f : Functor} {rest : List Functor} (hq : s.queues loop = f :: rest) (g : Functor) (k : Nat) :
    (s.queues k).count g = ((s.pop loop rest).queues k).count g + if k = loop ∧ f = g then 1 else 0 := by
  rw [pop_queues]
  by_cases hk : k = loop
  · subst hk
    simp [hq, List.count_cons]
  · simp [hk]

/-! ## The life of a member -/

def life (s : Server) (i : Nat) (m : Member) : Life where
  establishing := (s.queues m.ioLoop).count (.connectEstablished i)
  established := m.establishes
  closed := m.sys.closed
  due := decide (.invoke .close ∈ m.sys.stack)
  closes := m.sys.closes
  removing := (s.queues 0).count (.removeConnectionInLoop i)
  removals := m.removals
  held := decide ((m.name, i) ∈ s.connections)
  destroying := (s.queues m.ioLoop).count (.connectDestroyed i)
  destroys := m.destroys

/-- The connection whose life a functor is part of. -/
def Functor.ofLife : Functor → Option Nat
  | .connectEstablished i => some i
  | .connectDestroyed i => some i
  | .removeConnectionInLoop i => some i
  | _ => none

theorem life_queueInLoop {loop i : Nat} {f : Functor} {m : Member} (hf : f.ofLife ≠ some i) :
    life (s.queueInLoop loop f) i m = life s i m := by
  have hne : ∀ g : Functor, g.ofLife = some i → f ≠ g := by
    rintro g hg rfl
    exact hf hg
  simp only [life, count_queueInLoop, hne (.connectEstablished i) rfl, hne (.connectDestroyed i) rfl,
    hne (.removeConnectionInLoop i) rfl, and_false, if_false, Nat.add_zero]
  rfl

theorem life_pop {loop i : Nat} {f : Functor} {rest : List Functor} {m : Member} (hq : s.queues loop = f :: rest)
    (hf : f.ofLife ≠ some i) : life (s.pop loop rest) i m = life s i m := by
  have hne : ∀ g : Functor, g.ofLife = some i → f ≠ g := by
    rintro g hg rfl
    exact hf hg
  simp only [life, count_pop hq, hne (.connectEstablished i) rfl, hne (.connectDestroyed i) rfl,
    hne (.removeConnectionInLoop i) rfl, and_false, if_false, Nat.add_zero]
  rfl

/-- Nothing happened to a connection, or its life moved on. -/
def Passes (l l' : Life) : Prop := l' = l ∨ Life.Move l l'

theorem Passes.kept {l l' : Life} (h : Passes l l') (hk : l.Kept) : l'.Kept := by
  rcases h with rfl | h
  · exact hk
  · exact h.kept hk

/-! ## What every step keeps -/

/-- The connection's own machine gets there by itself. -/
def Runs (cfg : Config) (sys : Sys) : Prop :=
  (TcpConnection.Steps.connection cfg.conn (callbacks cfg) cfg.input).Reach (fun _ _ => True) sys

theorem Runs.step {sys sys' : Sys} {a : Label} (h : Runs cfg sys) (hstep : TcpConnection.Steps.step cfg.conn sys a = some sys') :
    Runs cfg sys' := Lib.Machine.Reach.step h trivial hstep

/-- What `newConnection` sets are calls of the connection. -/
theorem newMember_runs (cfg : Config) (name : String) (ioLoop : Nat) : Runs cfg (newMember cfg name ioLoop).sys := by
  have hmake : Runs cfg (TcpConnection.Steps.make (callbacks cfg) cfg.input) := Lib.Machine.Reach.init
  have hlimit := (hmake.step (a := .call (.api (.setMaxOutputBufferBytes cfg.maxOutputBufferBytes)) (.take 0)) rfl).step
    (a := .call (.api (.setOutputOverflowPolicy cfg.outputOverflowPolicy)) (.take 0)) rfl
  by_cases hauto : cfg.autoReadFlowControlEnabled
  · have hflow := hlimit.step
      (a := .call (.api (.enableAutoReadFlowControl cfg.readPauseHighWaterMark cfg.readResumeLowWaterMark)) (.take 0)) rfl
    simp only [TcpConnection.Steps.Sys.did, TcpConnection.Steps.api,
      (TcpConnection.Steps.enableAutoReadFlowControl_steady _ _ _).1] at hflow
    simp only [newMember, configured, hauto, if_true]
    exact hflow
  · simp only [newMember, configured, hauto]
    exact hlimit

def Functor.conn : Functor → Nat
  | .connectEstablished i => i
  | .connectDestroyed i => i
  | .removeConnectionInLoop i => i
  | .connection i => i
  | .heartbeat i => i
  | .forceClose i => i
  | .idle i => i

/-- The loop a functor of a connection is queued in. -/
def Functor.home (m : Member) : Functor → Nat
  | .removeConnectionInLoop _ => 0
  | _ => m.ioLoop

def Stage.conn : Stage → Option Nat
  | .visit => none
  | .idleFor i => some i
  | .idleNow i _ => some i
  | .lastProbeAt i _ => some i
  | .probeIdleFor i _ => some i
  | .probeNow i _ _ => some i

/-- The connections that a check has found `Connected`. -/
def Check.found (c : Check) : List Nat := c.stage.conn.toList ++ (c.heartbeatConnections ++ c.idleConnections)

structure Sound (cfg : Config) (s : Server) : Prop where
  ids : s.nextConnId = s.members.length + 1
  names : ∀ (i : Nat) (m : Member), s.members[i]? = some m → m.name = connName cfg (i + 1)
  keys : ∀ x ∈ s.connections, x.2 < s.members.length ∧ x.1 = connName cfg (x.2 + 1)
  nodup : (s.connections.map (·.2)).Nodup
  homes : ∀ k, ∀ f ∈ s.queues k, ∃ m, s.members[f.conn]? = some m ∧ f.home m = k ∧
    (f = .connectEstablished f.conn ∨ m.establishes ≠ 0)
  found : ∀ c, s.check = some c → ∀ i ∈ c.found, ∃ m, s.members[i]? = some m ∧ m.establishes ≠ 0
  runs : ∀ (i : Nat) (m : Member), s.members[i]? = some m → Runs cfg m.sys
  fresh : ∀ (i : Nat) (m : Member), s.members[i]? = some m → m.establishes = 0 → m.sys = (newMember cfg m.name m.ioLoop).sys

/-- What a step may do to a connection. -/
structure Advances (cfg : Config) (m m' : Member) : Prop where
  name : m'.name = m.name
  ioLoop : m'.ioLoop = m.ioLoop
  establishes : m.establishes ≤ m'.establishes
  runs : Runs cfg m.sys → Runs cfg m'.sys
  fresh : m'.establishes = 0 → m'.sys = m.sys

theorem Sound.put (hs : Sound cfg s) {i : Nat} {m m' : Member} (hi : s.members[i]? = some m) (ha : Advances cfg m m') :
    Sound cfg (s.put i m') := by
  have hput : ∀ j, (s.put i m').members[j]? = if j = i then some m' else s.members[j]? := fun j => put_member hi
  have hlen : (s.put i m').members.length = s.members.length := List.length_set
  have hfind : ∀ (j : Nat) (x : Member), s.members[j]? = some x →
      ∃ x', (s.put i m').members[j]? = some x' ∧ x'.ioLoop = x.ioLoop ∧ x.establishes ≤ x'.establishes := by
    intro j x hx
    rw [hput]
    split
    · rename_i h
      rw [h, hi] at hx
      cases hx
      exact ⟨m', rfl, ha.ioLoop, ha.establishes⟩
    · exact ⟨x, hx, rfl, le_rfl⟩
  refine ⟨?_, ?_, ?_, hs.nodup, ?_, ?_, ?_, ?_⟩
  · rw [hlen]
    exact hs.ids
  · intro j x hx
    rw [hput] at hx
    split at hx
    · rename_i h
      cases hx
      rw [ha.name, h]
      exact hs.names i m hi
    · exact hs.names j x hx
  · rw [hlen]
    exact hs.keys
  · intro k f hf
    obtain ⟨x, hx, hhome, hest⟩ := hs.homes k f hf
    obtain ⟨x', hx', hloop, hle⟩ := hfind _ x hx
    refine ⟨x', hx', ?_, hest.imp_right fun h => by omega⟩
    rw [← hhome]
    cases f <;> first | rfl | exact hloop
  · intro c hc j hj
    obtain ⟨x, hx, hest⟩ := hs.found c hc j hj
    obtain ⟨x', hx', -, hle⟩ := hfind j x hx
    exact ⟨x', hx', by omega⟩
  · intro j x hx
    rw [hput] at hx
    split at hx
    · cases hx
      exact ha.runs (hs.runs i m hi)
    · exact hs.runs j x hx
  · intro j x hx h0
    rw [hput] at hx
    split at hx
    · cases hx
      have := ha.establishes
      rw [ha.fresh h0, ha.name, ha.ioLoop]
      exact hs.fresh i m hi (by omega)
    · exact hs.fresh j x hx h0

theorem Sound.queueInLoop (hs : Sound cfg s) {f : Functor} {m : Member} (hm : s.members[f.conn]? = some m)
    (hest : f = .connectEstablished f.conn ∨ m.establishes ≠ 0) : Sound cfg (s.queueInLoop (f.home m) f) := by
  refine ⟨hs.ids, hs.names, hs.keys, hs.nodup, ?_, hs.found, hs.runs, hs.fresh⟩
  intro k g hg
  rw [queueInLoop_queues] at hg
  split at hg
  · rename_i hk
    subst hk
    rcases List.mem_append.mp hg with hg | hg
    · exact hs.homes _ g hg
    · rw [List.mem_singleton.mp hg]
      exact ⟨m, hm, rfl, hest⟩
  · exact hs.homes k g hg

theorem Sound.pop (hs : Sound cfg s) {loop : Nat} {f : Functor} {rest : List Functor} (hq : s.queues loop = f :: rest) :
    Sound cfg (s.pop loop rest) := by
  refine ⟨hs.ids, hs.names, hs.keys, hs.nodup, ?_, hs.found, hs.runs, hs.fresh⟩
  intro k g hg
  rw [pop_queues] at hg
  split at hg
  · rename_i hk
    subst hk
    exact hs.homes _ g (by rw [hq]; exact List.mem_cons_of_mem _ hg)
  · exact hs.homes k g hg

theorem Sound.check (hs : Sound cfg s) {check : Option Check}
    (h : ∀ c, check = some c → ∀ i ∈ c.found, ∃ m, s.members[i]? = some m ∧ m.establishes ≠ 0) :
    Sound cfg { s with check := check } :=
  ⟨hs.ids, hs.names, hs.keys, hs.nodup, hs.homes, h, hs.runs, hs.fresh⟩

theorem register_member {j : Nat} :
    (register cfg s).members[j]? =
      if j = s.members.length then some (newMember cfg (connName cfg s.nextConnId) (getNextLoop cfg s.next).1)
      else s.members[j]? := by
  simp only [register, List.getElem?_append]
  rcases Nat.lt_trichotomy j s.members.length with h | rfl | h
  · rw [if_pos h, if_neg h.ne]
  · simp
  · rw [if_neg h.not_gt, if_neg h.ne']
    simp only [List.getElem?_singleton]
    rw [if_neg (by omega), List.getElem?_eq_none (by omega)]

/-- A member of a server is one of the server that has registered another. -/
theorem register_old {j : Nat} {m : Member} (h : s.members[j]? = some m) : (register cfg s).members[j]? = some m := by
  rw [register_member, if_neg, h]
  rintro rfl
  simp at h

/-- What a new member becomes is nothing to those that were there. -/
theorem put_register_old {j : Nat} {m m' x : Member} (hj : s.members[j]? = some m)
    (hj' : ((register cfg s).put s.members.length x).members[j]? = some m') : m' = m := by
  have hlt : j ≠ s.members.length := (List.getElem?_eq_some_iff.mp hj).1.ne
  rw [put_member (by rw [register_member, if_pos rfl]), if_neg hlt, register_old hj] at hj'
  exact (Option.some.inj hj').symm

theorem connName_injective {a b : Nat} (h : connName cfg a = connName cfg b) : a = b := by
  simp only [connName] at h
  have h : toString a = toString b := by simpa using h
  exact Nat.repr_injective h

theorem mem_emplace {name : String} {i : Nat} {l : List (String × Nat)} {x : String × Nat} (h : x ∈ emplace name i l) :
    x ∈ l ∨ x = (name, i) := by
  unfold emplace at h
  split at h
  · exact Or.inl h
  · rw [List.mem_append, List.mem_singleton] at h
    exact h

theorem Sound.register (hs : Sound cfg s) : Sound cfg (register cfg s) := by
  have hlen : (TcpServer.register cfg s).members.length = s.members.length + 1 := by simp [TcpServer.register]
  refine ⟨?_, ?_, ?_, ?_, ?_, ?_, ?_, ?_⟩
  · rw [hlen, ← hs.ids]
    rfl
  · intro j m hm
    rw [register_member] at hm
    split at hm
    · rename_i hj
      cases hm
      rw [hj, ← hs.ids]
      rfl
    · exact hs.names j m hm
  · intro x hx
    rw [hlen]
    rcases mem_emplace hx with hx | rfl
    · have := hs.keys x hx
      exact ⟨by omega, this.2⟩
    · exact ⟨by simp, by rw [hs.ids]⟩
  · simp only [TcpServer.register, emplace]
    split
    · exact hs.nodup
    · rw [List.map_append, List.nodup_append]
      refine ⟨hs.nodup, by simp, ?_⟩
      intro a ha b hb
      obtain ⟨x, hx, rfl⟩ := List.mem_map.mp ha
      have := (hs.keys x hx).1
      rw [List.map_singleton, List.mem_singleton] at hb
      omega
  · intro k f hf
    obtain ⟨m, hm, h⟩ := hs.homes k f hf
    exact ⟨m, register_old hm, h⟩
  · intro c hc i hi
    obtain ⟨m, hm, h⟩ := hs.found c hc i hi
    exact ⟨m, register_old hm, h⟩
  · intro j m hm
    rw [register_member] at hm
    split at hm
    · cases hm
      exact newMember_runs cfg _ _
    · exact hs.runs j m hm
  · intro j m hm h0
    rw [register_member] at hm
    split at hm
    · cases hm
      rfl
    · exact hs.fresh j m hm h0

/-- A member after a step of its connection. -/
def heard (cfg : Config) (s : Server) (m : Member) (a : Label) (sys : Sys) : Member :=
  match a with
  | .read r =>
    if receives cfg m.sys r then
      { m with sys := sys, touch := .lastActive (toTick s.clock), lastData := some s.clock, lastBeat := none }
    else { m with sys := sys }
  | _ => { m with sys := sys }

theorem heard_fields (cfg : Config) (s : Server) (m : Member) (a : Label) (sys : Sys) :
    (heard cfg s m a sys).name = m.name ∧ (heard cfg s m a sys).ioLoop = m.ioLoop ∧ (heard cfg s m a sys).sys = sys ∧
      (heard cfg s m a sys).establishes = m.establishes ∧ (heard cfg s m a sys).removals = m.removals ∧
      (heard cfg s m a sys).destroys = m.destroys := by
  unfold heard
  split
  · split <;> exact ⟨rfl, rfl, rfl, rfl, rfl, rfl⟩
  · exact ⟨rfl, rfl, rfl, rfl, rfl, rfl⟩

theorem stepped_eq (cfg : Config) (i : Nat) (m : Member) (a : Label) (sys : Sys) (s : Server) :
    stepped cfg i m a sys s = s.put i (heard cfg s m a sys) ∨
      stepped cfg i m a sys s = (s.put i (heard cfg s m a sys)).queueInLoop m.ioLoop (.connection i) := by
  unfold stepped heard
  split
  · exact Or.inr rfl
  · left
    dsimp only
    split <;> rfl
  · rename_i h1 h2
    left
    split
    · rename_i r
      exact absurd rfl (h2 r)
    · rfl

theorem Advances.step {m m' : Member} {a : Label} (hname : m'.name = m.name) (hloop : m'.ioLoop = m.ioLoop)
    (hest : m.establishes ≤ m'.establishes) (h0 : m'.establishes ≠ 0)
    (h : TcpConnection.Steps.step cfg.conn m.sys a = some m'.sys) : Advances cfg m m' :=
  ⟨hname, hloop, hest, fun hr => hr.step h, fun h => absurd h h0⟩

/-- The check has a heartbeat for a connection: it was never probed, or not for the interval. -/
def Due (cfg : Config) (c : Check) (i : Nat) (m : Member) (now : Nat) : Prop :=
  (∃ idle, c.stage = .lastProbeAt i idle ∧ m.lastProbeAtTick = 0 ∧ idle ≥ cfg.heartbeatInterval) ∨
    ∃ idle tick, c.stage = .probeNow i idle tick ∧ idle ≥ cfg.heartbeatInterval ∧ sinceTick now tick ≥ cfg.heartbeatInterval

theorem Due.conn {c : Check} {i now : Nat} {m : Member} (h : Due cfg c i m now) : c.stage.conn = some i := by
  rcases h with ⟨_, hst, -⟩ | ⟨_, _, hst, -⟩
  · rw [hst]
    rfl
  · rw [hst]
    rfl

/-- What the check may do when it looks at a connection. -/
inductive Look (cfg : Config) (i : Nat) (m : Member) (now : Nat) (c : Check) : Check → Prop
  | skips {todo : List Nat} (hst : c.stage = .visit) (htodo : c.todo = i :: todo) :
      Look cfg i m now c { c with todo := todo }
  | finds {todo : List Nat} (hst : c.stage = .visit) (htodo : c.todo = i :: todo)
      (hconn : m.sys.conn.state = .connected) : Look cfg i m now c { c with todo := todo, stage := .idleFor i }
  | loads (hst : c.stage = .idleFor i) : Look cfg i m now c { c with stage := .idleNow i m.lastActiveAtTick }
  | evicts {tick : Nat} (hst : c.stage = .idleNow i tick) (h0 : 0 < cfg.idleTimeout)
      (hidle : sinceTick now tick ≥ cfg.idleTimeout) :
      Look cfg i m now c { c.visits with idleConnections := c.idleConnections ++ [i] }
  | asks {tick : Nat} (hst : c.stage = .idleNow i tick) (h0 : 0 < cfg.heartbeatInterval) :
      Look cfg i m now c { c with stage := .lastProbeAt i (sinceTick now tick) }
  | probed {idle : Nat} (hst : c.stage = .lastProbeAt i idle) :
      Look cfg i m now c { c with stage := .probeIdleFor i idle }
  | loadsProbe {idle : Nat} (hst : c.stage = .probeIdleFor i idle) :
      Look cfg i m now c { c with stage := .probeNow i idle m.lastProbeAtTick }
  | beats (hdue : Due cfg c i m now) :
      Look cfg i m now c { c.visits with heartbeatConnections := c.heartbeatConnections ++ [i] }
  | leaves (hconn : c.stage.conn = some i) : Look cfg i m now c c.visits

theorem look_checkStage {c c' : Check} {i now : Nat} {m : Member} (hcur : c.current = some (i, c')) :
    Look cfg i m now c (checkStage cfg c' i m now) := by
  cases hst : c.stage with
  | visit =>
    simp only [Check.current, hst] at hcur
    split at hcur
    · rename_i htodo
      cases hcur
      simp only [checkStage]
      split
      · rename_i hconn
        exact .finds hst htodo hconn
      · exact hst ▸ .skips hst htodo
    · cases hcur
  | idleFor k =>
    simp only [Check.current, hst] at hcur
    cases hcur
    simp only [checkStage, hst]
    exact .loads hst
  | idleNow k tick =>
    simp only [Check.current, hst] at hcur
    cases hcur
    simp only [checkStage, hst]
    split
    · rename_i h
      exact .evicts hst h.1 h.2
    · split
      · rename_i h
        exact .asks hst h.1
      · exact .leaves (by rw [hst]; rfl)
  | lastProbeAt k idle =>
    simp only [Check.current, hst] at hcur
    cases hcur
    simp only [checkStage, hst]
    split
    · rename_i h0
      split
      · rename_i hidle
        exact .beats (Or.inl ⟨idle, hst, h0, hidle⟩)
      · exact .leaves (by rw [hst]; rfl)
    · exact .probed hst
  | probeIdleFor k idle =>
    simp only [Check.current, hst] at hcur
    cases hcur
    simp only [checkStage, hst]
    exact .loadsProbe hst
  | probeNow k idle tick =>
    simp only [Check.current, hst] at hcur
    cases hcur
    simp only [checkStage, hst]
    split
    · rename_i h
      exact .beats (Or.inr ⟨idle, tick, hst, h⟩)
    · exact .leaves (by rw [hst]; rfl)

/-- A check finds only connections that it has found before, and the one it sees `Connected`. -/
theorem Look.found {c d : Check} {i j now : Nat} {m : Member} (h : Look cfg i m now c d) (hj : j ∈ d.found) :
    j ∈ c.found ∨ j = i ∧ m.sys.conn.state = .connected := by
  simp only [Check.found, List.mem_append] at hj ⊢
  cases h with
  | skips => exact Or.inl hj
  | finds hst _ hconn =>
    rcases hj with hj | hj
    · exact Or.inr ⟨by simpa [Stage.conn] using hj, hconn⟩
    · exact Or.inl (Or.inr hj)
  | loads hst => exact Or.inl (by rw [hst]; exact hj)
  | evicts hst =>
    left
    rw [hst]
    simp only [Check.visits, Stage.conn, Option.toList_some, Option.toList_none, List.mem_append, List.mem_singleton,
      List.not_mem_nil, false_or] at hj ⊢
    tauto
  | asks hst => exact Or.inl (by rw [hst]; exact hj)
  | probed hst => exact Or.inl (by rw [hst]; exact hj)
  | loadsProbe hst => exact Or.inl (by rw [hst]; exact hj)
  | beats hdue =>
    left
    rw [hdue.conn]
    simp only [Check.visits, Stage.conn, Option.toList_some, Option.toList_none, List.mem_append, List.mem_singleton,
      List.not_mem_nil, false_or] at hj ⊢
    tauto
  | leaves => exact Or.inl (Or.inr (hj.resolve_left List.not_mem_nil))

/-- A connection is `Connecting` until it is established. -/
theorem Sound.connecting (hs : Sound cfg s) {i : Nat} {m : Member} (hm : s.members[i]? = some m)
    (h0 : m.establishes = 0) : m.sys.conn.state = .connecting := by
  rw [hs.fresh i m hm h0]
  change (configured cfg).state = _
  unfold configured
  split
  · rw [(TcpConnection.Steps.enableAutoReadFlowControl_steady _ _ _).1]
    rfl
  · rfl

theorem pop_found {c c' : Check} {i : Nat} {f : Functor} (h : c.pop cfg = some (i, f, c')) :
    f.conn = i ∧ i ∈ c.found ∧ (∀ m, f.home m = m.ioLoop) ∧ f.ofLife = none ∧ ∀ j ∈ c'.found, j ∈ c.found := by
  unfold Check.pop at h
  split at h
  · rename_i k rest l hb
    cases h
    refine ⟨rfl, by simp [Check.found, hb], fun _ => rfl, rfl, fun j hj => ?_⟩
    simp only [Check.found, hb, List.mem_append, List.mem_cons] at hj ⊢
    tauto
  · rename_i k rest hb hi
    cases h
    refine ⟨by split <;> rfl, by simp [Check.found, hi], fun _ => by split <;> rfl, by split <;> rfl, fun j hj => ?_⟩
    simp only [Check.found, hi, List.mem_append, List.mem_cons] at hj ⊢
    tauto
  · cases h

/-- A functor at the head of a queue, with its connection. -/
theorem Sound.head (hs : Sound cfg s) {loop : Nat} {f : Functor} {rest : List Functor} {m : Member}
    (hq : s.queues loop = f :: rest) (hm : s.members[f.conn]? = some m) :
    f.home m = loop ∧ (f = .connectEstablished f.conn ∨ m.establishes ≠ 0) := by
  obtain ⟨m', hm', h⟩ := hs.homes loop f (by rw [hq]; exact List.mem_cons_self)
  rw [hm] at hm'
  cases hm'
  exact h

theorem Move.sound (h : Move cfg s a s') (hs : Sound cfg s) : Sound cfg s' := by
  cases h with
  | acceptsHere hloop hsys =>
    refine hs.register.put (m := newMember cfg (connName cfg s.nextConnId) 0) ?_ ?_
    · rw [register_member, if_pos rfl, hloop]
    · exact .step rfl rfl (Nat.zero_le _) Nat.one_ne_zero hsys
  | accepts hloop =>
    refine hs.register.queueInLoop (f := .connectEstablished s.members.length)
      (m := newMember cfg (connName cfg s.nextConnId) (getNextLoop cfg s.next).1) ?_ (Or.inl rfl)
    rw [Functor.conn, register_member, if_pos rfl]
  | @callsBack i m t sys rest hm hest hstack ht hsys =>
    have hadv : Advances cfg m { m with sys := sys } :=
      ⟨rfl, rfl, le_rfl, fun hr => (hr.step ht).step hsys, fun h => absurd h hest⟩
    exact (hs.put hm hadv).queueInLoop (f := .removeConnectionInLoop i) (put_self hm) (Or.inr hest)
  | @lives i m a sys hm hest _ _ hsys =>
    obtain ⟨hname, hloop, hs', hest', -⟩ := heard_fields cfg s m a sys
    have hadv : Advances cfg m (heard cfg s m a sys) :=
      .step hname hloop hest'.ge (by rw [hest']; exact hest) (by rw [hs']; exact hsys)
    have hput := hs.put hm hadv
    rcases stepped_eq cfg i m a sys s with h | h
    · rw [h]
      exact hput
    · rw [h, ← hloop]
      exact hput.queueInLoop (f := .connection i) (put_self hm) (Or.inr (by rw [hest']; exact hest))
  | storesActive hm => exact hs.put hm ⟨rfl, rfl, le_rfl, id, fun _ => rfl⟩
  | storesProbe hm => exact hs.put hm ⟨rfl, rfl, le_rfl, id, fun _ => rfl⟩
  | establishes hq hm hsys => exact (hs.pop hq).put hm (.step rfl rfl (Nat.le_succ _) (Nat.succ_ne_zero _) hsys)
  | destroys hq hm hsys =>
    have hest := (hs.head hq hm).2.resolve_left (by simp)
    exact (hs.pop hq).put hm (.step rfl rfl le_rfl hest hsys)
  | @removes loop i rest r m hq hm hany =>
    have hest := (hs.head hq hm).2.resolve_left (by simp)
    have herase : Sound cfg { s.pop loop rest with connections := erase m.name s.connections } := by
      have hp := hs.pop hq
      refine ⟨hp.ids, hp.names, ?_, ?_, hp.homes, hp.found, hp.runs, hp.fresh⟩
      · exact fun x hx => hs.keys x (List.mem_of_mem_filter hx)
      · exact List.Sublist.nodup (List.Sublist.map _ List.filter_sublist) hs.nodup
    have hadv : Advances cfg m { m with removals := m.removals + 1 } := ⟨rfl, rfl, le_rfl, id, fun _ => rfl⟩
    exact (herase.put hm hadv).queueInLoop (f := .connectDestroyed i) (m := { m with removals := m.removals + 1 })
      (put_self (s := { s.pop loop rest with connections := erase m.name s.connections }) hm) (Or.inr hest)
  | findsNothing hq => exact hs.pop hq
  | runs hq hm hsys =>
    have hest := (hs.head hq hm).2.resolve_left (by simp)
    exact (hs.pop hq).put hm (.step rfl rfl le_rfl hest hsys)
  | beats hq _ hm => exact (hs.pop hq).put hm ⟨rfl, rfl, le_rfl, id, fun _ => rfl⟩
  | forceCloses hq hm hsys =>
    have hest := (hs.head hq hm).2.resolve_left (by simp)
    exact (hs.pop hq).put hm (.step rfl rfl le_rfl hest hsys)
  | idles hq => exact hs.pop hq
  | startsCheck =>
    refine hs.check fun c hc i hi => ?_
    cases hc
    simp [Check.found, Stage.conn] at hi
  | looks hc hcur hm =>
    refine hs.check fun c' hc' j hj => ?_
    cases hc'
    rcases (look_checkStage hcur).found hj with hj | ⟨rfl, hconn⟩
    · exact hs.found _ hc j hj
    · refine ⟨_, hm, fun h0 => ?_⟩
      rw [hs.connecting hm h0] at hconn
      cases hconn
  | @queuesOne c c' i f m hc _ hpop hm =>
    obtain ⟨hconn, hi, hhome, -, hsub⟩ := pop_found hpop
    obtain ⟨m', hm', hest⟩ := hs.found c hc i hi
    rw [hm] at hm'
    cases hm'
    have hcheck : Sound cfg { s with check := some c' } := hs.check fun d hd j hj => by
      cases hd
      exact hs.found c hc j (hsub j hj)
    rw [← hhome m]
    exact hcheck.queueInLoop (by rw [hconn]; exact hm) (Or.inr hest)
  | endsCheck => exact hs.check fun c hc => by cases hc
  | ticks => exact ⟨hs.ids, hs.names, hs.keys, hs.nodup, hs.homes, hs.found, hs.runs, hs.fresh⟩

theorem make_sound (cfg : Config) : Sound cfg make where
  ids := rfl
  names i m h := by simp [make] at h
  keys x h := by cases h
  nodup := List.nodup_nil
  homes k f h := by cases h
  found c h := by cases h
  runs i m h := by simp [make] at h
  fresh i m h := by simp [make] at h

/-! ## Every life moves on -/

theorem Sound.marked (hs : Sound cfg s) {i : Nat} {m : Member} (hm : s.members[i]? = some m) :
    Marked (callbacks cfg) m.sys := Marked.of_reach (hs.runs i m hm)

/-- The registry holds a connection under its own name, if under any. -/
theorem Sound.held (hs : Sound cfg s) {i : Nat} {m : Member} (hm : s.members[i]? = some m) :
    s.connections.any (·.1 = m.name) = decide ((m.name, i) ∈ s.connections) := by
  rw [Bool.eq_iff_iff, List.any_eq_true, decide_eq_true_eq]
  constructor
  · rintro ⟨⟨name, j⟩, hx, hname⟩
    have hname : name = m.name := by simpa using hname
    have hkey : name = connName cfg (j + 1) := (hs.keys _ hx).2
    rw [hs.names i m hm, hkey] at hname
    obtain rfl : j = i := by
      have := connName_injective hname
      omega
    rw [hs.names j m hm, ← hkey]
    exact hx
  · exact fun h => ⟨_, h, by simp⟩

/-- The connection goes on with its own affairs. -/
theorem passes_lives {t : Server} {i : Nat} {m m' : Member} (ht : life t i m = life s i m) (hest : m.establishes ≠ 0)
    (hloop : m'.ioLoop = m.ioLoop) (hname : m'.name = m.name) (he : m'.establishes = m.establishes)
    (hr : m'.removals = m.removals) (hd : m'.destroys = m.destroys) (hl : Lives m.sys m'.sys)
    (hm : Marked (callbacks cfg) m'.sys) : Passes (life s i m) (life t i m') := by
  have hlife : life t i m' =
      { life s i m with closed := m'.sys.closed, due := decide (.invoke .close ∈ m'.sys.stack) } := by
    rw [← ht]
    simp only [life, hloop, hname, he, hr, hd, hl.closes]
  rw [hlife]
  refine Or.inr (.goesOn (Nat.pos_of_ne_zero hest) hl.closed ?_ ?_ ?_)
  · exact fun h => decide_eq_true (hl.due (of_decide_eq_true h))
  · exact fun h => hm.due (of_decide_eq_true h)
  · exact fun h => (hl.closing h).imp_right fun h => decide_eq_true h

theorem ordinary_of_mayStep {m : Member} {a : Label} (h : mayStep s m a = true) (hc : closeIsNext m.sys a = false) :
    TcpConnection.Steps.ordinary m.sys a = true := by
  unfold TcpConnection.Steps.ordinary
  split
  · cases h
  · cases h
  · simpa [closeIsNext] using hc
  · rfl

/-- A step of a member's own machine that is none of the server's. -/
theorem Sound.lives (hs : Sound cfg s) {i : Nat} {m : Member} {a : Label} {sys : Sys} (hm : s.members[i]? = some m)
    (h : TcpConnection.Steps.step cfg.conn m.sys a = some sys) (ho : TcpConnection.Steps.ordinary m.sys a = true) :
    Lives m.sys sys ∧ Marked (callbacks cfg) sys :=
  ⟨(TcpConnection.Steps.step_move h).lives (hs.marked hm) ho, (TcpConnection.Steps.step_move h).marked (hs.marked hm)⟩

theorem life_establishes {loop i : Nat} {rest : List Functor} {m m' : Member} (hs : Sound cfg s)
    (hq : s.queues loop = .connectEstablished i :: rest) (hm : s.members[i]? = some m) (hloop : m'.ioLoop = m.ioLoop)
    (hname : m'.name = m.name) (he : m'.establishes = m.establishes + 1) (hr : m'.removals = m.removals)
    (hd : m'.destroys = m.destroys)
    (hsys : TcpConnection.Steps.step cfg.conn m.sys (.call .connectEstablished (.take 0)) = some m'.sys) :
    Life.Move (life s i m) (life (s.pop loop rest) i m') := by
  have hhome : m.ioLoop = loop := (hs.head hq hm).1
  have hmove := TcpConnection.Steps.step_move hsys
  have hclosed : m'.sys.closed = m.sys.closed ∧ m'.sys.closes = m.sys.closes ∧
      m'.sys.stack = .invoke .up :: m.sys.stack := by
    generalize m'.sys = sys' at hmove
    cases hmove with
    | establishes => exact ⟨by simp [TcpConnection.Steps.Sys.did], rfl, rfl⟩
  have hlife : life (s.pop loop rest) i m' =
      { life s i m with
        establishing := ((s.pop loop rest).queues m.ioLoop).count (.connectEstablished i)
        established := m.establishes + 1 } := by
    simp [life, hloop, hname, he, hr, hd, hclosed, count_pop hq, Server.pop]
  rw [hlife]
  refine .establishes ?_
  simp [life, count_pop hq (.connectEstablished i), hhome]

theorem life_destroys {loop i : Nat} {rest : List Functor} {m : Member} {sys : Sys} (hs : Sound cfg s)
    (hq : s.queues loop = .connectDestroyed i :: rest) (hm : s.members[i]? = some m)
    (hsys : TcpConnection.Steps.step cfg.conn m.sys (.call .connectDestroyed (.take 0)) = some sys) :
    Life.Move (life s i m) (life (s.pop loop rest) i { m with sys := sys, destroys := m.destroys + 1 }) := by
  have hhome : m.ioLoop = loop := (hs.head hq hm).1
  have hmarked := (TcpConnection.Steps.step_move hsys).marked (hs.marked hm)
  obtain ⟨hcloses, hclosed, hdue⟩ := TcpConnection.Steps.destroyed_after hsys
  have hlife : life (s.pop loop rest) i { m with sys := sys, destroys := m.destroys + 1 } =
      { life s i m with
        destroying := ((s.pop loop rest).queues m.ioLoop).count (.connectDestroyed i)
        destroys := m.destroys + 1
        closed := sys.closed
        due := decide (.invoke .close ∈ sys.stack) } := by
    simp only [life, hcloses, count_pop hq, reduceCtorEq, and_false, if_false, Nat.add_zero]
    rfl
  rw [hlife]
  refine .destroys ?_ hclosed ?_ ?_
  · simp [life, count_pop hq (.connectDestroyed i), hhome]
  · exact fun h => decide_eq_true (hdue (of_decide_eq_true h))
  · exact fun h => hmarked.due (of_decide_eq_true h)

theorem life_callsBack {i : Nat} {m : Member} {t sys : Sys} {rest : List Task} (hs : Sound cfg s)
    (hm : s.members[i]? = some m) (hstack : m.sys.stack = .invoke .close :: rest)
    (ht : TcpConnection.Steps.step cfg.conn m.sys .next = some t)
    (hsys : TcpConnection.Steps.step cfg.conn t .returns = some sys) :
    Life.Move (life s i m) (life (s.queueInLoop 0 (.removeConnectionInLoop i)) i { m with sys := sys }) := by
  obtain rfl := TcpConnection.Steps.close_returns (hs.marked hm) rfl hstack ht hsys
  have hlife : life (s.queueInLoop 0 (.removeConnectionInLoop i)) i
      { m with sys := { m.sys with stack := rest, closes := m.sys.closes + 1 } } =
      { life s i m with
        due := decide (.invoke .close ∈ rest), closes := m.sys.closes + 1, removing := (life s i m).removing + 1 } := by
    simp only [life, count_queueInLoop, reduceCtorEq, and_false, if_false, Nat.add_zero, and_self, if_true]
    rfl
  rw [hlife]
  exact .callsBack (by simp [life, hstack])

theorem life_removes {loop i : Nat} {rest : List Functor} {m : Member} (hs : Sound cfg s)
    (hq : s.queues loop = .removeConnectionInLoop i :: rest) (hm : s.members[i]? = some m)
    (hany : s.connections.any (·.1 = m.name) = true) :
    Life.Move (life s i m)
      (life ({ s.pop loop rest with connections := erase m.name s.connections }.queueInLoop m.ioLoop (.connectDestroyed i)) i
        { m with removals := m.removals + 1 }) := by
  have hhome : 0 = loop := (hs.head hq hm).1
  subst hhome
  rw [hs.held hm] at hany
  have hcount : ∀ g k, (({ s.pop 0 rest with connections := erase m.name s.connections }.queueInLoop m.ioLoop
      (.connectDestroyed i)).queues k).count g =
        ((s.pop 0 rest).queues k).count g + if k = m.ioLoop ∧ .connectDestroyed i = g then 1 else 0 :=
    fun g k => count_queueInLoop m.ioLoop (.connectDestroyed i) g k
  have hlife : life ({ s.pop 0 rest with connections := erase m.name s.connections }.queueInLoop m.ioLoop
      (.connectDestroyed i)) i { m with removals := m.removals + 1 } =
      { life s i m with
        removing := ((s.pop 0 rest).queues 0).count (.removeConnectionInLoop i)
        held := false
        removals := m.removals + 1
        destroying := (life s i m).destroying + 1 } := by
    simp only [life, hcount, count_pop hq]
    simp [Server.queueInLoop, erase]
  rw [hlife]
  refine .removes ?_ hany
  simp [life, count_pop hq (.removeConnectionInLoop i)]

theorem life_findsNothing {loop i : Nat} {rest : List Functor} {m : Member} (hs : Sound cfg s)
    (hq : s.queues loop = .removeConnectionInLoop i :: rest) (hm : s.members[i]? = some m)
    (hany : s.connections.any (·.1 = m.name) = false) : Life.Move (life s i m) (life (s.pop loop rest) i m) := by
  have hhome : 0 = loop := (hs.head hq hm).1
  subst hhome
  rw [hs.held hm] at hany
  have hlife : life (s.pop 0 rest) i m =
      { life s i m with removing := ((s.pop 0 rest).queues 0).count (.removeConnectionInLoop i) } := by
    simp only [life, count_pop hq, reduceCtorEq, and_false, if_false, Nat.add_zero]
    rfl
  rw [hlife]
  refine .findsNothing ?_ hany
  simp [life, count_pop hq (.removeConnectionInLoop i)]

/-- A removal takes no other connection out of the registry. -/
theorem life_erase {i j : Nat} {m x : Member} (hs : Sound cfg s) (hm : s.members[i]? = some m)
    (hx : s.members[j]? = some x) (hne : j ≠ i) {t : Server} :
    life { t with connections := erase m.name s.connections } j x = life { t with connections := s.connections } j x := by
  have hname : x.name ≠ m.name := by
    rw [hs.names i m hm, hs.names j x hx]
    intro h
    have := connName_injective h
    omega
  simp [life, erase, hname]

/-! ### A new connection -/

/-- Nothing is queued for a connection that is not there yet. -/
theorem Sound.unqueued (hs : Sound cfg s) {f : Functor} (h : s.members[f.conn]? = none) (k : Nat) :
    (s.queues k).count f = 0 := by
  refine List.count_eq_zero.mpr fun hf => ?_
  obtain ⟨m, hm, -⟩ := hs.homes k f hf
  rw [h] at hm
  cases hm

theorem emplace_new (hs : Sound cfg s) :
    emplace (connName cfg s.nextConnId) s.members.length s.connections =
      s.connections ++ [(connName cfg s.nextConnId, s.members.length)] := by
  unfold emplace
  rw [if_neg]
  intro h
  obtain ⟨x, hx, hname⟩ := List.any_eq_true.mp h
  have hname : x.1 = connName cfg s.nextConnId := by simpa using hname
  obtain ⟨hlt, hkey⟩ := hs.keys x hx
  rw [hkey, hs.ids] at hname
  have := connName_injective hname
  omega

theorem life_register {j : Nat} {m : Member} (hs : Sound cfg s) (hj : s.members[j]? = some m) :
    life (register cfg s) j m = life s j m := by
  have hlt : j < s.members.length := (List.getElem?_eq_some_iff.mp hj).1
  simp only [life, register, emplace_new hs, List.mem_append, List.mem_singleton, Prod.mk.injEq]
  simp [hlt.ne]

/-- The life of a new connection, with what has been queued for it. -/
theorem life_new {m : Member} (hs : Sound cfg s) (hname : m.name = connName cfg s.nextConnId) :
    life (register cfg s) s.members.length m =
      ⟨0, m.establishes, m.sys.closed, decide (.invoke .close ∈ m.sys.stack), m.sys.closes, 0, m.removals, true, 0,
        m.destroys⟩ := by
  have hnone : s.members[s.members.length]? = none := List.getElem?_eq_none le_rfl
  simp only [life, register, emplace_new hs, hname]
  rw [hs.unqueued (f := .connectEstablished _) hnone, hs.unqueued (f := .removeConnectionInLoop _) hnone,
    hs.unqueued (f := .connectDestroyed _) hnone]
  simp

theorem established_new {sys : Sys}
    (h : TcpConnection.Steps.step cfg.conn (newMember cfg (connName cfg s.nextConnId) 0).sys
      (.call .connectEstablished (.take 0)) = some sys) :
    sys.closed = false ∧ sys.closes = 0 ∧ .invoke .close ∉ sys.stack := by
  have hmove := TcpConnection.Steps.step_move h
  cases hmove with
  | establishes => exact ⟨rfl, rfl, by simp [TcpConnection.Steps.Sys.did, newMember, TcpConnection.Steps.make]⟩

theorem kept_acceptsHere {sys : Sys} (hs : Sound cfg s)
    (h : TcpConnection.Steps.step cfg.conn (newMember cfg (connName cfg s.nextConnId) 0).sys
      (.call .connectEstablished (.take 0)) = some sys) :
    (life (register cfg s) s.members.length
      { newMember cfg (connName cfg s.nextConnId) 0 with
        sys := sys, touch := .lastActive (toTick s.clock), establishes := 1 }).Kept := by
  obtain ⟨hclosed, hcloses, hdue⟩ := established_new h
  rw [life_new hs rfl]
  simp only [hclosed, hcloses, decide_eq_false hdue]
  exact ⟨rfl, fun h => (by cases h), fun h => (by cases h), fun h => (by cases h), fun h => (by cases h),
    fun h => (by cases h), fun h => (by cases h), rfl, rfl⟩

theorem kept_accepts (hs : Sound cfg s) :
    (life ((register cfg s).queueInLoop (getNextLoop cfg s.next).1 (.connectEstablished s.members.length))
      s.members.length (newMember cfg (connName cfg s.nextConnId) (getNextLoop cfg s.next).1)).Kept := by
  have hlife := life_new (m := newMember cfg (connName cfg s.nextConnId) (getNextLoop cfg s.next).1) hs rfl
  have hqueued : life ((register cfg s).queueInLoop (getNextLoop cfg s.next).1 (.connectEstablished s.members.length))
      s.members.length (newMember cfg (connName cfg s.nextConnId) (getNextLoop cfg s.next).1) =
      { life (register cfg s) s.members.length (newMember cfg (connName cfg s.nextConnId) (getNextLoop cfg s.next).1) with
        establishing := 0 + 1 } := by
    have h0 := congrArg Life.establishing hlife
    simp only [life] at h0
    simp only [life, count_queueInLoop, h0, reduceCtorEq, and_false, if_false, Nat.add_zero]
    rw [if_pos ⟨rfl, trivial⟩]
    rfl
  rw [hqueued, hlife]
  exact ⟨rfl, fun h => (by cases h), fun h => (by cases h), fun h => (by cases h), fun h => (by cases h),
    fun h => (by cases h), fun h => (by cases h), rfl, rfl⟩

theorem Move.passes (h : Move cfg s a s') (hs : Sound cfg s) {j : Nat} {m m' : Member} (hj : s.members[j]? = some m)
    (hj' : s'.members[j]? = some m') : Passes (life s j m) (life s' j m') := by
  have hsame : s'.members = s.members → m' = m := by
    intro h
    rw [h, hj] at hj'
    exact (Option.some.inj hj').symm
  cases h with
  | acceptsHere =>
    obtain rfl := put_register_old hj hj'
    exact Or.inl (life_register hs hj)
  | accepts hloop =>
    change (register cfg s).members[j]? = _ at hj'
    rw [register_old hj] at hj'
    cases hj'
    have hlt : s.members.length ≠ j := (List.getElem?_eq_some_iff.mp hj).1.ne'
    exact Or.inl ((life_queueInLoop (by simpa [Functor.ofLife] using hlt)).trans (life_register hs hj))
  | @callsBack i m₀ t sys rest hm hest hstack ht hsys =>
    rcases put_cases rfl hm hj hj' with ⟨rfl, rfl, rfl⟩ | ⟨hne, rfl⟩
    · exact Or.inr (life_callsBack hs hm hstack ht hsys)
    · exact Or.inl (life_queueInLoop (by simpa [Functor.ofLife] using hne.symm))
  | @lives i m₀ a sys hm hest hmay hclose hsys =>
    obtain ⟨hname, hloop, hsys', hest', hrem, hdes⟩ := heard_fields cfg s m₀ a sys
    obtain ⟨hl, hmarked⟩ := hs.lives hm hsys (ordinary_of_mayStep hmay hclose)
    rcases stepped_eq cfg i m₀ a sys s with h | h
    · rw [h] at hj' ⊢
      rcases put_cases rfl hm hj hj' with ⟨rfl, rfl, rfl⟩ | ⟨hne, rfl⟩
      · exact passes_lives rfl hest hloop hname hest' hrem hdes (by rw [hsys']; exact hl) (by rw [hsys']; exact hmarked)
      · exact Or.inl rfl
    · rw [h] at hj' ⊢
      rcases put_cases rfl hm hj hj' with ⟨rfl, rfl, rfl⟩ | ⟨hne, rfl⟩
      · exact passes_lives (life_queueInLoop (by simp [Functor.ofLife])) hest hloop hname hest' hrem hdes
          (by rw [hsys']; exact hl) (by rw [hsys']; exact hmarked)
      · exact Or.inl (life_queueInLoop (by simp [Functor.ofLife]))
  | storesActive hm =>
    rcases put_cases rfl hm hj hj' with ⟨rfl, rfl, rfl⟩ | ⟨hne, rfl⟩ <;> exact Or.inl rfl
  | storesProbe hm =>
    rcases put_cases rfl hm hj hj' with ⟨rfl, rfl, rfl⟩ | ⟨hne, rfl⟩ <;> exact Or.inl rfl
  | establishes hq hm hsys =>
    rcases put_cases rfl hm hj hj' with ⟨rfl, rfl, rfl⟩ | ⟨hne, rfl⟩
    · exact Or.inr (life_establishes hs hq hm rfl rfl rfl rfl rfl hsys)
    · exact Or.inl (life_pop hq (by simpa [Functor.ofLife] using hne.symm))
  | destroys hq hm hsys =>
    rcases put_cases rfl hm hj hj' with ⟨rfl, rfl, rfl⟩ | ⟨hne, rfl⟩
    · exact Or.inr (life_destroys hs hq hm hsys)
    · exact Or.inl (life_pop hq (by simpa [Functor.ofLife] using hne.symm))
  | @removes loop i rest r m₀ hq hm hany =>
    rcases put_cases (t := { s.pop loop rest with connections := erase m₀.name s.connections }) rfl hm hj hj' with
      ⟨rfl, rfl, rfl⟩ | ⟨hne, rfl⟩
    · exact Or.inr (life_removes hs hq hm hany)
    · have hf : ∀ f : Functor, f.ofLife = some i → f.ofLife ≠ some j := fun f hf => by simpa [hf] using hne.symm
      refine Or.inl ((life_queueInLoop (hf _ rfl)).trans ?_)
      exact (life_erase hs hm hj hne).trans (life_pop hq (hf _ rfl))
  | @findsNothing loop i rest r m₀ hq hm hany =>
    obtain rfl := hsame rfl
    by_cases hne : j = i
    · subst hne
      rw [hm] at hj
      cases hj
      exact Or.inr (life_findsNothing hs hq hm hany)
    · exact Or.inl (life_pop hq (by simpa [Functor.ofLife] using Ne.symm hne))
  | @runs loop i rest r m₀ sys hq hm hsys =>
    have hest := (hs.head hq hm).2.resolve_left (by simp)
    obtain ⟨hl, hmarked⟩ := hs.lives hm hsys rfl
    rcases put_cases rfl hm hj hj' with ⟨rfl, rfl, rfl⟩ | ⟨hne, rfl⟩
    · exact passes_lives (life_pop hq (by simp [Functor.ofLife])) hest rfl rfl rfl rfl rfl hl hmarked
    · exact Or.inl (life_pop hq (by simp [Functor.ofLife]))
  | @beats loop i rest r m₀ hq _ hm =>
    rcases put_cases rfl hm hj hj' with ⟨rfl, rfl, rfl⟩ | ⟨hne, rfl⟩
    · exact Or.inl (life_pop (m := m) hq (by simp [Functor.ofLife]))
    · exact Or.inl (life_pop hq (by simp [Functor.ofLife]))
  | @forceCloses loop i rest r m₀ sys hq hm hsys =>
    have hest := (hs.head hq hm).2.resolve_left (by simp)
    obtain ⟨hl, hmarked⟩ := hs.lives hm hsys rfl
    rcases put_cases rfl hm hj hj' with ⟨rfl, rfl, rfl⟩ | ⟨hne, rfl⟩
    · exact passes_lives (life_pop hq (by simp [Functor.ofLife])) hest rfl rfl rfl rfl rfl hl hmarked
    · exact Or.inl (life_pop hq (by simp [Functor.ofLife]))
  | idles hq =>
    obtain rfl := hsame rfl
    exact Or.inl (life_pop hq (by simp [Functor.ofLife]))
  | startsCheck =>
    obtain rfl := hsame rfl
    exact Or.inl rfl
  | looks =>
    obtain rfl := hsame rfl
    exact Or.inl rfl
  | queuesOne _ _ hpop =>
    obtain rfl := hsame rfl
    obtain ⟨-, -, -, hlife, -⟩ := pop_found hpop
    exact Or.inl (life_queueInLoop (by simp [hlife]))
  | endsCheck =>
    obtain rfl := hsame rfl
    exact Or.inl rfl
  | ticks =>
    obtain rfl := hsame rfl
    exact Or.inl rfl

/-- A connection that `newConnection` has made, and the server with it. -/
inductive New (cfg : Config) (s : Server) : Member → Server → Prop
  | established {sys : Sys} : (getNextLoop cfg s.next).1 = 0 →
      TcpConnection.Steps.step cfg.conn (newMember cfg (connName cfg s.nextConnId) 0).sys
        (.call .connectEstablished (.take 0)) = some sys →
      New cfg s
        { newMember cfg (connName cfg s.nextConnId) 0 with
          sys := sys, touch := .lastActive (toTick s.clock), establishes := 1 }
        ((register cfg s).put s.members.length
          { newMember cfg (connName cfg s.nextConnId) 0 with
            sys := sys, touch := .lastActive (toTick s.clock), establishes := 1 })
  | queued : New cfg s (newMember cfg (connName cfg s.nextConnId) (getNextLoop cfg s.next).1)
      ((register cfg s).queueInLoop (getNextLoop cfg s.next).1 (.connectEstablished s.members.length))

/-- Only `newConnection` makes a connection. -/
theorem Move.new (h : Move cfg s a s') {j : Nat} {m : Member} (hj : s.members[j]? = none)
    (hj' : s'.members[j]? = some m) : j = s.members.length ∧ New cfg s m s' := by
  have hput : ∀ {t : Server} {i : Nat} {m₀ m₁ : Member}, t.members = s.members → s.members[i]? = some m₀ →
      (t.put i m₁).members[j]? = some m → False := by
    intro t i m₀ m₁ ht hi h
    rw [put_member (ht ▸ hi), ht, hj] at h
    split at h
    · rename_i hji
      rw [hji, hi] at hj
      cases hj
    · cases h
  have hsame : s'.members = s.members → False := by
    intro h
    rw [h, hj] at hj'
    cases hj'
  cases h with
  | acceptsHere hloop hsys =>
    rw [put_member (m := newMember cfg (connName cfg s.nextConnId) 0) (by rw [register_member, if_pos rfl, hloop]),
      register_member] at hj'
    split at hj'
    · rename_i hji
      cases hj'
      exact ⟨hji, .established hloop hsys⟩
    · rw [hj] at hj'
      cases hj'
  | accepts =>
    change (register cfg s).members[j]? = _ at hj'
    rw [register_member] at hj'
    split at hj'
    · rename_i hji
      cases hj'
      exact ⟨hji, .queued⟩
    · rw [hj] at hj'
      cases hj'
  | callsBack hm => exact (hput rfl hm hj').elim
  | @lives i m₀ a sys hm =>
    rcases stepped_eq cfg i m₀ a sys s with h | h
    · rw [h] at hj'
      exact (hput rfl hm hj').elim
    · rw [h] at hj'
      exact (hput rfl hm hj').elim
  | storesActive hm => exact (hput rfl hm hj').elim
  | storesProbe hm => exact (hput rfl hm hj').elim
  | establishes _ hm => exact (hput rfl hm hj').elim
  | destroys _ hm => exact (hput rfl hm hj').elim
  | @removes loop i rest r m₀ _ hm =>
    exact (hput (t := { s.pop loop rest with connections := erase m₀.name s.connections }) rfl hm hj').elim
  | runs _ hm => exact (hput rfl hm hj').elim
  | beats _ _ hm => exact (hput rfl hm hj').elim
  | forceCloses _ hm => exact (hput rfl hm hj').elim
  | findsNothing => exact (hsame rfl).elim
  | idles => exact (hsame rfl).elim
  | startsCheck => exact (hsame rfl).elim
  | looks => exact (hsame rfl).elim
  | queuesOne => exact (hsame rfl).elim
  | endsCheck => exact (hsame rfl).elim
  | ticks => exact (hsame rfl).elim

theorem New.kept {m : Member} (h : New cfg s m s') (hs : Sound cfg s) : (life s' s.members.length m).Kept := by
  cases h with
  | established _ hsys => exact kept_acceptsHere hs hsys
  | queued => exact kept_accepts hs

/-! ## Over whole runs -/

/-- The connection is in order: what has been done for it, in which order, and what is still to come. -/
structure InOrder (s : Server) (i : Nat) (m : Member) : Prop where
  established : m.establishes ≤ 1
  /-- `connectEstablished` is still queued, and will not throw -/
  establishing : m.establishes = 0 → .connectEstablished i ∈ s.queues m.ioLoop ∧ m.sys.conn.state = .connecting
  removed : m.removals ≤ 1
  destroyed : m.destroys ≤ 1
  removed_after : 0 < m.removals → m.establishes = 1 ∧ 0 < m.sys.closes
  destroyed_after : 0 < m.destroys → m.establishes = 1 ∧ 0 < m.sys.closes ∧ m.removals = 1
  held : (m.name, i) ∈ s.connections → m.removals = 0 ∧ m.destroys = 0
  /-- a closed connection that has not been destroyed will be -/
  owed : m.sys.closed = true → m.destroys = 1 ∨ .connectDestroyed i ∈ s.queues m.ioLoop ∨
    .removeConnectionInLoop i ∈ s.queues 0 ∨ .invoke .close ∈ m.sys.stack
  /-- no functor is pending: the registry holds it unless its close callback has been called -/
  settled : (∀ loop, s.queues loop = []) → m.establishes = 1 ∧
    (0 < m.sys.closes → m.removals = 1 ∧ m.destroys = 1) ∧ ((m.name, i) ∈ s.connections ↔ m.sys.closes = 0)
  /-- nor a handler of it on the stack: the registry holds it unless it has been closed -/
  quiet : (∀ loop, s.queues loop = []) → m.sys.stack = [] → ((m.name, i) ∈ s.connections ↔ m.sys.closed = false)

theorem Life.Kept.inOrder {i : Nat} {m : Member} (hk : (life s i m).Kept) (hs : Sound cfg s) (hm : s.members[i]? = some m) :
    InOrder s i m := by
  have honce : (s.queues m.ioLoop).count (.connectEstablished i) + m.establishes = 1 := hk.once
  have halive : m.sys.closed = true → 0 < m.establishes := hk.alive
  have hcalled : m.sys.closed = true → .invoke .close ∈ m.sys.stack ∨ 0 < m.sys.closes := fun h =>
    (hk.called h).imp_left of_decide_eq_true
  have hcloses : 0 < m.sys.closes → m.sys.closed = true := hk.closes
  have hasked : 0 < (s.queues 0).count (.removeConnectionInLoop i) + m.removals → 0 < m.sys.closes := hk.asked
  have hheard : 0 < m.sys.closes → 0 < (s.queues 0).count (.removeConnectionInLoop i) + m.removals := hk.heard
  have hheld : m.removals + (decide ((m.name, i) ∈ s.connections)).toNat = 1 := hk.held
  have hdes : (s.queues m.ioLoop).count (.connectDestroyed i) + m.destroys = m.removals := hk.destroyed
  have hbool := Bool.toNat_le (decide ((m.name, i) ∈ s.connections))
  have hin : (m.name, i) ∈ s.connections ↔ m.removals = 0 := by
    by_cases h : (m.name, i) ∈ s.connections
    · simp only [h, decide_true, Bool.toNat_true] at hheld
      simp only [h, true_iff]
      omega
    · simp only [h, decide_false, Bool.toNat_false] at hheld
      simp only [h, false_iff]
      omega
  have hafter : 0 < m.removals → m.establishes = 1 ∧ 0 < m.sys.closes := by
    intro h
    have hc := hasked (by omega)
    have := halive (hcloses hc)
    exact ⟨by omega, hc⟩
  have hsettled : (∀ loop, s.queues loop = []) → (0 < m.sys.closes ↔ m.removals = 1) := by
    intro hq
    simp only [hq, List.count_nil, Nat.zero_add] at hasked hheard
    exact ⟨fun h => by have := hheard h; omega, fun h => hasked (by omega)⟩
  refine ⟨by omega, ?_, by omega, by omega, hafter, ?_, ?_, ?_, ?_, ?_⟩
  · intro h0
    exact ⟨List.count_pos_iff.mp (by omega), hs.connecting hm h0⟩
  · intro h
    obtain ⟨he, hc⟩ := hafter (by omega)
    exact ⟨he, hc, by omega⟩
  · intro h
    have := hin.mp h
    omega
  · intro hc
    rcases hcalled hc with h | h
    · exact Or.inr (Or.inr (Or.inr h))
    · by_cases hr : m.removals = 0
      · exact Or.inr (Or.inr (Or.inl (List.count_pos_iff.mp (by have := hheard h; omega))))
      · by_cases hd : m.destroys = 0
        · exact Or.inr (Or.inl (List.count_pos_iff.mp (by omega)))
        · exact Or.inl (by omega)
  · intro hq
    have hiff := hsettled hq
    simp only [hq, List.count_nil, Nat.zero_add] at honce hdes
    refine ⟨honce, fun h => ⟨hiff.mp h, by have := hiff.mp h; omega⟩, ?_⟩
    rw [hin]
    omega
  · intro hq hstack
    have hiff := hsettled hq
    rw [hin]
    constructor
    · intro hr
      by_contra hc
      rcases hcalled (by simpa using hc) with h | h
      · rw [hstack] at h
        cases h
      · have := hiff.mp h
        omega
    · intro hc
      by_contra hr
      rw [hcloses (hiff.mpr (by omega))] at hc
      cases hc

/-- What the registry keeps: the connections are in order, and the lives of all are kept. -/
theorem Sound.of_reach {ok : Server → Act → Prop} (hr : (server cfg).Reach ok s) :
    Sound cfg s ∧ ∀ i m, s.members[i]? = some m → (life s i m).Kept := by
  refine hr.inv (I := fun s => Sound cfg s ∧ ∀ i m, s.members[i]? = some m → (life s i m).Kept)
    ⟨make_sound cfg, fun i m h => (by simp [server, make] at h)⟩ ?_
  rintro s a s' ⟨hs, hk⟩ - hstep
  have hm := step_move hstep
  refine ⟨hm.sound hs, fun j m' hj' => ?_⟩
  cases hj : s.members[j]? with
  | none =>
    obtain ⟨rfl, hnew⟩ := hm.new hj hj'
    exact hnew.kept hs
  | some m => exact (hm.passes hs hj hj').kept (hk j m hj)

/-- In every run, whatever the connections and their callbacks do: no two connections ever have the same name,
    each one is in order, and the registry holds no other. -/
theorem registry_in_order {ok : Server → Act → Prop} (hr : (server cfg).Reach ok s) :
    (∀ (i j : Nat) (m m' : Member), s.members[i]? = some m → s.members[j]? = some m' → m.name = m'.name → i = j) ∧
      (∀ i m, s.members[i]? = some m → InOrder s i m) ∧
      ∀ x ∈ s.connections, ∃ m, s.members[x.2]? = some m ∧ m.name = x.1 := by
  obtain ⟨hs, hk⟩ := Sound.of_reach hr
  refine ⟨?_, fun i m hm => (hk i m hm).inOrder hs hm, ?_⟩
  · intro i j m m' hi hj hname
    rw [hs.names i m hi, hs.names j m' hj] at hname
    have := connName_injective hname
    omega
  · intro x hx
    obtain ⟨hlt, hkey⟩ := hs.keys x hx
    refine ⟨s.members[x.2], List.getElem?_eq_getElem hlt, ?_⟩
    rw [hkey]
    exact hs.names _ _ (List.getElem?_eq_getElem hlt)

/-- One io loop, an idle timeout of 10 ms and a heartbeat every 5 ms. -/
def echo : Config where
  name := "echo"
  threadCount := 1
  conn := ⟨Buffer.roomy, none, true, false⟩
  input := ⟨List.replicate 1032 0, 8, 8⟩
  connectionCallback := true
  writeCompleteCallback := false
  highWaterMarkCallback := false
  heartbeatCallback := true
  idleCallback := false
  maxOutputBufferBytes := 64 * 1024 * 1024
  outputOverflowPolicy := .closeConnection
  autoReadFlowControlEnabled := false
  readPauseHighWaterMark := 0
  readResumeLowWaterMark := 0
  idleTimeout := 10
  heartbeatInterval := 5

/-- A connection is closed in its own connection-up callback; another is accepted before it is destroyed. -/
theorem registry_in_order_closed_at_once :
    ∃ s m, (server echo).Reach (fun _ _ => True) s ∧ s.members[0]? = some m ∧ m.destroys = 1 ∧
      s.connections.map (·.2) = [1] ∧ InOrder s 0 m := by
  obtain ⟨s, hr, hp⟩ := Lib.Machine.Reach.of_run (server echo) (fun _ _ => True)
    (fun s => decide ((s.members[0]?).map Member.destroys = some 1 ∧ s.connections.map (·.2) = [1]))
    [.accept, .functor 1 (.take 0), .touch 0, .touch 0, .connection 0 .next,
      .connection 0 (.call (.api .forceClose) (.take 0)), .connection 0 .next, .connection 0 .returns, .connection 0 .next,
      .connection 0 .returns, .accept, .functor 0 (.take 0), .functor 1 (.take 0), .touch 1, .touch 1, .connection 1 .next,
      .connection 1 .returns, .functor 1 (.take 0)] (by decide +kernel)
  obtain ⟨hd, hmap⟩ := of_decide_eq_true hp
  obtain ⟨m, hm, hd⟩ := Option.map_eq_some_iff.mp hd
  exact ⟨s, m, hr, hm, hd, hmap, (registry_in_order hr).2.1 0 m hm⟩

end Dbase.Net.TcpServer
