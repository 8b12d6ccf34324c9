/-
  Dbase.Net.TcpConnectionInterest — what a connection listens to over whole runs: its channel after the
  close, the socket after the half-close, and reading under two controllers.

  Each of the three holds in runs that avoid what breaks it (`hearsNothing`, `sendsInTime`, `keepsApart`),
  and for each a run shows that it does break: `startRead` and the end of `sendInLoop` do not look at the
  state, `send` refuses `Disconnected` only, and reading is one bit for the user and for flow control.
-/

import Dbase.Net.TcpConnectionRuns

namespace Dbase.Net.TcpConnection.Steps

open Dbase.Net.Buffer (SysRead SysWrite Buf IoStatus IoResult taken socketWrite errnoOf isWouldBlockError)
open Dbase.Net.LengthFieldCodec (Codec)

variable {cfg : Config} {callbacks : Callbacks} {s s' : Sys} {a : Label}

/-! ## The channel of a closed connection -/

/-- No interest, and not in the poller. -/
def idle : Channel := ⟨false, false, false⟩

theorem remove_idle (ch : Channel) : ch.disableAll.remove = idle := rfl

/-- What a member does to the channel of a connection that is closed, or that it closes. -/
structure Deafens (c : Conn) (t : Todo) : Prop where
  closing : c.state ≠ .disconnected → t.1.state = .disconnected → t.1.channel = idle ∨ .remove ∈ t.2
  closed : c.state = .disconnected → c.channel = idle → t.1.channel = idle
  turns : t.2.head? = some .writeTurn → t.1.channel.writing = true

theorem Deafens.same {c c' : Conn} {new : List Task} (hst : c'.state = c.state) (hch : c'.channel = c.channel)
    (hnew : new.head? ≠ some .writeTurn) : Deafens c (c', new) where
  closing h h' := absurd (hst.symm.trans h') h
  closed _ h := hch.trans h
  turns h := absurd h hnew

theorem handleClose_deafens {c c' : Conn} (hst : c'.state = c.state) (hch : c'.channel = c.channel) :
    Deafens c (handleClose c') := by
  unfold handleClose
  split
  · exact .same hst hch (by simp)
  · exact ⟨fun _ _ => Or.inl rfl, fun _ _ => rfl, by simp⟩

theorem handleErrorAndClose_deafens {c c' : Conn} (err : Int) (hst : c'.state = c.state) (hch : c'.channel = c.channel) :
    Deafens c (handleErrorAndClose err c') := .same hst hch (by simp)

theorem handleOutputBufferAppend_deafens {c c' : Conn} (data : List UInt8) (direct : Bool) (hst : c'.state = c.state)
    (hch : c'.channel = c.channel) : Deafens c (handleOutputBufferAppend data direct c') := by
  unfold handleOutputBufferAppend handleOutputOverflow
  simp only
  split
  · split <;> exact .same hst hch (by simp)
  · split <;> exact .same hst hch (by simp)

theorem sendInLoop_deafens (data : List UInt8) (r : SysWrite) (c : Conn) : Deafens c (sendInLoop data r c) := by
  unfold sendInLoop
  split
  · exact .same rfl rfl (by simp)
  · split
    · simp only
      split
      · split
        · exact handleOutputBufferAppend_deafens _ _ rfl rfl
        · exact .same rfl rfl (by simp)
      · split
        · exact handleOutputBufferAppend_deafens _ _ rfl rfl
        · exact handleErrorAndClose_deafens _ rfl rfl
    · exact handleOutputBufferAppend_deafens _ _ rfl rfl

theorem forceClose_deafens (c : Conn) : Deafens c (forceClose c) := by
  unfold forceClose
  split
  · exact .same rfl rfl (by simp)
  · exact handleClose_deafens rfl rfl

theorem shutdownInLoop_channel (c : Conn) : (shutdownInLoop c).channel = c.channel := by
  unfold shutdownInLoop
  split
  · rfl
  · split <;> rfl

theorem shutdown_deafens (c : Conn) : Deafens c (shutdown c, []) := by
  unfold shutdown
  split
  · exact .same rfl rfl (by simp)
  · rename_i h
    refine ⟨fun _ hd => ?_, fun hd => ?_, by simp⟩
    · rw [(shutdownInLoop_steady _).1] at hd
      cases hd
    · rw [not_not.mp h] at hd
      cases hd

theorem startRead_deafens {c : Conn} (h : c.state ≠ .disconnected) : Deafens c (startRead c, []) where
  closing _ hd := absurd ((startRead_steady c).1.symm.trans hd) h
  closed hd := absurd hd h
  turns := by simp

theorem stopRead_deafens (c : Conn) : Deafens c (stopRead c, []) where
  closing h hd := absurd ((stopRead_steady c).1.symm.trans hd) h
  closed _ hch := by
    unfold stopRead
    rw [hch]
    exact hch
  turns := by simp

/-- No `startRead` is made on a `Disconnected` connection, and none is `Disconnected` where `sendInLoop`
    subscribes to write events. -/
def hearsNothing (s : Sys) : Label → Bool
  | .call (.api .startRead) _ => decide (s.conn.state ≠ .disconnected)
  | .functor _ =>
    match s.queue with
    | .startRead :: _ => decide (s.conn.state ≠ .disconnected)
    | _ => true
  | .next =>
    match s.stack with
    | .subscribe _ :: _ => decide (s.conn.state ≠ .disconnected)
    | _ => true
  | _ => true

theorem api_deafens {c : Conn} {a : Api} (r : SysWrite) (h : a = .startRead → c.state ≠ .disconnected) :
    Deafens c (api a r c) := by
  cases a with
  | send data =>
    simp only [api, send]
    split
    · exact .same rfl rfl (by simp)
    · exact sendInLoop_deafens data r c
  | shutdown => exact shutdown_deafens c
  | forceClose => exact forceClose_deafens c
  | startRead => exact startRead_deafens (h rfl)
  | stopRead => exact stopRead_deafens c
  | enableAutoReadFlowControl hi lo =>
    refine .same (enableAutoReadFlowControl_steady hi lo c).1 ?_ (by simp)
    unfold enableAutoReadFlowControl
    split <;> rfl
  | disableAutoReadFlowControl => exact .same rfl rfl (by simp)
  | setMaxOutputBufferBytes bytes => exact .same rfl rfl (by simp)
  | setOutputOverflowPolicy policy => exact .same rfl rfl (by simp)

theorem runFunctor_deafens {c : Conn} {f : Functor} (r : SysWrite) (h : f = .startRead → c.state ≠ .disconnected) :
    Deafens c (runFunctor f r c) := by
  cases f with
  | sendInLoop data => exact sendInLoop_deafens data r c
  | shutdownInLoop => exact .same (shutdownInLoop_steady c).1 (shutdownInLoop_channel c) (by simp)
  | forceCloseInLoop => exact forceClose_deafens c
  | startRead => exact startRead_deafens (h rfl)
  | stopRead => exact stopRead_deafens c

theorem maybeResume_writing (c : Conn) : (maybeResumeReadForFlowControl c).channel.writing = c.channel.writing := by
  unfold maybeResumeReadForFlowControl
  repeat' split
  all_goals rfl

theorem ne_idle_of_writing {ch : Channel} (h : ch.writing = true) : ch ≠ idle := by
  rintro rfl
  cases h

theorem writeTurn_deafens (r : SysWrite) {c : Conn} (hw : c.channel.writing = true) : Deafens c (writeTurn r c) := by
  unfold writeTurn
  simp only
  split
  · exact handleErrorAndClose_deafens _ rfl rfl
  · split
    · refine ⟨fun h hd => absurd ?_ h, fun _ h => absurd h (ne_idle_of_writing hw), fun _ => ?_⟩
      · rw [(maybeResume_steady _).1] at hd
        exact hd
      · rw [maybeResume_writing]
        exact hw
    · exact .same rfl rfl (by simp)
    · exact handleClose_deafens rfl rfl
    · exact .same rfl rfl (by simp)

theorem drained_deafens {c : Conn} (hw : c.channel.writing = true) : Deafens c (drained c) where
  closing h hd := absurd ((maybeResume_steady { c with channel := c.channel.disableWriting }).1.symm.trans hd) h
  closed _ h := absurd h (ne_idle_of_writing hw)
  turns h := by cases h

theorem subscribe_deafens (direct : Bool) {c : Conn} (h : c.state ≠ .disconnected) : Deafens c (subscribe direct c, []) where
  closing _ hd := by
    have hst : (subscribe direct c).state = c.state := by
      unfold subscribe
      rw [(maybePause_steady _).1]
      split <;> rfl
    exact absurd (hst.symm.trans hd) h
  closed hd := absurd hd h
  turns h := by cases h

theorem connectDestroyed_deafens (c : Conn) : Deafens c (connectDestroyed c) := by
  unfold connectDestroyed
  split
  · rename_i h
    exact ⟨fun _ _ => Or.inr (by simp), fun hd => absurd hd h, by simp⟩
  · exact .same rfl rfl (by simp)

/-! ### Every step -/

theorem Ends.stacked {c : Conn} {t : Todo} (h : Ends c t) : Stacked t.2 := by
  cases h with
  | goesOn _ _ _ hnew => exact hnew
  | shutsDown => exact fun t ht => absurd ht List.not_mem_nil
  | closes => exact fun t ht => by rw [List.mem_singleton.mp ht]; rfl
  | destroys => exact fun t ht => by rw [List.mem_singleton.mp ht]; rfl
  | removes => exact fun t ht => absurd ht List.not_mem_nil

/-- A closed connection has an idle channel, or is about to be removed; and the loop of `handleWrite` runs
    only with write interest. -/
structure Deaf (s : Sys) : Prop where
  stacked : Stacked s.stack
  closed : s.conn.state = .disconnected → s.conn.channel = idle ∨ .remove ∈ s.stack
  writing : s.stack.head? = some .writeTurn → s.conn.channel.writing = true

/-- A member runs over `rest`, which keeps the removal if it was due. -/
theorem Deaf.did {s₀ : Sys} (hd : Deaf s) {t : Todo} {rest : List Task}
    (hrest : ∀ t ∈ rest, under t = true) (hremove : .remove ∈ s.stack → .remove ∈ rest) (hnew : Stacked t.2)
    (ht : Deafens s.conn t) : Deaf (s₀.did t rest) where
  stacked := stacked_append hnew hrest
  closed hst := by
    by_cases h : s.conn.state = .disconnected
    · rcases hd.closed h with h' | h'
      · exact Or.inl (ht.closed h h')
      · exact Or.inr (List.mem_append_right _ (hremove h'))
    · exact (ht.closing h hst).imp_right (List.mem_append_left _)
  writing hw := by
    obtain ⟨c', new⟩ := t
    cases new with
    | nil =>
      have := hrest .writeTurn (List.mem_of_mem_head? hw)
      cases this
    | cons x xs => exact ht.turns hw

theorem Deaf.task {s₀ : Sys} (hd : Deaf s) {task : Task} {rest : List Task}
    (hs : s.stack = task :: rest) (hne : task ≠ .remove) {t : Todo} (he : Ends s.conn t) (ht : Deafens s.conn t) :
    Deaf (s₀.did t rest) := by
  refine hd.did (hd.stacked.rest hs) (fun h => ?_) he.stacked ht
  rw [hs] at h
  exact (List.mem_cons.mp h).resolve_left (Ne.symm hne)

theorem Deaf.top (hd : Deaf s) {rest : List Task} (hs : s.stack = .writeTurn :: rest) : s.conn.channel.writing = true :=
  hd.writing (by rw [hs]; rfl)

theorem Move.deaf (h : Move cfg s a s') (hok : hearsNothing s a = true) (hd : Deaf s) : Deaf s' := by
  cases h with
  | @begins cb rest hs =>
    refine ⟨hd.stacked.rest hs, fun hst => (hd.closed hst).imp_right fun hr => ?_, fun h => by cases h⟩
    rw [hs] at hr
    exact List.mem_cons_of_mem _ ((List.mem_cons.mp hr).resolve_left (by simp))
  | skips hs => exact hd.task hs (by simp) (.none rfl rfl) (.same rfl rfl (by simp))
  | keeps hs => exact hd.task hs (by simp) (.none rfl rfl) (.same rfl rfl (by simp))
  | closes hs ht =>
    refine hd.task hs ?_ (handleClose_ends rfl rfl) (handleClose_deafens rfl rfl)
    rcases ht with rfl | ⟨err, rfl⟩ <;> simp
  | handleWrite hs =>
    refine hd.task hs (by simp) ?_ ⟨fun h h' => absurd h' h, fun _ h => h, fun h => ?_⟩
    · split
      · exact .tasks rfl rfl rfl
      · exact .none rfl rfl
    · by_contra hw
      simp [hw] at h
  | decodes hs _ hnew =>
    refine hd.task hs (by simp) (codecTurn_ends hnew _) (.same rfl rfl ?_)
    unfold codecTurn at hnew
    split at hnew
    · cases hnew
    · split at hnew <;> cases hnew <;> simp
  | drained hs => exact hd.task hs (by simp) (drained_ends _) (drained_deafens (hd.top hs))
  | @subscribes direct rest hs =>
    have hst : s.conn.state ≠ .disconnected := by simpa [hearsNothing, hs] using hok
    exact hd.task hs (by simp) (subscribe_ends _ _) (subscribe_deafens direct hst)
  | afterWriteComplete hs =>
    refine hd.task hs (by simp) ?_ ?_
    · split
      · exact .none (shutdownInLoop_steady _).1 (shutdownInLoop_steady _).2
      · exact .none rfl rfl
    · split
      · exact .same (shutdownInLoop_steady _).1 (shutdownInLoop_channel _) (by simp)
      · exact .same rfl rfl (by simp)
  | removes hs =>
    refine ⟨fun t ht => hd.stacked.rest hs t (List.mem_of_mem_tail ht), fun _ => Or.inl (remove_idle _), fun h => ?_⟩
    have := hd.stacked.rest hs .writeTurn (List.mem_of_mem_head? h)
    cases this
  | received hs =>
    refine hd.task hs (by simp) (received_ends _ _) (.same rfl rfl ?_)
    unfold Steps.received
    split
    · simp
    · split <;> simp
  | readRests hs => exact hd.task hs (by simp) (.none rfl rfl) (.same rfl rfl (by simp))
  | readEnds hs => exact hd.task hs (by simp) (handleClose_ends rfl rfl) (handleClose_deafens rfl rfl)
  | readFails hs => exact hd.task hs (by simp) (handleErrorAndClose_ends _ rfl rfl) (handleErrorAndClose_deafens _ rfl rfl)
  | writes hs => exact hd.task hs (by simp) (writeTurn_ends _ _) (writeTurn_deafens _ (hd.top hs))
  | socketError hs =>
    refine hd.task hs (by simp) (handleError_ends _ _) ?_
    unfold handleError
    split
    · exact .same rfl rfl (by simp)
    · exact handleErrorAndClose_deafens _ rfl rfl
  | @api a r hu =>
    refine hd.did (hd.stacked.userCode hu) id (api_ends a r s.conn).stacked (api_deafens r ?_)
    rintro rfl
    simpa [hearsNothing] using hok
  | input => exact ⟨hd.stacked, hd.closed, hd.writing⟩
  | establishes hu hst =>
    refine hd.did (hd.stacked.userCode hu) id (fun t ht => absurd ht List.not_mem_nil)
      ⟨fun _ h => (by cases h), fun h => ?_, fun h => by cases h⟩
    rw [hst] at h
    cases h
  | destroys hu => exact hd.did (hd.stacked.userCode hu) id (connectDestroyed_ends _).stacked (connectDestroyed_deafens _)
  | returns hs =>
    refine ⟨fun t ht => hd.stacked.rest hs t (List.mem_of_mem_tail ht), fun hst => ?_, fun h => ?_⟩
    · refine (hd.closed hst).imp_right fun hr => ?_
      rw [hs] at hr
      exact (List.mem_cons.mp hr).resolve_left (by simp)
    · have := hd.stacked.rest hs .writeTurn (List.mem_of_mem_head? h)
      cases this
  | @event revents hs =>
    obtain ⟨hunder, -⟩ := dispatch_tasks revents
    refine ⟨fun t ht => hunder t (List.mem_of_mem_tail ht), fun hst => ?_, fun h => ?_⟩
    · refine (hd.closed hst).imp_right fun hr => ?_
      rw [hs] at hr
      cases hr
    · have := hunder .writeTurn (List.mem_of_mem_head? h)
      cases this
  | @functor f rest r hs hq =>
    refine hd.did (fun _ ht => absurd ht List.not_mem_nil) (fun h => by rw [hs] at h; exact h)
      (runFunctor_ends f r s.conn).stacked (runFunctor_deafens r ?_)
    rintro rfl
    simpa [hearsNothing, hq] using hok
  | call => exact ⟨hd.stacked, hd.closed, hd.writing⟩
  | sees => exact ⟨hd.stacked, hd.closed, hd.writing⟩
  | stores => exact ⟨hd.stacked, fun h => (by cases h), hd.writing⟩
  | queues => exact ⟨hd.stacked, hd.closed, hd.writing⟩

theorem make_deaf (callbacks : Callbacks) (input : Buf) : Deaf (make callbacks input) where
  stacked _ ht := absurd ht List.not_mem_nil
  closed h := by cases h
  writing h := by cases h

/-- If no `startRead` is made on a `Disconnected` connection and `sendInLoop` never subscribes for one, a
    `Disconnected` connection with no handler on the stack has no interest and is not in the poller. -/
theorem deaf_when_disconnected {input : Buf}
    (hr : (connection cfg callbacks input).Reach (fun s a => hearsNothing s a = true) s)
    (hst : s.conn.state = .disconnected) (hstack : s.stack = []) :
    s.conn.channel.reading = false ∧ s.conn.channel.writing = false ∧ s.conn.channel.registered = false := by
  have hd : Deaf s := hr.inv (I := Deaf) (make_deaf callbacks input) fun _ _ _ hd hok hstep => (step_move hstep).deaf hok hd
  rcases hd.closed hst with h | h
  · rw [h]
    exact ⟨rfl, rfl, rfl⟩
  · rw [hstack] at h
    cases h

/-- The write-complete callback of a send closes the connection. -/
theorem deaf_when_disconnected_closed :
    ∃ s, (connection plain allSet freshInput).Reach (fun s a => hearsNothing s a = true) s ∧ s.conn.state = .disconnected ∧
      s.conn.channel.reading = false ∧ s.conn.channel.writing = false ∧ s.conn.channel.registered = false := by
  obtain ⟨s, hr, hp⟩ := Lib.Machine.Reach.of_run (connection plain allSet freshInput)
    (fun s a => hearsNothing s a = true) (fun s => decide (s.conn.state = .disconnected ∧ s.stack = []))
    [.call .connectEstablished (.take 0), .next, .returns, .call (.api (.send [1])) (.take 1), .next,
      .call (.api .forceClose) (.take 0), .next, .returns, .next, .returns, .returns] (by decide +kernel)
  obtain ⟨hst, hstack⟩ := of_decide_eq_true hp
  exact ⟨s, hr, hst, deaf_when_disconnected hr hst hstack⟩

/-- A `startRead` puts a closed connection back into the poller, and so does a send whose high-water-mark
    callback closes the connection. -/
theorem a_closed_connection_listens :
    (∃ s, (connection plain allSet freshInput).Reach (fun _ _ => True) s ∧ s.conn.state = .disconnected ∧ s.stack = [] ∧
        s.conn.channel.reading = true ∧ s.conn.channel.registered = true) ∧
      ∃ s, (connection plain allSet freshInput).Reach (fun _ _ => True) s ∧ s.conn.state = .disconnected ∧ s.stack = [] ∧
        s.conn.channel.writing = true ∧ s.conn.channel.registered = true := by
  obtain ⟨s, hr, hp⟩ := Lib.Machine.Reach.of_run (connection plain allSet freshInput) (fun _ _ => True)
    (fun s => decide (s.conn.state = .disconnected ∧ s.stack = [] ∧ s.conn.channel.reading = true ∧
      s.conn.channel.registered = true))
    [.call .connectEstablished (.take 0), .next, .returns, .call (.api .forceClose) (.take 0), .next, .returns, .next,
      .returns, .call (.api .startRead) (.take 0)] (by decide +kernel)
  obtain ⟨t, hr', hp'⟩ := Lib.Machine.Reach.of_run (connection plain allSet freshInput) (fun _ _ => True)
    (fun s => decide (s.conn.state = .disconnected ∧ s.stack = [] ∧ s.conn.channel.writing = true ∧
      s.conn.channel.registered = true))
    [.call .connectEstablished (.take 0), .next, .returns, .call (.api (.setMaxOutputBufferBytes 1)) (.take 0),
      .call (.api (.send [1])) (.fail 11), .next, .call (.api .forceClose) (.take 0), .next, .returns, .next, .returns, .returns,
      .next] (by decide +kernel)
  exact ⟨⟨s, hr, of_decide_eq_true hp⟩, t, hr', of_decide_eq_true hp'⟩

/-! ## The socket after the half-close -/

/-- `shutdownWrite` has been called. -/
def halfClosed (c : Conn) : Bool := decide (.shutdownWrite ∈ c.log)

/-- A half-closed connection has nothing to write. -/
def Spoken (c : Conn) : Prop := halfClosed c = true → c.outputBuffer = []

/-- What a member does for a half-closed connection: nothing is written, and nothing is left to write. -/
structure Mute (c c' : Conn) : Prop where
  spoken : Spoken c → Spoken c'
  writes : Spoken c → halfClosed c = true → c'.writes = c.writes

theorem Mute.same {c c' : Conn} (hlog : c'.log = c.log) (hout : c'.outputBuffer = c.outputBuffer)
    (hw : c'.writes = c.writes) : Mute c c' where
  spoken h hc := by
    rw [halfClosed, hlog] at hc
    rw [hout]
    exact h hc
  writes _ _ := hw

theorem Mute.before {c c' : Conn} (hlog : c'.log = c.log) (hopen : Spoken c → halfClosed c = false) : Mute c c' where
  spoken h hc := by
    have := hopen h
    rw [halfClosed, ← hlog] at this
    rw [halfClosed, this] at hc
    cases hc
  writes h hc := by
    rw [hopen h] at hc
    cases hc

theorem handleClose_mute {c c' : Conn} (hlog : c'.log = c.log) (hout : c'.outputBuffer = c.outputBuffer)
    (hw : c'.writes = c.writes) : Mute c (handleClose c').1 := by
  unfold handleClose
  split <;> exact .same hlog hout hw

theorem shutdownInLoop_mute {c c' : Conn} (hlog : c'.log = c.log) (hout : c'.outputBuffer = c.outputBuffer)
    (hw : c'.writes = c.writes) : Mute c (shutdownInLoop c') := by
  unfold shutdownInLoop
  split
  · exact .same hlog hout hw
  · split
    · rename_i h
      exact ⟨fun _ _ => List.length_eq_zero_iff.mp h.2, fun _ _ => hw⟩
    · exact .same hlog hout hw

theorem handleOutputBufferAppend_log (data : List UInt8) (direct : Bool) (c : Conn) :
    (handleOutputBufferAppend data direct c).1.log = c.log := by
  unfold handleOutputBufferAppend handleOutputOverflow
  simp only
  repeat' split
  all_goals rfl

theorem sendInLoop_log (data : List UInt8) (r : SysWrite) (c : Conn) : (sendInLoop data r c).1.log = c.log := by
  unfold sendInLoop
  simp only
  repeat' split
  all_goals first | rfl | rw [handleOutputBufferAppend_log]

/-- A send that does nothing, or comes before the half-close. -/
def inTime (c : Conn) (data : List UInt8) : Bool :=
  !halfClosed c || decide (c.state = .disconnected) || decide (data.length = 0)

theorem sendInLoop_mute {data : List UInt8} {c : Conn} (r : SysWrite) (h : inTime c data = true) :
    Mute c (sendInLoop data r c).1 := by
  cases hh : halfClosed c with
  | false => exact .before (sendInLoop_log data r c) fun _ => hh
  | true =>
    have hdone : c.state = .disconnected ∨ data.length = 0 := by simpa [inTime, hh] using h
    rw [sendInLoop, if_pos hdone]
    exact .same rfl rfl rfl

theorem send_mute {data : List UInt8} {c : Conn} (r : SysWrite) (h : inTime c data = true) : Mute c (send data r c).1 := by
  unfold send
  split
  · exact .same rfl rfl rfl
  · exact sendInLoop_mute r h

theorem maybePause_mute {c c' : Conn} (hlog : c'.log = c.log) (hout : c'.outputBuffer = c.outputBuffer)
    (hw : c'.writes = c.writes) : Mute c (maybePauseReadForFlowControl c') := by
  unfold maybePauseReadForFlowControl
  repeat' split
  all_goals exact .same hlog hout hw

theorem maybeResume_mute {c c' : Conn} (hlog : c'.log = c.log) (hout : c'.outputBuffer = c.outputBuffer)
    (hw : c'.writes = c.writes) : Mute c (maybeResumeReadForFlowControl c') := by
  unfold maybeResumeReadForFlowControl
  repeat' split
  all_goals exact .same hlog hout hw

theorem maybeResume_log (c : Conn) : (maybeResumeReadForFlowControl c).log = c.log := by
  unfold maybeResumeReadForFlowControl
  repeat' split
  all_goals rfl

theorem handleClose_log (c : Conn) : (handleClose c).1.log = c.log := by
  unfold handleClose
  split <;> rfl

theorem writeTurn_log (r : SysWrite) (c : Conn) : (writeTurn r c).1.log = c.log := by
  unfold writeTurn
  simp only
  split
  · rfl
  · split
    · rw [maybeResume_log]
    · rfl
    · rw [handleClose_log]
    · rfl

/-- Every send of the run comes before the half-close, or does nothing. -/
def sendsInTime (s : Sys) : Label → Bool
  | .call (.api (.send data)) _ => inTime s.conn data
  | .functor _ =>
    match s.queue with
    | .sendInLoop data :: _ => inTime s.conn data
    | _ => true
  | _ => true

theorem api_mute {a : Api} {c : Conn} (r : SysWrite) (h : ∀ data, a = .send data → inTime c data = true) :
    Mute c (api a r c).1 := by
  cases a with
  | send data => exact send_mute r (h data rfl)
  | shutdown =>
    simp only [api, shutdown]
    split
    · exact .same rfl rfl rfl
    · exact shutdownInLoop_mute rfl rfl rfl
  | forceClose =>
    simp only [api, forceClose]
    split
    · exact .same rfl rfl rfl
    · exact handleClose_mute rfl rfl rfl
  | startRead =>
    simp only [api, startRead]
    split <;> exact .same rfl rfl rfl
  | stopRead =>
    simp only [api, stopRead]
    split <;> exact .same rfl rfl rfl
  | enableAutoReadFlowControl hi lo =>
    simp only [api, enableAutoReadFlowControl]
    split <;> exact .same rfl rfl rfl
  | disableAutoReadFlowControl => exact .same rfl rfl rfl
  | setMaxOutputBufferBytes bytes => exact .same rfl rfl rfl
  | setOutputOverflowPolicy policy => exact .same rfl rfl rfl

theorem runFunctor_mute {f : Functor} {c : Conn} (r : SysWrite) (h : ∀ data, f = .sendInLoop data → inTime c data = true) :
    Mute c (runFunctor f r c).1 := by
  cases f with
  | sendInLoop data => exact sendInLoop_mute r (h data rfl)
  | shutdownInLoop => exact shutdownInLoop_mute rfl rfl rfl
  | forceCloseInLoop =>
    simp only [runFunctor, forceClose]
    split
    · exact .same rfl rfl rfl
    · exact handleClose_mute rfl rfl rfl
  | startRead =>
    simp only [runFunctor, startRead]
    split <;> exact .same rfl rfl rfl
  | stopRead =>
    simp only [runFunctor, stopRead]
    split <;> exact .same rfl rfl rfl

theorem Move.mute (h : Move cfg s a s') (hok : sendsInTime s a = true) : Mute s.conn s'.conn := by
  cases h with
  | closes => exact handleClose_mute rfl rfl rfl
  | drained => exact maybeResume_mute rfl rfl rfl
  | subscribes =>
    refine maybePause_mute ?_ ?_ ?_
    all_goals split <;> rfl
  | afterWriteComplete =>
    simp only [Sys.did]
    split
    · exact shutdownInLoop_mute rfl rfl rfl
    · exact .same rfl rfl rfl
  | readEnds => exact handleClose_mute rfl rfl rfl
  | writes hs hout =>
    refine .before (writeTurn_log _ _) fun hsp => ?_
    by_contra hh
    exact hout (hsp (by simpa using hh))
  | socketError =>
    simp only [Sys.did, handleError, handleErrorAndClose]
    split <;> exact .same rfl rfl rfl
  | @api a r =>
    refine api_mute r ?_
    rintro data rfl
    exact hok
  | destroys =>
    simp only [Sys.did, connectDestroyed]
    split <;> exact .same rfl rfl rfl
  | @functor f rest r hs hq =>
    refine runFunctor_mute r ?_
    rintro data rfl
    simpa [sendsInTime, hq] using hok
  | _ => exact .same rfl rfl rfl

/-- If every send with data comes before the half-close, or finds the connection `Disconnected`: once
    `shutdownWrite` has been called nothing is left to write, and no step writes to the socket. -/
theorem no_write_after_half_close {input : Buf}
    (hr : (connection cfg callbacks input).Reach (fun s a => sendsInTime s a = true) s) (hh : halfClosed s.conn = true) :
    s.conn.outputBuffer = [] ∧
      ∀ a s', sendsInTime s a = true → step cfg s a = some s' → s'.conn.writes = s.conn.writes := by
  have hsp : Spoken s.conn := by
    refine hr.inv (I := fun s => Spoken s.conn) (fun h => (by cases h)) ?_
    intro s a s' hsp hok hstep
    exact ((step_move hstep).mute hok).spoken hsp
  exact ⟨hsp hh, fun a s' hok hstep => ((step_move hstep).mute hok).writes hsp hh⟩

theorem no_write_after_half_close_shutdown :
    ∃ s, (connection plain allSet freshInput).Reach (fun s a => sendsInTime s a = true) s ∧ halfClosed s.conn = true ∧
      s.conn.writes = 2 ∧ s.conn.outputBuffer = [] := by
  obtain ⟨s, hr, hp⟩ := Lib.Machine.Reach.of_run (connection plain allSet freshInput)
    (fun s a => sendsInTime s a = true) (fun s => decide (halfClosed s.conn = true ∧ s.conn.writes = 2))
    [.call .connectEstablished (.take 0), .next, .returns, .call (.api (.send [1, 2])) (.take 1), .next,
      .call (.api .shutdown) (.take 0), .event ⟨false, false, true, false⟩, .next, .write (.take 1), .next, .next, .returns, .next]
    (by decide +kernel)
  obtain ⟨hh, hw⟩ := of_decide_eq_true hp
  exact ⟨s, hr, hh, hw, (no_write_after_half_close hr hh).1⟩

/-- A send after `shutdown()`, in the state `Disconnecting`: the data goes to the half-closed socket. -/
theorem a_send_follows_the_half_close :
    ∃ s, (connection plain allSet freshInput).Reach (fun _ _ => True) s ∧ halfClosed s.conn = true ∧
      (step plain s (.call (.api (.send [1])) (.fail 32))).map (·.conn.writes) = some (s.conn.writes + 1) := by
  obtain ⟨s, hr, hp⟩ := Lib.Machine.Reach.of_run (connection plain allSet freshInput) (fun _ _ => True)
    (fun s => decide (halfClosed s.conn = true ∧
      (step plain s (.call (.api (.send [1])) (.fail 32))).map (·.conn.writes) = some (s.conn.writes + 1)))
    [.call .connectEstablished (.take 0), .next, .returns, .call (.api .shutdown) (.take 0)] (by decide +kernel)
  exact ⟨s, hr, of_decide_eq_true hp⟩

/-! ## Reading under two controllers -/

/-- The channel reads if the user wants it to and flow control does not pause it. -/
def Agrees (wants : Bool) (c : Conn) : Prop := c.channel.reading = (wants && !c.readPausedByFlowControl)

/-- What a member does to reading: it agrees after it as before, unless the connection is closed by then. -/
def Heeds (wants wants' : Bool) (c c' : Conn) : Prop :=
  Agrees wants c → c'.state = .disconnected ∨ Agrees wants' c'

theorem Heeds.same {c c' : Conn} (wants : Bool) (hread : c'.channel.reading = c.channel.reading)
    (hpause : c'.readPausedByFlowControl = c.readPausedByFlowControl) : Heeds wants wants c c' := by
  intro h
  right
  unfold Agrees
  rw [hread, hpause]
  exact h

theorem handleClose_heeds {c c' : Conn} (wants : Bool) (hread : c'.channel.reading = c.channel.reading)
    (hpause : c'.readPausedByFlowControl = c.readPausedByFlowControl) : Heeds wants wants c (handleClose c').1 := by
  unfold handleClose
  split
  · exact .same wants hread hpause
  · exact fun _ => Or.inl rfl

theorem handleOutputBufferAppend_heeds {c c' : Conn} (wants : Bool) (data : List UInt8) (direct : Bool)
    (hread : c'.channel.reading = c.channel.reading) (hpause : c'.readPausedByFlowControl = c.readPausedByFlowControl) :
    Heeds wants wants c (handleOutputBufferAppend data direct c').1 := by
  unfold handleOutputBufferAppend handleOutputOverflow
  simp only
  repeat' split
  all_goals exact .same wants hread hpause

theorem sendInLoop_heeds (wants : Bool) (data : List UInt8) (r : SysWrite) (c : Conn) :
    Heeds wants wants c (sendInLoop data r c).1 := by
  unfold sendInLoop
  split
  · exact .same wants rfl rfl
  · split
    · simp only
      split
      · split
        · exact handleOutputBufferAppend_heeds wants _ _ rfl rfl
        · exact .same wants rfl rfl
      · split
        · exact handleOutputBufferAppend_heeds wants _ _ rfl rfl
        · exact .same wants rfl rfl
    · exact handleOutputBufferAppend_heeds wants _ _ rfl rfl

theorem forceClose_heeds (wants : Bool) (c : Conn) : Heeds wants wants c (forceClose c).1 := by
  unfold forceClose
  split
  · exact .same wants rfl rfl
  · exact handleClose_heeds wants rfl rfl

theorem shutdownInLoop_heeds (wants : Bool) {c c' : Conn} (hread : c'.channel.reading = c.channel.reading)
    (hpause : c'.readPausedByFlowControl = c.readPausedByFlowControl) : Heeds wants wants c (shutdownInLoop c') := by
  unfold shutdownInLoop
  split
  · exact .same wants hread hpause
  · split <;> exact .same wants hread hpause

theorem shutdown_heeds (wants : Bool) (c : Conn) : Heeds wants wants c (shutdown c) := by
  unfold shutdown
  split
  · exact .same wants rfl rfl
  · exact shutdownInLoop_heeds wants rfl rfl

/-- A pause takes reading away and says so. -/
theorem subscribe_heeds (wants direct : Bool) (c : Conn) : Heeds wants wants c (subscribe direct c) := by
  have hsame : ∀ c' : Conn, c'.channel.reading = c.channel.reading →
      c'.readPausedByFlowControl = c.readPausedByFlowControl → Heeds wants wants c (maybePauseReadForFlowControl c') := by
    intro c' hread hpause
    unfold maybePauseReadForFlowControl
    split
    · exact .same wants hread hpause
    · split
      · exact .same wants hread hpause
      · split
        · exact .same wants hread hpause
        · intro _
          right
          unfold Agrees
          simp only [Bool.not_true, Bool.and_false]
          split
          · rfl
          · rename_i h
            simpa using h
  refine hsame _ ?_ ?_
  all_goals split <;> rfl

/-- Flow control would let reading go on. -/
def resumes (c : Conn) : Bool :=
  c.autoReadFlowControlEnabled && c.readPausedByFlowControl &&
    decide (c.outputBuffer.length ≤ c.readResumeLowWaterMark)

theorem maybeResume_heeds {wants : Bool} {c c' : Conn} (hread : c'.channel.reading = c.channel.reading)
    (hpause : c'.readPausedByFlowControl = c.readPausedByFlowControl) (hok : (wants || !resumes c') = true) :
    Heeds wants wants c (maybeResumeReadForFlowControl c') := by
  unfold maybeResumeReadForFlowControl
  split
  · exact .same wants hread hpause
  · rename_i he
    split
    · exact .same wants hread hpause
    · rename_i hp
      split
      · exact .same wants hread hpause
      · rename_i hl
        have hres : resumes c' = true := by
          simp only [resumes, Bool.and_eq_true, decide_eq_true_eq]
          exact ⟨⟨by simpa using he, by simpa using hp⟩, by omega⟩
        have hwants : wants = true := by simpa [hres] using hok
        intro _
        right
        unfold Agrees
        rw [hwants]
        simp only [Bool.not_false, Bool.and_true]
        split
        · rfl
        · rename_i h
          simpa using h

theorem startRead_heeds (wants : Bool) (c : Conn) : Heeds wants true c (startRead c) := by
  intro _
  right
  unfold Agrees startRead
  simp only [Bool.not_false, Bool.and_true]
  split
  · rfl
  · rename_i h
    simpa using h

theorem stopRead_heeds (wants : Bool) (c : Conn) : Heeds wants false c (stopRead c) := by
  intro _
  right
  unfold Agrees stopRead
  simp only [Bool.false_and]
  split
  · rfl
  · rename_i h
    simpa using h

/-- Flow control is turned off while it pauses a user who wants to read. -/
def cutsOff (wants : Bool) (c : Conn) : Bool := wants && c.readPausedByFlowControl

theorem disableAutoReadFlowControl_heeds {wants : Bool} {c : Conn} (h : cutsOff wants c = false) :
    Heeds wants wants c (disableAutoReadFlowControl c) := by
  intro ha
  right
  unfold Agrees at ha ⊢
  change c.channel.reading = _
  rw [ha]
  unfold cutsOff at h
  cases wants <;> simp_all [disableAutoReadFlowControl]

/-- A call that leaves flow control on, or cuts no user off. -/
def callKeepsApart (wants : Bool) (c : Conn) : Api → Bool
  | .disableAutoReadFlowControl => !cutsOff wants c
  | .enableAutoReadFlowControl pauseHighWaterMark _ => decide (pauseHighWaterMark ≠ 0) || !cutsOff wants c
  | _ => true

/-- Established, and never closed. -/
def live (s : Sys) : Bool := s.established && !s.closed

/-- The write of a turn of `handleWrite` made progress. -/
def progressed (c : Conn) (r : SysWrite) : Bool :=
  match (writeFdResult c.outputBuffer r).1 with
  | .ok io => decide (io.status = .ok)
  | .error _ => false

/-- On an established connection that has not been closed flow control is not turned off while it pauses a
    user who wants to read, and does not resume while the user's last request is `stopRead`; and it does not
    pause when the connection is established. -/
def keepsApart (s : Sys) : Label → Bool
  | .call (.api a) _ => !live s || callKeepsApart s.wants s.conn a
  | .call .connectEstablished _ => !s.conn.readPausedByFlowControl
  | .write r =>
    !live s || s.wants ||
      !(progressed s.conn r && resumes { s.conn with outputBuffer := (writeFdResult s.conn.outputBuffer r).2 })
  | .next =>
    match s.stack with
    | .writeTurn :: _ => !live s || s.wants || !resumes s.conn
    | _ => true
  | _ => true

theorem writeTurn_heeds {wants : Bool} {c : Conn} {r : SysWrite}
    (hok : (wants || !(progressed c r && resumes { c with outputBuffer := (writeFdResult c.outputBuffer r).2 })) = true) :
    Heeds wants wants c (writeTurn r c).1 := by
  unfold writeTurn
  simp only
  split
  · exact .same wants rfl rfl
  · rename_i io hret
    split
    · rename_i hio
      refine maybeResume_heeds rfl rfl ?_
      have hprog : progressed c r = true := by simp [progressed, hret, hio]
      rw [hprog, Bool.true_and] at hok
      exact hok
    · exact .same wants rfl rfl
    · exact handleClose_heeds wants rfl rfl
    · exact .same wants rfl rfl

theorem enableAutoReadFlowControl_heeds {wants : Bool} {c : Conn} {hi lo : Nat}
    (h : (decide (hi ≠ 0) || !cutsOff wants c) = true) : Heeds wants wants c (enableAutoReadFlowControl hi lo c) := by
  unfold enableAutoReadFlowControl
  split
  · rename_i hz
    refine disableAutoReadFlowControl_heeds ?_
    simpa [hz] using h
  · exact .same wants rfl rfl

theorem api_heeds {a : Api} {wants : Bool} {c : Conn} (r : SysWrite) (h : callKeepsApart wants c a = true) :
    Heeds wants (wantsAfter wants (.api a)) c (api a r c).1 := by
  cases a with
  | send data =>
    simp only [api, send]
    split
    · exact .same wants rfl rfl
    · exact sendInLoop_heeds wants data r c
  | shutdown => exact shutdown_heeds wants c
  | forceClose => exact forceClose_heeds wants c
  | startRead => exact startRead_heeds wants c
  | stopRead => exact stopRead_heeds wants c
  | enableAutoReadFlowControl hi lo => exact enableAutoReadFlowControl_heeds h
  | disableAutoReadFlowControl => exact disableAutoReadFlowControl_heeds (by simpa [callKeepsApart] using h)
  | setMaxOutputBufferBytes bytes => exact .same wants rfl rfl
  | setOutputOverflowPolicy policy => exact .same wants rfl rfl

theorem runFunctor_heeds (f : Functor) (wants : Bool) (r : SysWrite) (c : Conn) :
    Heeds wants (functorWants wants f) c (runFunctor f r c).1 := by
  cases f with
  | sendInLoop data => exact sendInLoop_heeds wants data r c
  | shutdownInLoop => exact shutdownInLoop_heeds wants rfl rfl
  | forceCloseInLoop => exact forceClose_heeds wants c
  | startRead => exact startRead_heeds wants c
  | stopRead => exact stopRead_heeds wants c

/-! ### Every step -/

theorem Ends.removing {c : Conn} {t : Todo} (h : Ends c t) (hr : .remove ∈ t.2) : t.1.state = .disconnected := by
  cases h with
  | goesOn _ _ hnew =>
    have := hnew .remove hr
    cases this
  | shutsDown => cases hr
  | closes _ h => exact h
  | destroys _ h => exact h
  | removes h => exact h

/-- A live connection reads if it is wanted and not paused; one that is about to be removed is not live. -/
structure Apart (s : Sys) : Prop where
  agrees : live s = true → Agrees s.wants s.conn
  removing : .remove ∈ s.stack → s.closed = true

/-- A member runs, over tasks of the stack. -/
theorem Apart.did {s₀ : Sys} (ha : Apart s) {t : Todo} {rest : List Task} (he : s₀.established = s.established)
    (hc : s₀.closed = s.closed) (hrest : ∀ t ∈ rest, t ∈ s.stack) (hends : Ends s.conn t)
    (h : live s = true → Heeds s.wants s₀.wants s.conn t.1) : Apart (s₀.did t rest) where
  agrees hl := by
    have hl : (s.established = true ∧ s.closed = false) ∧ t.1.state ≠ .disconnected := by
      simpa [live, Sys.did, he, hc, and_assoc] using hl
    have hlive : live s = true := by simpa [live] using hl.1
    exact (h hlive (ha.agrees hlive)).resolve_left hl.2
  removing hr := by
    simp only [Sys.did, hc, Bool.or_eq_true, decide_eq_true_eq]
    rcases List.mem_append.mp hr with hr | hr
    · exact Or.inr (hends.removing hr)
    · exact Or.inl (ha.removing (hrest _ hr))

theorem Apart.task {s₀ : Sys} (ha : Apart s) {task : Task} {rest : List Task} (hs : s.stack = task :: rest) {t : Todo}
    (he : s₀.established = s.established) (hc : s₀.closed = s.closed) (hends : Ends s.conn t)
    (h : live s = true → Heeds s.wants s₀.wants s.conn t.1) : Apart (s₀.did t rest) := by
  refine ha.did he hc (fun t ht => ?_) hends h
  rw [hs]
  exact List.mem_cons_of_mem _ ht

/-- A task leaves the connection as it is. -/
theorem Apart.skip {s₀ : Sys} (ha : Apart s) {task : Task} {rest new : List Task} (hs : s.stack = task :: rest)
    (he : s₀.established = s.established) (hc : s₀.closed = s.closed) (hw : s₀.wants = s.wants)
    (hends : Ends s.conn (s.conn, new)) : Apart (s₀.did (s.conn, new) rest) := by
  refine ha.task hs he hc hends fun _ => ?_
  rw [hw]
  exact .same s.wants rfl rfl

theorem Move.apart (h : Move cfg s a s') (hok : keepsApart s a = true) (ha : Apart s) : Apart s' := by
  cases h with
  | begins hs =>
    refine ⟨ha.agrees, fun hr => ha.removing ?_⟩
    rw [hs]
    exact List.mem_cons_of_mem _ ((List.mem_cons.mp hr).resolve_left (by simp))
  | skips hs => exact ha.skip hs rfl rfl rfl (.none rfl rfl)
  | keeps hs => exact ha.skip hs rfl rfl rfl (.none rfl rfl)
  | closes hs ht => exact ha.task hs rfl rfl (handleClose_ends rfl rfl) fun _ => handleClose_heeds _ rfl rfl
  | handleWrite hs =>
    refine ha.skip hs rfl rfl rfl ?_
    split
    · exact .tasks rfl rfl rfl
    · exact .none rfl rfl
  | decodes hs _ hnew => exact ha.skip hs rfl rfl rfl (codecTurn_ends hnew _)
  | drained hs hout =>
    refine ha.task hs rfl rfl (drained_ends _) fun hl => maybeResume_heeds rfl rfl ?_
    simpa [keepsApart, hs, hl, resumes] using hok
  | subscribes hs => exact ha.task hs rfl rfl (subscribe_ends _ _) fun _ => subscribe_heeds _ _ _
  | afterWriteComplete hs =>
    refine ha.task hs rfl rfl ?_ fun _ => ?_
    · split
      · exact .none (shutdownInLoop_steady _).1 (shutdownInLoop_steady _).2
      · exact .none rfl rfl
    · dsimp only
      split
      · exact shutdownInLoop_heeds _ rfl rfl
      · exact .same _ rfl rfl
  | removes hs =>
    have hclosed : s.closed = true := ha.removing (by rw [hs]; exact List.mem_cons_self)
    refine ⟨fun hl => ?_, fun _ => ?_⟩
    · simp [live, Sys.did, hclosed] at hl
    · simp [Sys.did, hclosed]
  | received hs => exact ha.skip hs rfl rfl rfl (received_ends _ _)
  | readRests hs => exact ha.skip hs rfl rfl rfl (.none rfl rfl)
  | readEnds hs => exact ha.task hs rfl rfl (handleClose_ends rfl rfl) fun _ => handleClose_heeds _ rfl rfl
  | readFails hs => exact ha.skip hs rfl rfl rfl (handleErrorAndClose_ends _ rfl rfl)
  | writes hs hout =>
    refine ha.task hs rfl rfl (writeTurn_ends _ _) fun hl => writeTurn_heeds ?_
    simpa [keepsApart, hl] using hok
  | socketError hs =>
    refine ha.task hs rfl rfl (handleError_ends _ _) fun _ => ?_
    unfold handleError
    split <;> exact .same _ rfl rfl
  | @api a r hu =>
    refine ha.did rfl rfl (fun _ ht => ht) (api_ends _ _ _) fun hl => api_heeds r ?_
    simpa [keepsApart, hl] using hok
  | input => exact ⟨ha.agrees, ha.removing⟩
  | establishes hu hst =>
    refine ⟨fun _ => ?_, fun hr => ?_⟩
    · have hp : s.conn.readPausedByFlowControl = false := by simpa [keepsApart] using hok
      change true = (true && !s.conn.readPausedByFlowControl)
      rw [hp]
      rfl
    · have hr : .remove ∈ s.stack := (List.mem_cons.mp hr).resolve_left (by simp)
      simp [Sys.did, ha.removing hr]
  | destroys hu =>
    refine ha.did rfl rfl (fun _ ht => ht) (connectDestroyed_ends _) fun _ => ?_
    unfold connectDestroyed
    split
    · exact fun _ => Or.inl rfl
    · exact .same _ rfl rfl
  | returns hs =>
    refine ⟨ha.agrees, fun hr => ha.removing ?_⟩
    rw [hs]
    exact List.mem_cons_of_mem _ hr
  | @event revents hs =>
    refine ⟨ha.agrees, fun hr => ?_⟩
    have := (dispatch_tasks revents).2 .remove hr
    cases this
  | functor hs hq =>
    refine ha.did rfl rfl (fun _ ht => absurd ht List.not_mem_nil) (runFunctor_ends _ _ _) fun _ => runFunctor_heeds _ _ _ _
  | call => exact ⟨ha.agrees, ha.removing⟩
  | sees => exact ⟨ha.agrees, ha.removing⟩
  | stores => exact ⟨ha.agrees, ha.removing⟩
  | queues => exact ⟨ha.agrees, ha.removing⟩

theorem make_apart (callbacks : Callbacks) (input : Buf) : Apart (make callbacks input) where
  agrees h := by cases h
  removing h := by cases h

/-- If flow control is never turned off while it pauses a user who wants to read, never resumes for one whose
    last request is `stopRead`, and does not pause when the connection is established: an established connection
    that has not been closed reads if and only if the user wants it to and flow control does not pause it. -/
theorem reads_if_wanted_and_not_paused {input : Buf}
    (hr : (connection cfg callbacks input).Reach (fun s a => keepsApart s a = true) s) (he : s.established = true)
    (hc : s.closed = false) :
    s.conn.channel.reading = true ↔ s.wants = true ∧ s.conn.readPausedByFlowControl = false := by
  have ha : Apart s :=
    hr.inv (I := Apart) (make_apart callbacks input) fun _ _ _ ha hok hstep => (step_move hstep).apart hok ha
  have hagrees : Agrees s.wants s.conn := ha.agrees (by simp [live, he, hc])
  unfold Agrees at hagrees
  rw [hagrees]
  simp

/-- A send fills the output buffer, and flow control pauses. -/
theorem reads_if_wanted_and_not_paused_full :
    ∃ s, (connection plain allSet freshInput).Reach (fun s a => keepsApart s a = true) s ∧ s.wants = true ∧
      s.conn.readPausedByFlowControl = true ∧ s.conn.channel.reading = false := by
  obtain ⟨s, hr, hp⟩ := Lib.Machine.Reach.of_run (connection plain allSet freshInput)
    (fun s a => keepsApart s a = true)
    (fun s => decide (s.established = true ∧ s.closed = false ∧ s.wants = true ∧ s.conn.readPausedByFlowControl = true))
    [.call .connectEstablished (.take 0), .next, .returns, .call (.api (.enableAutoReadFlowControl 2 1)) (.take 0),
      .call (.api (.send [1, 2, 3])) (.take 1), .next] (by decide +kernel)
  obtain ⟨he, hc, hw, hpause⟩ := of_decide_eq_true hp
  refine ⟨s, hr, hw, hpause, ?_⟩
  by_contra hread
  obtain ⟨-, hnot⟩ := (reads_if_wanted_and_not_paused hr he hc).mp (by simpa using hread)
  rw [hpause] at hnot
  cases hnot

/-- Flow control is turned off while it pauses, and reading stays off; or the user stops reading while it
    pauses, and reading comes back with the end of the pause. -/
theorem flow_control_and_user_collide :
    (∃ s, (connection plain allSet freshInput).Reach (fun _ _ => True) s ∧ s.established = true ∧ s.closed = false ∧
        s.conn.channel.reading = false ∧ s.wants = true ∧ s.conn.readPausedByFlowControl = false) ∧
      ∃ s, (connection plain allSet freshInput).Reach (fun _ _ => True) s ∧ s.established = true ∧ s.closed = false ∧
        s.conn.channel.reading = true ∧ s.wants = false := by
  obtain ⟨s, hr, hp⟩ := Lib.Machine.Reach.of_run (connection plain allSet freshInput) (fun _ _ => True)
    (fun s => decide (s.established = true ∧ s.closed = false ∧ s.conn.channel.reading = false ∧ s.wants = true ∧
      s.conn.readPausedByFlowControl = false))
    [.call .connectEstablished (.take 0), .next, .returns, .call (.api (.enableAutoReadFlowControl 2 1)) (.take 0),
      .call (.api (.send [1, 2, 3])) (.take 1), .next, .call (.api .disableAutoReadFlowControl) (.take 0)] (by decide +kernel)
  obtain ⟨t, hr', hp'⟩ := Lib.Machine.Reach.of_run (connection plain allSet freshInput) (fun _ _ => True)
    (fun s => decide (s.established = true ∧ s.closed = false ∧ s.conn.channel.reading = true ∧ s.wants = false))
    [.call .connectEstablished (.take 0), .next, .returns, .call (.api (.enableAutoReadFlowControl 2 1)) (.take 0),
      .call (.api (.send [1, 2, 3])) (.take 1), .next, .call (.api .stopRead) (.take 0),
      .event ⟨false, false, true, false⟩, .next, .write (.take 2)] (by decide +kernel)
  exact ⟨⟨s, hr, of_decide_eq_true hp⟩, t, hr', of_decide_eq_true hp'⟩

end Dbase.Net.TcpConnection.Steps
