/-
  Dbase.Net.KcpSessionProofs — the update timer and the callbacks of a session, over whole runs.

  `Does` is what any member does to a session: it keeps the timer consistent (`Timed`), leaves a session that is armed or
  disconnected so (`Live`), and invokes the close callback only where it disconnects. A session that is neither armed nor
  disconnected is one whose timer has fired: the end of `updateInLoop` is still on the stack.

  Proved (`armed_until_disconnected`): between handlers a session is disconnected if and only if no timer is armed for it;
  there is never more than one; the close callback is invoked at most once.

  Proved (`nothing_is_reported_after_close`): nothing is reported after the close callback if what is left on the stack finds nothing to
  report. The receive loop and the end of `updateInLoop` do not look at the state.
-/

import Dbase.Net.KcpSession

namespace Dbase.Net.KcpSession

variable {cfg : Config} {k : Answers} {s s' : Session} {t : Todo}

/-! ## What a member does -/

/-- The timer that the session knows is the one that the loop has. -/
structure Timed (s : Session) : Prop where
  known : s.timers = [] ∨ ∃ delay, s.timers = [⟨s.updateTimerId, delay⟩] ∧ s.updateTimerId ≠ 0
  fresh : 0 < s.nextTimerId
  disconnected : s.state = .disconnected → s.timers = []

/-- Armed, or disconnected. -/
def Live (s : Session) : Prop := s.state = .disconnected ∨ s.timers ≠ []

/-- The close callback may have been invoked. -/
def ended (s : Session) : Nat := if s.state = .disconnected then 1 else 0

structure Does (s : Session) (t : Todo) : Prop where
  timed : Timed t.1
  live : Live s → Live t.1
  closes : t.2.count (.invoke .close) + ended s ≤ ended t.1
  /-- a callback comes first -/
  last : ∀ cb, .invoke cb ∉ t.2.tail
  /-- it does not come back -/
  stays : s.state = .disconnected → t.1.state = .disconnected

theorem Does.same (h : Timed s) : Does s (s, []) := ⟨h, id, by simp, by simp, id⟩

/-- The session is left alone, but for the time; a callback other than the close callback comes first. -/
theorem Does.tasks (h : Timed s) {tasks : List Task} (hclose : .invoke .close ∉ tasks)
    (hlast : ∀ cb, .invoke cb ∉ tasks.tail) (tick : Int) : Does s ({ s with lastActiveTickMs := tick }, tasks) where
  timed := ⟨h.known, h.fresh, h.disconnected⟩
  live := id
  closes := by
    rw [List.count_eq_zero_of_not_mem hclose, Nat.zero_add]
    exact Nat.le_refl _
  last := hlast
  stays := id

theorem timers_cancel (h : Timed s) : (cancelUpdateTimer s).timers = [] := by
  unfold cancelUpdateTimer
  rcases h.known with hnone | ⟨delay, hone, hid⟩
  · split
    · simp [hnone]
    · exact hnone
  · rw [if_pos hid]
    simp [hone]

theorem Timed.cancel (h : Timed s) : Timed (cancelUpdateTimer s) := by
  have htimers := timers_cancel h
  refine ⟨.inl htimers, ?_, fun _ => htimers⟩
  unfold cancelUpdateTimer
  split
  · exact h.fresh
  · exact h.fresh

theorem state_cancel (s : Session) : (cancelUpdateTimer s).state = s.state := by
  unfold cancelUpdateTimer
  split <;> rfl

/-- It leaves a timer, unless the session is disconnected. -/
theorem scheduleUpdate_spec (h : Timed s) (now : UInt32) (k : Answers) :
    Timed (scheduleUpdate now k s) ∧ Live (scheduleUpdate now k s) ∧ (scheduleUpdate now k s).state = s.state := by
  unfold scheduleUpdate
  split
  · rename_i hdisc
    exact ⟨h, .inl hdisc, rfl⟩
  · rename_i hdisc
    have htimers := timers_cancel h
    have hstate := state_cancel s
    have hfresh := h.cancel.fresh
    have hid : (cancelUpdateTimer s).nextTimerId + k.taken ≠ 0 := by omega
    simp only [htimers, List.nil_append]
    refine ⟨⟨.inr ⟨_, rfl, hid⟩, Nat.succ_pos _, fun hd => ?_⟩, .inr (List.cons_ne_nil _ _), hstate⟩
    exact absurd (hstate.symm.trans hd) hdisc

/-- It disconnects a session that is not. -/
theorem handleClose_does (h : Timed s) : Does s (handleClose s) ∧ Live (handleClose s).1 := by
  unfold handleClose
  split
  · rename_i hdisc
    exact ⟨.same h, .inl hdisc⟩
  · rename_i hdisc
    have htimers := timers_cancel h
    refine ⟨⟨⟨.inl htimers, h.cancel.fresh, fun _ => htimers⟩, fun _ => .inl rfl, ?_, by simp, fun _ => rfl⟩, .inl rfl⟩
    simp [ended, hdisc]

theorem Does.trans {s₁ : Session} {t : Todo} (hstate : s₁.state = s.state) (hlive : Live s₁) (h : Does s₁ t) :
    Does s t where
  timed := h.timed
  live _ := h.live hlive
  closes := by
    have hended : ended s = ended s₁ := by
      rw [ended, ended, hstate]
    rw [hended]
    exact h.closes
  last := h.last
  stays hdisc := h.stays (hstate.trans hdisc)

theorem handleError_tasks (code : ErrorCode) (message : String) : .invoke .close ∉ [handleError code message] := by
  simp [handleError]

theorem connectEstablished_does (h : Timed s) (hs : s.state = .connecting) (k : Answers) :
    Does s (connectEstablished k s) ∧ Live (connectEstablished k s).1 := by
  have hconnected : Timed { s with state := .connected } := ⟨h.known, h.fresh, fun hd => by cases hd⟩
  obtain ⟨htimed, hlive, -⟩ := scheduleUpdate_spec hconnected (nowMs k) k
  refine ⟨⟨htimed, fun _ => hlive, ?_, by simp [connectEstablished], fun hd => ?_⟩, hlive⟩
  · simp [connectEstablished, ended, hs]
  · rw [hs] at hd
    cases hd

theorem connectDestroyed_does (h : Timed s) : Does s (connectDestroyed s) := by
  unfold connectDestroyed
  split
  · exact .same h
  · have htimers := timers_cancel h
    refine ⟨⟨.inl htimers, h.cancel.fresh, fun _ => htimers⟩, fun _ => .inl rfl, ?_, by simp, fun _ => rfl⟩
    rw [List.count_nil, Nat.zero_add]
    show ended s ≤ 1
    unfold ended
    split <;> omega

theorem sendInLoop_does (h : Timed s) (data : List UInt8) (k : Answers) : Does s (sendInLoop data k s) := by
  unfold sendInLoop
  split
  · exact .same h
  · split
    · exact .tasks h (handleError_tasks _ _) (by simp) _
    · split
      · exact .tasks h (handleError_tasks _ _) (by simp) _
      · have htouched : Timed (touchActive k s) := ⟨h.known, h.fresh, h.disconnected⟩
        obtain ⟨htimed, hlive, hstate⟩ := scheduleUpdate_spec htouched (nowMs k) k
        exact .trans hstate hlive (.same htimed)

theorem send_does (h : Timed s) (data : List UInt8) (k : Answers) : Does s (send data k s) := by
  unfold send
  split
  · exact .same h
  · exact sendInLoop_does h data k

theorem inputPacket_does (h : Timed s) (packet : List UInt8) (k : Answers) : Does s (inputPacket packet k s) := by
  unfold inputPacket inputPacketInLoop
  split
  · exact .same h
  · split
    · exact .same h
    · split
      · exact .tasks h (handleError_tasks _ _) (by simp) _
      · exact .tasks h (by simp) (by simp) k.tick

theorem closeIfSent_does (h : Timed s) (k : Answers) : Does s (closeIfSent k s) := by
  unfold closeIfSent
  split
  · exact (handleClose_does h).1
  · exact .same h

theorem inputEnd_does (h : Timed s) (k : Answers) : Does s (inputEnd k s) := by
  obtain ⟨htimed, hlive, hstate⟩ := scheduleUpdate_spec h (nowMs k) k
  exact .trans hstate hlive (closeIfSent_does htimed k)

/-- The end of `updateInLoop` arms the timer. -/
theorem updateEnd_does (h : Timed s) (now : UInt32) (k : Answers) :
    Does s (updateEnd cfg now k s) ∧ Live (updateEnd cfg now k s).1 := by
  obtain ⟨htimed, hlive, hstate⟩ := scheduleUpdate_spec h now k
  have hdoes : Does (scheduleUpdate now k s) (updateEnd cfg now k s) := by
    unfold updateEnd
    simp only
    split
    · exact .tasks htimed (by simp [handleError]) (by simp) (scheduleUpdate now k s).lastActiveTickMs
    · exact closeIfSent_does htimed k
  exact ⟨.trans hstate hlive hdoes, hdoes.live hlive⟩

theorem drainTurn_does (h : Timed s) (k : Answers) : Does s (drainTurn cfg k s) := by
  unfold drainTurn
  split
  · exact .tasks h (by simp) (by simp) s.lastActiveTickMs
  · split
    · exact .tasks h (by simp [handleError]) (by simp) s.lastActiveTickMs
    · split
      · exact .tasks h (by simp) (by simp) s.lastActiveTickMs
      · exact .tasks h (by simp) (by simp) k.tick

theorem drainEnd_does (h : Timed s) (k : Answers) : Does s (drainEnd cfg k s) := by
  unfold drainEnd
  split
  · exact .tasks h (by simp) (by simp) s.lastActiveTickMs
  · exact .same h

theorem shutdown_does (h : Timed s) (k : Answers) : Does s (shutdown k s) := by
  unfold shutdown
  split
  · exact .same h
  · rename_i hdisc
    have hdisconnecting : Timed { s with state := .disconnecting } := ⟨h.known, h.fresh, fun hd => by cases hd⟩
    have hended : ended s = 0 := if_neg hdisc
    simp only
    split
    · have hclose := (handleClose_does hdisconnecting).1
      refine ⟨hclose.timed, fun hlive => hclose.live (.inr (hlive.resolve_left hdisc)), ?_, hclose.last,
        fun hd => absurd hd hdisc⟩
      rw [hended]
      exact hclose.closes
    · exact ⟨hdisconnecting, fun hlive => .inr (hlive.resolve_left hdisc), by simp [hended], by simp,
        fun hd => absurd hd hdisc⟩

theorem perform_does (h : Timed s) {c : Call} (hc : c = .connectEstablished → s.state = .connecting) (k : Answers) :
    Does s (perform k s c) := by
  cases c with
  | connectEstablished => exact (connectEstablished_does h (hc rfl) k).1
  | connectDestroyed => exact connectDestroyed_does h
  | send data => exact send_does h data k
  | inputPacket packet => exact inputPacket_does h packet k
  | shutdown => exact shutdown_does h k
  | forceClose => exact (handleClose_does h).1

/-! ## What a step does -/

/-- What holds at any moment. -/
structure Fits (s : Sys) : Prop where
  timed : Timed s.session
  live : s.established = true → Live s.session ∨ ∃ now, .updateEnd now ∈ s.stack
  closes : s.closes + s.stack.count (.invoke .close) ≤ ended s.session
  /-- only the task on top is a callback to be invoked -/
  last : ∀ cb, .invoke cb ∉ s.stack.tail
  before : s.established = false → s.session.state = .connecting ∧ s.stack = [] ∧ s.session.timers = []

variable {sys sys' : Sys} {a : Label}

theorem Fits.make (tick : Int) (timersBefore : Nat) : Fits (make tick (timersBefore + 1)) where
  timed := ⟨.inl rfl, Nat.succ_pos _, fun h => by cases h⟩
  live h := by cases h
  closes := by simp [KcpSession.make, ended]
  last := by simp [KcpSession.make]
  before _ := ⟨rfl, rfl, rfl⟩

/-- A member has run, on what was below a task or on the whole stack. -/
theorem Fits.did {rest : List Task} (h : Fits sys) (hdoes : Does sys.session t) (hrest : rest <:+ sys.stack)
    (hplain : ∀ cb, .invoke cb ∉ rest) (hlive : Live t.1 ∨ ∃ now, .updateEnd now ∈ t.2 ++ rest) :
    Fits ({ sys with established := true }.did t rest) where
  timed := hdoes.timed
  live _ := hlive
  closes := by
    have hcount := hrest.sublist.count_le (.invoke .close)
    have hbefore := h.closes
    have hafter := hdoes.closes
    show sys.closes + (t.2 ++ rest).count (.invoke .close) ≤ ended t.1
    rw [List.count_append]
    omega
  last cb := by
    show .invoke cb ∉ (t.2 ++ rest).tail
    cases htasks : t.2 with
    | nil => exact fun hmem => hplain cb (List.mem_of_mem_tail hmem)
    | cons task tasks =>
      have hlast := hdoes.last cb
      rw [htasks] at hlast
      simp only [List.cons_append, List.tail_cons, List.mem_append, not_or]
      exact ⟨hlast, hplain cb⟩
  before hno := by cases hno

theorem Fits.busy {task : Task} {rest : List Task} (h : Fits sys) (hstack : sys.stack = task :: rest) :
    sys.established = true := by
  by_contra hno
  obtain ⟨-, hnil, -⟩ := h.before (by simpa using hno)
  simp [hnil] at hstack

theorem Fits.below {task : Task} {rest : List Task} (h : Fits sys) (hstack : sys.stack = task :: rest) (cb : Callback) :
    .invoke cb ∉ rest := by
  have hlast := h.last cb
  rwa [hstack] at hlast

/-- A task of the stack has gone on. -/
theorem Fits.goes {task : Task} {rest : List Task} (h : Fits sys) (hstack : sys.stack = task :: rest)
    (hdoes : Does sys.session t) (hlive : (∃ now, task = .updateEnd now) → Live t.1) : Fits (sys.did t rest) := by
  have hest := h.busy hstack
  have hsame : ({ sys with established := true } : Sys).did t rest = sys.did t rest := by rw [Sys.did, Sys.did, hest]
  rw [← hsame]
  refine h.did hdoes (by rw [hstack]; exact List.suffix_cons _ _) (h.below hstack) ?_
  rcases h.live hest with hlives | ⟨now, hmem⟩
  · exact .inl (hdoes.live hlives)
  · rw [hstack] at hmem
    rcases List.mem_cons.mp hmem with heq | hmem
    · exact .inl (hlive ⟨now, heq.symm⟩)
    · exact .inr ⟨now, List.mem_append_right _ hmem⟩

/-- User code may run on a stack without callbacks to be invoked. -/
theorem mayCall_plain {c : Call} (h : Fits sys) (hcall : mayCall sys c = true) (cb : Callback) :
    .invoke cb ∉ sys.stack := by
  unfold mayCall at hcall
  split at hcall
  · obtain ⟨-, hnil, -⟩ := h.before (by simpa using hcall)
    simp [hnil]
  · have hlast := h.last cb
    cases hstack : sys.stack with
    | nil => simp
    | cons task rest =>
      rw [hstack] at hlast hcall
      cases task with
      | user => simpa using hlast
      | _ => simp at hcall

theorem next_does (h : Timed s) {task : Task} {rest : List Task} (hs : sys.session = s)
    (hnext : next cfg k sys task rest = some sys') :
    (∃ cb, task = .invoke cb ∧ isSet cfg cb = true ∧ sys' = sys.begins cb rest) ∨
      ∃ t, sys' = sys.did t rest ∧ Does s t ∧ ((∃ now, task = .updateEnd now) → Live t.1) := by
  subst hs
  cases task with
  | user => cases hnext
  | invoke cb =>
    obtain rfl := Option.some.inj hnext
    cases hset : isSet cfg cb with
    | true => exact .inl ⟨cb, rfl, hset, rfl⟩
    | false => exact .inr ⟨_, rfl, .same h, fun ⟨_, heq⟩ => by cases heq⟩
  | handleClose =>
    obtain rfl := Option.some.inj hnext
    exact .inr ⟨_, rfl, (handleClose_does h).1, fun ⟨_, heq⟩ => by cases heq⟩
  | drainTurn =>
    obtain rfl := Option.some.inj hnext
    exact .inr ⟨_, rfl, drainTurn_does h k, fun ⟨_, heq⟩ => by cases heq⟩
  | drainEnd =>
    obtain rfl := Option.some.inj hnext
    exact .inr ⟨_, rfl, drainEnd_does h k, fun ⟨_, heq⟩ => by cases heq⟩
  | inputEnd =>
    obtain rfl := Option.some.inj hnext
    exact .inr ⟨_, rfl, inputEnd_does h k, fun ⟨_, heq⟩ => by cases heq⟩
  | updateEnd now =>
    obtain rfl := Option.some.inj hnext
    exact .inr ⟨_, rfl, (updateEnd_does h now k).1, fun _ => (updateEnd_does h now k).2⟩

theorem Fits.begins {cb : Callback} {rest : List Task} (h : Fits sys) (hstack : sys.stack = .invoke cb :: rest) :
    Fits (sys.begins cb rest) where
  timed := h.timed
  live hest := by
    refine (h.live hest).imp_right fun ⟨now, hmem⟩ => ⟨now, ?_⟩
    rw [hstack] at hmem
    exact List.mem_cons_of_mem _ ((List.mem_cons.mp hmem).resolve_left (by simp))
  closes := by
    have hcloses := h.closes
    rw [hstack, List.count_cons] at hcloses
    show sys.closes + (if cb = .close then 1 else 0) + (.user :: rest : List Task).count (.invoke .close) ≤
      ended sys.session
    rw [List.count_cons_of_ne (by simp)]
    have hsame : (if cb = .close then 1 else 0) = if (Task.invoke cb == .invoke .close) = true then 1 else 0 := by
      simp
    rw [hsame]
    omega
  last := h.below hstack
  before hno := absurd (h.busy hstack) (Bool.eq_false_iff.mp hno)

theorem Fits.call {c : Call} (h : Fits sys) (hcall : mayCall sys c = true) (k : Answers) :
    Fits ({ sys with established := true }.did (perform k sys.session c) sys.stack) := by
  have hconnecting : c = .connectEstablished → sys.session.state = .connecting := by
    rintro rfl
    exact (h.before (by simpa [mayCall] using hcall)).1
  have hdoes := perform_does h.timed hconnecting k
  have hplain := mayCall_plain h hcall
  have hlive : Live (perform k sys.session c).1 ∨
      ∃ now, .updateEnd now ∈ (perform k sys.session c).2 ++ sys.stack := by
    by_cases hc : c = .connectEstablished
    · subst hc
      exact .inl (connectEstablished_does h.timed (hconnecting rfl) k).2
    · have hest : sys.established = true := by
        unfold mayCall at hcall
        rw [if_neg hc, Bool.and_eq_true] at hcall
        exact hcall.1
      exact (h.live hest).imp hdoes.live fun ⟨now, hmem⟩ => ⟨now, List.mem_append_right _ hmem⟩
  exact h.did hdoes (List.suffix_refl _) hplain hlive

theorem Fits.returns {rest : List Task} (h : Fits sys) (hstack : sys.stack = .user :: rest) :
    Fits { sys with stack := rest } where
  timed := h.timed
  live hest := by
    refine (h.live hest).imp_right fun ⟨now, hmem⟩ => ⟨now, ?_⟩
    rw [hstack] at hmem
    exact (List.mem_cons.mp hmem).resolve_left (by simp)
  closes := by
    have hcloses := h.closes
    rw [hstack, List.count_cons_of_ne (by simp)] at hcloses
    exact hcloses
  last cb hmem := h.below hstack cb (List.mem_of_mem_tail hmem)
  before hno := absurd (h.busy hstack) (Bool.eq_false_iff.mp hno)

/-- The one timer fires. -/
theorem Fits.fires {timer : Timer} (h : Fits sys) (htimer : timer ∈ sys.session.timers)
    (k : Answers) :
    Fits (sys.did (updateInLoop k { sys.session with timers := sys.session.timers.erase timer }) []) := by
  obtain ⟨delay, hone, -⟩ := h.timed.known.resolve_left (List.ne_nil_of_mem htimer)
  have hnone : sys.session.timers.erase timer = [] := by
    rw [hone] at htimer ⊢
    rw [List.mem_singleton.mp htimer, List.erase_cons_head]
  have hdisc : sys.session.state ≠ .disconnected := fun hd => by
    simp [h.timed.disconnected hd] at htimer
  have hfired : updateInLoop k { sys.session with timers := sys.session.timers.erase timer } =
      ({ sys.session with timers := [] }, [.drainTurn, .updateEnd (nowMs k)]) := by
    rw [updateInLoop, hnone, if_neg hdisc]
  have hclosed : ended sys.session = 0 := if_neg hdisc
  rw [hfired]
  refine ⟨⟨.inl rfl, h.timed.fresh, fun _ => rfl⟩, fun _ => .inr ⟨nowMs k, by simp [Sys.did]⟩, ?_, ?_, fun hno => ?_⟩
  · have hcloses := h.closes
    show sys.closes + ([.drainTurn, .updateEnd (nowMs k)] : List Task).count (.invoke .close) ≤ ended sys.session
    rw [List.count_eq_zero_of_not_mem (by simp)]
    omega
  · simp [Sys.did]
  · obtain ⟨-, -, hnil⟩ := h.before hno
    simp [hnil] at htimer

theorem Fits.step (h : Fits sys) (hstep : step cfg sys a = some sys') : Fits sys' := by
  cases a with
  | next k =>
    simp only [KcpSession.step] at hstep
    split at hstep
    · rename_i task rest hstack
      rcases next_does h.timed rfl hstep with ⟨cb, rfl, -, rfl⟩ | ⟨t, rfl, hdoes, hlive⟩
      · exact h.begins hstack
      · exact h.goes hstack hdoes hlive
    · cases hstep
  | call c k =>
    simp only [KcpSession.step] at hstep
    split at hstep
    · rename_i hcall
      obtain rfl := Option.some.inj hstep
      exact h.call hcall k
    · cases hstep
  | returns =>
    simp only [KcpSession.step] at hstep
    split at hstep
    · rename_i rest hstack
      obtain rfl := Option.some.inj hstep
      exact h.returns hstack
    · cases hstep
  | fire timer k =>
    simp only [KcpSession.step] at hstep
    split at hstep
    · rename_i hfire
      obtain rfl := Option.some.inj hstep
      exact h.fires hfire.2 k
    · cases hstep

theorem Fits.of_reach {ok : Sys → Label → Prop} {tick : Int} {timersBefore : Nat}
    (h : (session cfg tick timersBefore).Reach ok sys) : Fits sys :=
  h.inv (Fits.make tick timersBefore) fun _ _ _ hI _ hstep => hI.step hstep

/-- Between two handlers an established session is disconnected if and only if no timer is armed for it. -/
theorem armed_until_disconnected {tick : Int} {timersBefore : Nat}
    (h : (session cfg tick timersBefore).Reach (fun _ _ => True) sys) :
    (sys.stack = [] → sys.established = true → (sys.session.state = .disconnected ↔ sys.session.timers = [])) ∧
      sys.session.timers.length ≤ 1 ∧ sys.closes ≤ 1 := by
  have hfits := Fits.of_reach h
  refine ⟨fun hstack hest => ⟨hfits.timed.disconnected, fun hnone => ?_⟩, ?_, ?_⟩
  · rcases hfits.live hest with (hdisc | harmed) | ⟨now, hmem⟩
    · exact hdisc
    · exact absurd hnone harmed
    · simp [hstack] at hmem
  · rcases hfits.timed.known with hnone | ⟨delay, hone, -⟩
    · simp [hnone]
    · simp [hone]
  · have hcloses := hfits.closes
    have hended : ended sys.session ≤ 1 := by
      unfold ended
      split <;> omega
    omega

/-- A session with all its callbacks. -/
def plain : Config := ⟨{ conv := 1 }, ⟨true, true, true, true⟩⟩

/-- Another session of the loop has taken the next three ids when the timer is armed again. -/
theorem armed_until_disconnected_one :
    ∃ sys, (session plain 0 0).Reach (fun _ _ => True) sys ∧ sys.stack = [] ∧ sys.session.timers = [⟨5, 0⟩] ∧
      sys.session.state ≠ .disconnected := by
  obtain ⟨sys, hreach, hp⟩ := Lib.Machine.Reach.of_run (session plain 0 0) (fun _ _ => True)
    (fun sys => decide (sys.stack = [] ∧ sys.established = true ∧ sys.session.timers = [⟨5, 0⟩]))
    [.call .connectEstablished {}, .fire ⟨1, 0⟩ {}, .next {}, .next { waitsnd := 1 }, .next { taken := 3 }]
    (by decide +kernel)
  obtain ⟨hstack, hest, htimers⟩ := of_decide_eq_true hp
  refine ⟨sys, hreach, hstack, htimers, fun hdisc => ?_⟩
  have hnone := ((armed_until_disconnected hreach).1 hstack hest).mp hdisc
  rw [htimers] at hnone
  cases hnone

/-! ## After the close callback -/

/-- The callbacks that report something. -/
def reports : Callback → Bool
  | .close => false
  | _ => true

/-- A task finds nothing to report: no message to be received, data left to be sent, the idle time not over. -/
def findsNothing (cfg : Config) (k : Answers) (s : Session) : Task → Bool
  | .drainTurn =>
    k.peek < 0 || (if k.peek > maxMessageInt cfg then !cfg.callbacks.error else k.recv.isNone || !cfg.callbacks.message)
  | .drainEnd => !cfg.callbacks.writeComplete || k.waitsnd ≠ 0
  | .updateEnd _ =>
    !cfg.callbacks.error || cfg.options.idleTimeout ≤ 0 || idleFor k s < cfg.options.idleTimeout
  | _ => true

/-- A session whose close callback has been invoked finds nothing to report where it goes on. -/
def quiet (cfg : Config) (sys : Sys) : Label → Bool
  | .next k => sys.closes = 0 || sys.stack.head?.all (findsNothing cfg k sys.session)
  | _ => true

/-- No callback that reports something is invoked next. -/
def Silent (cfg : Config) (stack : List Task) : Prop :=
  ∀ cb, stack.head? = some (.invoke cb) → isSet cfg cb = true → reports cb = false

theorem Silent.plain {rest : List Task} (h : ∀ cb, .invoke cb ∉ rest) : Silent cfg rest :=
  fun cb hhead _ => absurd (List.mem_of_head? hhead) (h cb)

theorem Silent.invoke_iff {cb : Callback} {rest : List Task} :
    Silent cfg (.invoke cb :: rest) ↔ (isSet cfg cb = true → reports cb = false) := by
  constructor
  · intro h
    exact h cb rfl
  · intro h cb' hhead
    cases hhead
    exact h

theorem drainTurn_silent_iff (cfg : Config) (k : Answers) (s : Session) (rest : List Task) :
    Silent cfg ((drainTurn cfg k s).2 ++ rest) ↔ findsNothing cfg k s .drainTurn = true := by
  rw [drainTurn, findsNothing]
  by_cases hpeek : k.peek < 0
  · rw [if_pos hpeek]
    exact iff_of_true (fun cb hhead => by cases hhead) (by simp [hpeek])
  · rw [if_neg hpeek]
    by_cases hlarge : k.peek > maxMessageInt cfg
    · rw [if_pos hlarge, if_pos hlarge]
      show Silent cfg (.invoke _ :: _) ↔ _
      rw [Silent.invoke_iff]
      simp [isSet, reports, hpeek]
    · rw [if_neg hlarge, if_neg hlarge]
      cases hrecv : k.recv with
      | none => exact iff_of_true (fun cb hhead => by cases hhead) (by simp)
      | some payload =>
        show Silent cfg (.invoke _ :: _) ↔ _
        rw [Silent.invoke_iff]
        simp [isSet, reports, hpeek]

theorem drainEnd_silent_iff {rest : List Task} (hrest : Silent cfg rest) (k : Answers) (s : Session) :
    Silent cfg ((drainEnd cfg k s).2 ++ rest) ↔ findsNothing cfg k s .drainEnd = true := by
  rw [drainEnd, findsNothing]
  by_cases hsent : cfg.callbacks.writeComplete = true ∧ k.waitsnd = 0
  · rw [if_pos hsent]
    show Silent cfg (.invoke _ :: _) ↔ _
    rw [Silent.invoke_iff]
    simp [isSet, reports, hsent]
  · rw [if_neg hsent]
    refine iff_of_true hrest ?_
    rw [Bool.or_eq_true, Bool.not_eq_true', decide_eq_true_eq, ← Bool.not_eq_true]
    exact not_and_or.mp hsent

theorem updateEnd_silent_iff {rest : List Task} (hdisc : s.state = .disconnected) (hrest : Silent cfg rest) (now : UInt32)
    (k : Answers) : Silent cfg ((updateEnd cfg now k s).2 ++ rest) ↔ findsNothing cfg k s (.updateEnd now) = true := by
  have hsame : scheduleUpdate now k s = s := if_pos hdisc
  rw [updateEnd, hsame, findsNothing]
  by_cases hidle : cfg.options.idleTimeout > 0 ∧ idleFor k s ≥ cfg.options.idleTimeout
  · obtain ⟨hset, hover⟩ := hidle
    rw [if_pos ⟨hset, hover⟩]
    show Silent cfg (.invoke _ :: _) ↔ _
    rw [Silent.invoke_iff]
    simp [isSet, reports, Int.not_le.mpr hset, Int.not_lt.mpr hover]
  · rw [if_neg hidle, closeIfSent, if_neg (by simp [hdisc])]
    refine iff_of_true hrest ?_
    simp only [Bool.or_eq_true, decide_eq_true_eq]
    rcases not_and_or.mp hidle with hunset | hearly
    · exact .inl (.inr (by omega))
    · exact .inr (by omega)

/-- On a disconnected session, what goes on invokes nothing next, if and only if it finds nothing to report. -/
theorem next_silent_iff {task : Task} {rest : List Task} (hdisc : sys.session.state = .disconnected)
    (hplain : ∀ cb, .invoke cb ∉ rest) (hnext : next cfg k sys task rest = some sys') :
    Silent cfg sys'.stack ↔ findsNothing cfg k sys.session task = true := by
  have hrest : Silent cfg rest := .plain hplain
  cases task with
  | user => cases hnext
  | invoke cb =>
    obtain rfl := Option.some.inj hnext
    refine iff_of_true ?_ rfl
    cases hset : isSet cfg cb with
    | true => exact fun cb' hhead => by cases hhead
    | false => exact hrest
  | handleClose =>
    obtain rfl := Option.some.inj hnext
    rw [Sys.did, handleClose, if_pos hdisc]
    exact iff_of_true hrest rfl
  | drainTurn =>
    obtain rfl := Option.some.inj hnext
    exact drainTurn_silent_iff cfg k sys.session rest
  | drainEnd =>
    obtain rfl := Option.some.inj hnext
    exact drainEnd_silent_iff hrest k sys.session
  | inputEnd =>
    obtain rfl := Option.some.inj hnext
    have hsame : scheduleUpdate (nowMs k) k sys.session = sys.session := if_pos hdisc
    rw [Sys.did, inputEnd, hsame, closeIfSent, if_neg (by simp [hdisc])]
    exact iff_of_true hrest rfl
  | updateEnd now =>
    obtain rfl := Option.some.inj hnext
    exact updateEnd_silent_iff hdisc hrest now k

/-- A call on a disconnected session does nothing. -/
theorem perform_disconnected (hdisc : s.state = .disconnected) {c : Call} (hc : c ≠ .connectEstablished) (k : Answers) :
    perform k s c = (s, []) := by
  cases c with
  | connectEstablished => exact absurd rfl hc
  | connectDestroyed => exact if_pos hdisc
  | send data =>
    have hsend : sendInLoop data k s = (s, []) := if_pos (.inl hdisc)
    show send data k s = (s, [])
    rw [send, hsend, ite_self]
  | inputPacket packet =>
    have hinput : inputPacketInLoop k s = (s, []) := if_pos hdisc
    show inputPacket packet k s = (s, [])
    rw [inputPacket, hinput, ite_self]
  | shutdown => exact if_pos hdisc
  | forceClose => exact if_pos hdisc

theorem Fits.closed (h : Fits sys) (hcloses : 0 < sys.closes) : sys.session.state = .disconnected := by
  by_contra hno
  have hle := h.closes
  rw [ended, if_neg hno] at hle
  omega

/-- Once the close callback has been invoked, a step leaves nothing to be reported if and only if it is quiet. -/
theorem Fits.silent_iff (h : Fits sys) (hcloses : 0 < sys.closes) (hstep : KcpSession.step cfg sys a = some sys') :
    Silent cfg sys'.stack ↔ quiet cfg sys a = true := by
  have hdisc := h.closed hcloses
  cases a with
  | next k =>
    simp only [KcpSession.step] at hstep
    split at hstep
    · rename_i task rest hstack
      have hopen : decide (sys.closes = 0) = false := decide_eq_false (by omega)
      rw [quiet, hopen, Bool.false_or, hstack]
      exact next_silent_iff hdisc (h.below hstack) hstep
    · cases hstep
  | call c k =>
    simp only [KcpSession.step] at hstep
    split at hstep
    · rename_i hcall
      obtain rfl := Option.some.inj hstep
      have hc : c ≠ .connectEstablished := by
        rintro rfl
        obtain ⟨hconnecting, -⟩ := h.before (by simpa [mayCall] using hcall)
        rw [hconnecting] at hdisc
        cases hdisc
      have hplain := mayCall_plain h hcall
      rw [Sys.did, perform_disconnected hdisc hc]
      exact iff_of_true (.plain hplain) rfl
    · cases hstep
  | returns =>
    simp only [KcpSession.step] at hstep
    split at hstep
    · rename_i rest hstack
      obtain rfl := Option.some.inj hstep
      exact iff_of_true (.plain (h.below hstack)) rfl
    · cases hstep
  | fire timer k =>
    simp only [KcpSession.step] at hstep
    split at hstep
    · rename_i hfire
      have hnone := h.timed.disconnected hdisc
      rw [hnone] at hfire
      cases hfire.2
    · cases hstep

/-- The step that invokes the close callback. -/
theorem Fits.begins_close (h : Fits sys) (hopen : sys.closes = 0) (hstep : KcpSession.step cfg sys a = some sys')
    (hcloses : 0 < sys'.closes) : Silent cfg sys'.stack := by
  cases a with
  | next k =>
    simp only [KcpSession.step] at hstep
    split at hstep
    · rcases next_does h.timed rfl hstep with ⟨cb, rfl, -, rfl⟩ | ⟨t, rfl, -, -⟩
      · exact fun cb' hhead => by cases hhead
      · exact absurd hopen hcloses.ne'
    · cases hstep
  | call c k =>
    simp only [KcpSession.step] at hstep
    split at hstep
    · obtain rfl := Option.some.inj hstep
      exact absurd hopen hcloses.ne'
    · cases hstep
  | returns =>
    simp only [KcpSession.step] at hstep
    split at hstep
    · obtain rfl := Option.some.inj hstep
      exact absurd hopen hcloses.ne'
    · cases hstep
  | fire timer k =>
    simp only [KcpSession.step] at hstep
    split at hstep
    · obtain rfl := Option.some.inj hstep
      exact absurd hopen hcloses.ne'
    · cases hstep

/-- No message, write-complete or error callback begins once the close callback has been invoked. -/
theorem nothing_is_reported_after_close {tick : Int} {timersBefore : Nat}
    (h : (session cfg tick timersBefore).Reach (fun sys a => quiet cfg sys a = true) sys) (hcloses : 0 < sys.closes) :
    (starts cfg sys a).any reports = false := by
  have hinv : Fits sys ∧ (0 < sys.closes → Silent cfg sys.stack) := by
    refine h.inv (I := fun sys => Fits sys ∧ (0 < sys.closes → Silent cfg sys.stack))
      ⟨Fits.make tick timersBefore, fun hpos => by cases hpos⟩ ?_
    intro sys a sys' hI hok hstep
    refine ⟨hI.1.step hstep, fun hcloses => ?_⟩
    by_cases hopen : sys.closes = 0
    · exact hI.1.begins_close hopen hstep hcloses
    · exact (hI.1.silent_iff (Nat.pos_of_ne_zero hopen) hstep).mpr hok
  have hsilent := hinv.2 hcloses
  unfold starts
  split
  · split
    · rename_i cb rest hstack
      split
      · rename_i hset
        simpa using hsilent cb (by rw [hstack]; rfl) hset
      · rfl
    · rfl
  · rfl

/-- The timer fires, a message is there, and its callback closes the session. -/
def closedByMessage : List Label :=
  [.call .connectEstablished {}, .fire ⟨1, 0⟩ {}, .next { peek := 1, recv := some [1] }, .next {}, .call .forceClose {},
    .next {}, .returns, .returns]

/-- No second message is there, and data is left to be sent. -/
theorem nothing_is_reported_after_close_one :
    ∃ sys, (session plain 0 0).Reach (fun sys a => quiet plain sys a = true) sys ∧ 0 < sys.closes ∧
      (starts plain sys (.next {})).any reports = false := by
  obtain ⟨sys, hreach, hp⟩ := Lib.Machine.Reach.of_run (session plain 0 0) (fun sys a => quiet plain sys a = true)
    (fun sys => decide (0 < sys.closes)) (closedByMessage ++ [.next {}, .next { waitsnd := 1 }]) (by decide +kernel)
  have hcloses : 0 < sys.closes := of_decide_eq_true hp
  exact ⟨sys, hreach, hcloses, nothing_is_reported_after_close hreach hcloses⟩

/-- With a second message, `drainRecvQueue` goes on, and the message callback is invoked again. -/
theorem a_second_message_follows_the_close :
    ∃ sys, (session plain 0 0).Reach (fun _ _ => True) sys ∧ sys.session.state = .disconnected ∧ 0 < sys.closes ∧
      starts plain sys (.next {}) = some (.message [2]) := by
  obtain ⟨sys, hreach, hp⟩ := Lib.Machine.Reach.of_run (session plain 0 0) (fun _ _ => True)
    (fun sys => decide (sys.session.state = .disconnected ∧ 0 < sys.closes ∧
      starts plain sys (.next {}) = some (.message [2])))
    (closedByMessage ++ [.next { peek := 1, recv := some [2] }]) (by decide +kernel)
  exact ⟨sys, hreach, of_decide_eq_true hp⟩

end Dbase.Net.KcpSession
