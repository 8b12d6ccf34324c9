/-
  Dbase.Time.TimerWheelRuns — when timers fire, over whole runs of a `TimerMgr`.

  A run registers and unregisters timers between steps and takes steps, with the clock at
  `last_tick_` (`Reach`). What happened to a timer is read off the log: the part behind one
  registration of it, up to its next registration or the end, in which nobody unregisters it.

  Proved:
  (1) `fires_exactly_once`: registered between two steps with timeout `T`, a timer fires once,
      in the `T`-th step from then, through every cascade.
  (2) `callback_fires_exactly_iff`: registered by a callback it does so except where the drained
      wheel has just come back to zero and `T` is at least a turn of it: the wheels above have
      not moved yet, and the timer fires that turn early. A timer of 256 ticks set by a
      callback in the step in which wheel 0 wraps fires in that very step
      (`a_callback_timer_fires_at_once`).
  (3) `same_ticks_under_both`: two schedules of `tick` to the same end fire every timer at the
      same tick, if no step re-registers a timer while the clock is ahead. A late call that
      cascades pushes the timer back by the lag (`a_late_tick_delays_a_cascaded_timer`).
-/

import Dbase.Time.TimerWheelProofs

namespace Dbase.Time.TimerWheel

open Dbase.Lib

/-! ## Runs with the clock at `last_tick_` -/

inductive Reach : Mgr → Prop
  | init (now : Nat) : Reach (initTick make now)
  | act {m : Mgr} (E : Env) (a : Act) : Reach m → (∀ i, E.getNow i = m.last_tick) → Reach (act E .outside m a)
  | step {m : Mgr} (E : Env) : Reach m → (∀ i, E.getNow i = m.last_tick + 1) →
      Reach (tickInternal E m (m.last_tick + 1))

theorem tickInternal_one (E : Env) (m : Mgr) :
    tickInternal E m (m.last_tick + 1) = step E { m with last_tick := m.last_tick + 1 } := by
  unfold tickInternal
  rw [if_neg (by omega), Nat.add_sub_cancel_left]
  rfl

theorem reach_rest {m : Mgr} (h : Reach m) : ∃ n, Rest n m := by
  induction h with
  | init now => exact ⟨0, make_rest now⟩
  | act E a _ hE ih =>
    obtain ⟨n, hn⟩ := ih
    exact ⟨n, (outside_ok hn hE a).1⟩
  | @step m E _ hE ih =>
    obtain ⟨n, hn⟩ := ih
    have hn' : Rest n { m with last_tick := m.last_tick + 1 } :=
      ⟨⟨hn.ok.accepts, ⟨hn.ok.good.cur, hn.ok.good.slots, ⟨hn.ok.good.linked.owner, hn.ok.good.linked.nodup⟩,
        hn.ok.good.sits, hn.ok.good.free⟩⟩, hn.now⟩
    rw [tickInternal_one]
    exact ⟨n + 1, (step_ok hn' hE).1⟩

/-- The calls of `x`'s `onTimeOut`, each as the number of steps begun before it. -/
def firings (x : TimerId) : Nat → List Event → List Nat
  | _, [] => []
  | n, .fired t _ :: es => if t = x then n :: firings x n es else firings x n es
  | n, .stepped :: es => firings x (n + 1) es
  | n, .registered _ _ _ :: es => firings x n es
  | n, .unregistered _ :: es => firings x n es

def steps : List Event → Nat
  | [] => 0
  | .stepped :: es => steps es + 1
  | .fired _ _ :: es => steps es
  | .registered _ _ _ :: es => steps es
  | .unregistered _ :: es => steps es

/-- Nobody registers or unregisters `x`. -/
def Undisturbed (x : TimerId) (es : List Event) : Prop :=
  ∀ e ∈ es, e ≠ .unregistered x ∧ ∀ T o, e ≠ .registered x T o

theorem fires_hist (x : TimerId) (es : List Event) : ∀ n, Deadlines.fires x n (hist es) = firings x n es := by
  induction es with
  | nil => intro n; rfl
  | cons e es ih =>
    intro n
    cases e with
    | fired t k =>
      show (if t = x then n :: Deadlines.fires x n (hist es) else Deadlines.fires x n (hist es)) = _
      rw [ih]
      rfl
    | stepped => exact ih (n + 1)
    | registered t T o => exact ih n
    | unregistered t => exact ih n

theorem ticks_hist (es : List Event) : Deadlines.ticks (hist es) = steps es := by
  induction es with
  | nil => rfl
  | cons e es ih =>
    cases e with
    | stepped => exact congrArg (· + 1) ih
    | fired t k => exact ih
    | registered t T o => exact ih
    | unregistered t => exact ih

theorem untouched_hist {x : TimerId} {es : List Event} (h : Undisturbed x es) : Deadlines.Untouched x (hist es) := by
  intro e he d
  obtain ⟨a, ha, rfl⟩ := List.mem_map.mp he
  obtain ⟨h1, h2⟩ := h a ha
  cases a with
  | fired t k => exact ⟨by simp [asEv], by simp [asEv]⟩
  | stepped => exact ⟨by simp [asEv], by simp [asEv]⟩
  | unregistered t => exact ⟨by simp [asEv], fun e => h1 (by injection e with e; rw [e])⟩
  | registered t T o => exact ⟨fun e => h2 T o (by injection e with e; rw [e]), by simp [asEv]⟩

/-- The registration of `x` has run its course: it is registered anew without having been
    unregistered, or `T` steps have passed. -/
def Ended (x : TimerId) (T : Nat) (during behind : List Event) : Prop :=
  (behind = [] ∧ T ≤ steps during) ∨ ∃ T' o es, behind = .registered x T' o :: es

/-- A registration fires once, after the delay it got. -/
theorem firings_of_registration {m : Mgr} (hr : Reach m) {before during behind : List Event} {x : TimerId} {T : Nat}
    {o : Origin} (hlog : m.log = before ++ .registered x T o :: during ++ behind) (hT : 1 ≤ T)
    (hu : Undisturbed x during) :
    (Ended x (delay T o) during behind → firings x 0 during = [delay T o]) ∧
      (steps during < delay T o → firings x 0 during = []) := by
  obtain ⟨n, hn⟩ := reach_rest hr
  have hacc := hn.ok.accepts
  have hmax : max 1 T = T := Nat.max_eq_right hT
  have hh : hist m.log = hist before ++ .set x (delay T o) :: hist during ++ hist behind := by
    rw [hlog]
    simp [hist, asEv, hmax]
  rw [hh] at hacc
  rw [← fires_hist]
  constructor
  · intro hend
    refine Deadlines.fires_once hacc (untouched_hist hu) ?_
    rcases hend with ⟨rfl, hle⟩ | ⟨T', o', es, rfl⟩
    · left
      refine ⟨rfl, by rw [ticks_hist]; exact hle, ?_⟩
      have hd : Deadlines.after nothing (hist before ++ .set x (delay T o) :: hist during) = dues m := by
        unfold dues
        rw [hh]
        simp [hist]
      intro u k hk
      rw [hd] at hk ⊢
      rw [hn.now]
      exact hn.ahead hk
    · right
      exact ⟨delay (max 1 T') o', hist es, rfl⟩
  · intro hlt
    have h1 := ((Deadlines.accepts_append _ _ _).mp hacc).1
    exact Deadlines.not_fired_early h1 (untouched_hist hu) (by rw [ticks_hist]; exact hlt)

/-- (1) A timer registered between two steps fires exactly once, in the `T`-th step. -/
theorem fires_exactly_once {m : Mgr} (hr : Reach m) {before during behind : List Event} {x : TimerId} {T : Nat}
    (hlog : m.log = before ++ .registered x T .outside :: during ++ behind) (hT : 1 ≤ T) (hu : Undisturbed x during) :
    (Ended x T during behind → firings x 0 during = [T]) ∧ (steps during < T → firings x 0 during = []) :=
  firings_of_registration hr hlog hT hu

/-- An environment whose clock stands at `now`. -/
def clockAt (now : Nat) (onTimeOut : Nat → TimerId → List Act) : Env := ⟨fun _ => now, onTimeOut⟩

/-- `count` calls of `tick`, one each tick. -/
def everyTick (onTimeOut : Nat → TimerId → List Act) : Nat → Mgr → Mgr
  | 0, m => m
  | count + 1, m =>
    everyTick onTimeOut count (tickInternal (clockAt (m.last_tick + 1) onTimeOut) m (m.last_tick + 1))

theorem reach_everyTick (onTimeOut : Nat → TimerId → List Act) (count : Nat) :
    ∀ m : Mgr, Reach m → Reach (everyTick onTimeOut count m) := by
  induction count with
  | zero => intro m h; exact h
  | succ count ih =>
    intro m h
    exact ih _ (.step (clockAt (m.last_tick + 1) onTimeOut) h (fun _ => rfl))

/-- A call between two steps, with the clock where the manager is. -/
def actNow (onTimeOut : Nat → TimerId → List Act) (m : Mgr) (a : Act) : Mgr :=
  act (clockAt m.last_tick onTimeOut) .outside m a

theorem reach_actNow (onTimeOut : Nat → TimerId → List Act) {m : Mgr} (h : Reach m) (a : Act) :
    Reach (actNow onTimeOut m a) := .act (clockAt m.last_tick onTimeOut) a h (fun _ => rfl)

def silent (_ : Nat) (_ : TimerId) : List Act := []

/-- A timer of two ticks, registered after one step. -/
def twoTicks : Mgr :=
  everyTick silent 2 (actNow silent (everyTick silent 1 (initTick make 7)) (.registerTimer (some 5) 2))

theorem fires_exactly_once_two : firings 5 0 [.stepped, .stepped, .fired 5 10] = [2] := by
  have hr : Reach twoTicks :=
    reach_everyTick silent 2 _
      (reach_actNow silent (reach_everyTick silent 1 (initTick make 7) (.init 7)) (.registerTimer (some 5) 2))
  have hlog : twoTicks.log =
      [Event.stepped] ++ Event.registered 5 2 .outside :: [.stepped, .stepped, .fired 5 10] ++ [] := by decide +kernel
  exact (fires_exactly_once hr hlog (by decide) (by intro e he; fin_cases he <;> simp)).1 (Or.inl ⟨rfl, by decide⟩)

/-- (2) A timer registered by a callback fires exactly once, `T` steps later, exactly when the
    drained wheel does not stand at zero or `T` is less than a whole turn of it. -/
theorem callback_fires_exactly_iff {m : Mgr} (hr : Reach m) {before during behind : List Event} {x : TimerId}
    {T wheel_no cur_slot : Nat}
    (hlog : m.log = before ++ .registered x T (.callback wheel_no cur_slot) :: during ++ behind) (hT : 1 ≤ T)
    (hu : Undisturbed x during) (hend : Ended x T during behind) :
    firings x 0 during = [T] ↔ ¬ (cur_slot = 0 ∧ base (wheel_no + 1) ≤ T) := by
  have hpos := base_pos (wheel_no + 1)
  have hle : delay T (.callback wheel_no cur_slot) ≤ T := by
    simp only [delay]
    split <;> omega
  have hend' : Ended x (delay T (.callback wheel_no cur_slot)) during behind := by
    rcases hend with ⟨h1, h2⟩ | h
    · exact Or.inl ⟨h1, by omega⟩
    · exact Or.inr h
  rw [(firings_of_registration hr hlog hT hu).1 hend']
  simp only [delay]
  constructor
  · intro he hbad
    rw [if_pos hbad] at he
    injection he with he
    omega
  · intro hgood
    rw [if_neg hgood]

/-- A callback of timer 0 that registers timer 1 for `T` ticks. -/
def chained (T : UInt32) (_ : Nat) (t : TimerId) : List Act := if t = 0 then [.registerTimer (some 1) T] else []

def nextTick : Mgr := everyTick (chained 1) 2 (actNow (chained 1) (initTick make 7) (.registerTimer (some 0) 1))

theorem callback_fires_exactly_next : firings 1 0 [.stepped, .fired 1 9] = [1] := by
  have hr : Reach nextTick :=
    reach_everyTick (chained 1) 2 _ (reach_actNow (chained 1) (.init 7) (.registerTimer (some 0) 1))
  have hlog : nextTick.log = [Event.registered 0 1 .outside, .stepped, .fired 0 8] ++
      Event.registered 1 1 (.callback 0 1) :: [.stepped, .fired 1 9] ++ [] := by decide +kernel
  exact (callback_fires_exactly_iff hr hlog (by decide) (by intro e he; fin_cases he <;> simp)
    (Or.inl ⟨rfl, by decide⟩)).mpr (fun h => absurd h.1 (by decide))

/-- A timer is due in the step in which wheel 0 wraps; its callback registers another for 256
    ticks, which is registered once more after that step. -/
def wrapping : Mgr :=
  actNow (chained 256)
    (everyTick (chained 256) 255
      (actNow (chained 256) (everyTick (chained 256) 1 (initTick make 7)) (.registerTimer (some 0) 255)))
    (.registerTimer (some 1) 1)

theorem wrapping_reach : Reach wrapping :=
  reach_actNow (chained 256)
    (reach_everyTick (chained 256) 255 _
      (reach_actNow (chained 256) (reach_everyTick (chained 256) 1 (initTick make 7) (.init 7)) (.registerTimer (some 0) 255)))
    (.registerTimer (some 1) 1)

/-- Wheel 1 is yet to move in the step of the callback, and moves onto the new timer. -/
theorem a_callback_timer_fires_at_once :
    ¬ ∀ m, Reach m → ∀ (before during behind : List Event) (x T wheel_no cur_slot : Nat),
      m.log = before ++ .registered x T (.callback wheel_no cur_slot) :: during ++ behind → 1 ≤ T →
      Undisturbed x during → Ended x T during behind → firings x 0 during = [T] := by
  intro hall
  have hlog : wrapping.log =
      (Event.stepped :: .registered 0 255 .outside :: List.replicate 255 Event.stepped ++ [Event.fired 0 263]) ++
        Event.registered 1 256 (.callback 0 0) :: [.fired 1 263] ++ [Event.registered 1 1 .outside] := by
    decide +kernel
  have hu : Undisturbed 1 [.fired 1 263] := by intro e he; fin_cases he; simp
  have := hall _ wrapping_reach _ _ _ 1 256 0 0 hlog (by decide) hu (Or.inr ⟨1, .outside, [], rfl⟩)
  exact absurd this (by decide)

/-! ## Schedules of `tick` -/

/-- Calls of `tick` at the times of `schedule`; the clock stands still during a call. -/
def ticks (onTimeOut : Nat → TimerId → List Act) (m : Mgr) (schedule : List Nat) : Mgr :=
  schedule.foldl (fun m now => tickInternal (clockAt now onTimeOut) m now) m

/-- The next step will reach, on a wheel above the lowest, a timer with ticks left. -/
def Cascades (m : Mgr) : Prop :=
  ∃ k, 0 < k ∧ k < 5 ∧ (∀ j, j < k → (m.cur_slot j + 1) % elementCntPerWheel j = 0) ∧
    ∃ t ∈ m.tlist k ((m.cur_slot k + 1) % elementCntPerWheel k), m.timeout_ t ≠ 0

/-- The next step re-registers nothing, or the clock is not ahead (as far as a `uint32_t` can tell). -/
def Calm (now : Nat) (m : Mgr) : Prop := (now - m.last_tick) % 2 ^ 32 = 0 ∨ ¬ Cascades m

def CalmFor (onTimeOut : Nat → TimerId → List Act) (now : Nat) : Nat → Mgr → Prop
  | 0, _ => True
  | count + 1, m =>
    Calm now { m with last_tick := m.last_tick + 1 } ∧
      CalmFor onTimeOut now count (step (clockAt now onTimeOut) { m with last_tick := m.last_tick + 1 })

/-- Every step of a schedule is calm. -/
def CalmThrough (onTimeOut : Nat → TimerId → List Act) : Mgr → List Nat → Prop
  | _, [] => True
  | m, now :: schedule =>
    CalmFor onTimeOut now (now - m.last_tick) m ∧
      CalmThrough onTimeOut (tickInternal (clockAt now onTimeOut) m now) schedule

def RegistersNothing (onTimeOut : Nat → TimerId → List Act) : Prop :=
  ∀ i t, ∀ a ∈ onTimeOut i t, ∃ timer, a = .unRegisterTimer timer

/-! ### What a step leaves alone -/

theorem unRegisterTimer_tick (m : Mgr) (t : TimerId) : (unRegisterTimer m (some t)).2.last_tick = m.last_tick := by
  simp only [unRegisterTimer]
  split
  · exact (remove_fields m t).2.2.1
  · rfl

theorem lagged_tick (E : Env) (m : Mgr) (timeout : UInt32) : (lagged E m timeout).2.last_tick = m.last_tick := by
  unfold lagged
  split
  · simp only
    split <;> rfl
  · rfl

theorem registerTimer_tick (E : Env) (m : Mgr) (t : TimerId) (timeout : UInt32) :
    (registerTimer E m (some t) timeout).2.last_tick = m.last_tick := by
  unfold registerTimer
  simp only
  rw [(place_fields _ _ _).2.1, lagged_tick]
  split
  · exact unRegisterTimer_tick m t
  · rfl

theorem act_tick (E : Env) (origin : Origin) (m : Mgr) (a : Act) : (act E origin m a).last_tick = m.last_tick := by
  have noted : ∀ t, (if isRegistered m t then m.note (.unregistered t) else m).last_tick = m.last_tick := by
    intro t
    split <;> rfl
  cases a with
  | unRegisterTimer timer =>
    cases timer with
    | none => rfl
    | some t => exact (unRegisterTimer_tick _ t).trans (noted t)
  | registerTimer timer timeout =>
    cases timer with
    | none => rfl
    | some t => exact (registerTimer_tick E _ t timeout).trans (noted t)

theorem acts_tick (E : Env) (origin : Origin) (acts : List Act) :
    ∀ m : Mgr, (acts.foldl (act E origin) m).last_tick = m.last_tick := by
  induction acts with
  | nil => intro m; rfl
  | cons a acts ih => intro m; exact (ih _).trans (act_tick E origin m a)

theorem onTimeOut_tick (E : Env) (k : Nat) (m : Mgr) (t : TimerId) : (onTimeOut E k m t).last_tick = m.last_tick :=
  acts_tick E _ _ (m.called t)

theorem drain_tick (E : Env) (k n : Nat) : ∀ m : Mgr, (drain E k n m).last_tick = m.last_tick := by
  induction n with
  | zero => intro m; rfl
  | succ n ih =>
    intro m
    rcases hl : m.tlist k (m.cur_slot k) with _ | ⟨t, rest⟩
    · simp only [drain, pop, hl]
    · have hr := (remove_fields m t).2.2.1
      simp only [drain, pop, hl]
      split
      · rw [ih, onTimeOut_tick, hr]
      · rw [ih, registerTimer_tick, hr]

theorem turns_tick (E : Env) (n : Nat) : ∀ (k : Nat) (m : Mgr), (turns E n k m).last_tick = m.last_tick := by
  induction n with
  | zero => intro k m; rfl
  | succ n ih =>
    intro k m
    have ht : (turn E k m).last_tick = m.last_tick := drain_tick E k _ _
    unfold turns
    simp only
    split
    · exact ht
    · exact (ih (k + 1) _).trans ht

theorem step_tick (E : Env) (m : Mgr) : (step E m).last_tick = m.last_tick := turns_tick E wheelCnt 0 _

/-! ### Steps that do not see the lag -/

section Congr
variable {E E' : Env} {L : Nat} (hcb : E.onTimeOut = E'.onTimeOut)
  (hl : ∀ (m : Mgr) (timeout : UInt32), m.last_tick = L → lagged E m timeout = lagged E' m timeout)

include hl in
theorem registerTimer_congr {m : Mgr} (hm : m.last_tick = L) (t : Option TimerId) (timeout : UInt32) :
    registerTimer E m t timeout = registerTimer E' m t timeout := by
  cases t with
  | none => rfl
  | some t =>
    unfold registerTimer
    simp only
    rw [hl]
    split
    · exact (unRegisterTimer_tick m t).trans hm
    · exact hm

include hl in
theorem act_congr {m : Mgr} (hm : m.last_tick = L) (origin : Origin) (a : Act) : act E origin m a = act E' origin m a := by
  cases a with
  | unRegisterTimer timer => rfl
  | registerTimer timer timeout =>
    cases timer with
    | none => rfl
    | some t =>
      simp only [act]
      rw [registerTimer_congr hl]
      split <;> exact hm

include hl in
theorem acts_congr (origin : Origin) (acts : List Act) :
    ∀ m : Mgr, m.last_tick = L → acts.foldl (act E origin) m = acts.foldl (act E' origin) m := by
  induction acts with
  | nil => intro m _; simp only [List.foldl_nil]
  | cons a acts ih =>
    intro m hm
    have hnext : (act E' origin m a).last_tick = L := (act_tick E' origin m a).trans hm
    rw [List.foldl_cons, List.foldl_cons, act_congr hl hm origin a, ih (act E' origin m a) hnext]

include hcb hl in
theorem onTimeOut_congr (k : Nat) {m : Mgr} (hm : m.last_tick = L) (t : TimerId) :
    onTimeOut E k m t = onTimeOut E' k m t := by
  unfold onTimeOut
  rw [hcb]
  exact acts_congr hl _ _ _ hm

include hcb hl in
theorem drain_congr (k n : Nat) : ∀ m : Mgr, m.last_tick = L → drain E k n m = drain E' k n m := by
  induction n with
  | zero => intro m _; rfl
  | succ n ih =>
    intro m hm
    rcases hls : m.tlist k (m.cur_slot k) with _ | ⟨t, rest⟩
    · simp only [drain, pop, hls]
    · have hr : (remove m t).last_tick = L := (remove_fields m t).2.2.1.trans hm
      simp only [drain, pop, hls]
      rw [onTimeOut_congr hcb hl k hr, registerTimer_congr hl hr,
        ih _ ((onTimeOut_tick E' k _ t).trans hr), ih _ ((registerTimer_tick E' _ t _).trans hr)]

include hcb hl in
theorem turns_congr (n : Nat) : ∀ (k : Nat) (m : Mgr), m.last_tick = L → turns E n k m = turns E' n k m := by
  induction n with
  | zero => intro k m _; rfl
  | succ n ih =>
    intro k m hm
    have ht : turn E k m = turn E' k m := by
      unfold turn
      exact drain_congr hcb hl k _ _ hm
    have hlt : (turn E' k m).last_tick = L := (drain_tick E' k _ _).trans hm
    unfold turns
    simp only
    rw [ht, ih (k + 1) _ hlt]

end Congr

theorem lagged_multiple {m : Mgr} {now : Nat} {onTimeOut : Nat → TimerId → List Act}
    (h : (now - m.last_tick) % 2 ^ 32 = 0) (timeout : UInt32) :
    lagged (clockAt now onTimeOut) m timeout = lagged (clockAt m.last_tick onTimeOut) m timeout := by
  have he : UInt32.ofNat (now - m.last_tick + timeout.toNat) = timeout := by
    have hlt := timeout.toNat_lt
    apply UInt32.toNat_inj.mp
    rw [UInt32.toNat_ofNat', Nat.add_mod, h, Nat.zero_add, Nat.mod_mod, Nat.mod_eq_of_lt hlt]
  unfold lagged
  simp only [clockAt, Nat.lt_irrefl, if_false, he]
  split
  · split <;> rfl
  · rfl

/-! ### Steps that re-register nothing -/

/-- Timers have only left the lists. -/
structure Shrunk (m m' : Mgr) : Prop where
  cur : m'.cur_slot = m.cur_slot
  left : m'.timeout_ = m.timeout_
  lists : ∀ w s, m'.tlist w s ⊆ m.tlist w s

theorem Shrunk.refl (m : Mgr) : Shrunk m m := ⟨rfl, rfl, fun _ _ => List.Subset.refl _⟩

theorem Shrunk.trans {a b c : Mgr} (h : Shrunk a b) (g : Shrunk b c) : Shrunk a c :=
  ⟨g.cur.trans h.cur, g.left.trans h.left, fun w s => List.Subset.trans (g.lists w s) (h.lists w s)⟩

theorem remove_shrunk (m : Mgr) (t : TimerId) : Shrunk m (remove m t) := by
  obtain ⟨h1, h2, _, _⟩ := remove_fields m t
  refine ⟨h1, h2, ?_⟩
  intro w s
  unfold remove
  split
  · exact List.Subset.refl _
  · simp only [Mgr.setOwner, Mgr.setList]
    split
    · rename_i he
      rw [he.1, he.2]
      exact List.erase_subset
    · exact List.Subset.refl _

theorem unregister_shrunk (E : Env) (origin : Origin) (m : Mgr) (timer : Option TimerId) :
    Shrunk m (act E origin m (.unRegisterTimer timer)) := by
  cases timer with
  | none => exact Shrunk.refl m
  | some t =>
    by_cases hr : isRegistered m t = true
    · have hr' : isRegistered (m.note (.unregistered t)) t = true := hr
      simp only [act, hr, if_true, unRegisterTimer, hr']
      have := remove_shrunk (m.note (.unregistered t)) t
      exact ⟨this.cur, this.left, this.lists⟩
    · simp only [act, unRegisterTimer, hr, Bool.false_eq_true, if_false]
      exact Shrunk.refl m

/-- A callback that registers nothing does not read the clock. -/
theorem acts_quiet (E E' : Env) (origin : Origin) (acts : List Act) :
    ∀ m : Mgr, (∀ a ∈ acts, ∃ timer, a = .unRegisterTimer timer) →
      acts.foldl (act E origin) m = acts.foldl (act E' origin) m ∧ Shrunk m (acts.foldl (act E origin) m) := by
  induction acts with
  | nil =>
    intro m _
    simp only [List.foldl_nil]
    exact ⟨trivial, Shrunk.refl m⟩
  | cons a acts ih =>
    intro m h
    obtain ⟨timer, rfl⟩ := h a List.mem_cons_self
    have hs := unregister_shrunk E origin m timer
    have he : act E' origin m (.unRegisterTimer timer) = act E origin m (.unRegisterTimer timer) := rfl
    obtain ⟨i1, i2⟩ := ih (act E origin m (.unRegisterTimer timer)) (fun b hb => h b (List.mem_cons_of_mem _ hb))
    rw [List.foldl_cons, List.foldl_cons, he]
    exact ⟨i1, hs.trans i2⟩

theorem drain_quiet {onTimeOut : Nat → TimerId → List Act} (hcb : RegistersNothing onTimeOut) (now now' k n : Nat) :
    ∀ m : Mgr, (∀ t ∈ m.tlist k (m.cur_slot k), k = 0 ∨ m.timeout_ t = 0) →
      drain (clockAt now onTimeOut) k n m = drain (clockAt now' onTimeOut) k n m ∧
        Shrunk m (drain (clockAt now onTimeOut) k n m) := by
  induction n with
  | zero => intro m _; exact ⟨rfl, Shrunk.refl m⟩
  | succ n ih =>
    intro m h
    rcases hl : m.tlist k (m.cur_slot k) with _ | ⟨t, rest⟩
    · simp only [drain, pop, hl]
      exact ⟨trivial, Shrunk.refl m⟩
    · have hr := remove_shrunk m t
      have ht : k = 0 ∨ (remove m t).timeout_ t = 0 := by
        rw [hr.left]
        exact h t (by rw [hl]; exact List.mem_cons_self)
      obtain ⟨a1, a2⟩ := acts_quiet (clockAt now onTimeOut) (clockAt now' onTimeOut)
        (.callback k ((remove m t).cur_slot k)) (onTimeOut (remove m t).calls t) ((remove m t).called t) (hcb _ _)
      have hc : Shrunk (remove m t) ((remove m t).called t) := ⟨rfl, rfl, fun _ _ => List.Subset.refl _⟩
      have hs : Shrunk m (TimerWheel.onTimeOut (clockAt now onTimeOut) k (remove m t) t) := hr.trans (hc.trans a2)
      have he : TimerWheel.onTimeOut (clockAt now onTimeOut) k (remove m t) t =
          TimerWheel.onTimeOut (clockAt now' onTimeOut) k (remove m t) t := a1
      obtain ⟨i1, i2⟩ := ih (TimerWheel.onTimeOut (clockAt now onTimeOut) k (remove m t) t) (by
        intro u hu
        rw [hs.cur] at hu
        rw [hs.left]
        exact h u (hs.lists _ _ hu))
      simp only [drain, pop, hl, ht, if_true]
      rw [← he]
      exact ⟨i1, hs.trans i2⟩

/-- The wheels from `k` on have nothing to re-register in this step. -/
def Quiet (k : Nat) (m : Mgr) : Prop :=
  ∀ j, k ≤ j → 0 < j → j < 5 → (∀ i, k ≤ i → i < j → (m.cur_slot i + 1) % elementCntPerWheel i = 0) →
    ∀ t ∈ m.tlist j ((m.cur_slot j + 1) % elementCntPerWheel j), m.timeout_ t = 0

theorem turns_quiet {onTimeOut : Nat → TimerId → List Act} (hcb : RegistersNothing onTimeOut) (now now' n : Nat) :
    ∀ (k : Nat) (m : Mgr), n + k ≤ 5 → Quiet k m →
      turns (clockAt now onTimeOut) n k m = turns (clockAt now' onTimeOut) n k m := by
  induction n with
  | zero => intro k m _ _; rfl
  | succ n ih =>
    intro k m hk hq
    let m1 := m.setSlot k ((m.cur_slot k + 1) % elementCntPerWheel k)
    have hcur : m1.cur_slot k = (m.cur_slot k + 1) % elementCntPerWheel k := by simp [m1, Mgr.setSlot]
    obtain ⟨d1, d2⟩ := drain_quiet hcb now now' k (m1.tlist k (m1.cur_slot k)).length m1 (by
      intro t ht
      rcases Nat.eq_zero_or_pos k with h0 | h0
      · exact Or.inl h0
      · rw [hcur] at ht
        exact Or.inr (hq k (Nat.le_refl k) h0 (by omega) (fun i h1 h2 => by omega) t ht))
    have ht : turn (clockAt now onTimeOut) k m = turn (clockAt now' onTimeOut) k m := d1
    have hs : Shrunk m1 (turn (clockAt now onTimeOut) k m) := d2
    unfold turns
    simp only
    rw [← ht]
    split
    · rfl
    · rename_i hz
      have hz : m1.cur_slot k = 0 := by rw [← hs.cur]; simpa using hz
      refine ih (k + 1) _ (by omega) ?_
      intro j hj h0 h5 hbelow t htm
      have hcj : ∀ i, k + 1 ≤ i → (turn (clockAt now onTimeOut) k m).cur_slot i = m.cur_slot i := by
        intro i hi
        rw [hs.cur]
        simp only [m1, Mgr.setSlot, show i ≠ k by omega, if_false]
      rw [hcj j hj] at htm
      rw [hs.left]
      refine hq j (by omega) h0 h5 ?_ t (hs.lists _ _ htm)
      intro i h1 h2
      rcases Nat.eq_or_lt_of_le h1 with rfl | h1
      · rw [← hcur]; exact hz
      · have := hbelow i h1 h2
        rwa [hcj i h1] at this

theorem quiet_of_not_cascades {m : Mgr} (h : ¬ Cascades m) : Quiet 0 m := by
  intro j _ h0 h5 hbelow t ht
  by_contra hc
  exact h ⟨j, h0, h5, fun i hi => hbelow i (Nat.zero_le i) hi, t, ht, hc⟩

/-- A calm step does what it does with the clock at `last_tick_`. -/
theorem step_calm {onTimeOut : Nat → TimerId → List Act} (hcb : RegistersNothing onTimeOut) {now : Nat} {m : Mgr}
    (h : Calm now m) : step (clockAt now onTimeOut) m = step (clockAt m.last_tick onTimeOut) m := by
  rcases h with h | h
  · have hl : ∀ (m' : Mgr) (timeout : UInt32), m'.last_tick = m.last_tick →
        lagged (clockAt now onTimeOut) m' timeout = lagged (clockAt m.last_tick onTimeOut) m' timeout := by
      intro m' timeout hm'
      have h' : (now - m'.last_tick) % 2 ^ 32 = 0 := by rw [hm']; exact h
      rw [← hm']
      exact lagged_multiple h' timeout
    have hcb' : (clockAt now onTimeOut).onTimeOut = (clockAt m.last_tick onTimeOut).onTimeOut := rfl
    exact turns_congr hcb' hl wheelCnt 0 (m.note .stepped) rfl
  · exact turns_quiet hcb now m.last_tick wheelCnt 0 (m.note .stepped) (Nat.le_refl _) (quiet_of_not_cascades h)

theorem catchUp_calm {onTimeOut : Nat → TimerId → List Act} (hcb : RegistersNothing onTimeOut) {now : Nat} (count : Nat) :
    ∀ m : Mgr, CalmFor onTimeOut now count m → catchUp (clockAt now onTimeOut) count m = everyTick onTimeOut count m := by
  induction count with
  | zero => intro m _; rfl
  | succ count ih =>
    intro m h
    obtain ⟨h1, h2⟩ := h
    rw [catchUp, everyTick, tickInternal_one, ih _ h2, step_calm hcb h1]

theorem everyTick_tick (onTimeOut : Nat → TimerId → List Act) (count : Nat) :
    ∀ m : Mgr, (everyTick onTimeOut count m).last_tick = m.last_tick + count := by
  induction count with
  | zero => intro m; rfl
  | succ count ih =>
    intro m
    rw [everyTick, ih, tickInternal_one, step_tick]
    show m.last_tick + 1 + count = _
    omega

theorem everyTick_add (onTimeOut : Nat → TimerId → List Act) (a b : Nat) :
    ∀ m : Mgr, everyTick onTimeOut (a + b) m = everyTick onTimeOut b (everyTick onTimeOut a m) := by
  induction a with
  | zero => intro m; rw [Nat.zero_add]; rfl
  | succ a ih =>
    intro m
    rw [Nat.add_right_comm, everyTick, everyTick, ih]

/-- A calm schedule does what one call each tick does, up to the latest time it names. -/
theorem ticks_calm {onTimeOut : Nat → TimerId → List Act} (hcb : RegistersNothing onTimeOut) (schedule : List Nat) :
    ∀ m : Mgr, CalmThrough onTimeOut m schedule →
      ticks onTimeOut m schedule = everyTick onTimeOut (schedule.foldl max m.last_tick - m.last_tick) m := by
  induction schedule with
  | nil =>
    intro m _
    show m = everyTick onTimeOut (m.last_tick - m.last_tick) m
    rw [Nat.sub_self]
    rfl
  | cons now schedule ih =>
    intro m h
    obtain ⟨h1, h2⟩ := h
    have hfirst : tickInternal (clockAt now onTimeOut) m now = everyTick onTimeOut (now - m.last_tick) m := by
      unfold tickInternal
      split
      · rename_i hle
        rw [Nat.sub_eq_zero_of_le hle]
        rfl
      · exact catchUp_calm hcb _ m h1
    have htick : (tickInternal (clockAt now onTimeOut) m now).last_tick = max m.last_tick now := by
      rw [hfirst, everyTick_tick]
      omega
    have hmono : ∀ (l : List Nat) (x : Nat), x ≤ l.foldl max x := by
      intro l
      induction l with
      | nil => intro x; exact Nat.le_refl x
      | cons y l ih => intro x; exact Nat.le_trans (Nat.le_max_left x y) (ih _)
    have hge := hmono schedule (max m.last_tick now)
    have hrest := ih _ h2
    rw [htick] at hrest
    show ticks onTimeOut (tickInternal (clockAt now onTimeOut) m now) schedule = _
    rw [hrest, hfirst, ← everyTick_add, List.foldl_cons]
    congr 1
    omega

/-- The ticks at which `x` fires. -/
def firedTicks (x : TimerId) : List Event → List Nat
  | [] => []
  | .fired t tick :: es => if t = x then tick :: firedTicks x es else firedTicks x es
  | .stepped :: es => firedTicks x es
  | .registered _ _ _ :: es => firedTicks x es
  | .unregistered _ :: es => firedTicks x es

/-- (3) Two schedules that bring the clock to the same end fire every timer at the same ticks, if
    every step of each is calm. -/
theorem same_ticks_under_both (onTimeOut : Nat → TimerId → List Act) (hcb : RegistersNothing onTimeOut) (m : Mgr)
    (schedule schedule' : List Nat) (hsame : schedule.foldl max m.last_tick = schedule'.foldl max m.last_tick)
    (h : CalmThrough onTimeOut m schedule) (h' : CalmThrough onTimeOut m schedule') (x : TimerId) :
    firedTicks x (ticks onTimeOut m schedule).log = firedTicks x (ticks onTimeOut m schedule').log := by
  rw [ticks_calm hcb schedule m h, ticks_calm hcb schedule' m h', hsame]

theorem silent_registersNothing : RegistersNothing silent := by
  intro i t a ha
  cases ha

/-- A manager started at tick 1 with one timer. -/
def oneTimer (T : UInt32) : Mgr := actNow silent (initTick make 1) (.registerTimer (some 5) T)

/-- While the lowest wheel does not wrap, nothing cascades. -/
theorem calm_of_low {now : Nat} {m : Mgr} (h : (m.cur_slot 0 + 1) % elementCntPerWheel 0 ≠ 0) : Calm now m := by
  refine Or.inr ?_
  rintro ⟨k, h0, _, hb, _⟩
  exact h (hb 0 h0)

theorem same_ticks_late_call :
    firedTicks 5 (ticks silent (oneTimer 2) [3]).log = firedTicks 5 (ticks silent (oneTimer 2) [2, 3]).log := by
  refine same_ticks_under_both silent silent_registersNothing (oneTimer 2) [3] [2, 3] (by decide +kernel)
    ⟨⟨calm_of_low ?_, calm_of_low ?_, trivial⟩, trivial⟩
    ⟨⟨calm_of_low ?_, trivial⟩, ⟨calm_of_low ?_, trivial⟩, trivial⟩ 5
  · decide +kernel
  · decide +kernel
  · decide +kernel
  · decide +kernel

/-- A timer of 257 ticks is cascaded with one tick left in step 256. A call each tick fires it in
    the next; one call at the end adds the tick it is late by and does not fire it. -/
theorem a_late_tick_delays_a_cascaded_timer :
    ¬ ∀ (onTimeOut : Nat → TimerId → List Act), RegistersNothing onTimeOut → ∀ m, Reach m →
      ∀ schedule schedule' : List Nat, schedule.foldl max m.last_tick = schedule'.foldl max m.last_tick →
        ∀ x, firedTicks x (ticks onTimeOut m schedule).log = firedTicks x (ticks onTimeOut m schedule').log := by
  intro hall
  have hr : Reach (oneTimer 257) := reach_actNow silent (.init 1) (.registerTimer (some 5) 257)
  have := hall silent silent_registersNothing (oneTimer 257) hr (List.range' 2 257) [258] (by decide +kernel) 5
  exact absurd this (by decide +kernel)

end Dbase.Time.TimerWheel
