/-
  Dbase.Net.EventLoopProofs — the event loop as a mailbox of functors.

  `Step` says what each step may do, by where the loop thread is (`step_cases`).

  `box` maps a loop to the mailbox of `Lib.Mailbox`: its functor queue is what is pending, the bytes
  in the wakeup socket are the signals, and its phase says whether `poll` or the swap of
  `doPendingFunctors` comes first. `step_moves`: every step of the loop is a move of the mailbox.

  Proved (`never_sleeps_on_pending_work`): in every run in which each `queueInLoop` is heard, the loop
  is inside `poll` only with an empty queue, a readable wakeup descriptor, or a caller between its
  append and its wakeup; and the functors run in the order they were queued, each at most once.
  The order holds in every run (`ran_in_queue_order`).

  Not heard is a `queueInLoop` from a timer callback, or on the loop thread before `loop()`:
  `m_callingPendingFunctors` is unset there and the caller is the loop thread, so nothing is written
  to the descriptor, and `poll` comes before `doPendingFunctors`. Unless the descriptor is readable
  by then, the loop sleeps on the functor (`a_timer_callback_is_slept_on`).
-/

import Dbase.Lib.Mailbox
import Dbase.Net.EventLoop

namespace Dbase.Net.EventLoop

open Dbase.Lib (Mailbox)
open Dbase.Lib.Mailbox (Move)

variable {F : Type} {capacity : ℕ+} {s s' : Loop F}

/-! ## The steps -/

/-- A turn of the loop in `processTimers`: the pass ends, a task is dropped, or a callback starts. -/
theorem processTimers_cases (second : Bool) (now : Nat) (s : Loop F) :
    processTimers second now s = { s with pc := if second then .check else .poll } ∨
      ∃ task rest, s.timers = task :: rest ∧
        ((task.id ∈ s.cancelled ∨ task.id ∉ s.timerMap) ∧ processTimers second now s = { s with timers := rest } ∨
          (task.expiration ≤ now ∧ task.id ∉ s.cancelled ∧ task.id ∈ s.timerMap) ∧
            processTimers second now s = { s with timers := rest, pc := .timerCallback second now task }) := by
  unfold processTimers
  split
  · exact Or.inl rfl
  · rename_i task rest htimers
    split
    · rename_i hc
      exact Or.inr ⟨task, rest, htimers, Or.inl ⟨Or.inl hc, rfl⟩⟩
    · rename_i hc
      split
      · exact Or.inl rfl
      · rename_i hdue
        split
        · rename_i hmap
          exact Or.inr ⟨task, rest, htimers, Or.inl ⟨Or.inr hmap, rfl⟩⟩
        · rename_i hmap
          exact Or.inr ⟨task, rest, htimers, Or.inr ⟨⟨Nat.le_of_not_lt hdue, hc, not_not.mp hmap⟩, rfl⟩⟩

def inLoop : Pc F → Bool
  | .outside => false
  | _ => true

/-- What a step may do, by where the loop thread is. -/
inductive Step (capacity : ℕ+) (s : Loop F) : Act F → Loop F → Prop
  | enters (hpc : s.pc = .outside) (hl : s.looping = false) :
      Step capacity s .loop { s with looping := true, quit := false, pc := .check }
  | leaves (hpc : s.pc = .check) (hq : s.quit = true) :
      Step capacity s .next { s with looping := false, pc := .outside }
  | turns (hpc : s.pc = .check) (hq : s.quit = false) : Step capacity s .next { s with pc := .timers false s.clock }
  | timers {second : Bool} {now : Nat} (hpc : s.pc = .timers second now) :
      Step capacity s .next (processTimers second now s)
  | polls (hpc : s.pc = .poll) : Step capacity s .next { s with pc := .polling (getPollTimeoutMs s) }
  | pollReturns {timeoutMs : Nat} {active : List Channel} (hpc : s.pc = .polling timeoutMs) :
      Step capacity s (.pollReturns active) { s with pc := .channels active }
  | handlesWakeup {rest : List Channel} (hpc : s.pc = .channels (.wakeupFd :: rest)) :
      Step capacity s .next { s with pc := .wakeupRead rest }
  | handles {fd : Nat} {rest : List Channel} (hpc : s.pc = .channels (.user fd :: rest)) :
      Step capacity s .next { s with pc := .channelCallback rest }
  | reads {rest : List Channel} (hpc : s.pc = .wakeupRead rest) : Step capacity s .next (wakeupRead rest s)
  | handled (hpc : s.pc = .channels []) :
      Step capacity s .next { s with callingPendingFunctors := true, pc := .swap }
  | swaps (hpc : s.pc = .swap) :
      Step capacity s .next { s with pendingFunctors := [], pc := .functors s.pendingFunctors }
  | runs {f : Functor F} {rest : List (Functor F)} (hpc : s.pc = .functors (f :: rest)) :
      Step capacity s .next (runFunctor capacity f rest s)
  | ran (hpc : s.pc = .functors []) :
      Step capacity s .next { s with callingPendingFunctors := false, pc := .timers true s.clock }
  | calls {c : Call F} {s' : Loop F} (hu : inUserCode s.pc = true) (h : call capacity s c = some s') :
      Step capacity s (.call c) s'
  | timerReturns {second : Bool} {now : Nat} {task : TimerTask F} (hpc : s.pc = .timerCallback second now task) :
      Step capacity s .returns (timerReturns second now task s)
  | channelReturns {rest : List Channel} (hpc : s.pc = .channelCallback rest) :
      Step capacity s .returns { s with pc := .channels rest }
  | functorReturns {rest : List (Functor F)} (hpc : s.pc = .functorBody rest) :
      Step capacity s .returns { s with pc := .functors rest }
  | throws (hin : inLoop s.pc = true) : Step capacity s .throws { s with pc := .outside }
  | others {o : Other F} {s' : Loop F} (h : other capacity s o = some s') : Step capacity s (.other o) s'
  | ticks (elapsed : Nat) : Step capacity s (.tick elapsed) { s with clock := s.clock + elapsed }

theorem enter_cases (h : enter s = some s') : Step capacity s .loop s' := by
  unfold enter at h
  split at h
  · rename_i hpc
    split at h
    · cases h
    · rename_i hl
      cases h
      exact .enters hpc (by simpa using hl)
  · cases h

theorem next_cases (h : next capacity s = some s') : Step capacity s .next s' := by
  cases hpc : s.pc with
  | check =>
    simp only [next, hpc] at h
    split at h
    · rename_i hq
      cases h
      exact .leaves hpc hq
    · rename_i hq
      cases h
      exact .turns hpc (by simpa using hq)
  | timers second now =>
    simp only [next, hpc, Option.some.injEq] at h
    exact h ▸ .timers hpc
  | poll =>
    simp only [next, hpc, Option.some.injEq] at h
    exact h ▸ .polls hpc
  | channels active =>
    cases active with
    | nil =>
      simp only [next, hpc, Option.some.injEq] at h
      exact h ▸ .handled hpc
    | cons channel rest =>
      cases channel with
      | wakeupFd =>
        simp only [next, hpc, Option.some.injEq] at h
        exact h ▸ .handlesWakeup hpc
      | user fd =>
        simp only [next, hpc, Option.some.injEq] at h
        exact h ▸ .handles hpc
  | wakeupRead rest =>
    simp only [next, hpc, Option.some.injEq] at h
    exact h ▸ .reads hpc
  | swap =>
    simp only [next, hpc, Option.some.injEq] at h
    exact h ▸ .swaps hpc
  | functors rest =>
    cases rest with
    | nil =>
      simp only [next, hpc, Option.some.injEq] at h
      exact h ▸ .ran hpc
    | cons f rest =>
      simp only [next, hpc, Option.some.injEq] at h
      exact h ▸ .runs hpc
  | _ => simp [next, hpc] at h

theorem returns_cases (h : returns s = some s') : Step capacity s .returns s' := by
  cases hpc : s.pc with
  | timerCallback second now task =>
    simp only [returns, hpc, Option.some.injEq] at h
    exact h ▸ .timerReturns hpc
  | channelCallback rest =>
    simp only [returns, hpc, Option.some.injEq] at h
    exact h ▸ .channelReturns hpc
  | functorBody rest =>
    simp only [returns, hpc, Option.some.injEq] at h
    exact h ▸ .functorReturns hpc
  | _ => simp [returns, hpc] at h

theorem step_cases {a : Act F} (h : step capacity s a = some s') : Step capacity s a s' := by
  cases a with
  | loop => exact enter_cases h
  | next => exact next_cases h
  | pollReturns active =>
    simp only [step, pollReturns] at h
    split at h
    · rename_i hpc
      split at h
      · cases h
      · cases h
        exact .pollReturns hpc
    · cases h
  | call c =>
    simp only [step] at h
    split at h
    · rename_i hu
      exact .calls hu h
    · cases h
  | returns => exact returns_cases h
  | throws =>
    simp only [step, throws] at h
    split at h
    case h_5 => cases h
    all_goals
      rename_i hpc
      cases h
      exact .throws (by rw [hpc]; rfl)
  | other o => exact .others h
  | tick elapsed =>
    simp only [step, Option.some.injEq] at h
    exact h ▸ .ticks elapsed

/-! ## The mailbox of a loop -/

/-- Whether `poll` or `doPendingFunctors` comes first. -/
def phase (s : Loop F) : Mailbox.Phase (Functor F) :=
  match s.pc with
  | .outside => if s.looping then .stopped else .listening
  | .check => .listening
  | .timers _ _ => .listening
  | .timerCallback _ _ _ => .listening
  | .poll => .listening
  | .polling _ => .listening
  | .channels _ => .collecting
  | .channelCallback _ => .collecting
  | .wakeupRead _ => .collecting
  | .swap => .collecting
  | .functors rest => .working rest
  | .functorBody rest => .working rest

def box (s : Loop F) : Mailbox (Functor F) :=
  ⟨phase s, s.pendingFunctors, s.wakeupBytes, s.waking, s.queued, s.ran⟩

/-- A change of the timers, the requests and the clock, with signals at most. -/
structure Aside (s s' : Loop F) : Prop where
  pc : s'.pc = s.pc
  looping : s'.looping = s.looping
  calling : s'.callingPendingFunctors = s.callingPendingFunctors
  pending : s'.pendingFunctors = s.pendingFunctors
  waking : s'.waking = s.waking
  queued : s'.queued = s.queued
  ran : s'.ran = s.ran
  bytes : s.wakeupBytes ≤ s'.wakeupBytes

theorem Aside.refl (s : Loop F) : Aside s s := ⟨rfl, rfl, rfl, rfl, rfl, rfl, rfl, le_rfl⟩

theorem Aside.trans {s'' : Loop F} (h : Aside s s') (h' : Aside s' s'') : Aside s s'' where
  pc := h'.pc.trans h.pc
  looping := h'.looping.trans h.looping
  calling := h'.calling.trans h.calling
  pending := h'.pending.trans h.pending
  waking := h'.waking.trans h.waking
  queued := h'.queued.trans h.queued
  ran := h'.ran.trans h.ran
  bytes := h.bytes.trans h'.bytes

theorem Aside.box (h : Aside s s') : box s' = { box s with signals := s'.wakeupBytes } := by
  have hp : phase s' = phase s := by
    unfold phase
    rw [h.pc, h.looping]
  simp only [EventLoop.box, hp, h.pending, h.waking, h.queued, h.ran]

theorem Aside.move {strict : Prop} (h : Aside s s') : Move strict (EventLoop.box s) (EventLoop.box s') := by
  rw [h.box]
  exact Move.signal h.bytes

theorem wakeup_aside (s : Loop F) : Aside s (wakeup capacity s) := by
  unfold wakeup
  split
  · exact ⟨rfl, rfl, rfl, rfl, rfl, rfl, rfl, Nat.le_succ _⟩
  · exact Aside.refl s

/-- A wakeup leaves the descriptor readable: it is refused only by a full socket. -/
theorem wakeup_pos (s : Loop F) : 0 < (wakeup capacity s).wakeupBytes := by
  unfold wakeup
  split
  · exact Nat.succ_pos _
  · rename_i h
    exact Nat.lt_of_lt_of_le capacity.pos (Nat.le_of_not_lt h)

theorem addTimerInLoop_aside (task : TimerTask F) (s : Loop F) : Aside s (addTimerInLoop capacity task s) := by
  have hpush : Aside s { s with timerMap := s.timerMap.insert task.id, timers := push task s.timers } :=
    ⟨rfl, rfl, rfl, rfl, rfl, rfl, rfl, le_rfl⟩
  have hwake : ∀ (wake : Bool) (s' : Loop F), Aside s s' → Aside s (if wake then wakeup capacity s' else s') := by
    intro wake s' h
    split
    · exact h.trans (wakeup_aside _)
    · exact h
  exact hwake _ _ hpush

theorem cancelTimerInLoop_aside (timerId : Nat) (s : Loop F) : Aside s (cancelTimerInLoop timerId s) := by
  unfold cancelTimerInLoop
  split <;> exact ⟨rfl, rfl, rfl, rfl, rfl, rfl, rfl, le_rfl⟩

theorem makeTimer_state {request : TimerRequest F} {task : TimerTask F} (h : makeTimer s request = some (task, s')) :
    s' = { s with nextTimerId := s.nextTimerId + 1 } := by
  cases request with
  | runAfter delay cb =>
    simp only [makeTimer, Option.some.injEq, Prod.mk.injEq] at h
    exact h.2.symm
  | runEvery interval cb =>
    simp only [makeTimer] at h
    split at h
    · cases h
    · simp only [Option.some.injEq, Prod.mk.injEq] at h
      exact h.2.symm

theorem makeTimer_aside {request : TimerRequest F} {task : TimerTask F} (h : makeTimer s request = some (task, s')) :
    Aside s s' := by
  rw [makeTimer_state h]
  exact ⟨rfl, rfl, rfl, rfl, rfl, rfl, rfl, le_rfl⟩

theorem queueInLoop_aside (f : Functor F) (s : Loop F) : Aside (enqueue f s) (queueInLoop capacity f s) := by
  unfold queueInLoop
  simp only
  split
  · exact wakeup_aside _
  · exact Aside.refl _

/-! ## What each step does -/

/-- Inside `doPendingFunctors`. -/
def inBatch : Pc F → Bool
  | .swap => true
  | .functors _ => true
  | .functorBody _ => true
  | _ => false

/-- The flag of `doPendingFunctors` is set throughout it, and `m_looping` throughout `loop()`. -/
structure Flags (s : Loop F) : Prop where
  calling : inBatch s.pc = true → s.callingPendingFunctors = true
  looping : inLoop s.pc = true → s.looping = true

theorem Aside.flags (h : Aside s s') (hf : Flags s) : Flags s' where
  calling hp := by rw [h.calling]; exact hf.calling (h.pc ▸ hp)
  looping hp := by rw [h.looping]; exact hf.looping (h.pc ▸ hp)

/-- Outside of `doPendingFunctors` only `m_looping` counts. -/
theorem Flags.of_looping (hl : s.looping = true) (hb : inBatch s.pc = false) : Flags s where
  calling h := absurd (hb.symm.trans h) Bool.false_ne_true
  looping _ := hl

theorem flags_outside (h : s.pc = .outside) : Flags s where
  calling hb := by rw [h] at hb; cases hb
  looping hl := by rw [h] at hl; cases hl

theorem inBatch_of_working {rest : List (Functor F)} (h : phase s = .working rest) : inBatch s.pc = true := by
  unfold phase at h
  cases hpc : s.pc with
  | functors rest => rfl
  | functorBody rest => rfl
  | swap => rfl
  | outside =>
    simp only [hpc] at h
    split at h <;> cases h
  | _ => rw [hpc] at h; cases h

/-- `queueInLoop` on the loop thread would write nothing, with `poll` ahead of `doPendingFunctors`. -/
def silent (s : Loop F) : Bool :=
  !s.callingPendingFunctors &&
    match s.pc with
    | .timerCallback _ _ _ => true
    | .outside => !s.looping
    | _ => false

/-- A `queueInLoop` that would write nothing finds the descriptor readable, or about to be. -/
def heard (s : Loop F) : Act F → Bool
  | .call (.queueInLoop _) => !silent s || decide (0 < s.wakeupBytes) || decide (0 < s.waking)
  | _ => true

/-- User code never runs in a listening phase but from a timer callback or outside `loop()`. -/
theorem silent_of_listening (hu : inUserCode s.pc = true) (hp : phase s = .listening)
    (hc : s.callingPendingFunctors = false) : silent s = true := by
  unfold silent
  rw [hc]
  cases hpc : s.pc with
  | timerCallback second now task => rfl
  | outside =>
    rw [phase, hpc] at hp
    cases hl : s.looping with
    | false => rfl
    | true => simp [hl] at hp
  | channelCallback rest => rw [phase, hpc] at hp; cases hp
  | functorBody rest => rw [phase, hpc] at hp; cases hp
  | _ => rw [hpc] at hu; cases hu

theorem queueInLoop_move {strict : Prop} (hf : Flags s) (hu : inUserCode s.pc = true) {f : F}
    (hh : strict → heard s (.call (.queueInLoop f)) = true) :
    Move strict (box s) (box (queueInLoop capacity (.user f) s)) := by
  have hq : Aside (enqueue (.user f) s) (queueInLoop capacity (.user f) s) := queueInLoop_aside _ s
  have hle : s.wakeupBytes ≤ (queueInLoop capacity (.user f) s).wakeupBytes := hq.bytes
  rw [hq.box]
  refine Move.post hle fun hs => ?_
  by_cases hc : s.callingPendingFunctors = true
  · -- the flag is set: the call wrote a byte
    refine Or.inr (Or.inr (Or.inl ?_))
    have hw : queueInLoop capacity (.user f) s = wakeup capacity (enqueue (.user f) s) := by
      simp [queueInLoop, mustWake, enqueue, hc]
    rw [hw]
    exact wakeup_pos _
  · have hc' : s.callingPendingFunctors = false := by simpa using hc
    cases hp : phase s with
    | collecting => exact Or.inl hp
    | stopped => exact Or.inr (Or.inl hp)
    | working rest => exact absurd (hf.calling (inBatch_of_working hp)) hc
    | listening =>
      have hsil := silent_of_listening hu hp hc'
      have hheard := hh hs
      simp only [heard, hsil, Bool.not_true, Bool.false_or, Bool.or_eq_true, decide_eq_true_eq] at hheard
      rcases hheard with h | h
      · exact Or.inr (Or.inr (Or.inl (Nat.lt_of_lt_of_le h hle)))
      · exact Or.inr (Or.inr (Or.inr h))

/-- What a step comes to: a move of the mailbox that keeps the flags in step with the phase. -/
def Moves (strict : Prop) (s s' : Loop F) : Prop := Move strict (box s) (box s') ∧ Flags s'

theorem Aside.moves {strict : Prop} (h : Aside s s') (hf : Flags s) : Moves strict s s' := ⟨h.move, h.flags hf⟩

theorem queueFromOther_moves {strict : Prop} (f : Functor F) (hf : Flags s) : Moves strict s (queueFromOther f s) :=
  ⟨Move.announce f, ⟨hf.calling, hf.looping⟩⟩

/-- What user code of the loop thread does, by what it calls. -/
inductive Calls (capacity : ℕ+) (s : Loop F) : Call F → Loop F → Prop
  | queueInLoop (f : F) : Calls capacity s (.queueInLoop f) (queueInLoop capacity (.user f) s)
  | timer {request : TimerRequest F} {task : TimerTask F} {t : Loop F} (ht : makeTimer s request = some (task, t)) :
      Calls capacity s (.timer request) (addTimerInLoop capacity task t)
  | cancelNone : Calls capacity s (.cancelTimer 0) s
  | cancelTimer (timerId : Nat) : Calls capacity s (.cancelTimer timerId) (cancelTimerInLoop timerId s)
  | quit : Calls capacity s .quit { s with quit := true }

theorem call_cases {c : Call F} (h : call capacity s c = some s') : Calls capacity s c s' := by
  cases c with
  | queueInLoop f =>
    obtain rfl := Option.some.inj h
    exact .queueInLoop f
  | timer request =>
    obtain ⟨⟨task, t⟩, ht, rfl⟩ := Option.map_eq_some_iff.mp h
    exact .timer ht
  | cancelTimer timerId =>
    obtain rfl := Option.some.inj h
    split
    · rename_i hzero
      subst hzero
      exact .cancelNone
    · exact .cancelTimer timerId
  | quit =>
    obtain rfl := Option.some.inj h
    exact .quit

theorem call_moves {strict : Prop} (hf : Flags s) (hu : inUserCode s.pc = true) {c : Call F}
    (hh : strict → heard s (.call c) = true) (h : call capacity s c = some s') : Moves strict s s' := by
  cases call_cases h with
  | queueInLoop f =>
    have hpost : Flags (enqueue (.user f) s) := ⟨hf.calling, hf.looping⟩
    exact ⟨queueInLoop_move hf hu hh, (queueInLoop_aside _ s).flags hpost⟩
  | @timer _ task t ht => exact ((makeTimer_aside ht).trans (addTimerInLoop_aside task t)).moves hf
  | cancelNone => exact (Aside.refl s).moves hf
  | cancelTimer timerId => exact (cancelTimerInLoop_aside timerId s).moves hf
  | quit => exact Aside.moves ⟨rfl, rfl, rfl, rfl, rfl, rfl, rfl, le_rfl⟩ hf

/-- What another thread does, by what it does. -/
inductive Others (capacity : ℕ+) (s : Loop F) : Other F → Loop F → Prop
  | queueInLoop (f : F) : Others capacity s (.queueInLoop f) (queueFromOther (.user f) s)
  | makeTimer {request : TimerRequest F} {task : TimerTask F} {t : Loop F} (ht : makeTimer s request = some (task, t)) :
      Others capacity s (.makeTimer request) { t with created := t.created ++ [task] }
  | queueTimer {i : Nat} {task : TimerTask F} (hi : s.created[i]? = some task) :
      Others capacity s (.queueTimer i) (queueFromOther (.addTimerInLoop task) { s with created := s.created.eraseIdx i })
  | cancelNone : Others capacity s (.cancelTimer 0) s
  | cancelTimer (timerId : Nat) : Others capacity s (.cancelTimer timerId) (queueFromOther (.cancelTimerInLoop timerId) s)
  | wakeup : Others capacity s .wakeup (wakeup capacity { s with waking := s.waking - 1 })
  | quit : Others capacity s .quit { s with quit := true, quitting := s.quitting + 1 }
  | quitWakeup : Others capacity s .quitWakeup (wakeup capacity { s with quitting := s.quitting - 1 })

theorem other_cases {o : Other F} (h : other capacity s o = some s') : Others capacity s o s' := by
  cases o with
  | queueInLoop f =>
    obtain rfl := Option.some.inj h
    exact .queueInLoop f
  | makeTimer request =>
    obtain ⟨⟨task, t⟩, ht, rfl⟩ := Option.map_eq_some_iff.mp h
    exact .makeTimer ht
  | queueTimer i =>
    obtain ⟨task, hi, rfl⟩ := Option.map_eq_some_iff.mp h
    exact .queueTimer hi
  | cancelTimer timerId =>
    obtain rfl := Option.some.inj h
    split
    · rename_i hzero
      subst hzero
      exact .cancelNone
    · exact .cancelTimer timerId
  | wakeup =>
    simp only [other] at h
    split at h
    · cases h
    · obtain rfl := Option.some.inj h
      exact .wakeup
  | quit =>
    obtain rfl := Option.some.inj h
    exact .quit
  | quitWakeup =>
    simp only [other] at h
    split at h
    · cases h
    · obtain rfl := Option.some.inj h
      exact .quitWakeup

theorem other_moves {strict : Prop} (hf : Flags s) {o : Other F} (h : other capacity s o = some s') :
    Moves strict s s' := by
  cases other_cases h with
  | queueInLoop f => exact queueFromOther_moves (.user f) hf
  | @makeTimer _ task t ht =>
    have hadd : Aside t { t with created := t.created ++ [task] } := ⟨rfl, rfl, rfl, rfl, rfl, rfl, rfl, le_rfl⟩
    exact ((makeTimer_aside ht).trans hadd).moves hf
  | @queueTimer i task hi =>
    have hless : Flags { s with created := s.created.eraseIdx i } := ⟨hf.calling, hf.looping⟩
    exact queueFromOther_moves (.addTimerInLoop task) hless
  | cancelNone => exact (Aside.refl s).moves hf
  | cancelTimer timerId => exact queueFromOther_moves (.cancelTimerInLoop timerId) hf
  | wakeup =>
    have hless : Flags { s with waking := s.waking - 1 } := ⟨hf.calling, hf.looping⟩
    refine ⟨?_, (wakeup_aside _).flags hless⟩
    rw [(wakeup_aside _).box]
    exact Move.keep (wakeup_pos _)
  | quit => exact Aside.moves ⟨rfl, rfl, rfl, rfl, rfl, rfl, rfl, le_rfl⟩ hf
  | quitWakeup =>
    have hless : Aside s { s with quitting := s.quitting - 1 } := ⟨rfl, rfl, rfl, rfl, rfl, rfl, rfl, le_rfl⟩
    exact (hless.trans (wakeup_aside _)).moves hf

theorem moves_of_box {strict : Prop} (h : box s' = box s) (hf : Flags s') : Moves strict s s' := by
  refine ⟨?_, hf⟩
  rw [h]
  exact Move.signal le_rfl

/-- The loop thread goes on to another place of the same phase. -/
theorem moves_goto {strict : Prop} (hf : Flags s) (hin : inLoop s.pc = true) {pc : Pc F} (hb : inBatch pc = false)
    (hp : phase { s with pc := pc } = phase s) : Moves strict s { s with pc := pc } := by
  refine moves_of_box ?_ (Flags.of_looping (hf.looping hin) hb)
  simp only [box, hp]

theorem processTimers_moves {strict : Prop} (hf : Flags s) {second : Bool} {now : Nat} (hpc : s.pc = .timers second now) :
    Moves strict s (processTimers second now s) := by
  have hin : inLoop s.pc = true := by rw [hpc]; rfl
  have hp : phase s = .listening := by rw [phase, hpc]
  have leave : Moves strict s { s with pc := if second then .check else .poll } := by
    cases second with
    | true => exact moves_goto hf hin rfl hp.symm
    | false => exact moves_goto hf hin rfl hp.symm
  rcases processTimers_cases second now s with h | ⟨task, rest, -, ⟨-, h⟩ | ⟨-, h⟩⟩
  · rw [h]
    exact leave
  · rw [h]
    exact Aside.moves ⟨rfl, rfl, rfl, rfl, rfl, rfl, rfl, le_rfl⟩ hf
  · rw [h]
    refine moves_of_box ?_ (Flags.of_looping (hf.looping hin) rfl)
    simp only [box, hp]
    rfl

theorem timerReturns_moves {strict : Prop} (hf : Flags s) {second : Bool} {now : Nat} {task : TimerTask F}
    (hpc : s.pc = .timerCallback second now task) : Moves strict s (timerReturns second now task s) := by
  have hl : s.looping = true := hf.looping (by rw [hpc]; rfl)
  have hp : phase s = .listening := by rw [phase, hpc]
  unfold timerReturns
  split
  · refine moves_of_box ?_ (Flags.of_looping hl rfl)
    simp only [box, hp]
    rfl
  · refine moves_of_box ?_ (Flags.of_looping hl rfl)
    simp only [box, hp]
    rfl

theorem wakeupRead_moves {strict : Prop} (hf : Flags s) {rest : List Channel} (hpc : s.pc = .wakeupRead rest) :
    Moves strict s (wakeupRead rest s) := by
  have hl : s.looping = true := hf.looping (by rw [hpc]; rfl)
  have hp : phase s = .collecting := by rw [phase, hpc]
  -- more bytes or not, the swap is still ahead
  have read : ∀ (n : Nat) (pc : Pc F), pc = .channels rest ∨ pc = .wakeupRead rest →
      Moves strict s { s with wakeupBytes := n, pc := pc } := by
    rintro n pc (rfl | rfl)
    · refine ⟨?_, Flags.of_looping hl rfl⟩
      have hbox : box { s with wakeupBytes := n, pc := .channels rest } = { box s with signals := n } := by
        simp only [box, hp]
        rfl
      rw [hbox]
      exact Move.absorb n hp
    · refine ⟨?_, Flags.of_looping hl rfl⟩
      have hbox : box { s with wakeupBytes := n, pc := .wakeupRead rest } = { box s with signals := n } := by
        simp only [box, hp]
        rfl
      rw [hbox]
      exact Move.absorb n hp
  refine read _ _ ?_
  split
  · exact Or.inl rfl
  · exact Or.inr rfl

theorem runFunctor_moves {strict : Prop} (hf : Flags s) {f : Functor F} {rest : List (Functor F)}
    (hpc : s.pc = .functors (f :: rest)) : Moves strict s (runFunctor capacity f rest s) := by
  have hp : phase s = .working (f :: rest) := by rw [phase, hpc]
  have hl : s.looping = true := hf.looping (by rw [hpc]; rfl)
  have hc := hf.calling (inBatch_of_working hp)
  have hbegun : Flags { s with ran := s.ran ++ [f], pc := .functors rest } := ⟨fun _ => hc, fun _ => hl⟩
  have own : ∀ t, Aside { s with ran := s.ran ++ [f], pc := .functors rest } t → Moves strict s t := by
    intro t h
    refine ⟨?_, h.flags hbegun⟩
    rw [h.box]
    exact Move.start hp h.bytes
  cases f with
  | user f => exact ⟨Move.start hp le_rfl, ⟨fun _ => hc, fun _ => hl⟩⟩
  | addTimerInLoop task => exact own _ (addTimerInLoop_aside task _)
  | cancelTimerInLoop timerId => exact own _ (cancelTimerInLoop_aside timerId _)

/-- Every step of the loop and of the other threads is a move of the mailbox. -/
theorem step_moves {strict : Prop} (hf : Flags s) {a : Act F} (hh : strict → heard s a = true)
    (h : step capacity s a = some s') : Moves strict s s' := by
  -- inside `loop()` the flag `m_looping` is set
  have looping : inLoop s.pc = true → s.looping = true := hf.looping
  cases step_cases h with
  | enters hpc hl => exact moves_of_box (by simp only [box, phase, hpc, hl]; rfl) (Flags.of_looping rfl rfl)
  | leaves hpc => exact moves_of_box (by simp only [box, phase, hpc]; rfl) (flags_outside rfl)
  | turns hpc => exact moves_goto hf (by rw [hpc]; rfl) rfl (by simp only [phase, hpc])
  | timers hpc => exact processTimers_moves hf hpc
  | polls hpc => exact moves_goto hf (by rw [hpc]; rfl) rfl (by simp only [phase, hpc])
  | pollReturns hpc =>
    have hl := looping (by rw [hpc]; rfl)
    exact ⟨Move.wake (by simp only [box, phase, hpc]), Flags.of_looping hl rfl⟩
  | handlesWakeup hpc => exact moves_goto hf (by rw [hpc]; rfl) rfl (by simp only [phase, hpc])
  | handles hpc => exact moves_goto hf (by rw [hpc]; rfl) rfl (by simp only [phase, hpc])
  | reads hpc => exact wakeupRead_moves hf hpc
  | handled hpc =>
    have hl := looping (by rw [hpc]; rfl)
    exact moves_of_box (by simp only [box, phase, hpc]) ⟨fun _ => rfl, fun _ => hl⟩
  | swaps hpc =>
    have hl := looping (by rw [hpc]; rfl)
    have hc := hf.calling (by rw [hpc]; rfl)
    exact ⟨Move.collect (by simp only [box, phase, hpc]), ⟨fun _ => hc, fun _ => hl⟩⟩
  | runs hpc => exact runFunctor_moves hf hpc
  | ran hpc =>
    have hl := looping (by rw [hpc]; rfl)
    exact ⟨Move.rest (by simp only [box, phase, hpc]), Flags.of_looping hl rfl⟩
  | calls hu h => exact call_moves hf hu hh h
  | timerReturns hpc => exact timerReturns_moves hf hpc
  | channelReturns hpc => exact moves_goto hf (by rw [hpc]; rfl) rfl (by simp only [phase, hpc])
  | functorReturns hpc =>
    have hl := looping (by rw [hpc]; rfl)
    have hc : s.callingPendingFunctors = true := hf.calling (by rw [hpc]; rfl)
    exact moves_of_box (by simp only [box, phase, hpc]) ⟨fun _ => hc, fun _ => hl⟩
  | throws hin =>
    have hbox : box { s with pc := .outside } = { box s with phase := .stopped } := by
      simp only [box, phase, hf.looping hin, if_true]
    refine ⟨?_, flags_outside rfl⟩
    rw [hbox]
    exact Move.stop
  | others h => exact other_moves hf h
  | ticks => exact Aside.moves ⟨rfl, rfl, rfl, rfl, rfl, rfl, rfl, le_rfl⟩ hf

/-! ## Runs -/

/-- In every run, heard or not, the functors run in the order they were queued, each at most once. -/
theorem ran_in_queue_order {ok : Loop F → Act F → Prop} (hr : (eventLoop capacity).Reach ok s) :
    s.ran <+: s.queued := by
  have hinv : Flags s ∧ (box s).Accounted := by
    refine hr.inv (I := fun s => Flags s ∧ (box s).Accounted) ⟨flags_outside rfl, Or.inl rfl⟩ ?_
    rintro s a s' ⟨hf, hacc⟩ - hstep
    have hm : Moves False s s' := step_moves hf False.elim hstep
    exact ⟨hm.2, hm.1.accounted hacc⟩
  exact hinv.2.started

/-- If every `queueInLoop` of the run is heard, the loop is in `poll` only with nothing queued, a
    readable wakeup descriptor or a caller about to write to it; and the functors run in queue order. -/
theorem never_sleeps_on_pending_work (hr : (eventLoop capacity).Reach (fun s a => heard s a = true) s) :
    (∀ timeoutMs, s.pc = .polling timeoutMs → timeoutMs ≠ 0 →
        s.pendingFunctors = [] ∨ 0 < s.wakeupBytes ∨ 0 < s.waking) ∧
      s.ran <+: s.queued := by
  refine ⟨fun timeoutMs hpc _ => ?_, ran_in_queue_order hr⟩
  have hinv : Flags s ∧ (box s).Sound := by
    refine hr.inv (I := fun s => Flags s ∧ (box s).Sound) ⟨flags_outside rfl, Or.inr (Or.inr (Or.inl rfl))⟩ ?_
    rintro s a s' ⟨hf, hsound⟩ hheard hstep
    have hm : Moves True s s' := step_moves hf (fun _ => hheard) hstep
    exact ⟨hm.2, hm.1.sound hsound⟩
  have hp : (box s).phase = .listening := by simp only [box, phase, hpc]
  rcases hinv.2 with h | h | h
  · rw [hp] at h; cases h
  · rw [hp] at h; cases h
  · exact h

/-- Another thread queues a functor, which queues one itself. -/
def queuedByFunctor : List (Act Nat) :=
  [.loop, .next, .next, .next, .other (.queueInLoop 7), .other .wakeup, .pollReturns [.wakeupFd], .next, .next, .next,
    .next, .next, .call (.queueInLoop 8), .returns, .next, .next, .next, .next, .next]

/-- The loop is back in `poll`, with a byte to wake it. -/
def afterFunctor : Loop Nat :=
  { (make : Loop Nat) with
    pc := .polling 10000, looping := true, pendingFunctors := [.user 8], wakeupBytes := 1,
    queued := [.user 7, .user 8], ran := [.user 7] }

theorem never_sleeps_on_pending_work_functor :
    (eventLoop 1).run (fun s a => heard s a = true) make queuedByFunctor = some afterFunctor ∧
      (afterFunctor.pendingFunctors = [] ∨ 0 < afterFunctor.wakeupBytes ∨ 0 < afterFunctor.waking) := by
  have hrun : (eventLoop 1).run (fun s a => heard s a = true) make queuedByFunctor = some afterFunctor := by decide
  have hr : (eventLoop 1).Reach (fun s a => heard s a = true) afterFunctor :=
    Lib.Machine.Reach.run Lib.Machine.Reach.init hrun
  exact ⟨hrun, (never_sleeps_on_pending_work hr).1 10000 rfl (by decide)⟩

/-- A timer callback queues a functor: nobody writes to the descriptor. -/
def queuedByTimer : List (Act Nat) :=
  [.call (.timer (.runAfter 1 0)), .loop, .next, .next, .next, .pollReturns [.wakeupFd], .next, .next, .next, .next,
    .tick 1000000, .next, .next, .call (.queueInLoop 7), .returns, .next, .next, .next, .next]

/-- The loop sleeps for ten seconds with the functor in its queue. -/
def afterTimer : Loop Nat :=
  { (make : Loop Nat) with
    pc := .polling 10000, looping := true, pendingFunctors := [.user 7], nextTimerId := 2, clock := 1000000,
    queued := [.user 7] }

theorem a_timer_callback_is_slept_on :
    (eventLoop 1).Reach (fun _ _ => True) afterTimer ∧ afterTimer.pc = .polling 10000 ∧
      ¬ (afterTimer.pendingFunctors = [] ∨ 0 < afterTimer.wakeupBytes ∨ 0 < afterTimer.waking) := by
  have hrun : (eventLoop 1).run (fun _ _ => True) make queuedByTimer = some afterTimer := by decide
  exact ⟨Lib.Machine.Reach.run Lib.Machine.Reach.init hrun, rfl, by decide⟩

end Dbase.Net.EventLoop
