/-
  Dbase.Net.EventLoopThreadProofs — a quit of an event loop's thread, from the request to the join.

  `Move` says what a step may do. `Onward` says what a step of the loop thread does under a quit, `Hears`
  what a call from another thread leaves of it, and `left` bounds the steps of a turn in which callbacks
  return.

  Proved (`quit_is_not_lost`): in every run in which each `quit()` is made after `loop()` was entered, and no call of
  another thread is under way when the loop is destroyed or comes later, a quit stays requested, the loop begins
  at most one more poll, that poll does not sleep on a quit from another thread, the loop is not used behind its
  end, and a `stop()` that waits in `join` can get there.

  A quit between the latch and the entry into `loop()` is overwritten by the entry: the loop polls
  for ever, and `stop()` hangs. And a loop that leaves between the store of `quit()` and its wakeup is destroyed
  before that wakeup (`a_quit_before_the_loop_is_lost`).
-/

import Dbase.Net.EventLoopThread
import Dbase.Net.EventLoopTimerRuns

namespace Dbase.Net.EventLoopThread

open Dbase.Net.EventLoop

variable {F : Type}

/-! ## What the loop does with a quit -/

section Quit

variable {capacity : ℕ+} {s l : Loop F} {a : Act F}

/-- How many polls are ahead in this turn of `loop()`. -/
def ahead : Pc F → Nat
  | .timers false _ => 1
  | .timerCallback false _ _ => 1
  | .poll => 1
  | _ => 0

/-- The turn has not left `poll` yet. -/
def beforeChannels : Pc F → Bool
  | .timers false _ => true
  | .timerCallback false _ _ => true
  | .poll => true
  | .polling _ => true
  | _ => false

/-- A step of the loop thread under a quit: the quit stays, the turn goes on, and the bytes in the
    wakeup descriptor stay as long as `poll` is not left. -/
structure Onward (s l : Loop F) (polled : Nat) : Prop where
  quit : s.quit = true → l.quit = true
  quitting : l.quitting = s.quitting
  ahead : s.quit = true → ahead l.pc + polled ≤ ahead s.pc
  bytes : s.quit = true → beforeChannels l.pc = true → beforeChannels s.pc = true ∧ s.wakeupBytes ≤ l.wakeupBytes

/-- A call of the loop leaves the thread where it is. -/
theorem Onward.of_aside (h : Aside s l) (hq : s.quit = true → l.quit = true) (hk : l.quitting = s.quitting) :
    Onward s l 0 where
  quit := hq
  quitting := hk
  ahead _ := by rw [h.pc]; exact le_rfl
  bytes _ hb := ⟨h.pc ▸ hb, h.bytes⟩

@[simp] theorem wakeup_quit (s : Loop F) : (wakeup capacity s).quit = s.quit ∧ (wakeup capacity s).quitting = s.quitting := by
  unfold wakeup
  split <;> exact ⟨rfl, rfl⟩

theorem enter_pc (h : enter s = some l) : l.pc = .check := by
  unfold enter at h
  split at h
  · split at h
    · cases h
    · cases h
      rfl
  · cases h

theorem addTimerInLoop_quit (task : TimerTask F) (s : Loop F) :
    (addTimerInLoop capacity task s).quit = s.quit ∧ (addTimerInLoop capacity task s).quitting = s.quitting := by
  have hwake : ∀ (wake : Bool) (t : Loop F), (if wake then wakeup capacity t else t).quit = t.quit ∧
      (if wake then wakeup capacity t else t).quitting = t.quitting := by
    intro wake t
    split
    · exact wakeup_quit t
    · exact ⟨rfl, rfl⟩
  exact hwake _ _

theorem cancelTimerInLoop_quit (timerId : Nat) (s : Loop F) :
    (cancelTimerInLoop timerId s).quit = s.quit ∧ (cancelTimerInLoop timerId s).quitting = s.quitting := by
  unfold cancelTimerInLoop
  split <;> exact ⟨rfl, rfl⟩

theorem makeTimer_quit {request : TimerRequest F} {task : TimerTask F} (h : makeTimer s request = some (task, l)) :
    l.quit = s.quit ∧ l.quitting = s.quitting := by
  rw [makeTimer_state h]
  exact ⟨rfl, rfl⟩

theorem queueInLoop_quit (f : F) (s : Loop F) :
    (queueInLoop capacity (.user f) s).quit = s.quit ∧ (queueInLoop capacity (.user f) s).quitting = s.quitting := by
  unfold queueInLoop
  simp only
  split
  · exact wakeup_quit _
  · exact ⟨rfl, rfl⟩

theorem call_onward {c : Call F} (h : call capacity s c = some l) : Onward s l 0 := by
  cases call_cases h with
  | queueInLoop f =>
    have hq := @queueInLoop_quit F capacity f s
    have haside : Aside (enqueue (.user f) s) (queueInLoop capacity (.user f) s) := queueInLoop_aside _ s
    have hon := Onward.of_aside haside (fun h => hq.1.trans h) hq.2
    exact ⟨hon.quit, hon.quitting, hon.ahead, hon.bytes⟩
  | @timer _ task t ht =>
    have hq := makeTimer_quit ht
    have hq' := @addTimerInLoop_quit F capacity task t
    exact Onward.of_aside ((makeTimer_aside ht).trans (addTimerInLoop_aside task t))
      (fun h => (hq'.1.trans hq.1).trans h) (hq'.2.trans hq.2)
  | cancelNone => exact Onward.of_aside (Aside.refl s) id rfl
  | cancelTimer timerId =>
    have hq := cancelTimerInLoop_quit timerId s
    exact Onward.of_aside (cancelTimerInLoop_aside timerId s) (fun h => hq.1.trans h) hq.2
  | quit => exact ⟨fun _ => rfl, rfl, fun _ => le_rfl, fun _ hb => ⟨hb, le_rfl⟩⟩

/-- The thread goes on to a place after `poll`. -/
theorem Onward.past (hq : l.quit = s.quit) (hk : l.quitting = s.quitting) (ha : EventLoopThread.ahead l.pc = 0)
    (hb : beforeChannels l.pc = false) : Onward s l 0 where
  quit h := hq.trans h
  quitting := hk
  ahead _ := by rw [ha]; exact Nat.zero_le _
  bytes _ h := absurd (hb.symm.trans h) Bool.false_ne_true

theorem processTimers_onward {second : Bool} {now : Nat} (hpc : s.pc = .timers second now) :
    Onward s (processTimers second now s) 0 := by
  have leave : Onward s { s with pc := if second then .check else .poll } 0 := by
    cases second with
    | true => exact Onward.past rfl rfl rfl rfl
    | false => exact ⟨id, rfl, fun _ => by rw [hpc]; exact le_rfl, fun _ _ => ⟨by rw [hpc]; rfl, le_rfl⟩⟩
  rcases processTimers_cases second now s with h | ⟨task, rest, -, ⟨-, h⟩ | ⟨-, h⟩⟩
  · rw [h]
    exact leave
  · rw [h]
    exact ⟨id, rfl, fun _ => le_rfl, fun _ hb => ⟨hb, le_rfl⟩⟩
  · rw [h]
    cases second with
    | true => exact Onward.past rfl rfl rfl rfl
    | false => exact ⟨id, rfl, fun _ => by rw [hpc]; exact le_rfl, fun _ _ => ⟨by rw [hpc]; rfl, le_rfl⟩⟩

theorem runFunctor_onward (f : Functor F) (rest : List (Functor F)) (s : Loop F) :
    Onward s (runFunctor capacity f rest s) 0 := by
  cases f with
  | user f => exact Onward.past rfl rfl rfl rfl
  | addTimerInLoop task =>
    have hq := @addTimerInLoop_quit F capacity task { s with ran := s.ran ++ [.addTimerInLoop task], pc := .functors rest }
    have hpc := (@addTimerInLoop_aside F capacity task
      { s with ran := s.ran ++ [.addTimerInLoop task], pc := .functors rest }).pc
    exact Onward.past hq.1 hq.2 (by rw [runFunctor, hpc]; rfl) (by rw [runFunctor, hpc]; rfl)
  | cancelTimerInLoop timerId =>
    have hq := cancelTimerInLoop_quit timerId { s with ran := s.ran ++ [.cancelTimerInLoop timerId], pc := .functors rest }
    have hpc := (cancelTimerInLoop_aside timerId { s with ran := s.ran ++ [.cancelTimerInLoop timerId], pc := .functors rest }).pc
    exact Onward.past hq.1 hq.2 (by rw [runFunctor, hpc]; rfl) (by rw [runFunctor, hpc]; rfl)

theorem wakeupRead_onward (rest : List Channel) (s : Loop F) : Onward s (wakeupRead rest s) 0 := by
  have hpc : (wakeupRead rest s).pc = .channels rest ∨ (wakeupRead rest s).pc = .wakeupRead rest := by
    unfold wakeupRead
    simp only
    split
    · exact Or.inl rfl
    · exact Or.inr rfl
  rcases hpc with h | h <;> exact Onward.past rfl rfl (by rw [h]; rfl) (by rw [h]; rfl)

theorem timerReturns_onward {second : Bool} {now : Nat} {task : TimerTask F}
    (hpc : s.pc = .timerCallback second now task) : Onward s (timerReturns second now task s) 0 := by
  unfold timerReturns
  cases second with
  | true => split <;> exact Onward.past rfl rfl rfl rfl
  | false =>
    split <;>
      exact ⟨id, rfl, fun _ => by rw [hpc]; exact le_rfl, fun _ _ => ⟨by rw [hpc]; rfl, le_rfl⟩⟩

/-- Every step of the loop thread inside `loop()`. -/
theorem inside_onward (ha : insideLoop a = true) (h : EventLoop.step capacity s a = some l) :
    Onward s l (if beginsPoll s a then 1 else 0) := by
  cases step_cases h with
  | enters => cases ha
  | leaves hpc =>
    simp only [beginsPoll, hpc]
    exact Onward.past rfl rfl rfl rfl
  | turns hpc hq =>
    simp only [beginsPoll, hpc]
    exact ⟨id, rfl, fun h => absurd h (by simp [hq]), fun h => absurd h (by simp [hq])⟩
  | timers hpc =>
    simp only [beginsPoll, hpc]
    exact processTimers_onward hpc
  | polls hpc =>
    simp only [beginsPoll, hpc]
    exact ⟨id, rfl, fun _ => by rw [hpc]; exact le_rfl, fun _ _ => ⟨by rw [hpc]; rfl, le_rfl⟩⟩
  | reads hpc =>
    simp only [beginsPoll, hpc]
    exact wakeupRead_onward _ s
  | runs hpc =>
    simp only [beginsPoll, hpc]
    exact runFunctor_onward _ _ s
  | handlesWakeup hpc =>
    simp only [beginsPoll, hpc]
    exact Onward.past rfl rfl rfl rfl
  | handles hpc =>
    simp only [beginsPoll, hpc]
    exact Onward.past rfl rfl rfl rfl
  | handled hpc =>
    simp only [beginsPoll, hpc]
    exact Onward.past rfl rfl rfl rfl
  | swaps hpc =>
    simp only [beginsPoll, hpc]
    exact Onward.past rfl rfl rfl rfl
  | ran hpc =>
    simp only [beginsPoll, hpc]
    exact Onward.past rfl rfl rfl rfl
  | calls _ h => exact call_onward h
  | timerReturns hpc => exact timerReturns_onward hpc
  | pollReturns => exact Onward.past rfl rfl rfl rfl
  | channelReturns => exact Onward.past rfl rfl rfl rfl
  | functorReturns => exact Onward.past rfl rfl rfl rfl
  | throws => cases ha
  | others => cases ha
  | ticks => cases ha

/-- What a call from another thread leaves of a quit and its wakeup. -/
structure Hears (s l : Loop F) : Prop where
  pc : l.pc = s.pc
  quit : s.quit = true → l.quit = true
  awake : 0 < s.wakeupBytes ∨ 0 < s.quitting → 0 < l.wakeupBytes ∨ 0 < l.quitting

theorem Hears.of_aside (h : Aside s l) (hq : l.quit = s.quit ∧ l.quitting = s.quitting) : Hears s l where
  pc := h.pc
  quit h := hq.1.trans h
  awake := by
    have := h.bytes
    rw [hq.2]
    omega

theorem wakeup_hears (s t : Loop F) (hpc : t.pc = s.pc) (hq : t.quit = s.quit) : Hears s (wakeup capacity t) where
  pc := (wakeup_aside t).pc.trans hpc
  quit h := (wakeup_quit t).1.trans (hq.trans h)
  awake _ := Or.inl (wakeup_pos t)

theorem other_hears {o : Other F} (h : other capacity s o = some l) : Hears s l := by
  cases other_cases h with
  | queueInLoop f => exact ⟨rfl, id, id⟩
  | makeTimer ht =>
    have h := Hears.of_aside (makeTimer_aside ht) (makeTimer_quit ht)
    exact ⟨h.pc, h.quit, h.awake⟩
  | queueTimer _ => exact ⟨rfl, id, id⟩
  | cancelNone => exact ⟨rfl, id, id⟩
  | cancelTimer timerId => exact ⟨rfl, id, id⟩
  | wakeup => exact wakeup_hears s _ rfl rfl
  | quit => exact ⟨rfl, fun _ => rfl, fun _ => Or.inr (Nat.succ_pos _)⟩
  | quitWakeup => exact wakeup_hears s _ rfl rfl

end Quit

/-! ## The steps -/

variable {capacity : ℕ+} {s s' : LoopThread F}

/-- The thread after a step inside `loop()`. -/
def after (a : Act F) (l : Loop F) (s : LoopThread F) : LoopThread F :=
  { s with
    loop := l, polls := if s.asked && beginsPoll s.loop a then s.polls + 1 else s.polls,
    stage := if inLoop l.pc then .looping else .returned }

/-- What a step may do. -/
inductive Move (capacity : ℕ+) (s : LoopThread F) : Label F → LoopThread F → Prop
  | starts (ho : s.owner = .idle) : Move capacity s .startLoop { s with owner := .waiting, stage := .started }
  | startReturns (ho : s.owner = .waiting) :
      Move capacity s .startReturns { s with owner := if s.mLoop then .started else .failed }
  | stops (ho : s.owner = .started) :
      Move capacity s .stop { s with owner := if s.mLoop then .quitting else .joining }
  | asksToStop (ho : s.owner = .quitting) (hst : s.stage ≠ .ended) :
      Move capacity s .stopQuit (ask true { s with owner := .waking, loop := { s.loop with quit := true } })
  | asksTooLate (ho : s.owner = .quitting) (hst : s.stage = .ended) :
      Move capacity s .stopQuit { s with owner := .waking, dangled := true }
  | wakes (ho : s.owner = .waking) (hst : s.stage ≠ .ended) :
      Move capacity s .stopWakeup { s with owner := .joining, loop := wakeup capacity s.loop }
  | wakesTooLate (ho : s.owner = .waking) (hst : s.stage = .ended) :
      Move capacity s .stopWakeup { s with owner := .joining, dangled := true }
  | joins (ho : s.owner = .joining) : Move capacity s .join { s with owner := .stopped, mLoop := false }
  | constructs (hst : s.stage = .started) :
      Move capacity s .thread { s with stage := .constructed, loop := { EventLoop.make with clock := s.loop.clock } }
  | publishes (hst : s.stage = .constructed) : Move capacity s .thread { s with stage := .published, mLoop := true }
  | counts (hst : s.stage = .published) : Move capacity s .thread { s with stage := .counted, latch := s.latch - 1 }
  | enters {l : Loop F} (hst : s.stage = .counted) (hl : enter s.loop = some l) :
      Move capacity s .thread { s with stage := .looping, loop := l }
  | ends (hst : s.stage = .returned) : Move capacity s .thread { s with stage := .ended, mLoop := false }
  | inside {a : Act F} {l : Loop F} (hst : s.stage = .looping) (ha : insideLoop a = true)
      (hl : EventLoop.step capacity s.loop a = some l) : Move capacity s (.inLoop a) (after a l s)
  | quits {l : Loop F} (hst : s.stage = .looping) (hl : EventLoop.step capacity s.loop (.call .quit) = some l)
      (hq : l.quit = true) : Move capacity s (.inLoop (.call .quit)) (ask false (after (.call .quit) l s))
  | others {o : Other F} {l : Loop F} (hst : s.stage ≠ .ended) (hl : EventLoop.other capacity s.loop o = some l) :
      Move capacity s (.other o) { s with loop := l }
  | asks {l : Loop F} (hst : s.stage ≠ .ended) (hl : EventLoop.other capacity s.loop .quit = some l)
      (hq : l.quit = true) (hquitting : 0 < l.quitting) : Move capacity s (.other .quit) (ask true { s with loop := l })
  | othersTooLate {o : Other F} (hst : s.stage = .ended) : Move capacity s (.other o) { s with dangled := true }
  | ticks (elapsed : Nat) :
      Move capacity s (.tick elapsed) { s with loop := { s.loop with clock := s.loop.clock + elapsed } }

theorem threadFunc_move (h : threadFunc s = some s') : Move capacity s .thread s' := by
  unfold threadFunc at h
  split at h
  case h_1 hst =>
    cases h
    exact .constructs hst
  case h_2 hst =>
    cases h
    exact .publishes hst
  case h_3 hst =>
    cases h
    exact .counts hst
  case h_4 hst =>
    obtain ⟨l, hl, rfl⟩ := Option.map_eq_some_iff.mp h
    exact .enters hst hl
  case h_5 hst =>
    cases h
    exact .ends hst
  case h_6 => cases h

theorem quit_of_isQuit {s l : Loop F} {a : Act F} (hq : isQuit a = true) (hl : EventLoop.step capacity s a = some l) :
    a = .call .quit ∧ l.quit = true := by
  cases a with
  | call c =>
    cases c with
    | quit =>
      simp only [EventLoop.step] at hl
      split at hl
      · simp only [call, Option.some.injEq] at hl
        subst hl
        exact ⟨rfl, rfl⟩
      · cases hl
    | _ => cases hq
  | _ => cases hq

theorem inLoopStep_move {a : Act F} (h : inLoopStep capacity a s = some s') : Move capacity s (.inLoop a) s' := by
  unfold inLoopStep at h
  split at h
  · rename_i hin
    obtain ⟨l, hl, rfl⟩ := Option.map_eq_some_iff.mp h
    cases hq : isQuit a with
    | true =>
      obtain ⟨rfl, hquit⟩ := quit_of_isQuit hq hl
      exact .quits hin.1 hl hquit
    | false => exact .inside hin.1 hin.2 hl
  · cases h

theorem otherStep_move {o : Other F} (h : otherStep capacity o s = some s') : Move capacity s (.other o) s' := by
  unfold otherStep at h
  split at h
  · obtain ⟨l, hl, rfl⟩ := Option.map_eq_some_iff.mp h
    by_cases hst : s.stage = .ended
    · rw [if_pos hst]
      exact .othersTooLate hst
    rw [if_neg hst]
    cases o with
    | quit =>
      have hset : { s.loop with quit := true, quitting := s.loop.quitting + 1 } = l := by
        simpa only [other, Option.some.injEq] using hl
      exact .asks hst hl (by rw [← hset]) (by rw [← hset]; exact Nat.succ_pos _)
    | _ => exact .others hst hl
  · cases h

theorem step_move {a : Label F} (h : step capacity s a = some s') : Move capacity s a s' := by
  cases a with
  | startLoop =>
    simp only [step] at h
    split at h
    · rename_i ho
      cases h
      exact .starts ho
    · cases h
  | startReturns =>
    simp only [step] at h
    split at h
    · rename_i ho
      cases h
      exact .startReturns ho.1
    · cases h
  | stop =>
    simp only [step] at h
    split at h
    · rename_i ho
      cases h
      exact .stops ho
    · cases h
  | stopQuit =>
    simp only [step] at h
    split at h
    · rename_i ho
      simp only [Option.some.injEq] at h
      subst h
      split
      · rename_i hst
        exact .asksTooLate ho hst
      · rename_i hst
        exact .asksToStop ho hst
    · cases h
  | stopWakeup =>
    simp only [step] at h
    split at h
    · rename_i ho
      simp only [Option.some.injEq] at h
      subst h
      split
      · rename_i hst
        exact .wakesTooLate ho hst
      · rename_i hst
        exact .wakes ho hst
    · cases h
  | join =>
    simp only [step] at h
    split at h
    · rename_i ho
      cases h
      exact .joins ho.1
    · cases h
  | thread => exact threadFunc_move h
  | inLoop a => exact inLoopStep_move h
  | other o => exact otherStep_move h
  | tick elapsed =>
    simp only [step, Option.some.injEq] at h
    subst h
    exact .ticks elapsed

/-! ## A quit made inside `loop()` -/

/-- `loop()` has been entered. -/
def entered : Stage → Bool
  | .looping => true
  | .returned => true
  | .ended => true
  | _ => false

/-- No call of another thread on the loop is under way. -/
def undisturbed (s : LoopThread F) : Bool :=
  s.owner ≠ .quitting && s.owner ≠ .waking && s.loop.quitting == 0 && s.loop.waking == 0 && s.loop.created.isEmpty

/-- A `quit()` is made after `loop()` was entered; when the loop is destroyed no call on it is under way, and none comes
    later. -/
def inTime (s : LoopThread F) : Label F → Bool
  | .stopQuit => entered s.stage
  | .other .quit => entered s.stage && s.stage ≠ .ended
  | .other _ => s.stage ≠ .ended
  | .thread => s.stage ≠ .returned || undisturbed s
  | _ => true

theorem inTime_other {o : Other F} (h : inTime s (.other o) = true) : s.stage ≠ .ended := by
  cases o with
  | quit =>
    simp only [inTime, Bool.and_eq_true, decide_eq_true_eq] at h
    exact h.2
  | _ => simpa [inTime] using h

/-- `undisturbed`, item by item. -/
structure Undisturbed (s : LoopThread F) : Prop where
  quitting : s.owner ≠ .quitting
  waking : s.owner ≠ .waking
  noQuit : s.loop.quitting = 0
  noCall : s.loop.waking = 0
  noTimer : s.loop.created = []

theorem undisturbed_iff : undisturbed s = true ↔ Undisturbed s := by
  unfold undisturbed
  simp only [Bool.and_eq_true, decide_eq_true_eq, beq_iff_eq, List.isEmpty_iff]
  constructor
  · rintro ⟨⟨⟨⟨h1, h2⟩, h3⟩, h4⟩, h5⟩
    exact ⟨h1, h2, h3, h4, h5⟩
  · intro h
    exact ⟨⟨⟨⟨h.quitting, h.waking⟩, h.noQuit⟩, h.noCall⟩, h.noTimer⟩

/-- The loop is not used behind its end, and nobody is left who could. -/
structure Spared (s : LoopThread F) : Prop where
  alive : s.dangled = false
  ended : s.stage = .ended → s.mLoop = false ∧ Undisturbed s

/-- A step that does not end the loop. -/
theorem Spared.before (hs : Spared s) (hd : s'.dangled = s.dangled) (hst : s'.stage ≠ .ended) : Spared s' :=
  ⟨hd.trans hs.alive, fun h => absurd h hst⟩

theorem Move.spared {a : Label F} (h : Move capacity s a s') (ht : inTime s a = true) (hs : Spared s) : Spared s' := by
  cases h with
  | starts => exact hs.before rfl (by simp)
  | startReturns =>
    refine ⟨hs.alive, fun hst => ?_⟩
    obtain ⟨hm, hu⟩ := hs.ended hst
    exact ⟨hm, { hu with quitting := by simp [hm], waking := by simp [hm] }⟩
  | stops =>
    refine ⟨hs.alive, fun hst => ?_⟩
    obtain ⟨hm, hu⟩ := hs.ended hst
    exact ⟨hm, { hu with quitting := by simp [hm], waking := by simp [hm] }⟩
  | asksToStop _ hst => exact hs.before rfl hst
  | asksTooLate ho hst => exact absurd ho (hs.ended hst).2.quitting
  | wakes _ hst => exact hs.before rfl hst
  | wakesTooLate ho hst => exact absurd ho (hs.ended hst).2.waking
  | joins =>
    refine ⟨hs.alive, fun hst => ?_⟩
    obtain ⟨-, hu⟩ := hs.ended hst
    exact ⟨rfl, { hu with quitting := by simp, waking := by simp }⟩
  | constructs => exact hs.before rfl (by simp)
  | publishes => exact hs.before rfl (by simp)
  | counts => exact hs.before rfl (by simp)
  | enters => exact hs.before rfl (by simp)
  | ends hst =>
    refine ⟨hs.alive, fun _ => ⟨rfl, ?_⟩⟩
    have hu : Undisturbed s := undisturbed_iff.mp (by simpa [inTime, hst] using ht)
    exact { hu with }
  | inside =>
    refine hs.before rfl ?_
    unfold after
    dsimp only
    split <;> simp
  | quits =>
    refine hs.before rfl ?_
    unfold ask after
    dsimp only
    split <;> simp
  | others hst => exact hs.before rfl hst
  | asks hst => exact hs.before rfl hst
  | othersTooLate hst => exact absurd hst (inTime_other ht)
  | ticks =>
    refine ⟨hs.alive, fun hst => ?_⟩
    obtain ⟨hm, hu⟩ := hs.ended hst
    exact ⟨hm, { hu with }⟩

theorem ahead_le_one (pc : Pc F) : ahead pc ≤ 1 := by
  unfold ahead
  split <;> decide

structure Heard (s : LoopThread F) : Prop where
  fresh : s.owner = .idle → s.stage = .idle
  inside : s.stage = .looping → inLoop s.loop.pc = true
  outside : s.stage ≠ .looping → s.loop.pc = .outside
  entered : s.asked = true → entered s.stage = true
  quit : s.asked = true → s.stage = .looping → s.loop.quit = true
  once : s.asked = true → s.polls + ahead s.loop.pc ≤ 1
  unasked : s.asked = false → s.polls = 0 ∧ s.askedFromOutside = false
  awake : s.askedFromOutside = true → beforeChannels s.loop.pc = true →
    0 < s.loop.wakeupBytes ∨ 0 < s.loop.quitting ∨ s.owner = .waking

theorem Heard.early (hs : Heard s) (h : EventLoopThread.entered s.stage = false) : s.asked = false := by
  by_contra ha
  have := hs.entered (by simpa using ha)
  rw [h] at this
  cases this

theorem Heard.begun (hs : Heard s) (h : s.stage ≠ .idle) : s.owner ≠ .idle := fun ho => h (hs.fresh ho)

/-- Before `loop()` is entered nobody has asked. -/
theorem Heard.of_unasked (hfresh : s.owner = .idle → s.stage = .idle) (hin : s.stage = .looping → inLoop s.loop.pc = true)
    (hout : s.stage ≠ .looping → s.loop.pc = .outside) (ha : s.asked = false) (hp : s.polls = 0)
    (ho : s.askedFromOutside = false) : Heard s where
  fresh := hfresh
  inside := hin
  outside := hout
  entered h := by rw [ha] at h; cases h
  quit h := by rw [ha] at h; cases h
  once h := by rw [ha] at h; cases h
  unasked _ := ⟨hp, ho⟩
  awake h := by rw [ho] at h; cases h

/-- A stage of `startLoop` or `threadFunc` up to the entry into `loop()`. -/
theorem Heard.before (hs : Heard s) (he : EventLoopThread.entered s.stage = false) {owner : Owner} {stage : Stage}
    {loop : Loop F} (hidle : owner ≠ .idle) (hin : stage = .looping → inLoop loop.pc = true)
    (hout : stage ≠ .looping → loop.pc = .outside) (mLoop : Bool) (latch : Nat) :
    Heard { s with owner := owner, stage := stage, loop := loop, mLoop := mLoop, latch := latch } := by
  have hearly := hs.early he
  obtain ⟨hp, ho⟩ := hs.unasked hearly
  exact Heard.of_unasked (fun h => absurd h hidle) hin hout hearly hp ho

/-- The owner goes on, and was not about to write the wakeup. -/
theorem Heard.owner (hs : Heard s) {owner : Owner} (hidle : owner ≠ .idle) (hw : s.owner ≠ .waking) (mLoop : Bool) :
    Heard { s with owner := owner, mLoop := mLoop } where
  fresh h := absurd h hidle
  inside := hs.inside
  outside := hs.outside
  entered := hs.entered
  quit := hs.quit
  once := hs.once
  unasked := hs.unasked
  awake h hb := by
    rcases hs.awake h hb with h | h | h
    · exact Or.inl h
    · exact Or.inr (Or.inl h)
    · exact absurd h hw

/-- A call from another thread. -/
theorem Heard.hears {l : Loop F} (hs : Heard s) (hh : Hears s.loop l) : Heard { s with loop := l } where
  fresh := hs.fresh
  inside h := hh.pc ▸ hs.inside h
  outside h := hh.pc.trans (hs.outside h)
  entered := hs.entered
  quit ha h := hh.quit (hs.quit ha h)
  once ha := by
    have := hs.once ha
    rw [← hh.pc] at this
    exact this
  unasked := hs.unasked
  awake ho hb := by
    rw [show ({ s with loop := l } : LoopThread F).loop.pc = s.loop.pc from hh.pc] at hb
    rcases hs.awake ho hb with h | h | h
    · exact (hh.awake (Or.inl h)).imp_right Or.inl
    · exact (hh.awake (Or.inr h)).imp_right Or.inl
    · exact Or.inr (Or.inr h)

/-- A request is recorded, with the flag set. -/
theorem Heard.ask (hs : Heard s) (fromOutside : Bool) (he : EventLoopThread.entered s.stage = true)
    (hq : s.loop.quit = true) (hw : fromOutside = true → 0 < s.loop.quitting ∨ s.owner = .waking) :
    Heard (ask fromOutside s) where
  fresh := hs.fresh
  inside := hs.inside
  outside := hs.outside
  entered _ := he
  quit _ _ := hq
  once _ := by
    cases ha : s.asked with
    | true => exact hs.once ha
    | false =>
      have hp := (hs.unasked ha).1
      have := ahead_le_one s.loop.pc
      change s.polls + ahead s.loop.pc ≤ 1
      omega
  unasked h := by cases h
  awake h hb := by
    rcases Bool.or_eq_true_iff.mp h with h | h
    · exact hs.awake h hb
    · exact Or.inr (hw h)

theorem entered_after (a : Act F) (l : Loop F) (s : LoopThread F) : entered (after a l s).stage = true := by
  unfold after
  simp only
  split <;> rfl

/-- A step of the loop thread inside `loop()`. -/
theorem Heard.after {a : Act F} {l : Loop F} (hs : Heard s) (hst : s.stage = .looping) (ha : insideLoop a = true)
    (hl : EventLoop.step capacity s.loop a = some l) : Heard (after a l s) := by
  have hon := inside_onward ha hl
  have hout : inLoop l.pc = false → l.pc = .outside := by
    intro h
    cases hpc : l.pc with
    | outside => rfl
    | _ => rw [hpc] at h; cases h
  refine ⟨?_, ?_, ?_, ?_, ?_, ?_, ?_, ?_⟩
  · exact fun h => absurd h (hs.begun (by rw [hst]; decide))
  · intro h
    by_contra hne
    simp only [EventLoopThread.after] at h hne
    simp only [hne] at h
    cases h
  · intro h
    refine hout ?_
    by_contra hne
    simp only [EventLoopThread.after, Bool.not_eq_false] at h hne
    simp only [hne] at h
    exact h rfl
  · exact fun _ => entered_after a l s
  · exact fun ha _ => hon.quit (hs.quit ha hst)
  · intro ha
    have ha : s.asked = true := ha
    have h1 := hs.once ha
    have h2 := hon.ahead (hs.quit ha hst)
    simp only [EventLoopThread.after, ha, Bool.true_and]
    cases hb : beginsPoll s.loop a <;> simp only [hb] at h2 ⊢ <;> simp at h2 ⊢ <;> omega
  · intro ha
    have ha : s.asked = false := ha
    simp only [EventLoopThread.after, ha, Bool.false_and]
    exact hs.unasked ha
  · intro ho hb
    have ho : s.askedFromOutside = true := ho
    have ha : s.asked = true := by
      by_contra hne
      have := (hs.unasked (by simpa using hne)).2
      rw [ho] at this
      cases this
    obtain ⟨hb', hle⟩ := hon.bytes (hs.quit ha hst) hb
    rcases hs.awake ho hb' with h | h | h
    · exact Or.inl (h.trans_le hle)
    · exact Or.inr (Or.inl (by rw [← hon.quitting] at h; exact h))
    · exact Or.inr (Or.inr h)

theorem Move.heard {a : Label F} (h : Move capacity s a s') (ht : inTime s a = true) (hsp : Spared s) (hs : Heard s) :
    Heard s' := by
  cases h with
  | starts ho =>
    have hst := hs.fresh ho
    exact hs.before (by rw [hst]; rfl) (by decide) (fun h => by cases h) (fun _ => hs.outside (by rw [hst]; decide)) _ _
  | startReturns ho => exact hs.owner (by split <;> decide) (by rw [ho]; decide) _
  | stops ho => exact hs.owner (by split <;> decide) (by rw [ho]; decide) _
  | asksToStop ho =>
    have hmain : Heard { s with owner := .waking, loop := { s.loop with quit := true } } :=
      { hs with fresh := fun h => (by cases h), quit := fun _ _ => rfl, awake := fun _ _ => Or.inr (Or.inr rfl) }
    exact hmain.ask true ht rfl (fun _ => Or.inr rfl)
  | asksTooLate ho hst => exact absurd ho (hsp.ended hst).2.quitting
  | wakesTooLate ho hst => exact absurd ho (hsp.ended hst).2.waking
  | wakes =>
    have hmain := hs.hears (@wakeup_hears F capacity s.loop s.loop rfl rfl)
    exact { hmain with fresh := fun h => (by cases h), awake := fun _ _ => Or.inl (wakeup_pos s.loop) }
  | joins ho => exact hs.owner (by decide) (by rw [ho]; decide) _
  | constructs hst =>
    exact hs.before (by rw [hst]; rfl) (hs.begun (by rw [hst]; decide)) (fun h => by cases h) (fun _ => rfl) _ _
  | publishes hst =>
    exact hs.before (by rw [hst]; rfl) (hs.begun (by rw [hst]; decide)) (fun h => by cases h)
      (fun _ => hs.outside (by rw [hst]; decide)) _ _
  | counts hst =>
    exact hs.before (by rw [hst]; rfl) (hs.begun (by rw [hst]; decide)) (fun h => by cases h)
      (fun _ => hs.outside (by rw [hst]; decide)) _ _
  | enters hst hl =>
    exact hs.before (by rw [hst]; rfl) (hs.begun (by rw [hst]; decide)) (fun _ => by rw [enter_pc hl]; rfl)
      (fun h => absurd rfl h) _ _
  | ends hst =>
    exact { hs with
      fresh := fun h => absurd h (hs.begun (by rw [hst]; decide))
      inside := fun h => by cases h
      outside := fun _ => hs.outside (by rw [hst]; decide)
      entered := fun _ => rfl
      quit := fun _ h => by cases h }
  | inside hst ha hl => exact hs.after hst ha hl
  | quits hst hl hq => exact (hs.after hst rfl hl).ask false (entered_after _ _ s) hq (fun h => by cases h)
  | others _ hl => exact hs.hears (other_hears hl)
  | asks _ hl hq hquitting =>
    exact (hs.hears (other_hears hl)).ask true (Bool.and_eq_true_iff.mp ht).1 hq (fun _ => Or.inl hquitting)
  | othersTooLate hst => exact absurd hst (inTime_other ht)
  | ticks => exact { hs with }

/-! ## Leaving the loop -/

section Leaving

variable {s l : Loop F}

/-- What the loop thread does next if `poll` finds nothing and callbacks return at once. -/
def drain : Pc F → Act F
  | .polling _ => .pollReturns []
  | .timerCallback _ _ _ => .returns
  | .channelCallback _ => .returns
  | .functorBody _ => .returns
  | _ => .next

/-- How many tasks of the heap a pass that began at `now` takes. -/
def due (now : Nat) (cancelled : List Nat) (heap : List (TimerTask F)) : Nat :=
  heap.countP fun task => decide (task.expiration ≤ now) || decide (task.id ∈ cancelled)

/-- A bound on the steps to the end of the turn. -/
def left (s : Loop F) : Nat :=
  match s.pc with
  | .outside => 0
  | .check => 1
  | .timers true now => 2 + 4 * s.timers.length + 2 * due now s.cancelled s.timers
  | .timerCallback true now _ => 7 + 4 * s.timers.length + 2 * due now s.cancelled s.timers
  | .functors rest => 3 + 6 * s.timers.length + 8 * rest.length
  | .functorBody rest => 4 + 6 * s.timers.length + 8 * rest.length
  | .swap => 4 + 6 * s.timers.length + 8 * s.pendingFunctors.length
  | .channels rest => 5 + 6 * s.timers.length + 8 * s.pendingFunctors.length + s.wakeupBytes + 2 * rest.length
  | .channelCallback rest => 6 + 6 * s.timers.length + 8 * s.pendingFunctors.length + s.wakeupBytes + 2 * rest.length
  | .wakeupRead rest => 6 + 6 * s.timers.length + 8 * s.pendingFunctors.length + s.wakeupBytes + 2 * rest.length
  | .polling _ => 6 + 6 * s.timers.length + 8 * s.pendingFunctors.length + s.wakeupBytes
  | .poll => 7 + 6 * s.timers.length + 8 * s.pendingFunctors.length + s.wakeupBytes
  | .timers false now => 8 + 6 * s.timers.length + 8 * s.pendingFunctors.length + s.wakeupBytes + 2 * due now s.cancelled s.timers
  | .timerCallback false now _ =>
    15 + 6 * s.timers.length + 8 * s.pendingFunctors.length + s.wakeupBytes + 2 * due now s.cancelled s.timers

theorem processTimers_left {second : Bool} {now : Nat} (hpc : s.pc = .timers second now) :
    left (processTimers second now s) < left s := by
  rcases processTimers_cases second now s with h | ⟨task, rest, htimers, h⟩
  · rw [h]
    cases second <;> simp [left, hpc] <;> omega
  · have hlen : s.timers.length = rest.length + 1 := by rw [htimers, List.length_cons]
    have hle : due now s.cancelled rest ≤ due now s.cancelled s.timers := by
      rw [htimers]
      exact (List.sublist_cons_self task rest).countP_le
    rcases h with ⟨-, h⟩ | ⟨⟨hdue, -⟩, h⟩
    · rw [h]
      cases second <;> simp only [left, hpc, hlen] <;> omega
    · have hone : due now s.cancelled s.timers = due now s.cancelled rest + 1 := by
        rw [htimers]
        apply List.countP_cons_of_pos
        simp only [Bool.or_eq_true, decide_eq_true_eq]
        exact Or.inl hdue
      rw [h]
      cases second <;> simp only [left, hpc, hlen, hone] <;> omega

/-- A repeating timer is not due again in the pass it ran in. -/
theorem timerReturns_left {second : Bool} {now : Nat} {task : TimerTask F}
    (hpc : s.pc = .timerCallback second now task) (hlater : task.repeats = true → now < s.clock + task.interval) :
    left (timerReturns second now task s) < left s := by
  unfold timerReturns
  split
  · rename_i h
    have hlen : (push { task with expiration := s.clock + task.interval } s.timers).length = s.timers.length + 1 :=
      (push_perm _ _).length_eq
    have hdue : due now s.cancelled (push { task with expiration := s.clock + task.interval } s.timers) =
        due now s.cancelled s.timers := by
      unfold due
      rw [(push_perm _ _).countP_eq, List.countP_cons_of_neg]
      have := hlater h.1
      simp only [Bool.or_eq_true, decide_eq_true_eq, not_or]
      exact ⟨by omega, h.2⟩
    cases second <;> simp only [left, hpc, hlen, hdue] <;> omega
  · cases second <;> simp only [left, hpc] <;> omega

theorem runFunctor_left (capacity : ℕ+) {f : Functor F} {rest : List (Functor F)} (hpc : s.pc = .functors (f :: rest)) :
    left (runFunctor capacity f rest s) < left s := by
  have hs : left s = 3 + 6 * s.timers.length + 8 * (rest.length + 1) := by simp only [left, hpc, List.length_cons]
  have hleft : ∀ l : Loop F, l.pc = .functors rest → l.timers.length ≤ s.timers.length + 1 → left l < left s := by
    intro l hl hlen
    rw [hs]
    simp only [left, hl]
    omega
  cases f with
  | user f =>
    rw [hs]
    simp only [left, runFunctor]
    omega
  | addTimerInLoop task =>
    have hheap := congrArg Table.heap (@table_addTimerInLoop F capacity task
      { s with ran := s.ran ++ [.addTimerInLoop task], pc := .functors rest })
    refine hleft _ (addTimerInLoop_aside task _).pc ?_
    rw [show (runFunctor capacity (.addTimerInLoop task) rest s).timers = push task s.timers from hheap]
    exact (push_perm task s.timers).length_eq.le
  | cancelTimerInLoop timerId =>
    refine hleft _ (cancelTimerInLoop_aside timerId _).pc ?_
    have hheap : (cancelTimerInLoop timerId
        { s with ran := s.ran ++ [.cancelTimerInLoop timerId], pc := .functors rest }).timers = s.timers := by
      unfold cancelTimerInLoop
      split <;> rfl
    rw [show (runFunctor capacity (.cancelTimerInLoop timerId) rest s).timers = s.timers from hheap]
    exact Nat.le_succ _

theorem wakeupRead_left {rest : List Channel} (hpc : s.pc = .wakeupRead rest) : left (wakeupRead rest s) < left s := by
  by_cases h : min s.wakeupBytes 256 < 256
  · simp only [wakeupRead, if_pos h, left, hpc]
    omega
  · simp only [wakeupRead, if_neg h, left, hpc]
    omega

/-- Under a quit, a turn in which nothing more happens comes to its end. -/
theorem drain_step (capacity : ℕ+) {tr : List (Loop F × Act F)} (hk : Kept tr s) (hq : s.quit = true)
    (hin : inLoop s.pc = true) :
    insideLoop (drain s.pc) = true ∧ isQuit (drain s.pc) = false ∧
      ∃ l, EventLoop.step capacity s (drain s.pc) = some l ∧ left l < left s := by
  cases hpc : s.pc with
  | outside => rw [hpc] at hin; cases hin
  | check =>
    refine ⟨rfl, rfl, { s with looping := false, pc := .outside }, ?_, ?_⟩
    · simp [drain, EventLoop.step, next, hpc, hq]
    · simp [left, hpc]
  | timers second now =>
    refine ⟨rfl, rfl, processTimers second now s, ?_, processTimers_left hpc⟩
    simp [drain, EventLoop.step, next, hpc]
  | timerCallback second now task =>
    refine ⟨rfl, rfl, timerReturns second now task s, ?_, timerReturns_left hpc fun hr => ?_⟩
    · simp [drain, EventLoop.step, returns, hpc]
    · have hnow : now ≤ s.clock := hk.inStep.passed now (by simp only [tableAfter, table, hpc, passBegan])
      have hpos := hk.inStep.periodic task (by simp [Table.tasks, tableAfter, hpc, executing]) hr
      omega
  | poll =>
    refine ⟨rfl, rfl, { s with pc := .polling (getPollTimeoutMs s) }, ?_, ?_⟩
    · simp [drain, EventLoop.step, next, hpc]
    · simp only [left, hpc]
      omega
  | polling timeoutMs =>
    refine ⟨rfl, rfl, { s with pc := .channels [] }, ?_, ?_⟩
    · simp [drain, EventLoop.step, pollReturns, hpc]
    · simp [left, hpc]
  | channels rest =>
    cases rest with
    | nil =>
      refine ⟨rfl, rfl, { s with callingPendingFunctors := true, pc := .swap }, ?_, ?_⟩
      · simp [drain, EventLoop.step, next, hpc]
      · simp only [left, hpc, List.length_nil]
        omega
    | cons channel rest =>
      cases channel with
      | wakeupFd =>
        refine ⟨rfl, rfl, { s with pc := .wakeupRead rest }, ?_, ?_⟩
        · simp [drain, EventLoop.step, next, hpc]
        · simp only [left, hpc, List.length_cons]
          omega
      | user fd =>
        refine ⟨rfl, rfl, { s with pc := .channelCallback rest }, ?_, ?_⟩
        · simp [drain, EventLoop.step, next, hpc]
        · simp only [left, hpc, List.length_cons]
          omega
  | channelCallback rest =>
    refine ⟨rfl, rfl, { s with pc := .channels rest }, ?_, ?_⟩
    · simp [drain, EventLoop.step, returns, hpc]
    · simp only [left, hpc]
      omega
  | wakeupRead rest =>
    refine ⟨rfl, rfl, wakeupRead rest s, ?_, wakeupRead_left hpc⟩
    simp [drain, EventLoop.step, next, hpc]
  | swap =>
    refine ⟨rfl, rfl, { s with pendingFunctors := [], pc := .functors s.pendingFunctors }, ?_, ?_⟩
    · simp [drain, EventLoop.step, next, hpc]
    · simp only [left, hpc]
      omega
  | functors rest =>
    cases rest with
    | nil =>
      refine ⟨rfl, rfl, { s with callingPendingFunctors := false, pc := .timers true s.clock }, ?_, ?_⟩
      · simp [drain, EventLoop.step, next, hpc]
      · have hle : due s.clock s.cancelled s.timers ≤ s.timers.length := List.countP_le_length
        simp only [left, hpc, List.length_nil]
        omega
    | cons f rest =>
      refine ⟨rfl, rfl, runFunctor capacity f rest s, ?_, runFunctor_left capacity hpc⟩
      simp [drain, EventLoop.step, next, hpc]
  | functorBody rest =>
    refine ⟨rfl, rfl, { s with pc := .functors rest }, ?_, ?_⟩
    · simp [drain, EventLoop.step, returns, hpc]
    · simp only [left, hpc]
      omega

end Leaving

/-- The loop of a thread in the middle of a run. -/
def Sound (s : LoopThread F) : Prop := ∃ tr, Kept tr s.loop

theorem sound_of_table {l : Loop F} {tr : List (Loop F × Act F)} (hk : Kept tr s.loop) (ht : table l = table s.loop)
    (ha : Aside s.loop l) : Kept tr l := by
  have hlost : lost l = lost s.loop := by rw [lost, lost, ha.pc, ha.looping]
  have htable : tableAfter tr l = tableAfter tr s.loop := by rw [tableAfter, tableAfter, ht, ha.pc]
  exact ⟨ha.flags hk.flags, by rw [hlost]; exact hk.calm, by rw [htable]; exact hk.inStep, by rw [htable]; exact hk.started,
    hk.due, by rw [show l.cancelled = s.loop.cancelled from congrArg Table.cancelled ht]; exact hk.cancelled, hk.silent⟩

theorem Move.sound {a : Label F} (h : Move capacity s a s') (hs : Sound s) : Sound s' := by
  obtain ⟨tr, hk⟩ := hs
  cases h with
  | asksToStop => exact ⟨tr, sound_of_table hk rfl ⟨rfl, rfl, rfl, rfl, rfl, rfl, rfl, le_rfl⟩⟩
  | wakes => exact ⟨tr, sound_of_table hk (table_wakeup s.loop) (wakeup_aside s.loop)⟩
  | constructs =>
    have hmade : EventLoop.step capacity EventLoop.make (.tick s.loop.clock) =
        some { (EventLoop.make : Loop F) with clock := s.loop.clock } := by
      simp [EventLoop.step, EventLoop.make]
    exact ⟨_, make_kept.step hmade⟩
  | enters _ hl => exact ⟨_, @Kept.step F capacity _ _ _ .loop hk hl⟩
  | inside _ _ hl => exact ⟨_, hk.step hl⟩
  | quits _ hl => exact ⟨_, hk.step hl⟩
  | @others o _ _ hl => exact ⟨_, @Kept.step F capacity _ _ _ (.other o) hk hl⟩
  | asks _ hl => exact ⟨_, @Kept.step F capacity _ _ _ (.other .quit) hk hl⟩
  | ticks elapsed =>
    have ht : EventLoop.step capacity s.loop (.tick elapsed) = some { s.loop with clock := s.loop.clock + elapsed } := rfl
    exact ⟨_, hk.step ht⟩
  | _ => exact ⟨tr, hk⟩

theorem Heard.of_reach (hr : (loopThread capacity).Reach (fun s a => inTime s a = true) s) :
    Heard s ∧ Spared s ∧ Sound s := by
  refine hr.inv (I := fun s => Heard s ∧ Spared s ∧ Sound s) ⟨?_, ⟨rfl, fun h => by cases h⟩, [], make_kept⟩ ?_
  · exact Heard.of_unasked (fun _ => rfl) (fun h => by cases h) (fun _ => rfl) rfl rfl rfl
  · rintro s a s' ⟨hs, hsp, hsound⟩ ht h
    exact ⟨(step_move h).heard ht hsp hs, (step_move h).spared ht hsp, (step_move h).sound hsound⟩

/-- From inside `loop()`, under a quit, the thread can return. -/
theorem returns_of_quit (n : Nat) : ∀ s : LoopThread F, left s.loop = n →
    (loopThread capacity).Reach (fun s a => inTime s a = true) s → s.stage = .looping → s.loop.quit = true →
    ∃ t, (loopThread capacity).Later (fun s a => inTime s a = true) s t ∧ t.stage = .returned ∧ t.owner = s.owner := by
  induction n using Nat.strong_induction_on with
  | _ n ih =>
    intro s hn hr hst hq
    obtain ⟨hs, -, tr, hk⟩ := Heard.of_reach hr
    obtain ⟨hinside, hnot, l, hl, hlt⟩ := drain_step capacity hk hq (hs.inside hst)
    have hon := inside_onward hinside hl
    -- one step of the loop, and the same from there
    obtain ⟨s', hs', hloop, howner, hstage⟩ : ∃ s', step capacity s (.inLoop (drain s.loop.pc)) = some s' ∧ s'.loop = l ∧
        s'.owner = s.owner ∧ s'.stage = if inLoop l.pc then .looping else .returned := by
      simp only [step, inLoopStep, hst, hinside, and_self, if_true, hl, Option.map_some, hnot]
      exact ⟨_, rfl, rfl, rfl, rfl⟩
    have hone : (loopThread capacity).Later (fun s a => inTime s a = true) s s' :=
      Lib.Machine.Later.step (a := .inLoop (drain s.loop.pc)) .refl rfl hs'
    cases hin : inLoop l.pc with
    | false =>
      rw [hin] at hstage
      exact ⟨s', hone, hstage, howner⟩
    | true =>
      rw [hin] at hstage
      obtain ⟨t, ht, hret, hown⟩ := ih (left s'.loop) (by rw [hloop]; omega) s' rfl (hone.reach hr) hstage
        (by rw [hloop]; exact hon.quit hq)
      refine ⟨t, ?_, hret, hown.trans howner⟩
      exact hone.trans ht

/-- How much the calls under way still have to do on the loop. -/
def owed (l : Loop F) : Nat := l.quitting + l.waking + 2 * l.created.length

/-- One of them goes on. -/
theorem owed_other (capacity : ℕ+) {l : Loop F} (h : owed l ≠ 0) :
    ∃ o l', o ≠ .quit ∧ EventLoop.other capacity l o = some l' ∧ owed l' < owed l := by
  have hwoken : ∀ t : Loop F, owed (wakeup capacity t) = owed t := by
    intro t
    unfold wakeup
    split <;> rfl
  by_cases hq : l.quitting = 0
  · by_cases hw : l.waking = 0
    · obtain ⟨task, rest, hc⟩ : ∃ task rest, l.created = task :: rest := by
        cases hc : l.created with
        | nil => exact absurd (by rw [owed, hq, hw, hc]; rfl) h
        | cons task rest => exact ⟨task, rest, rfl⟩
      refine ⟨.queueTimer 0, queueFromOther (.addTimerInLoop task) { l with created := rest }, by simp,
        by simp [other, hc], ?_⟩
      -- it has its wakeup still to make
      unfold owed
      rw [hc, List.length_cons]
      simp only [queueFromOther, mustWake, enqueue, Bool.not_false, Bool.true_or, if_true]
      omega
    · refine ⟨.wakeup, wakeup capacity { l with waking := l.waking - 1 }, by simp, by simp [other, hw], ?_⟩
      rw [hwoken]
      simp only [owed]
      omega
  · refine ⟨.quitWakeup, wakeup capacity { l with quitting := l.quitting - 1 }, by simp, by simp [other, hq], ?_⟩
    rw [hwoken]
    simp only [owed]
    omega

/-- On a loop that is still there, a call that is no `quit()` does what it does to the loop, at any time. -/
theorem step_other {o : Other F} {l : Loop F} (ho : handedOut s.owner = true) (hst : s.stage ≠ .ended) (hquit : o ≠ .quit)
    (hl : EventLoop.other capacity s.loop o = some l) :
    inTime s (.other o) = true ∧ step capacity s (.other o) = some { s with loop := l } := by
  simp only [step, otherStep, ho, if_true, hl, Option.map_some, if_neg hst]
  cases o with
  | quit => exact absurd rfl hquit
  | _ => exact ⟨by simpa [inTime] using hst, trivial⟩

/-- The calls under way on a loop that has been left come to their end. -/
theorem undisturbed_of_returned (n : Nat) : ∀ s : LoopThread F, owed s.loop = n → s.owner = .joining →
    s.stage = .returned → ∃ t, (loopThread capacity).Later (fun s a => inTime s a = true) s t ∧ t.owner = .joining ∧
      t.stage = .returned ∧ Undisturbed t := by
  induction n using Nat.strong_induction_on with
  | _ n ih =>
    intro s hn ho hst
    by_cases hnone : owed s.loop = 0
    · have hzero : s.loop.quitting = 0 ∧ s.loop.waking = 0 ∧ s.loop.created.length = 0 := by
        unfold owed at hnone
        omega
      exact ⟨s, .refl, ho, hst, by rw [ho]; decide, by rw [ho]; decide, hzero.1, hzero.2.1,
        List.eq_nil_of_length_eq_zero hzero.2.2⟩
    · obtain ⟨o, l, hquit, hl, hlt⟩ := owed_other capacity hnone
      obtain ⟨htime, hstep⟩ := step_other (by rw [ho]; rfl) (by rw [hst]; decide) hquit hl
      have hone : (loopThread capacity).Later (fun s a => inTime s a = true) s { s with loop := l } :=
        Lib.Machine.Later.step (a := .other o) .refl htime hstep
      obtain ⟨t, ht, hrest⟩ := ih (owed l) (hn ▸ hlt) { s with loop := l } rfl ho hst
      exact ⟨t, hone.trans ht, hrest⟩

/-- A thread whose loop has been left can be joined. -/
theorem joins_of_returned (ho : s.owner = .joining) (hst : s.stage = .returned ∨ s.stage = .ended) :
    ∃ t, (loopThread capacity).Later (fun s a => inTime s a = true) s t ∧ t.owner = .stopped := by
  have hjoin : ∀ t : LoopThread F, t.owner = .joining → t.stage = .ended →
      ∃ u, (loopThread capacity).Later (fun s a => inTime s a = true) t u ∧ u.owner = .stopped := by
    intro t ho hst
    have h : step capacity t .join = some { t with owner := .stopped, mLoop := false } := by simp [step, ho, hst]
    exact ⟨_, Lib.Machine.Later.step (a := .join) .refl rfl h, rfl⟩
  rcases hst with hst | hst
  · obtain ⟨t, ht, ho', hst', hu⟩ := @undisturbed_of_returned F capacity (owed s.loop) s rfl ho hst
    have h : step capacity t .thread = some { t with stage := .ended, mLoop := false } := by simp [step, threadFunc, hst']
    have htime : inTime t .thread = true := by
      simp only [inTime, undisturbed_iff.mpr hu, Bool.or_true]
    have hone : (loopThread capacity).Later (fun s a => inTime s a = true) t { t with stage := .ended, mLoop := false } :=
      Lib.Machine.Later.step (a := .thread) .refl htime h
    obtain ⟨u, hu, hstop⟩ := hjoin { t with stage := .ended, mLoop := false } ho' rfl
    exact ⟨u, ht.trans (hone.trans hu), hstop⟩
  · exact hjoin s ho hst

/-- If every `quit()` is made after `loop()` was entered, and no call of another thread is under way when the loop is
    destroyed or comes later: once a `quit()` is made it stays requested, the loop begins at most one more poll,
    that poll is readable or about to be if the quit came from another thread, the loop is not used behind its
    end, and a `stop()` in `join` can get there. -/
theorem quit_is_not_lost (hr : (loopThread capacity).Reach (fun s a => inTime s a = true) s) (ha : s.asked = true) :
    (s.stage = .looping → s.loop.quit = true) ∧ s.polls ≤ 1 ∧
      (s.askedFromOutside = true → ∀ timeoutMs, s.loop.pc = .polling timeoutMs →
        0 < s.loop.wakeupBytes ∨ 0 < s.loop.quitting ∨ s.owner = .waking) ∧
      s.dangled = false ∧
      (s.owner = .joining →
        ∃ t, (loopThread capacity).Later (fun s a => inTime s a = true) s t ∧ t.owner = .stopped) := by
  obtain ⟨hs, hsp, -⟩ := Heard.of_reach hr
  refine ⟨hs.quit ha, ?_, ?_, hsp.alive, ?_⟩
  · have := hs.once ha
    omega
  · intro ho timeoutMs hpc
    exact hs.awake ho (by rw [hpc]; rfl)
  · intro ho
    have hent := hs.entered ha
    cases hst : s.stage with
    | looping =>
      obtain ⟨t, ht, hret, hown⟩ := returns_of_quit (left s.loop) s rfl hr hst (hs.quit ha hst)
      obtain ⟨u, hu, hstop⟩ := @joins_of_returned F capacity _ (hown.trans ho) (Or.inl hret)
      exact ⟨u, ht.trans hu, hstop⟩
    | returned => exact joins_of_returned ho (Or.inl hst)
    | ended => exact joins_of_returned ho (Or.inr hst)
    | _ => rw [hst] at hent; cases hent

/-- `stop()` waits in `join`, and its byte is there for the loop in `poll`; another thread is in `queueInLoop`. -/
def stoppedInPoll : LoopThread Nat :=
  { (make : LoopThread Nat) with
    stage := .looping, owner := .joining, mLoop := true, latch := 0, asked := true, askedFromOutside := true
    loop := { (EventLoop.make : Loop Nat) with
      pc := .polling 10000, looping := true, quit := true, wakeupBytes := 1, waking := 1, pendingFunctors := [.user 3]
      queued := [.user 3] } }

theorem quit_is_not_lost_in_poll :
    stoppedInPoll.polls ≤ 1 ∧ stoppedInPoll.dangled = false ∧
      ∃ t, (loopThread 1).Later (fun s a => inTime s a = true) stoppedInPoll t ∧ t.owner = .stopped := by
  have hrun : (loopThread 1).run (fun s a => inTime s a = true) make
      [.startLoop, .thread, .thread, .thread, .startReturns, .thread, .inLoop .next, .inLoop .next, .inLoop .next, .stop,
        .other (.queueInLoop 3), .stopQuit, .stopWakeup] = some stoppedInPoll := by decide
  have hr : (loopThread 1).Reach (fun s a => inTime s a = true) stoppedInPoll :=
    Lib.Machine.Reach.run Lib.Machine.Reach.init hrun
  obtain ⟨-, hpolls, -, halive, hjoin⟩ := quit_is_not_lost hr rfl
  exact ⟨hpolls, halive, hjoin rfl⟩

/-- `stop()` waits in `join`; its quit came before `loop()` was entered, and its byte has been read. -/
def stoppedTooEarly : LoopThread Nat :=
  { (make : LoopThread Nat) with
    stage := .looping, owner := .joining, mLoop := true, latch := 0, asked := true, askedFromOutside := true, polls := 2
    loop := { (EventLoop.make : Loop Nat) with pc := .polling 10000, looping := true } }

/-- Two ways to fail: a quit before the entry into `loop()` is forgotten, and a loop that leaves at the store of a
    `stop()` is destroyed before the wakeup. -/
theorem a_quit_before_the_loop_is_lost :
    ((loopThread 1).Reach (fun _ _ => True) stoppedTooEarly ∧ stoppedTooEarly.asked = true ∧
      stoppedTooEarly.owner = .joining ∧ stoppedTooEarly.loop.pc = .polling 10000 ∧ stoppedTooEarly.loop.quit = false ∧
      ¬ stoppedTooEarly.polls ≤ 1) ∧
      ∃ s : LoopThread Nat, (loopThread 1).Reach (fun _ _ => True) s ∧ s.asked = true ∧ s.dangled = true := by
  have hrun : (loopThread 1).run (fun _ _ => True) make
      [.startLoop, .thread, .thread, .thread, .startReturns, .stop, .stopQuit, .stopWakeup, .thread, .inLoop .next,
        .inLoop .next, .inLoop .next, .inLoop (.pollReturns [.wakeupFd]), .inLoop .next, .inLoop .next, .inLoop .next,
        .inLoop .next, .inLoop .next, .inLoop .next, .inLoop .next, .inLoop .next, .inLoop .next] =
      some stoppedTooEarly := by decide
  obtain ⟨s, hr, hs⟩ := Lib.Machine.Reach.of_run (loopThread 1) (fun _ _ => True)
    (fun s : LoopThread Nat => s.asked && s.dangled)
    [.startLoop, .thread, .thread, .thread, .startReturns, .thread, .stop, .stopQuit, .inLoop .next, .thread, .stopWakeup]
    (by decide)
  have hs := Bool.and_eq_true_iff.mp hs
  exact ⟨⟨Lib.Machine.Reach.run Lib.Machine.Reach.init hrun, rfl, rfl, rfl, rfl, by decide⟩, s, hr, hs.1, hs.2⟩

end Dbase.Net.EventLoopThread
