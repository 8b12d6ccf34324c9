/-
  Dbase.Net.KcpSessionClock — the updates of a `KcpSession` against a clock of 32 bits.

  `ikcp_check` answers with the time of the next update, `now + m` modulo `2^32`. `scheduleUpdate` compares it with `now`
  before it takes the difference, so a time behind the wrap of the clock looks like one in the past, and the timer is armed
  with no delay at all.

  The same session at a later time of the clock is `Sys.later`: what it remembers of the clock is later by as much, and
  so are the answers of the clock and of `ikcp_check`.

  Proved:
  - `arms_iff`: the timer is armed with `m` milliseconds if and only if `now + m` does not wrap.
  - `step_later`, `trace_later`: where no time wraps, at either time of the clock, the session goes through the same run
    later, with the same timers.
-/

import Dbase.Net.KcpSession

namespace Dbase.Net.KcpSession

open Dbase.Lib

variable {cfg : Config} {s : Session} {k : Answers} {now : UInt32} {t : Nat}

/-! ## One update -/

/-- The timer that is armed, after the one before it was cancelled. -/
def ArmsAfter (m : Nat) (now : UInt32) (k : Answers) (s : Session) : Prop :=
  ∃ id, scheduleUpdate now k s =
    { cancelUpdateTimer s with
      updateTimerId := id, timers := (cancelUpdateTimer s).timers ++ [⟨id, m⟩], nextTimerId := id + 1 }

/-- The delay that `scheduleUpdate` computes from the time of the next update. -/
def delay (now next : UInt32) : Nat := if next ≤ now then 0 else (next - now).toNat

theorem scheduleUpdate_arms (now : UInt32) (k : Answers) (hs : s.state ≠ .disconnected) :
    scheduleUpdate now k s = { cancelUpdateTimer s with
      updateTimerId := (cancelUpdateTimer s).nextTimerId + k.taken
      timers := (cancelUpdateTimer s).timers ++ [⟨(cancelUpdateTimer s).nextTimerId + k.taken, delay now k.check⟩]
      nextTimerId := (cancelUpdateTimer s).nextTimerId + k.taken + 1 } :=
  if_neg hs

/-- The delay is the difference if the time of the check is not before now, and none if it is. -/
theorem delay_eq {m : Nat} (hm : m < 2 ^ 31) (now : UInt32) :
    delay now (now + UInt32.ofNat m) = if now.toNat + m < 2 ^ 32 then m else 0 := by
  have hc : (now + UInt32.ofNat m).toNat = (now.toNat + m) % 2 ^ 32 := by
    rw [UInt32.toNat_add, UInt32.toNat_ofNat']
    omega
  have hnow := now.toNat_lt
  unfold delay
  by_cases hle : now + UInt32.ofNat m ≤ now
  · rw [if_pos hle]
    rw [UInt32.le_iff_toNat_le] at hle
    split_ifs <;> omega
  · rw [if_neg hle, UInt32.toNat_sub_of_le _ _ (by rw [UInt32.le_iff_toNat_le] at *; omega)]
    rw [UInt32.le_iff_toNat_le] at hle
    split_ifs <;> omega

theorem scheduleUpdate_eq {m : Nat} (hm : m < 2 ^ 31) (hk : k.check = now + UInt32.ofNat m) (hs : s.state ≠ .disconnected) :
    ArmsAfter (if now.toNat + m < 2 ^ 32 then m else 0) now k s := by
  refine ⟨(cancelUpdateTimer s).nextTimerId + k.taken, ?_⟩
  rw [scheduleUpdate_arms now k hs, hk, delay_eq hm]

theorem ArmsAfter.unique {m m' : Nat} (h : ArmsAfter m now k s) (h' : ArmsAfter m' now k s) : m = m' := by
  obtain ⟨id, he⟩ := h
  obtain ⟨id', he'⟩ := h'
  rw [he] at he'
  have htimers := congrArg Session.timers he'
  have hlast := List.append_cancel_left htimers
  simp only [List.cons.injEq, Timer.mk.injEq, and_true] at hlast
  exact hlast.2

theorem arms_after_iff {m : Nat} (hm : m < 2 ^ 31) (hk : k.check = now + UInt32.ofNat m) (hs : s.state ≠ .disconnected) :
    ArmsAfter m now k s ↔ now.toNat + m < 2 ^ 32 := by
  have harms := scheduleUpdate_eq hm hk hs
  have hnow := now.toNat_lt
  constructor
  · intro h
    have hsame := h.unique harms
    split_ifs at hsame <;> omega
  · intro hlt
    rwa [if_pos hlt] at harms

/-! ## The same, later -/

def Answers.later (t : Nat) (k : Answers) : Answers := { k with tick := k.tick + t, check := k.check + UInt32.ofNat t }

def Session.later (t : Nat) (s : Session) : Session := { s with lastActiveTickMs := s.lastActiveTickMs + t }

def Task.later (t : Nat) : Task → Task
  | .updateEnd now => .updateEnd (now + UInt32.ofNat t)
  | task => task

def Label.later (t : Nat) : Label → Label
  | .next k => .next (k.later t)
  | .call c k => .call c (k.later t)
  | .returns => .returns
  | .fire timer k => .fire timer (k.later t)

def Todo.later (t : Nat) (todo : Todo) : Todo := (todo.1.later t, todo.2.map (Task.later t))

def Sys.later (t : Nat) (sys : Sys) : Sys :=
  { sys with session := sys.session.later t, stack := sys.stack.map (Task.later t) }

/-- The time of the check is behind the wrap of the clock. -/
def Wraps (now check : UInt32) : Prop := 2 ^ 32 ≤ now.toNat + (check - now).toNat

theorem wraps_iff {now check : UInt32} : Wraps now check ↔ ¬ now ≤ check := by
  unfold Wraps
  rw [UInt32.le_iff_toNat_le, UInt32.toNat_sub]
  have h1 := now.toNat_lt
  have h2 := check.toNat_lt
  omega

/-- Neither of two equally long checks wraps. -/
def Safe (t : Nat) (now check : UInt32) : Prop := ¬ Wraps now check ∧ ¬ Wraps (now + UInt32.ofNat t) (check + UInt32.ofNat t)

@[simp] theorem state_later (t : Nat) (s : Session) : (s.later t).state = s.state := rfl

@[simp] theorem nowMs_later (t : Nat) (k : Answers) : nowMs (k.later t) = nowMs k + UInt32.ofNat t := by
  rw [← UInt32.toNat_inj]
  simp only [nowMs, Answers.later, UInt32.toNat_add, UInt32.toNat_ofNat']
  omega

@[simp] theorem idleFor_later (t : Nat) (k : Answers) (s : Session) : idleFor (k.later t) (s.later t) = idleFor k s := by
  simp only [idleFor, Answers.later, Session.later]
  omega

@[simp] theorem cancelUpdateTimer_later (t : Nat) (s : Session) :
    cancelUpdateTimer (s.later t) = (cancelUpdateTimer s).later t := by
  unfold cancelUpdateTimer
  by_cases h : s.updateTimerId ≠ 0
  · rw [if_pos h, if_pos (by exact h)]
    rfl
  · rw [if_neg h, if_neg (by exact h)]

@[simp] theorem nextTimerId_cancelUpdateTimer (s : Session) : (cancelUpdateTimer s).nextTimerId = s.nextTimerId := by
  unfold cancelUpdateTimer
  split <;> rfl

theorem delay_later {next : UInt32} (h : Safe t now next) :
    delay (now + UInt32.ofNat t) (next + UInt32.ofNat t) = delay now next := by
  obtain ⟨h1, h2⟩ := h
  rw [wraps_iff, not_not] at h1 h2
  have hsub : next + UInt32.ofNat t - (now + UInt32.ofNat t) = next - now := by
    have hnow := now.toNat_lt
    have hnext := next.toNat_lt
    rw [← UInt32.toNat_inj]
    simp only [UInt32.toNat_sub, UInt32.toNat_add]
    omega
  have heq : next + UInt32.ofNat t ≤ now + UInt32.ofNat t ↔ next ≤ now := by
    constructor
    · intro h
      rw [UInt32.add_left_inj _ |>.mp (UInt32.le_antisymm h h2)]
      exact UInt32.le_refl _
    · intro h
      rw [UInt32.le_antisymm h h1]
      exact UInt32.le_refl _
  unfold delay
  rw [hsub]
  by_cases hle : next ≤ now
  · rw [if_pos hle, if_pos (heq.mpr hle)]
  · rw [if_neg hle, if_neg (fun h => hle (heq.mp h))]

/-! ## Every handler -/

/-- A handler ran, and if it has scheduled an update, the times are safe. -/
def SafeIf (t : Nat) (now check : UInt32) (s : Session) (after : Session) : Prop :=
  after.nextTimerId ≠ s.nextTimerId → Safe t now check

theorem scheduleUpdate_later (h : SafeIf t now k.check s (scheduleUpdate now k s)) :
    scheduleUpdate (now + UInt32.ofNat t) (k.later t) (s.later t) = (scheduleUpdate now k s).later t := by
  by_cases hdisc : s.state = .disconnected
  · unfold scheduleUpdate
    rw [if_pos hdisc, if_pos (by exact hdisc)]
  · have hsafe : Safe t now k.check := by
      refine h ?_
      rw [scheduleUpdate_arms now k hdisc]
      show (cancelUpdateTimer s).nextTimerId + k.taken + 1 ≠ s.nextTimerId
      rw [nextTimerId_cancelUpdateTimer]
      omega
    have hdelay : delay (now + UInt32.ofNat t) (k.later t).check = delay now k.check := delay_later hsafe
    rw [scheduleUpdate_arms now k hdisc, scheduleUpdate_arms (s := s.later t) _ _ hdisc, cancelUpdateTimer_later, hdelay]
    rfl

theorem handleClose_later (t : Nat) (s : Session) : handleClose (s.later t) = Todo.later t (handleClose s) := by
  unfold handleClose
  by_cases h : s.state = .disconnected
  · rw [if_pos h, if_pos (by exact h)]
    rfl
  · rw [if_neg h, if_neg (by exact h), cancelUpdateTimer_later]
    rfl

theorem closeIfSent_later (t : Nat) (k : Answers) (s : Session) :
    closeIfSent (k.later t) (s.later t) = Todo.later t (closeIfSent k s) := by
  unfold closeIfSent
  by_cases h : s.state = .disconnecting ∧ k.waitsnd = 0
  · rw [if_pos h, if_pos (by exact h), handleClose_later]
  · rw [if_neg h, if_neg (by exact h)]
    rfl

theorem nextTimerId_handleClose (s : Session) : (handleClose s).1.nextTimerId = s.nextTimerId := by
  unfold handleClose
  split
  · rfl
  · exact nextTimerId_cancelUpdateTimer s

theorem nextTimerId_closeIfSent (k : Answers) (s : Session) : (closeIfSent k s).1.nextTimerId = s.nextTimerId := by
  unfold closeIfSent
  split
  · exact nextTimerId_handleClose s
  · rfl

theorem inputEnd_later (h : SafeIf t (nowMs k) k.check s (inputEnd k s).1) :
    inputEnd (k.later t) (s.later t) = Todo.later t (inputEnd k s) := by
  unfold inputEnd at h ⊢
  unfold SafeIf at h
  rw [nextTimerId_closeIfSent] at h
  rw [nowMs_later, scheduleUpdate_later h, closeIfSent_later]

theorem updateEnd_later (h : SafeIf t now k.check s (updateEnd cfg now k s).1) :
    updateEnd cfg (now + UInt32.ofNat t) (k.later t) (s.later t) = Todo.later t (updateEnd cfg now k s) := by
  have hnext : (updateEnd cfg now k s).1.nextTimerId = (scheduleUpdate now k s).nextTimerId := by
    unfold updateEnd
    dsimp only
    split
    · rfl
    · exact nextTimerId_closeIfSent k _
  unfold SafeIf at h
  rw [hnext] at h
  unfold updateEnd
  simp only [scheduleUpdate_later h, idleFor_later, closeIfSent_later]
  split
  · rfl
  · rfl

theorem updateInLoop_later (t : Nat) (k : Answers) (s : Session) :
    updateInLoop (k.later t) (s.later t) = Todo.later t (updateInLoop k s) := by
  unfold updateInLoop
  rw [nowMs_later, state_later]
  split <;> rfl

theorem drainTurn_later (t : Nat) (k : Answers) (s : Session) :
    drainTurn cfg (k.later t) (s.later t) = Todo.later t (drainTurn cfg k s) := by
  unfold drainTurn
  by_cases hpeek : k.peek < 0
  · rw [if_pos hpeek, if_pos (by exact hpeek)]
    rfl
  rw [if_neg hpeek, if_neg (by exact hpeek)]
  by_cases hmax : k.peek > maxMessageInt cfg
  · rw [if_pos hmax, if_pos (by exact hmax)]
    rfl
  rw [if_neg hmax, if_neg (by exact hmax)]
  have hrecv : (k.later t).recv = k.recv := rfl
  rw [hrecv]
  cases k.recv <;> rfl

theorem drainEnd_later (t : Nat) (k : Answers) (s : Session) :
    drainEnd cfg (k.later t) (s.later t) = Todo.later t (drainEnd cfg k s) := by
  unfold drainEnd
  by_cases h : cfg.callbacks.writeComplete ∧ k.waitsnd = 0
  · rw [if_pos h, if_pos (by exact h)]
    rfl
  · rw [if_neg h, if_neg (by exact h)]
    rfl

theorem sendInLoop_later {data : List UInt8} (h : SafeIf t (nowMs k) k.check s (sendInLoop data k s).1) :
    sendInLoop data (k.later t) (s.later t) = Todo.later t (sendInLoop data k s) := by
  unfold sendInLoop at h ⊢
  by_cases hstate : s.state = .disconnected ∨ s.state = .disconnecting
  · rw [if_pos hstate, if_pos (by exact hstate)]
    rfl
  rw [if_neg hstate] at h
  rw [if_neg hstate, if_neg (by exact hstate)]
  by_cases hlen : data.length > 2 ^ 31 - 1
  · rw [if_pos hlen, if_pos hlen]
    rfl
  rw [if_neg hlen] at h
  rw [if_neg hlen, if_neg hlen]
  by_cases hsend : k.send < 0
  · rw [if_pos hsend, if_pos (by exact hsend)]
    rfl
  rw [if_neg hsend] at h
  rw [if_neg hsend, if_neg (by exact hsend), nowMs_later]
  show (scheduleUpdate _ _ ((touchActive k s).later t), _) = _
  rw [scheduleUpdate_later (s := touchActive k s) h]
  rfl

theorem perform_later {c : Call} (h : SafeIf t (nowMs k) k.check s (perform k s c).1) :
    perform (k.later t) (s.later t) c = Todo.later t (perform k s c) := by
  cases c with
  | connectEstablished =>
    show (scheduleUpdate (nowMs (k.later t)) _ (Session.later t { s with state := .connected }), _) = _
    rw [nowMs_later, scheduleUpdate_later (s := { s with state := .connected }) h]
    rfl
  | connectDestroyed =>
    show connectDestroyed (s.later t) = _
    unfold connectDestroyed
    rw [cancelUpdateTimer_later, state_later]
    show _ = Todo.later t (connectDestroyed s)
    unfold connectDestroyed
    split <;> rfl
  | send data =>
    show send data (k.later t) (s.later t) = Todo.later t (send data k s)
    have hsend : SafeIf t (nowMs k) k.check s (send data k s).1 := h
    unfold send at hsend ⊢
    split
    · rfl
    · rename_i hempty
      rw [if_neg hempty] at hsend
      exact sendInLoop_later hsend
  | inputPacket packet =>
    show inputPacket packet (k.later t) (s.later t) = Todo.later t (inputPacket packet k s)
    unfold inputPacket inputPacketInLoop
    by_cases hempty : packet.isEmpty
    · rw [if_pos hempty, if_pos hempty]
      rfl
    rw [if_neg hempty, if_neg hempty, state_later]
    by_cases hdisc : s.state = .disconnected
    · rw [if_pos hdisc, if_pos hdisc]
      rfl
    rw [if_neg hdisc, if_neg hdisc]
    by_cases hinput : k.input < 0
    · rw [if_pos hinput, if_pos (by exact hinput)]
      rfl
    · rw [if_neg hinput, if_neg (by exact hinput)]
      rfl
  | shutdown =>
    show shutdown (k.later t) (s.later t) = Todo.later t (shutdown k s)
    unfold shutdown
    rw [state_later]
    by_cases hdisc : s.state = .disconnected
    · rw [if_pos hdisc, if_pos hdisc]
      rfl
    rw [if_neg hdisc, if_neg hdisc]
    by_cases hwait : k.waitsnd = 0
    · simp only [hwait, if_true]
      rw [if_pos (by exact hwait)]
      exact handleClose_later t { s with state := .disconnecting }
    · simp only [hwait, if_false]
      rw [if_neg (by exact hwait)]
      rfl
  | forceClose => exact handleClose_later t s

/-! ## Every run -/

variable {sys sys' : Sys} {l : Label}

/-- The time of the clock with which a step schedules an update, if it schedules one. -/
def clock (sys : Sys) : Label → UInt32
  | .next k =>
    match sys.stack with
    | .updateEnd now :: _ => now
    | _ => nowMs k
  | .call _ k => nowMs k
  | .returns => 0
  | .fire _ k => nowMs k

def Label.check : Label → UInt32
  | .next k => k.check
  | .call _ k => k.check
  | .returns => 0
  | .fire _ k => k.check

/-- A step that schedules an update finds the next time not wrapped, now and at the later time of the clock. -/
def StaysSafe (cfg : Config) (t : Nat) (sys : Sys) (l : Label) : Prop :=
  ∀ sys', step cfg sys l = some sys' → sys'.session.nextTimerId ≠ sys.session.nextTimerId → Safe t (clock sys l) l.check

theorem did_later (t : Nat) (sys : Sys) (todo : Todo) (rest : List Task) :
    (sys.later t).did (Todo.later t todo) (rest.map (Task.later t)) = (sys.did todo rest).later t := by
  simp only [Sys.did, Sys.later, Todo.later, List.map_append]

theorem mayCall_later (t : Nat) (sys : Sys) (c : Call) : mayCall (sys.later t) c = mayCall sys c := by
  unfold mayCall Sys.later
  cases sys.stack with
  | nil => rfl
  | cons task rest => cases task <;> rfl

theorem stack_later (t : Nat) {task : Task} {rest : List Task} (h : sys.stack = task :: rest) :
    (sys.later t).stack = task.later t :: rest.map (Task.later t) := by
  simp only [Sys.later, h, List.map_cons]

theorem next_later {task : Task} {rest : List Task} (hsafe : StaysSafe cfg t sys (.next k))
    (hstack : sys.stack = task :: rest) (h : next cfg k sys task rest = some sys') :
    next cfg (k.later t) (sys.later t) (task.later t) (rest.map (Task.later t)) = some (sys'.later t) := by
  have hstep : step cfg sys (.next k) = some sys' := by
    rw [← h]
    simp only [step, hstack]
  have hs := hsafe sys' hstep
  cases task with
  | user => cases h
  | invoke cb =>
    obtain rfl := Option.some.inj h
    show some (if isSet cfg cb then (sys.later t).begins cb _ else (sys.later t).did (Todo.later t (sys.session, [])) _) = _
    rw [did_later]
    split <;> rfl
  | handleClose =>
    obtain rfl := Option.some.inj h
    show some ((sys.later t).did (handleClose (sys.session.later t)) _) = _
    rw [handleClose_later, did_later]
  | drainTurn =>
    obtain rfl := Option.some.inj h
    show some ((sys.later t).did (drainTurn cfg (k.later t) (sys.session.later t)) _) = _
    rw [drainTurn_later, did_later]
  | drainEnd =>
    obtain rfl := Option.some.inj h
    show some ((sys.later t).did (drainEnd cfg (k.later t) (sys.session.later t)) _) = _
    rw [drainEnd_later, did_later]
  | inputEnd =>
    obtain rfl := Option.some.inj h
    have hin : SafeIf t (nowMs k) k.check sys.session (inputEnd k sys.session).1 := by
      intro hne
      have hsafe := hs hne
      simpa only [clock, hstack, Label.check] using hsafe
    show some ((sys.later t).did (inputEnd (k.later t) (sys.session.later t)) _) = _
    rw [inputEnd_later hin, did_later]
  | updateEnd now =>
    obtain rfl := Option.some.inj h
    have hup : SafeIf t now k.check sys.session (updateEnd cfg now k sys.session).1 := by
      intro hne
      have hsafe := hs hne
      simpa only [clock, hstack, Label.check] using hsafe
    show some ((sys.later t).did (updateEnd cfg (now + UInt32.ofNat t) (k.later t) (sys.session.later t)) _) = _
    rw [updateEnd_later hup, did_later]

/-- Later the session makes the same step. -/
theorem step_later (hsafe : StaysSafe cfg t sys l) (h : step cfg sys l = some sys') :
    step cfg (sys.later t) (l.later t) = some (sys'.later t) := by
  cases l with
  | next k =>
    cases hstack : sys.stack with
    | nil =>
      simp only [step, hstack] at h
      cases h
    | cons task rest =>
      have hlater := stack_later t hstack
      simp only [step, hstack] at h
      simp only [step, Label.later, hlater]
      exact next_later hsafe hstack h
  | call c k =>
    have hs := hsafe sys' h
    simp only [step] at h
    split at h
    · rename_i hmay
      obtain rfl := Option.some.inj h
      have hperform : SafeIf t (nowMs k) k.check sys.session (perform k sys.session c).1 := hs
      simp only [step, Label.later]
      rw [mayCall_later, if_pos hmay]
      show some (({ sys with established := true }.later t).did (perform (k.later t) (sys.session.later t) c) _) = _
      rw [perform_later hperform, ← did_later]
      rfl
    · cases h
  | returns =>
    cases hstack : sys.stack with
    | nil =>
      simp only [step, hstack] at h
      cases h
    | cons task rest =>
      have hlater := stack_later t hstack
      cases task with
      | user =>
        simp only [step, hstack, Option.some.injEq] at h
        subst h
        simp only [step, Label.later, hlater, Task.later]
        rfl
      | _ =>
        simp only [step, hstack] at h
        cases h
  | fire timer k =>
    simp only [step] at h
    split at h
    · rename_i hfire
      obtain rfl := Option.some.inj h
      have hlater : (sys.later t).stack = [] ∧ timer ∈ (sys.later t).session.timers := by
        refine ⟨?_, hfire.2⟩
        simp only [Sys.later, hfire.1, List.map_nil]
      simp only [step, Label.later]
      rw [if_pos hlater]
      show some ((sys.later t).did (updateInLoop (k.later t)
        (Session.later t { sys.session with timers := sys.session.timers.erase timer })) ([].map (Task.later t))) = _
      rw [updateInLoop_later, did_later]
    · cases h

/-- Later the session goes through the same run. -/
theorem trace_later {tick : Int} {n : Nat} {tr : List (Sys × Label)}
    (h : (session cfg tick n).Trace (StaysSafe cfg t) tr sys) :
    (session cfg (tick + t) n).Trace (fun _ _ => True) (tr.map fun p => (p.1.later t, p.2.later t)) (sys.later t) := by
  induction h with
  | nil => exact .nil
  | snoc _ hsafe hstep ih =>
    rw [List.map_append]
    exact ih.snoc trivial (step_later hsafe hstep)

/-- An update is scheduled exactly as `ikcp_check` asks if and only if its time does not wrap; and where none wraps, the
session goes through the same run at any later time of the clock. -/
theorem wrap_safe_iff (m : Nat) (now : UInt32) (k : Answers) (s : Session) (hm : m < 2 ^ 31)
    (hk : k.check = now + UInt32.ofNat m) (hs : s.state ≠ .disconnected) :
    (ArmsAfter m now k s ↔ now.toNat + m < 2 ^ 32) ∧
      ∀ (cfg : Config) (tick : Int) (n t : Nat) (tr : List (Sys × Label)) (sys : Sys),
        (session cfg tick n).Trace (StaysSafe cfg t) tr sys →
        (session cfg (tick + t) n).Trace (fun _ _ => True) (tr.map fun p => (p.1.later t, p.2.later t)) (sys.later t) ∧
          (sys.later t).session.timers = sys.session.timers :=
  ⟨arms_after_iff hm hk hs, fun _ _ _ _ _ _ h => ⟨trace_later h, rfl⟩⟩

/-- The last update before the wrap. -/
theorem wrap_safe_before_the_wrap : ArmsAfter 10 (2 ^ 32 - 20) { check := 2 ^ 32 - 10 } ⟨.connected, 0, 0, [], 1⟩ :=
  (wrap_safe_iff 10 (2 ^ 32 - 20) { check := 2 ^ 32 - 10 } ⟨.connected, 0, 0, [], 1⟩ (by decide) (by decide)
    (by decide)).1.mpr (by decide)

/-- In the last millisecond before the wrap an update that is due in ten is scheduled at once. -/
theorem the_wrap_is_the_past : ¬ ∀ (m : Nat) (now : UInt32) (k : Answers) (s : Session), m < 2 ^ 31 →
    k.check = now + UInt32.ofNat m → s.state ≠ .disconnected → ArmsAfter m now k s := by
  intro h
  have hok := h 10 (2 ^ 32 - 1) { check := 9 } ⟨.connected, 0, 0, [], 1⟩ (by decide) (by decide) (by decide)
  exact absurd ((arms_after_iff (by decide) (by decide) (by decide)).mp hok) (by decide)

end Dbase.Net.KcpSession
