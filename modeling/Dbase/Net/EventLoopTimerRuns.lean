/-
  Dbase.Net.EventLoopTimerRuns — the timers of an event loop over whole runs, with callbacks that
  add and cancel timers, and other threads that do.

  `table` is the table of a loop, and every step is a move of it (`step_table`).

  Proved, in every run (`timers_kept_in_step`): the map holds exactly the ids of the tasks in the
  heap or running that are not cancelled; a one-shot timer starts at most once; no timer starts
  before its expiration, nor after it was cancelled while registered; a pass starts timers in
  the order of `TimerCompare`; and `getPollTimeoutMs` is at most the time left to any timer.

  A cancellation across threads (`cancelled_for_good`): once `cancelTimerInLoop` has run for an id
  that `runAfter` had returned, its callback never starts again, unless the cancel was made on
  the loop thread with the timer still on its way to the heap. That cancel finds nothing,
  and the timer fires (`a_cancelled_timer_fires`).
-/

import Dbase.Net.EventLoopTimers

namespace Dbase.Net.EventLoop

variable {F : Type} {capacity : ℕ+} {s s' : Loop F}

/-! ## The table of a loop -/

/-- The task whose callback runs. -/
def executing : Pc F → List (TimerTask F)
  | .timerCallback _ _ task => [task]
  | _ => []

/-- What is left of the batch of functors. -/
def batch : Pc F → List (Functor F)
  | .functors rest => rest
  | .functorBody rest => rest
  | _ => []

def added : Functor F → Option (TimerTask F)
  | .addTimerInLoop task => some task
  | _ => none

/-- The tasks of `addTimerInLoop` functors that have not run. -/
def queuedTimers (s : Loop F) : List (TimerTask F) := (batch s.pc ++ s.pendingFunctors).filterMap added

/-- When the pass of `processTimers` that is under way began. -/
def passBegan : Pc F → Option Nat
  | .timers _ now => some now
  | .timerCallback _ now _ => some now
  | _ => none

def table (s : Loop F) : Table F where
  heap := s.timers
  running := executing s.pc
  queued := queuedTimers s
  created := s.created
  map := s.timerMap
  cancelled := s.cancelled
  next := s.nextTimerId
  clock := s.clock
  pass := passBegan s.pc

/-- The task whose callback a step starts. -/
def fires (s : Loop F) : Act F → Option (TimerTask F)
  | .next =>
    match s.pc with
    | .timers second now => (executing (processTimers second now s).pc).head?
    | _ => none
  | _ => none

/-- The step begins a pass of `processTimers`. -/
def beginsPass (s : Loop F) : Act F → Bool
  | .next =>
    match s.pc with
    | .check => !s.quit
    | .functors [] => true
    | _ => false
  | _ => false

/-- The id of a `cancelTimerInLoop` that the step runs. -/
def cancels (s : Loop F) : Act F → Option Nat
  | .call (.cancelTimer timerId) => if timerId = 0 then none else some timerId
  | .next =>
    match s.pc with
    | .functors (.cancelTimerInLoop timerId :: _) => some timerId
    | _ => none
  | _ => none

def event (s : Loop F) (a : Act F) : Table.Event F :=
  match fires s a with
  | some task => .starts task
  | none => if beginsPass s a then .begins else .silent

/-! ## Every step is a move -/

@[simp] theorem table_wakeup (s : Loop F) : table (wakeup capacity s) = table s := by
  unfold wakeup
  split <;> rfl

theorem table_addTimerInLoop (task : TimerTask F) (s : Loop F) :
    table (addTimerInLoop capacity task s) =
      { table s with heap := push task s.timers, map := s.timerMap.insert task.id } := by
  have hwake : ∀ (wake : Bool) (t : Loop F), table (if wake then wakeup capacity t else t) = table t := by
    intro wake t
    split
    · exact table_wakeup t
    · rfl
  exact hwake _ _

theorem queuedTimers_enqueue (f : Functor F) (s : Loop F) :
    queuedTimers (enqueue f s) = queuedTimers s ++ (added f).toList := by
  unfold queuedTimers enqueue
  rw [← List.append_assoc, List.filterMap_append]
  cases f <;> rfl

theorem table_queueInLoop (f : F) (s : Loop F) : table (queueInLoop capacity (.user f) s) = table s := by
  have henq : table (enqueue (.user f) s) = table s := by
    have h := queuedTimers_enqueue (.user f) s
    simp only [added, Option.toList_none, List.append_nil] at h
    simp only [table, h]
    rfl
  unfold queueInLoop
  simp only
  split
  · rw [table_wakeup, henq]
  · exact henq

theorem table_queueFromOther (f : Functor F) (s : Loop F) :
    table (queueFromOther f s) = { table s with queued := queuedTimers s ++ (added f).toList } := by
  rw [← queuedTimers_enqueue]
  rfl

/-- A task of `runAt` has a fresh id, is not due before now, and an interval if it repeats. -/
theorem makeTimer_fresh {request : TimerRequest F} {task : TimerTask F} (h : makeTimer s request = some (task, s')) :
    Table.Fresh (table s) task ∧ table s' = { table s with next := s.nextTimerId + 1 } ∧ s'.timers = s.timers ∧
      s'.timerMap = s.timerMap := by
  cases request with
  | runAfter delay cb =>
    simp only [makeTimer, Option.some.injEq, Prod.mk.injEq] at h
    obtain ⟨rfl, rfl⟩ := h
    exact ⟨⟨rfl, Nat.le_add_right _ _, fun h => by cases h⟩, rfl, rfl, rfl⟩
  | runEvery interval cb =>
    simp only [makeTimer] at h
    split at h
    · cases h
    · rename_i hpos
      simp only [Option.some.injEq, Prod.mk.injEq] at h
      obtain ⟨rfl, rfl⟩ := h
      refine ⟨⟨rfl, Nat.le_add_right _ _, fun _ => ?_⟩, rfl, rfl, rfl⟩
      exact Nat.mul_pos (by omega) (by decide)

/-- A step that leaves the timers alone. -/
theorem still (h : table s' = { table s with clock := s'.clock }) (hc : s.clock ≤ s'.clock) :
    Table.Move (table s) .silent (table s') := by
  rw [h]
  exact Table.Move.still hc

theorem still_of_eq (h : table s' = table s) : Table.Move (table s) .silent (table s') := by
  rw [h]
  exact Table.Move.still (m := table s) le_rfl

theorem cancelTimerInLoop_move (timerId : Nat) (s : Loop F) :
    Table.Move (table s) .silent (table (cancelTimerInLoop timerId s)) := by
  unfold cancelTimerInLoop
  split
  · exact still_of_eq rfl
  · rename_i h
    exact Table.Move.cancel (m := table s) (not_not.mp h)

theorem call_table {c : Call F} (h : call capacity s c = some s') : Table.Move (table s) .silent (table s') := by
  cases call_cases h with
  | queueInLoop f => exact still_of_eq (table_queueInLoop f s)
  | timer ht =>
    obtain ⟨hfresh, htable, htimers, hmap⟩ := makeTimer_fresh ht
    rw [table_addTimerInLoop, htable, htimers, hmap]
    exact Table.Move.add hfresh
  | cancelNone => exact still_of_eq rfl
  | cancelTimer timerId => exact cancelTimerInLoop_move timerId s
  | quit => exact still_of_eq rfl

theorem other_table {o : Other F} (h : other capacity s o = some s') : Table.Move (table s) .silent (table s') := by
  cases other_cases h with
  | queueInLoop f =>
    apply still_of_eq
    rw [table_queueFromOther]
    simp only [added, Option.toList_none, List.append_nil]
    rfl
  | @makeTimer _ task t ht =>
    obtain ⟨hfresh, htable, -, -⟩ := makeTimer_fresh ht
    have hcreated : t.created = s.created := congrArg Table.created htable
    have hadd : table { t with created := t.created ++ [task] } = { table t with created := s.created ++ [task] } := by
      rw [hcreated]
      rfl
    rw [hadd, htable]
    exact Table.Move.create hfresh
  | queueTimer hi =>
    rw [table_queueFromOther]
    exact Table.Move.queue (m := table s) hi
  | cancelNone => exact still_of_eq rfl
  | cancelTimer timerId =>
    apply still_of_eq
    rw [table_queueFromOther]
    simp only [added, Option.toList_none, List.append_nil]
    rfl
  | wakeup =>
    apply still_of_eq
    rw [table_wakeup]
    rfl
  | quit => exact still_of_eq rfl
  | quitWakeup =>
    apply still_of_eq
    rw [table_wakeup]
    rfl

theorem event_timers {second : Bool} {now : Nat} (hpc : s.pc = .timers second now) :
    event s .next = ((executing (processTimers second now s).pc).head?.elim .silent .starts) := by
  simp only [event, fires, beginsPass, hpc]
  cases (executing (processTimers second now s).pc).head? <;> rfl

theorem processTimers_table {second : Bool} {now : Nat} (hpc : s.pc = .timers second now) :
    Table.Move (table s) (event s .next) (table (processTimers second now s)) := by
  have hrun : (table s).running = [] := by simp only [table, hpc, executing]
  have hpass : (table s).pass = some now := by simp only [table, hpc, passBegan]
  have hq : queuedTimers s = s.pendingFunctors.filterMap added := by simp only [queuedTimers, hpc, batch, List.nil_append]
  have leave : Table.Move (table s) .silent (table { s with pc := if second then .check else .poll }) := by
    have h : table { s with pc := if second then .check else .poll } = { table s with pass := none } := by
      simp only [table, hq, hpc]
      cases second <;> rfl
    rw [h]
    exact Table.Move.ends
  rw [event_timers hpc]
  rcases processTimers_cases second now s with h | ⟨task, rest, htimers, ⟨hdrop, h⟩ | ⟨⟨hdue, hc, hmap⟩, h⟩⟩
  · rw [h]
    cases second <;> exact leave
  · have hsilent : (executing s.pc).head?.elim Table.Event.silent Table.Event.starts = .silent := by
      rw [hpc]
      rfl
    rw [h, hsilent]
    exact Table.Move.pop (m := table s) htimers hdrop
  · have hstart : table { s with timers := rest, pc := .timerCallback second now task } =
        { table s with heap := rest, running := [task] } := by
      simp only [table, hq, hpc]
      rfl
    rw [h, hstart]
    exact Table.Move.starts (m := table s) htimers hrun hpass hdue hc hmap

theorem timerReturns_table {second : Bool} {now : Nat} {task : TimerTask F}
    (hpc : s.pc = .timerCallback second now task) :
    Table.Move (table s) .silent (table (timerReturns second now task s)) := by
  have hrun : (table s).running = [task] := by simp only [table, hpc, executing]
  have hpass : (table s).pass.isSome := by simp only [table, hpc, passBegan, Option.isSome_some]
  -- the pass goes on
  have hback : ∀ heap map, table { s with timers := heap, timerMap := map, pc := .timers second now } =
      { table s with heap := heap, map := map, running := [] } := by
    intro heap map
    simp only [table, queuedTimers, hpc]
    rfl
  unfold timerReturns
  split
  · rename_i h
    have := hback (push { task with expiration := s.clock + task.interval } s.timers) s.timerMap
    rw [this]
    exact Table.Move.again hrun hpass h.1 h.2
  · rename_i h
    have := hback s.timers (s.timerMap.erase task.id)
    rw [this]
    exact Table.Move.done hrun hpass fun hr => not_not.mp fun hc => h ⟨hr, hc⟩

/-- A step that starts no callback and begins no pass. -/
theorem event_silent {a : Act F} (hf : fires s a = none) (hb : beginsPass s a = false) : event s a = .silent := by
  simp only [event, hf, hb]
  rfl

theorem event_begins (hf : fires s .next = none) (hb : beginsPass s .next = true) : event s .next = .begins := by
  simp only [event, hf, hb, if_true]

theorem runFunctor_table {f : Functor F} {rest : List (Functor F)} (hpc : s.pc = .functors (f :: rest)) :
    Table.Move (table s) .silent (table (runFunctor capacity f rest s)) := by
  have hpass : (table s).pass = none := by simp only [table, hpc, passBegan]
  have hq : queuedTimers s = (added f).toList ++ queuedTimers { s with ran := s.ran ++ [f], pc := .functors rest } := by
    simp only [queuedTimers, hpc, batch, List.cons_append]
    cases f <;> rfl
  have hbegun : table { s with ran := s.ran ++ [f], pc := .functors rest } =
      { table s with queued := queuedTimers { s with ran := s.ran ++ [f], pc := .functors rest } } := by
    simp only [table, hpc]
    rfl
  cases f with
  | user f =>
    apply still_of_eq
    have hsame : table (runFunctor capacity (.user f) rest s) =
        table { s with ran := s.ran ++ [.user f], pc := .functors rest } := rfl
    rw [hsame, hbegun]
    simp only [added, Option.toList_none, List.nil_append] at hq
    rw [← hq]
    rfl
  | addTimerInLoop task =>
    simp only [runFunctor]
    rw [table_addTimerInLoop, hbegun]
    exact Table.Move.enter (m := table s) hq hpass
  | cancelTimerInLoop timerId =>
    simp only [added, Option.toList_none, List.nil_append] at hq
    have hsame : table { s with ran := s.ran ++ [.cancelTimerInLoop timerId], pc := .functors rest } = table s := by
      rw [hbegun, ← hq]
      rfl
    have h := cancelTimerInLoop_move timerId { s with ran := s.ran ++ [.cancelTimerInLoop timerId], pc := .functors rest }
    rw [hsame] at h
    exact h

/-- The loop thread goes on to another place outside of `processTimers`. -/
theorem goto_table {pc : Pc F} (hrun : executing pc = executing s.pc) (hpass : passBegan pc = passBegan s.pc)
    (hb : batch pc = batch s.pc) : Table.Move (table s) .silent (table { s with pc := pc }) := by
  apply still_of_eq
  simp only [table, queuedTimers, hrun, hpass, hb]

theorem begins_table (hpc : passBegan s.pc = none) (hrun : executing s.pc = []) (hb : batch s.pc = [])
    (second calling : Bool) :
    Table.Move (table s) .begins (table { s with callingPendingFunctors := calling, pc := .timers second s.clock }) := by
  have h : table { s with callingPendingFunctors := calling, pc := .timers second s.clock } =
      { table s with pass := some s.clock } := by
    simp only [table, queuedTimers, hrun, hb]
    rfl
  rw [h]
  exact Table.Move.begins hpc

/-- An exception leaves `loop()`; the task whose callback threw is neither in the heap nor done. -/
theorem throws_table (s : Loop F) :
    Table.Move (table s) .silent { table { s with pc := .outside } with running := executing s.pc } := by
  have hq : (queuedTimers { s with pc := .outside }).Sublist (queuedTimers s) :=
    (List.sublist_append_right (batch s.pc) s.pendingFunctors).filterMap _
  exact Table.Move.lose hq

/-- Every step of the loop and of the other threads is a move of the table. -/
theorem step_table {a : Act F} (ha : a ≠ .throws) (h : step capacity s a = some s') :
    Table.Move (table s) (event s a) (table s') := by
  cases step_cases h with
  | enters hpc =>
    apply still_of_eq
    simp only [table, queuedTimers, hpc]
    rfl
  | leaves hpc hq =>
    rw [event_silent (by simp only [fires, hpc]) (by simp [beginsPass, hpc, hq])]
    apply still_of_eq
    simp only [table, queuedTimers, hpc]
    rfl
  | turns hpc hq =>
    rw [event_begins (by simp only [fires, hpc]) (by simp [beginsPass, hpc, hq])]
    exact begins_table (by rw [hpc]; rfl) (by rw [hpc]; rfl) (by rw [hpc]; rfl) false _
  | timers hpc => exact processTimers_table hpc
  | polls hpc =>
    rw [event_silent (by simp only [fires, hpc]) (by simp only [beginsPass, hpc])]
    exact goto_table (by rw [hpc]; rfl) (by rw [hpc]; rfl) (by rw [hpc]; rfl)
  | pollReturns hpc => exact goto_table (by rw [hpc]; rfl) (by rw [hpc]; rfl) (by rw [hpc]; rfl)
  | handlesWakeup hpc =>
    rw [event_silent (by simp only [fires, hpc]) (by simp only [beginsPass, hpc])]
    exact goto_table (by rw [hpc]; rfl) (by rw [hpc]; rfl) (by rw [hpc]; rfl)
  | handles hpc =>
    rw [event_silent (by simp only [fires, hpc]) (by simp only [beginsPass, hpc])]
    exact goto_table (by rw [hpc]; rfl) (by rw [hpc]; rfl) (by rw [hpc]; rfl)
  | reads hpc =>
    rw [event_silent (by simp only [fires, hpc]) (by simp only [beginsPass, hpc])]
    apply still_of_eq
    unfold wakeupRead
    simp only [table, queuedTimers, hpc]
    split <;> rfl
  | handled hpc =>
    rw [event_silent (by simp only [fires, hpc]) (by simp only [beginsPass, hpc])]
    apply still_of_eq
    simp only [table, queuedTimers, hpc]
    rfl
  | swaps hpc =>
    rw [event_silent (by simp only [fires, hpc]) (by simp only [beginsPass, hpc])]
    apply still_of_eq
    simp only [table, queuedTimers, hpc, batch, List.append_nil, List.nil_append]
    rfl
  | runs hpc =>
    rw [event_silent (by simp only [fires, hpc]) (by simp only [beginsPass, hpc])]
    exact runFunctor_table hpc
  | ran hpc =>
    rw [event_begins (by simp only [fires, hpc]) (by simp only [beginsPass, hpc])]
    exact begins_table (by rw [hpc]; rfl) (by rw [hpc]; rfl) (by rw [hpc]; rfl) true _
  | calls _ h => exact call_table h
  | timerReturns hpc => exact timerReturns_table hpc
  | channelReturns hpc => exact goto_table (by rw [hpc]; rfl) (by rw [hpc]; rfl) (by rw [hpc]; rfl)
  | functorReturns hpc => exact goto_table (by rw [hpc]; rfl) (by rw [hpc]; rfl) (by rw [hpc]; rfl)
  | throws => exact absurd rfl ha
  | others h => exact other_table h
  | ticks => exact still rfl (Nat.le_add_right _ _)

theorem event_started (s : Loop F) (a : Act F) : (event s a).started = fires s a := by
  unfold event
  cases fires s a with
  | some task => rfl
  | none => cases beginsPass s a <;> rfl

theorem fires_timers {a : Act F} {task : TimerTask F} (h : fires s a = some task) :
    ∃ second now, a = .next ∧ s.pc = .timers second now := by
  unfold fires at h
  split at h
  · split at h
    · rename_i second now hpc
      exact ⟨second, now, rfl, hpc⟩
    · cases h
  · cases h

theorem event_inPass (s : Loop F) (a : Act F) (l : List (TimerTask F)) :
    Table.inPass l (event s a) = if beginsPass s a then [] else l ++ (fires s a).toList := by
  unfold event
  cases hf : fires s a with
  | some task =>
    obtain ⟨second, now, rfl, hpc⟩ := fires_timers hf
    have hb : beginsPass s .next = false := by simp only [beginsPass, hpc]
    rw [hb]
    rfl
  | none =>
    cases beginsPass s a with
    | true => rfl
    | false => exact (List.append_nil l).symm

theorem fires_move {a : Act F} {task : TimerTask F} (h : fires s a = some task) :
    ∃ m, Table.Move (table s) (.starts task) m := by
  obtain ⟨second, now, rfl, hpc⟩ := fires_timers h
  have hmove := processTimers_table hpc
  have hevent : event s .next = .starts task := by simp only [event, h]
  rw [hevent] at hmove
  exact ⟨_, hmove⟩

/-! ## Runs -/

/-- The callbacks started so far. -/
def fired (tr : List (Loop F × Act F)) : List (TimerTask F) := tr.filterMap fun x => fires x.1 x.2

/-- The callbacks started since the last pass of `processTimers` began. -/
def firedInPass (tr : List (Loop F × Act F)) : List (TimerTask F) :=
  tr.foldl (fun l x => if beginsPass x.1 x.2 then [] else l ++ (fires x.1 x.2).toList) []

/-- The task whose callback a step leaves by an exception. -/
def threw (s : Loop F) : Act F → List (TimerTask F)
  | .throws => executing s.pc
  | _ => []

/-- The tasks whose callbacks threw. -/
def thrown (tr : List (Loop F × Act F)) : List (TimerTask F) := tr.flatMap fun x => threw x.1 x.2

/-- An exception has left `loop()`. -/
def lost (s : Loop F) : Bool := !inLoop s.pc && s.looping

/-- A callback that threw counts as running. -/
def tableAfter (tr : List (Loop F × Act F)) (s : Loop F) : Table F :=
  { table s with running := executing s.pc ++ thrown tr }

theorem lost_iff_stopped (s : Loop F) : lost s = true ↔ phase s = .stopped := by
  unfold lost phase
  cases s.pc with
  | outside => cases s.looping <;> simp [inLoop]
  | _ => simp [inLoop]

theorem lost_stays (hf : Flags s) {a : Act F} (h : step capacity s a = some s') (hl : lost s = true) :
    lost s' = true := by
  have hm : Moves False s s' := step_moves hf False.elim h
  exact (lost_iff_stopped s').mpr (hm.1.stopped ((lost_iff_stopped s).mp hl))

theorem executing_of_lost (hl : lost s = true) : executing s.pc = [] := by
  unfold lost at hl
  cases hpc : s.pc with
  | timerCallback second now task => simp [hpc, inLoop] at hl
  | _ => rfl

/-- What the run leaves behind at every moment. -/
structure Kept (tr : List (Loop F × Act F)) (s : Loop F) : Prop where
  flags : Flags s
  calm : lost s = false → thrown tr = []
  inStep : (tableAfter tr s).InStep
  started : Table.Started (fired tr) (firedInPass tr) (tableAfter tr s)
  due : ∀ x ∈ tr, ∀ task, fires x.1 x.2 = some task → task.expiration ≤ x.1.clock
  cancelled : ∀ x ∈ tr, ∀ i, cancels x.1 x.2 = some i → i ∈ x.1.timerMap → i ∈ s.cancelled
  silent : tr.Pairwise fun x y => ∀ i, cancels x.1 x.2 = some i → i ∈ x.1.timerMap →
    ∀ task, fires y.1 y.2 = some task → task.id ≠ i

variable {tr : List (Loop F × Act F)} {a : Act F}

theorem threw_of_ne (s : Loop F) (ha : a ≠ .throws) : threw s a = [] := by
  cases a with
  | throws => exact absurd rfl ha
  | _ => rfl

theorem thrown_snoc (tr : List (Loop F × Act F)) (s : Loop F) (a : Act F) :
    thrown (tr ++ [(s, a)]) = thrown tr ++ threw s a := by
  simp [thrown]

theorem Kept.move (hk : Kept tr s) (h : step capacity s a = some s') :
    Table.Move (tableAfter tr s) (event s a) (tableAfter (tr ++ [(s, a)]) s') := by
  by_cases ha : a = .throws
  · subst ha
    cases step_cases h with
    | throws hin =>
      have hcalm : thrown tr = [] := hk.calm (by simp [lost, hin])
      simp only [tableAfter, thrown_snoc, hcalm, threw, executing, List.append_nil, List.nil_append]
      exact throws_table s
  · have hmove := step_table ha h
    cases hl : lost s with
    | false =>
      simp only [tableAfter, thrown_snoc, threw_of_ne s ha, hk.calm hl, List.append_nil]
      exact hmove
    | true =>
      -- nothing runs any more but code outside `loop()`
      have hrun := executing_of_lost hl
      have hrun' := executing_of_lost (lost_stays hk.flags h hl)
      simp only [tableAfter, thrown_snoc, threw_of_ne s ha, hrun, hrun', List.nil_append, List.append_nil]
      exact hmove.frame hrun hrun' (thrown tr)

theorem Kept.calm_step (hk : Kept tr s) (h : step capacity s a = some s') (hl : lost s' = false) :
    thrown (tr ++ [(s, a)]) = [] := by
  by_cases ha : a = .throws
  · subst ha
    cases step_cases h with
    | throws hin =>
      rw [lost, hk.flags.looping hin] at hl
      cases hl
  · have hl' : lost s = false := by
      by_contra hne
      rw [lost_stays hk.flags h (by simpa using hne)] at hl
      cases hl
    rw [thrown_snoc, threw_of_ne s ha, hk.calm hl']
    rfl

theorem cancels_cancelled (h : step capacity s a = some s') {i : Nat} (hc : cancels s a = some i)
    (hi : i ∈ s.timerMap) : i ∈ s'.cancelled := by
  unfold cancels at hc
  split at hc
  · split at hc
    · cases hc
    · rename_i h0
      cases hc
      simp only [step] at h
      split at h
      · simp only [call, if_neg h0, Option.some.injEq] at h
        subst h
        simp [cancelTimerInLoop, hi]
      · cases h
  · split at hc
    · rename_i hpc
      cases hc
      simp only [step, next, hpc, Option.some.injEq] at h
      subst h
      simp [runFunctor, cancelTimerInLoop, hi]
    · cases hc
  · cases hc

theorem Kept.step (hk : Kept tr s) (h : step capacity s a = some s') : Kept (tr ++ [(s, a)]) s' := by
  have hm := hk.move h
  have hmoves : Moves False s s' := step_moves hk.flags False.elim h
  have hstarts : ∀ task, fires s a = some task → event s a = .starts task := fun task hf => by simp only [event, hf]
  refine ⟨hmoves.2, hk.calm_step h, hm.inStep hk.inStep, ?_, ?_, ?_, ?_⟩
  · have hs := hm.started hk.inStep hk.started
    have hfired : fired (tr ++ [(s, a)]) = fired tr ++ (event s a).started.toList := by
      rw [event_started]
      simp only [fired, List.filterMap_append]
      cases hf : fires s a <;> simp [hf]
    have hpass : firedInPass (tr ++ [(s, a)]) = Table.inPass (firedInPass tr) (event s a) := by
      rw [event_inPass]
      simp only [firedInPass, List.foldl_append, List.foldl_cons, List.foldl_nil]
    rw [hfired, hpass]
    exact hs
  · intro x hx task hf
    rcases List.mem_append.mp hx with hx | hx
    · exact hk.due x hx task hf
    · obtain rfl := List.mem_singleton.mp hx
      rw [hstarts task hf] at hm
      exact hm.due hk.inStep
  · intro x hx i hc hi
    rcases List.mem_append.mp hx with hx | hx
    · exact hm.cancelled (hk.cancelled x hx i hc hi)
    · obtain rfl := List.mem_singleton.mp hx
      exact cancels_cancelled h hc hi
  · refine List.pairwise_append.mpr ⟨hk.silent, List.pairwise_singleton _ _, ?_⟩
    intro x hx y hy i hc hi task hf hid
    obtain rfl := List.mem_singleton.mp hy
    rw [hstarts task hf] at hm
    exact hm.registered.2 (hid ▸ hk.cancelled x hx i hc hi)

theorem make_inStep : (tableAfter [] (make : Loop F)).InStep where
  once _ := Nat.zero_le _
  below _ hi := absurd hi (Nat.lt_irrefl 0)
  sorted := List.Pairwise.nil
  mapNodup := List.nodup_nil
  live _ hi := absurd hi (Nat.lt_irrefl 0)
  known _ hi := absurd hi List.not_mem_nil
  uncancelled _ hi := absurd hi List.not_mem_nil
  settled _ hi := hi.elim (fun h => absurd h List.not_mem_nil) fun h => absurd h List.not_mem_nil
  periodic _ ht := absurd ht List.not_mem_nil
  passed _ hn := by cases hn

theorem make_kept : Kept [] (make : Loop F) where
  flags := flags_outside rfl
  calm _ := rfl
  inStep := make_inStep
  started := ⟨fun _ ht => absurd ht List.not_mem_nil, List.nodup_nil, fun _ ht => absurd ht List.not_mem_nil, List.Pairwise.nil⟩
  due _ hx := absurd hx List.not_mem_nil
  cancelled _ hx := absurd hx List.not_mem_nil
  silent := List.Pairwise.nil

theorem Kept.of_trace {ok : Loop F → Act F → Prop} (h : (eventLoop capacity).Trace ok tr s) : Kept tr s :=
  h.inv (I := Kept) make_kept fun _ _ _ _ hk _ hstep => hk.step hstep

/-- The poll timeout is no longer than the time left to the top of the heap. -/
theorem getPollTimeoutMs_le {top : TimerTask F} {rest : List (TimerTask F)} (h : s.timers = top :: rest) :
    getPollTimeoutMs s * nsPerMs ≤ top.expiration - s.clock := by
  have hdiv : (top.expiration - s.clock) / nsPerMs * nsPerMs ≤ top.expiration - s.clock := Nat.div_mul_le_self _ _
  unfold getPollTimeoutMs
  rw [h]
  simp only
  split
  · omega
  · split
    · omega
    · split
      · omega
      · split
        · rename_i hbig
          exact (Nat.mul_le_mul_right _ hbig.le).trans hdiv
        · exact hdiv

/-- In every run: the map holds the ids of the tasks that are in the heap or being executed and not
    cancelled (a callback that threw never ends); a one-shot timer starts at most once; none starts
    before its expiration or after it was cancelled while registered; a pass starts timers in
    order; and `poll` does not sleep past a timer. -/
theorem timers_kept_in_step {ok : Loop F → Act F → Prop} (h : (eventLoop capacity).Trace ok tr s) :
    (∀ i, i ∈ s.timerMap ↔ i ∉ s.cancelled ∧ ∃ task ∈ s.timers ++ (executing s.pc ++ thrown tr), task.id = i) ∧
      (lost s = false → thrown tr = []) ∧
      (((fired tr).filter fun task => !task.repeats).map (·.id)).Nodup ∧
      (∀ x ∈ tr, ∀ task, fires x.1 x.2 = some task → task.expiration ≤ x.1.clock) ∧
      (tr.Pairwise fun x y => ∀ i, cancels x.1 x.2 = some i → i ∈ x.1.timerMap →
        ∀ task, fires y.1 y.2 = some task → task.id ≠ i) ∧
      (firedInPass tr).Pairwise before ∧
      ∀ task ∈ s.timers, task.id ∉ s.cancelled → getPollTimeoutMs s * nsPerMs ≤ task.expiration - s.clock := by
  have hk := Kept.of_trace h
  have hhere : ∀ i, 0 < (tableAfter tr s).here i ↔ ∃ task ∈ s.timers ++ (executing s.pc ++ thrown tr), task.id = i := by
    intro i
    rw [← holds_pos_iff, holds_append]
    rfl
  refine ⟨fun i => ⟨fun hi => ?_, fun hi => ?_⟩, hk.calm, hk.started.once, hk.due, hk.silent, hk.started.ordered, ?_⟩
  · exact ⟨hk.inStep.uncancelled i hi, (hhere i).mp (hk.inStep.known i hi)⟩
  · exact hk.inStep.live i ((hhere i).mpr hi.2) hi.1
  · intro task htask hc
    obtain ⟨top, rest, htimers⟩ := List.exists_cons_of_ne_nil (List.ne_nil_of_mem htask)
    have hle := getPollTimeoutMs_le htimers
    have hsorted : s.timers.Pairwise notAfter := hk.inStep.sorted
    rw [htimers] at htask hsorted
    rcases List.mem_cons.mp htask with rfl | hin
    · exact hle
    · have htop : notAfter top task := List.rel_of_pairwise_cons hsorted hin
      simp only [notAfter] at htop
      omega

/-- Two timers, the first of which cancels the second and repeats. -/
def cancelledByTimer : List (Act Nat) :=
  [.call (.timer (.runEvery 1 0)), .call (.timer (.runAfter 2 0)), .loop, .tick 1000000, .next, .next,
    .call (.cancelTimer 2), .returns]

theorem timers_kept_in_step_cancelled :
    ∃ tr s, (eventLoop 1).trace make cancelledByTimer = some (tr, s) ∧ (fired tr).map (·.id) = [1] ∧
      s.timers.map (·.id) = [1, 2] ∧ ∀ i, i ∈ s.timerMap ↔
        i ∉ s.cancelled ∧ ∃ task ∈ s.timers ++ (executing s.pc ++ thrown tr), task.id = i := by
  obtain ⟨⟨tr, s⟩, h⟩ := Option.isSome_iff_exists.mp
    (show ((eventLoop 1).trace make cancelledByTimer).isSome = true by decide)
  have hfired : (((eventLoop 1).trace make cancelledByTimer).map fun x => (fired x.1).map (·.id)) = some [1] := by decide
  have hheap : (((eventLoop 1).trace make cancelledByTimer).map fun x => x.2.timers.map (·.id)) = some [1, 2] := by decide
  rw [h] at hfired hheap
  have htr : (eventLoop 1).Trace (fun _ _ => True) ([] ++ tr) s := Lib.Machine.Trace.nil.append h fun _ _ => trivial
  exact ⟨tr, s, h, Option.some.inj hfired, Option.some.inj hheap, (timers_kept_in_step htr).1⟩

/-! ## Cancelling from any thread -/

/-- `runAfter` or `runEvery` has returned the id. -/
def Returned (s : Loop F) (timerId : Nat) : Prop :=
  1 ≤ timerId ∧ timerId < s.nextTimerId ∧ holds s.created timerId = 0

instance (timerId : Nat) : Decidable (Returned s timerId) := inferInstanceAs (Decidable (_ ∧ _))

/-- A cancel on the loop thread finds no `addTimerInLoop` of its timer still queued. -/
def arrived (s : Loop F) : Act F → Bool
  | .call (.cancelTimer timerId) => decide (holds (queuedTimers s) timerId = 0)
  | _ => true

/-- At most one functor is queued, a timer's after it was created, and none begins. -/
def Queues (s s' : Loop F) : Prop :=
  s'.ran = s.ran ∧
    (s'.queued = s.queued ∨ ∃ f, s'.queued = s.queued ++ [f] ∧ ∀ task, added f = some task → task ∈ s.created)

theorem Aside.queues (h : Aside s s') : Queues s s' := ⟨h.ran, Or.inl h.queued⟩

theorem call_queues {c : Call F} (h : call capacity s c = some s') : Queues s s' := by
  cases call_cases h with
  | queueInLoop f =>
    have haside : Aside (enqueue (.user f) s) (queueInLoop capacity (.user f) s) := queueInLoop_aside _ s
    exact ⟨haside.ran, Or.inr ⟨.user f, haside.queued, fun task ht => by cases ht⟩⟩
  | @timer _ task t ht => exact ((makeTimer_aside ht).trans (addTimerInLoop_aside task t)).queues
  | cancelNone => exact (Aside.refl s).queues
  | cancelTimer timerId => exact (cancelTimerInLoop_aside timerId s).queues
  | quit => exact ⟨rfl, Or.inl rfl⟩

theorem other_queues {o : Other F} (h : other capacity s o = some s') : Queues s s' := by
  cases other_cases h with
  | queueInLoop f => exact ⟨rfl, Or.inr ⟨.user f, rfl, fun task ht => by cases ht⟩⟩
  | makeTimer ht => exact ⟨(makeTimer_aside ht).ran, Or.inl (makeTimer_aside ht).queued⟩
  | @queueTimer i task hi =>
    refine ⟨rfl, Or.inr ⟨.addTimerInLoop task, rfl, fun t ht => ?_⟩⟩
    obtain rfl : task = t := by simpa [added] using ht
    exact List.mem_of_getElem? hi
  | cancelNone => exact (Aside.refl s).queues
  | cancelTimer timerId => exact ⟨rfl, Or.inr ⟨.cancelTimerInLoop timerId, rfl, fun task ht => by cases ht⟩⟩
  | wakeup => exact ⟨(wakeup_aside _).ran, Or.inl (wakeup_aside _).queued⟩
  | quit => exact ⟨rfl, Or.inl rfl⟩
  | quitWakeup => exact ⟨(wakeup_aside _).ran, Or.inl (wakeup_aside _).queued⟩

/-- What a step does to the queue of functors. -/
theorem step_queues (h : step capacity s a = some s') :
    Queues s s' ∨ ∃ f rest, s.pc = .functors (f :: rest) ∧ s' = runFunctor capacity f rest s := by
  cases step_cases h with
  | @timers second now =>
    left
    rcases processTimers_cases second now s with h | ⟨task, rest, -, ⟨-, h⟩ | ⟨-, h⟩⟩
    all_goals
      rw [h]
      exact ⟨rfl, Or.inl rfl⟩
  | runs hpc => exact Or.inr ⟨_, _, hpc, rfl⟩
  | calls _ h => exact Or.inl (call_queues h)
  | timerReturns =>
    left
    unfold timerReturns
    split <;> exact ⟨rfl, Or.inl rfl⟩
  | others h => exact Or.inl (other_queues h)
  | _ => exact Or.inl ⟨rfl, Or.inl rfl⟩

theorem runFunctor_queued (f : Functor F) (rest : List (Functor F)) (s : Loop F) :
    (runFunctor capacity f rest s).queued = s.queued ∧ (runFunctor capacity f rest s).ran = s.ran ++ [f] := by
  cases f with
  | user f => exact ⟨rfl, rfl⟩
  | addTimerInLoop task => exact ⟨(addTimerInLoop_aside task _).queued, (addTimerInLoop_aside task _).ran⟩
  | cancelTimerInLoop timerId =>
    exact ⟨(cancelTimerInLoop_aside timerId _).queued, (cancelTimerInLoop_aside timerId _).ran⟩

/-- A loop in the middle of a run. -/
structure Sane (s : Loop F) : Prop where
  flags : Flags s
  accounted : (box s).Accounted
  mapNodup : s.timerMap.Nodup

theorem Sane.of_reach {ok : Loop F → Act F → Prop} (hr : (eventLoop capacity).Reach ok s) : Sane s := by
  obtain ⟨tr, htr⟩ := hr.trace
  have hk := Kept.of_trace htr
  refine ⟨hk.flags, ?_, hk.inStep.mapNodup⟩
  refine (hr.inv (I := fun s => Flags s ∧ (box s).Accounted) ⟨flags_outside rfl, Or.inl rfl⟩ ?_).2
  rintro s a s' ⟨hf, hacc⟩ - hstep
  have hm : Moves False s s' := step_moves hf False.elim hstep
  exact ⟨hm.2, hm.1.accounted hacc⟩

/-- What runs aside, every step is a move of the table. -/
theorem step_move (h : step capacity s a = some s') :
    ∃ r, Table.Move (table s) (event s a) { table s' with running := r } := by
  by_cases ha : a = .throws
  · subst ha
    cases step_cases h with
    | throws => exact ⟨_, throws_table s⟩
  · exact ⟨_, step_table ha h⟩

theorem step_gone (h : step capacity s a = some s') {timerId : Nat} (hg : (table s).Gone timerId) :
    (table s').Gone timerId := by
  obtain ⟨r, hm⟩ := step_move h
  have hg' := hm.gone hg
  exact ⟨hg'.used, hg'.away, hg'.unknown⟩

/-- After `cancelTimerInLoop(id)` for a timer that is not on its way, its id is gone. -/
theorem cancelTimerInLoop_gone {timerId : Nat} (hnodup : s.timerMap.Nodup) (hlt : timerId < s.nextTimerId)
    (haway : (table s).away timerId = 0) : (table (cancelTimerInLoop timerId s)).Gone timerId := by
  unfold cancelTimerInLoop
  split
  · rename_i h
    exact ⟨hlt, haway, h⟩
  · exact ⟨hlt, haway, fun h => (hnodup.mem_erase_iff.mp h).1 rfl⟩

/-- The functor of number `n` cancels a timer whose `addTimerInLoop` is ahead of it, if it was queued. -/
structure Cancelling (n timerId : Nat) (s : Loop F) : Prop where
  used : timerId < s.nextTimerId
  created : holds s.created timerId = 0
  ahead : ∀ k task, s.queued[k]? = some (.addTimerInLoop task) → task.id = timerId → k < n
  there : s.queued[n]? = some (.cancelTimerInLoop timerId)
  gone : n < s.ran.length → (table s).Gone timerId

/-- The functors ahead of the cancelling one have run: none of those left adds the timer. -/
theorem Cancelling.away {n timerId : Nat} (hc : Cancelling n timerId s) {rest : List (Functor F)}
    (hq : s.queued = s.ran ++ .cancelTimerInLoop timerId :: rest) (hn : s.ran.length = n) :
    holds (rest.filterMap added) timerId = 0 := by
  by_contra hne
  obtain ⟨task, htask, hid⟩ := holds_pos_iff.mp (Nat.pos_of_ne_zero hne)
  obtain ⟨f, hf, hadd⟩ := List.mem_filterMap.mp htask
  obtain rfl : f = .addTimerInLoop task := by
    cases f with
    | addTimerInLoop t =>
      have : t = task := by simpa [added] using hadd
      rw [this]
    | _ => cases hadd
  obtain ⟨k, hk⟩ := List.mem_iff_getElem?.mp hf
  have hlater : s.queued[n + 1 + k]? = some (.addTimerInLoop task) := by
    rw [hq, List.getElem?_append_right (by omega)]
    have : n + 1 + k - s.ran.length = k + 1 := by omega
    rw [this, List.getElem?_cons_succ]
    exact hk
  have := hc.ahead _ task hlater hid
  omega

theorem Cancelling.runs {n timerId : Nat} (hs : Sane s) (hc : Cancelling n timerId s) {f : Functor F}
    {rest : List (Functor F)} (hpc : s.pc = .functors (f :: rest)) (hn : s.ran.length = n) :
    (table (runFunctor capacity f rest s)).Gone timerId := by
  have hq : s.queued = s.ran ++ f :: (rest ++ s.pendingFunctors) := by
    rcases hs.accounted with h | h
    · simpa [box, phase, hpc, Lib.Mailbox.Phase.batch] using h
    · simp [box, phase, hpc] at h
  obtain rfl : f = .cancelTimerInLoop timerId := by
    have hthere := hc.there
    rw [hq, List.getElem?_append_right (by omega)] at hthere
    simpa [hn] using hthere
  have haway := hc.away hq hn
  refine cancelTimerInLoop_gone (s := { s with ran := s.ran ++ [.cancelTimerInLoop timerId], pc := .functors rest })
    hs.mapNodup hc.used ?_
  change holds ((rest ++ s.pendingFunctors).filterMap added) timerId + holds s.created timerId = 0
  rw [haway, hc.created]

theorem Cancelling.step {n timerId : Nat} (hs : Sane s) (hc : Cancelling n timerId s) (h : step capacity s a = some s') :
    Cancelling n timerId s' := by
  obtain ⟨r, hm⟩ := step_move h
  obtain ⟨hused, hcreated⟩ := hm.uncreated hc.used hc.created
  refine ⟨hused, hcreated, ?_, ?_, ?_⟩
  · intro k task hk hid
    rcases step_queues h with ⟨-, hq | ⟨f, hq, hf⟩⟩ | ⟨f, rest, -, rfl⟩
    · exact hc.ahead k task (hq ▸ hk) hid
    · rw [hq] at hk
      rcases Nat.lt_or_ge k s.queued.length with hlt | hge
      · rw [List.getElem?_append_left hlt] at hk
        exact hc.ahead k task hk hid
      · -- only a created timer is queued, and this one is not
        rw [List.getElem?_append_right hge] at hk
        obtain rfl : .addTimerInLoop task = f := List.mem_singleton.mp (List.mem_of_getElem? hk)
        have := holds_pos (hf task rfl)
        rw [hid, hc.created] at this
        omega
    · rw [(runFunctor_queued f rest s).1] at hk
      exact hc.ahead k task hk hid
  · have hlt : n < s.queued.length := (List.getElem?_eq_some_iff.mp hc.there).1
    rcases step_queues h with ⟨-, hq | ⟨f, hq, -⟩⟩ | ⟨f, rest, -, rfl⟩
    · rw [hq]
      exact hc.there
    · rw [hq, List.getElem?_append_left hlt]
      exact hc.there
    · rw [(runFunctor_queued f rest s).1]
      exact hc.there
  · intro hn
    by_cases hlt : n < s.ran.length
    · exact step_gone h (hc.gone hlt)
    · rcases step_queues h with ⟨hran, -⟩ | ⟨f, rest, hpc, rfl⟩
      · rw [hran] at hn
        exact absurd hn hlt
      · rw [(runFunctor_queued f rest s).2, List.length_append, List.length_singleton] at hn
        exact hc.runs hs hpc (by omega)

/-- The call that queues the cancelling functor; an `addTimerInLoop` is in the queue by then, if ever. -/
theorem Cancelling.called {timerId : Nat} (hs : Sane s) (hret : Returned s timerId) :
    Cancelling s.queued.length timerId (queueFromOther (.cancelTimerInLoop timerId) s) where
  used := hret.2.1
  created := hret.2.2
  ahead k task hk hid := by
    change (s.queued ++ [_])[k]? = _ at hk
    rcases Nat.lt_or_ge k s.queued.length with hlt | hge
    · exact hlt
    · rw [List.getElem?_append_right hge] at hk
      have := List.mem_of_getElem? hk
      simp at this
  there := by
    change (s.queued ++ [_])[s.queued.length]? = _
    rw [List.getElem?_append_right le_rfl]
    simp
  gone hn := by
    have := hs.accounted.started.length_le
    change s.queued.length < s.ran.length at hn
    change s.ran.length ≤ s.queued.length at this
    omega

/-- In every run whose cancels on the loop thread find their timer arrived: after `cancelTimer(id)` for
    an id that was returned, a callback of the timer starts only while the cancellation is still
    queued (its functor is the one after those queued before the call). -/
theorem cancelled_for_good {timerId : Nat} {b : Act F} {t : Loop F} {task : TimerTask F}
    (hr : (eventLoop capacity).Reach (fun s a => arrived s a = true) s) (hret : Returned s timerId)
    (hok : arrived s a = true) (hstep : step capacity s a = some s')
    (hl : (eventLoop capacity).Later (fun s a => arrived s a = true) s' t) (hf : fires t b = some task) :
    (a = .call (.cancelTimer timerId) → task.id ≠ timerId) ∧
      (a = .other (.cancelTimer timerId) → s.queued.length < t.ran.length → task.id ≠ timerId) := by
  have hs := Sane.of_reach hr
  have h0 : timerId ≠ 0 := by
    have := hret.1
    omega
  -- a timer that starts is registered
  have hnot : (table t).Gone timerId → task.id ≠ timerId := by
    rintro hg rfl
    obtain ⟨m, hm⟩ := fires_move hf
    exact hg.unknown hm.registered.1
  constructor
  · rintro rfl
    apply hnot
    refine hl.inv (I := fun t => (table t).Gone timerId) (fun _ _ _ hg _ h => step_gone h hg) ?_
    simp only [step] at hstep
    split at hstep
    · simp only [call, if_neg h0, Option.some.injEq] at hstep
      subst hstep
      have haway : (table s).away timerId = 0 := by
        have hq : holds (queuedTimers s) timerId = 0 := by simpa [arrived] using hok
        change holds (queuedTimers s) timerId + holds s.created timerId = 0
        rw [hq, hret.2.2]
      exact cancelTimerInLoop_gone hs.mapNodup hret.2.1 haway
    · cases hstep
  · rintro rfl hn
    apply hnot
    have hreach := hr.step hok hstep
    simp only [step, other, if_neg h0, Option.some.injEq] at hstep
    subst hstep
    have hc := hl.inv
      (I := fun t => (eventLoop capacity).Reach (fun s a => arrived s a = true) t ∧ Cancelling s.queued.length timerId t)
      (fun _ _ _ h hok hstep => ⟨h.1.step hok hstep, h.2.step (Sane.of_reach h.1) hstep⟩)
      ⟨hreach, Cancelling.called hs hret⟩
    exact hc.2.gone hn

/-- Two timers, due after one and two milliseconds. -/
def twoTimers : Loop Nat :=
  { (make : Loop Nat) with
    pc := .check, looping := true, wakeupBytes := 1, timerMap := [2, 1], nextTimerId := 3,
    timers := [⟨1, 1000000, 0, false, 0⟩, ⟨2, 2000000, 0, false, 0⟩] }

/-- Another thread has cancelled the first, and the loop has run the functor. -/
def firstCancelled : Loop Nat :=
  { twoTimers with
    pc := .timers true 2000000, timers := [⟨2, 2000000, 0, false, 0⟩], timerMap := [2], cancelled := [1], clock := 2000000,
    waking := 1, queued := [.cancelTimerInLoop 1], ran := [.cancelTimerInLoop 1] }

theorem cancelled_for_good_first :
    fires firstCancelled .next = some ⟨2, 2000000, 0, false, 0⟩ ∧ (2 : Nat) ≠ 1 := by
  have hrun : (eventLoop 1).run (fun s a => arrived s a = true) make
      [.call (.timer (.runAfter 1 0)), .call (.timer (.runAfter 2 0)), .loop] = some twoTimers := by decide
  have hr : (eventLoop 1).Reach (fun s a => arrived s a = true) twoTimers :=
    Lib.Machine.Reach.run Lib.Machine.Reach.init hrun
  have hlater : (eventLoop 1).run (fun s a => arrived s a = true) (queueFromOther (.cancelTimerInLoop 1) twoTimers)
      [.next, .next, .next, .pollReturns [], .next, .next, .next, .tick 2000000, .next, .next] = some firstCancelled := by
    decide
  have hl : (eventLoop 1).Later (fun s a => arrived s a = true) (queueFromOther (.cancelTimerInLoop 1) twoTimers)
      firstCancelled := Lib.Machine.Later.run Lib.Machine.Later.refl hlater
  have hf : fires firstCancelled .next = some ⟨2, 2000000, 0, false, 0⟩ := by decide
  exact ⟨hf, (cancelled_for_good hr (a := .other (.cancelTimer 1)) (by decide) (by decide) rfl hl hf).2 rfl (by decide)⟩

/-- Another thread's `runAfter` has returned 1 and its functor is queued; a channel callback runs. -/
def onItsWay : Loop Nat :=
  { (make : Loop Nat) with
    pc := .channelCallback [.wakeupFd], looping := true, pendingFunctors := [.addTimerInLoop ⟨1, 1000000, 0, false, 0⟩],
    wakeupBytes := 1, nextTimerId := 2, queued := [.addTimerInLoop ⟨1, 1000000, 0, false, 0⟩] }

/-- The functor has run, and the timer is due. -/
def onItsWayLater : Loop Nat :=
  { onItsWay with
    pc := .timers true 2000000, pendingFunctors := [], timers := [⟨1, 1000000, 0, false, 0⟩], timerMap := [1],
    clock := 2000000, ran := [.addTimerInLoop ⟨1, 1000000, 0, false, 0⟩] }

theorem a_cancelled_timer_fires :
    (eventLoop 1).Reach (fun _ _ => True) onItsWay ∧ Returned onItsWay 1 ∧
      step 1 onItsWay (.call (.cancelTimer 1)) = some onItsWay ∧
      (eventLoop 1).Later (fun _ _ => True) onItsWay onItsWayLater ∧
      fires onItsWayLater .next = some ⟨1, 1000000, 0, false, 0⟩ := by
  have hrun : (eventLoop 1).run (fun _ _ => True) make
      [.loop, .next, .next, .next, .other (.makeTimer (.runAfter 1 0)), .other (.queueTimer 0), .other .wakeup,
        .pollReturns [.user 5, .wakeupFd], .next] = some onItsWay := by decide
  have hlater : (eventLoop 1).run (fun _ _ => True) onItsWay
      [.returns, .next, .next, .next, .next, .next, .tick 2000000, .next] = some onItsWayLater := by decide
  exact ⟨Lib.Machine.Reach.run Lib.Machine.Reach.init hrun, by decide, by decide,
    Lib.Machine.Later.run Lib.Machine.Later.refl hlater, by decide⟩

end Dbase.Net.EventLoop
