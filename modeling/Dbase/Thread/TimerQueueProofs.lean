/-
  Dbase.Thread.TimerQueueProofs — what the worker of a timer queue executes, gives up and remembers.

  `Move` says once what a step can do. `live` are the timers that are yet to be executed, wherever they are, and `Unique`
  counts each id over them and the one-shot timers that were executed. Statements about one step after another are about
  the pairs of a trace (`Outlived`, `Honoured`).
-/

import Dbase.Lib.Crew
import Dbase.Thread.TimerQueue

namespace Dbase.Thread.TimerQueue

open Dbase.Lib
open Dbase.Lib.Crew

variable {s s' : Queue} {a : Act}

/-! ## The moves -/

/-- Where the worker has no timer in its hands. -/
def Worker.free : Worker → Bool
  | .unborn | .top | .waiting | .entered | .scanning | .sleeping _ | .roused | .exited => true
  | _ => false

def Call.timer? : Call → Option Timer
  | .pushing t => some t
  | _ => none

/-- What a step can do. -/
inductive Move (s : Queue) : Act → Queue → Prop
  | started : s.started = false → Move s .start { s with started := true, stopped := false, worker := .top }
  | flags {a : Act} {stopped stopRequested threadPool : Bool} {clock : Int} {stopping : Stop} : s.clock ≤ clock →
      (stopping = .uncalled → s.stopping = .uncalled) → (∀ id, a = .cancel id → id ∈ s.cancelled) →
      (stopped = true → s.stopped = true ∨ stopping ≠ .uncalled) →
      (stopRequested = true → s.stopRequested = true ∨ stopping ≠ .uncalled) →
      Move s a { s with stopped := stopped, stopRequested := stopRequested, threadPool := threadPool, clock := clock,
                        stopping := stopping }
  | called {a : Act} {c : Call} : c.timer? = none → (∀ id, a ≠ .cancel id) → Move s a { s with calls := s.calls ++ [c] }
  | checked {k : Nat} {c c' : Call} : s.calls[k]? = some c → c.timer? = none → c'.timer? = none →
      Move s (.check k) { s with calls := s.calls.set k c' }
  | created {k : Nat} {request : Request} : s.calls[k]? = some (.creating request) → s.worker.holds = false →
      Move s (.create k) { s with nextId := s.nextId + 1, calls := s.calls.set k (.pushing (newTimer request s)) }
  | pushed {k : Nat} {t : Timer} : s.calls[k]? = some (.pushing t) → s.worker.holds = false →
      Move s (.push k) { s with tasks := s.tasks.orderedInsert notAfter t, calls := s.calls.set k (.returned t.id) }
  | cancelled {id : Nat} : id ∉ s.cancelled → s.worker.holds = false →
      Move s (.cancel id) { s with cancelled := id :: s.cancelled }
  | cancelledAll : s.worker.holds = false →
      Move s .cancelAll { s with cancelGeneration := s.cancelGeneration + 1, cancelled := [] }
  | cleared : s.worker.holds = false →
      Move s .stopClear { s with
        cancelGeneration := s.cancelGeneration + 1, tasks := [], cancelled := [], stopping := .requesting }
  | wandered {w : Worker} : s.worker ≠ .unborn → s.worker.free = true → w.free = true →
      Move s .worker { s with worker := w }
  | gaveUp {t : Timer} {rest : List Timer} : s.worker = .scanning → s.tasks = t :: rest → isCancelledLocked s t = true →
      Move s .worker { s with
        tasks := rest, removed := s.removed ++ [(t, true)], cancelled := s.cancelled.filter (· ≠ t.id)
        dropped := s.dropped ++ [(t, true)] }
  | took {t : Timer} {rest : List Timer} : s.worker = .scanning → s.tasks = t :: rest → isCancelledLocked s t = false →
      t.expiration ≤ s.clock →
      Move s .worker { s with tasks := rest, removed := s.removed ++ [(t, false)], worker := .taken t }
  | relented {t : Timer} : s.worker = .taken t → isCancelledLocked s t = true →
      Move s .worker { s with
        cancelled := s.cancelled.filter (· ≠ t.id), dropped := s.dropped ++ [(t, true)], worker := .top }
  | passed {t : Timer} : s.worker = .taken t → isCancelledLocked s t = false → Move s .worker { s with worker := .ready t }
  | handed {t : Timer} : s.worker = .ready t → s.threadPool = true →
      Move s .worker { s with
        worker := .executed t, executed := s.executed ++ [(t, s.clock)], submitted := s.submitted ++ [t] }
  | ran {t : Timer} : s.worker = .ready t → s.threadPool = false →
      Move s .worker { s with
        worker := .executing t, executed := s.executed ++ [(t, s.clock)], ran := s.ran ++ [(t, s.clock)] }
  | finished {t : Timer} : s.worker = .executing t → Move s .worker { s with worker := .executed t }
  | done {t : Timer} : s.worker = .executed t → t.repeats = false → Move s .worker { s with worker := .top }
  | ended {t : Timer} : s.worker = .executed t → t.repeats = true → isCancelledLocked s t = true →
      Move s .worker { s with worker := .top, cancelled := s.cancelled.filter (· ≠ t.id) }
  | again {t : Timer} : s.worker = .executed t → t.repeats = true → isCancelledLocked s t = false →
      Move s .worker { s with worker := .requeue t }
  | stopped {t : Timer} : s.worker = .requeue t → (s.stopped = true ∨ s.stopRequested = true) →
      Move s .worker { s with worker := .top }
  | renewed {t : Timer} : s.worker = .requeue t →
      Move s .worker { s with worker := .pushing ⟨t.id, after t.interval s, t.interval, t.repeats, t.generation⟩ }
  | requeued {t : Timer} : s.worker = .pushing t →
      Move s .worker { s with tasks := s.tasks.orderedInsert notAfter t, worker := .top }
  | poolRan {i : Nat} {t : Timer} : s.submitted[i]? = some t →
      Move s (.poolRun i) { s with submitted := s.submitted.eraseIdx i, ran := s.ran ++ [(t, s.clock)] }

theorem drop_of_cancelled {t : Timer} (hc : isCancelledLocked s t = true) :
    drop t s = { s with cancelled := s.cancelled.filter (· ≠ t.id), dropped := s.dropped ++ [(t, true)] } := by
  rw [drop, hc]

theorem pop_of {t : Timer} {b : Bool} (rest : List Timer) (hc : isCancelledLocked s t = b) :
    pop t rest s = { s with tasks := rest, removed := s.removed ++ [(t, b)] } := by
  rw [pop, hc]

theorem workerStep_move (h : workerStep s = some s') : Move s .worker s' := by
  unfold workerStep at h
  match hw : s.worker with
  | .unborn => simp [hw] at h
  | .exited => simp [hw] at h
  | .top =>
    obtain rfl : goto (if s.stopRequested then .exited else .waiting) s = s' := by simpa [hw] using h
    exact .wandered (by simp [hw]) (by rw [hw]; rfl) (by split <;> rfl)
  | .waiting =>
    simp only [hw] at h
    split at h
    · obtain rfl : goto .entered s = s' := by simpa using h
      exact .wandered (by simp [hw]) (by rw [hw]; rfl) rfl
    · cases h
  | .entered =>
    obtain rfl : goto (if s.stopRequested || s.stopped then .exited else .scanning) s = s' := by simpa [hw] using h
    exact .wandered (by simp [hw]) (by rw [hw]; rfl) (by split <;> rfl)
  | .scanning =>
    obtain rfl : scan s = s' := by simpa [hw] using h
    unfold scan
    split
    · exact .wandered (by simp [hw]) (by rw [hw]; rfl) rfl
    · rename_i t rest hq
      split
      · rename_i hc
        rw [drop_of_cancelled (s := pop t rest s) hc, pop_of rest hc]
        exact .gaveUp hw hq hc
      · rename_i hc
        split
        · exact .wandered (by simp [hw]) (by rw [hw]; rfl) rfl
        · rename_i hdue
          have hc : isCancelledLocked s t = false := by simpa using hc
          rw [pop_of rest hc]
          exact .took hw hq hc (by simpa using hdue)
  | .sleeping t =>
    simp only [hw] at h
    split at h
    · obtain rfl : goto .roused s = s' := by simpa using h
      exact .wandered (by simp [hw]) (by rw [hw]; rfl) rfl
    · cases h
  | .roused =>
    obtain rfl : goto (if s.stopRequested || s.stopped then .exited else .scanning) s = s' := by simpa [hw] using h
    exact .wandered (by simp [hw]) (by rw [hw]; rfl) (by split <;> rfl)
  | .taken t =>
    simp only [hw] at h
    split at h
    · rename_i hc
      obtain rfl : goto .top (drop t s) = s' := by simpa using h
      rw [drop_of_cancelled hc]
      exact .relented hw hc
    · rename_i hc
      obtain rfl : goto (.ready t) s = s' := by simpa using h
      exact .passed hw (by simpa using hc)
  | .ready t =>
    obtain rfl : executeTask t s = s' := by simpa [hw] using h
    unfold executeTask
    split
    · rename_i hp
      exact .handed hw hp
    · rename_i hp
      exact .ran hw (by simpa using hp)
  | .executing t =>
    obtain rfl : goto (.executed t) s = s' := by simpa [hw] using h
    exact .finished hw
  | .executed t =>
    simp only [hw] at h
    split at h
    · rename_i hr
      obtain rfl : goto .top s = s' := by simpa using h
      exact .done hw (by simpa using hr)
    · rename_i hr
      have hr : t.repeats = true := by simpa using hr
      split at h
      · rename_i hc
        obtain rfl : goto .top (forget t s) = s' := by simpa using h
        exact .ended hw hr hc
      · rename_i hc
        obtain rfl : goto (.requeue t) s = s' := by simpa using h
        exact .again hw hr (by simpa using hc)
  | .requeue t =>
    simp only [hw] at h
    split at h
    · rename_i hstop
      obtain rfl : goto .top s = s' := by simpa using h
      exact .stopped hw (by simpa using hstop)
    · obtain rfl : goto (.pushing ⟨t.id, after t.interval s, t.interval, t.repeats, t.generation⟩) s = s' := by
        simpa using h
      exact .renewed hw
  | .pushing t =>
    obtain rfl : goto .top (pushTask t s) = s' := by simpa [hw] using h
    exact .requeued hw

theorem step_move (h : step s a = some s') : Move s a s' := by
  cases a with
  | start =>
    obtain rfl : start s = s' := by simpa [step] using h
    unfold start
    split
    · exact .flags (le_refl _) id (by simp) .inl .inl
    · rename_i hst
      exact .started (by simpa using hst)
  | runAt timePoint task =>
    obtain rfl : begin (.once timePoint) task s = s' := by simpa [step] using h
    exact .called rfl (by simp)
  | runAfter delay task =>
    obtain rfl : begin (.once (after delay s)) task s = s' := by simpa [step] using h
    exact .called rfl (by simp)
  | runEvery interval task =>
    obtain rfl : begin (.every interval) task s = s' := by simpa [step] using h
    exact .called rfl (by simp)
  | check k =>
    simp only [step, check] at h
    split at h
    · rename_i request task hk
      have hset (c : Call) (hc : c.timer? = none) (he : some (setCall k c s) = some s') : Move s (.check k) s' := by
        obtain rfl : setCall k c s = s' := by simpa using he
        exact .checked hk rfl hc
      repeat' split at h
      all_goals exact hset _ rfl h
    · cases h
  | create k =>
    simp only [step, create] at h
    split at h
    · rename_i request hk
      split at h
      · cases h
      · rename_i hfree
        obtain rfl := Option.some.inj h
        exact .created hk (by simpa using hfree)
    · cases h
  | push k =>
    simp only [step, push] at h
    split at h
    · rename_i t hk
      split at h
      · cases h
      · rename_i hfree
        obtain rfl := Option.some.inj h
        exact .pushed hk (by simpa using hfree)
    · cases h
  | cancel timerId =>
    simp only [step] at h
    split at h
    · cases h
    · rename_i hfree
      obtain rfl := Option.some.inj h
      unfold cancel
      split
      · rename_i hin
        exact .flags (le_refl _) id (by simpa using hin) .inl .inl
      · rename_i hin
        exact .cancelled hin (by simpa using hfree)
  | cancelAll =>
    simp only [step] at h
    split at h
    · cases h
    · rename_i hfree
      obtain rfl := Option.some.inj h
      exact .cancelledAll (by simpa using hfree)
  | setThreadPool on =>
    simp only [step] at h
    split at h
    · cases h
    · obtain rfl := Option.some.inj h
      exact .flags (le_refl _) id (by simp) .inl .inl
  | stop =>
    obtain rfl : stop s = s' := by simpa [step] using h
    unfold stop
    split
    · exact .flags (le_refl _) id (by simp) .inl .inl
    · exact .flags (le_refl _) (by simp) (by simp) (by simp) (by simp)
  | stopClear =>
    simp only [step, stopClear] at h
    split at h
    · split at h
      · cases h
      · rename_i hfree
        obtain rfl := Option.some.inj h
        exact .cleared (by simpa using hfree)
    · cases h
  | stopRequest =>
    simp only [step, stopRequest] at h
    split at h
    · obtain rfl := Option.some.inj h
      exact .flags (le_refl _) (by simp) (by simp) (by simp) (by simp)
    · cases h
  | worker => exact workerStep_move h
  | poolRun i =>
    obtain ⟨t, ht, rfl⟩ := Option.map_eq_some_iff.mp h
    exact .poolRan ht
  | tick now =>
    simp only [step] at h
    split at h
    · rename_i hle
      obtain rfl := Option.some.inj h
      exact .flags hle id (by simp) .inl .inl
    · cases h

/-! ## Where a timer is -/

/-- The timers in the worker's hands that are yet to be executed, or to be executed again. -/
def Worker.pending : Worker → List Timer
  | .taken t | .ready t => [t]
  | .executing t | .executed t => if t.repeats then [t] else []
  | .requeue t | .pushing t => [t]
  | _ => []

/-- The timers on their way into the heap. -/
def incoming (s : Queue) : List Timer := s.calls.filterMap Call.timer?

def live (s : Queue) : List Timer := incoming s ++ s.tasks ++ s.worker.pending

/-- The one-shot timers that were executed. -/
def once (s : Queue) : List Timer := (s.executed.map (·.1)).filter (!·.repeats)

/-- How many of the timers have the id. -/
def holds (l : List Timer) (id : Nat) : Nat := l.countP (·.id = id)

@[simp] theorem holds_nil (id : Nat) : holds [] id = 0 := rfl

@[simp] theorem holds_cons (t : Timer) (l : List Timer) (id : Nat) :
    holds (t :: l) id = holds l id + if t.id = id then 1 else 0 := by
  simp [holds, List.countP_cons]

@[simp] theorem holds_append (l r : List Timer) (id : Nat) : holds (l ++ r) id = holds l id + holds r id :=
  List.countP_append

@[simp] theorem holds_orderedInsert (t : Timer) (l : List Timer) (id : Nat) :
    holds (l.orderedInsert notAfter t) id = holds l id + if t.id = id then 1 else 0 := by
  rw [← holds_cons]
  exact (List.perm_orderedInsert notAfter t l).countP_eq _

theorem holds_pos {l : List Timer} {t : Timer} (h : t ∈ l) : 0 < holds l t.id :=
  List.countP_pos_iff.mpr ⟨t, h, by simp⟩

theorem holds_incoming_set {k : Nat} {c : Call} (hk : s.calls[k]? = some c) (c' : Call) (id : Nat) :
    holds c.timer?.toList id + holds ((s.calls.set k c').filterMap Call.timer?) id =
      holds c'.timer?.toList id + holds (incoming s) id := by
  rw [← holds_append, ← holds_append]
  exact (filterMap_set_perm Call.timer? hk c').countP_eq _

@[simp] theorem pending_free {w : Worker} (h : w.free = true) : w.pending = [] := by
  cases w <;> first | rfl | cases h

/-- Every id is at one place at most: among the executed ones if it is that of a one-shot timer, on its way into the
    heap, in it, or in the worker's hands. -/
def Unique (s : Queue) : Prop := ∀ id,
  holds (once s) id + holds (incoming s) id + holds s.tasks id + holds s.worker.pending id ≤ if id ≤ s.nextId then 1 else 0

/-- A step that creates no timer, and hardly moves any. -/
theorem Unique.mono (h : Unique s) (hcalls : s'.calls = s.calls) (hnext : s'.nextId = s.nextId)
    (hle : ∀ id, holds (once s') id + holds s'.tasks id + holds s'.worker.pending id ≤
      holds (once s) id + holds s.tasks id + holds s.worker.pending id) : Unique s' := by
  intro id
  have h := h id
  have hle := hle id
  rw [hnext, incoming, hcalls]
  rw [incoming] at h
  omega

/-- A call goes on. -/
theorem Unique.call (h : Unique s) {k : Nat} {c c' : Call} (hk : s.calls[k]? = some c)
    (hcalls : s'.calls = s.calls.set k c')
    (hnext : s'.nextId = s.nextId) (honce : once s' = once s) (hworker : s'.worker = s.worker)
    (hle : ∀ id, holds c'.timer?.toList id + holds s'.tasks id ≤ holds c.timer?.toList id + holds s.tasks id) :
    Unique s' := by
  intro id
  have h := h id
  have hle := hle id
  have hset := holds_incoming_set hk c' id
  rw [hnext, honce, hworker, incoming, hcalls]
  omega

theorem once_snoc (t : Timer) (now : Int) (l : List (Timer × Int)) :
    ((l ++ [(t, now)]).map (·.1)).filter (!·.repeats) =
      (l.map (·.1)).filter (!·.repeats) ++ if t.repeats then [] else [t] := by
  cases h : t.repeats <;> simp [h]

theorem Move.unique (hmove : Move s a s') (h : Unique s) : Unique s' := by
  cases hmove with
  | started => exact h.mono rfl rfl fun id => by simp [once, Worker.pending]
  | flags => exact h
  | called hc =>
    intro id
    simpa [incoming, once, hc] using h id
  | checked hk hc hc' => exact h.call hk rfl rfl rfl rfl fun id => by simp [hc, hc']
  | @created k request hk _ =>
    intro id
    have hset := holds_incoming_set hk (.pushing (newTimer request s)) id
    have hid : (newTimer request s).id = s.nextId + 1 := by cases request <;> rfl
    have h := h id
    simp only [Call.timer?, Option.toList_none, Option.toList_some, holds_nil, holds_cons, hid] at hset
    simp only [incoming, once] at h hset ⊢
    by_cases heq : s.nextId + 1 = id
    · subst heq
      simp at h hset ⊢
      omega
    · simp only [heq, if_false] at hset
      split at h
      · rw [if_pos (by omega)]
        omega
      · omega
  | pushed hk _ => exact h.call hk rfl rfl rfl rfl fun id => by simp [Call.timer?]; omega
  | cancelled => exact h
  | cancelledAll => exact h
  | cleared => exact h.mono rfl rfl fun id => by simp [once]
  | wandered _ hw hw' => exact h.mono rfl rfl fun id => by simp [once, hw']
  | gaveUp hw hq _ => exact h.mono rfl rfl fun id => by simp [once, hq]
  | took hw hq _ _ => exact h.mono rfl rfl fun id => by simp [once, hw, hq, Worker.pending]; omega
  | relented hw _ => exact h.mono rfl rfl fun id => by simp [once, Worker.pending]
  | passed hw _ => exact h.mono rfl rfl fun id => by simp [once, hw, Worker.pending]
  | @handed t hw _ =>
    refine h.mono rfl rfl fun id => ?_
    simp only [once, once_snoc, hw, Worker.pending]
    cases t.repeats
    · simp
      omega
    · simp
  | @ran t hw _ =>
    refine h.mono rfl rfl fun id => ?_
    simp only [once, once_snoc, hw, Worker.pending]
    cases t.repeats
    · simp
      omega
    · simp
  | finished hw => exact h.mono rfl rfl fun id => by simp [once, hw, Worker.pending]
  | done hw hr => exact h.mono rfl rfl fun id => by simp [once, Worker.pending]
  | ended hw hr _ => exact h.mono rfl rfl fun id => by simp [once, Worker.pending]
  | again hw hr _ => exact h.mono rfl rfl fun id => by simp [once, hw, hr, Worker.pending]
  | stopped hw _ => exact h.mono rfl rfl fun id => by simp [once, Worker.pending]
  | renewed hw => exact h.mono rfl rfl fun id => by simp [once, hw, Worker.pending]
  | requeued hw => exact h.mono rfl rfl fun id => by simp [once, hw, Worker.pending]; omega
  | poolRan => exact h

theorem reach_unique {threadPool : Bool} {ok : Queue → Act → Prop} (h : (machine threadPool).Reach ok s) : Unique s :=
  h.inv (I := Unique) (fun id => by simp [machine, make, once, incoming, Worker.pending])
    fun _ _ _ hI _ hstep => (step_move hstep).unique hI

/-! ## What is executed, and when -/

/-- A timer that was taken from the heap and is yet to be executed. -/
def Worker.hands : Worker → List Timer
  | .taken t | .ready t => [t]
  | _ => []

theorem hands_free {w : Worker} (h : w.free = true) : w.hands = [] := by
  cases w <;> first | rfl | cases h

/-- There is no worker before `start`. -/
def Born (s : Queue) : Prop := s.started = false → s.worker = .unborn

theorem Move.born (hmove : Move s a s') (h : Born s) : Born s' := by
  cases hmove with
  | started => simp [Born]
  | wandered hne => exact fun hst => absurd (h hst) hne
  | relented hw | passed hw | handed hw | ran hw | finished hw | done hw | ended hw | again hw | stopped hw | renewed hw
  | requeued hw | took hw => exact fun hst => by simp [h hst] at hw
  | _ => exact h

/-- What the worker takes from the heap it executes, or gives up as cancelled; and what it executes is begun, or is with
    the pool. -/
structure Accounted (s : Queue) : Prop where
  removed : (s.removed.map (·.1)).Perm (s.executed.map (·.1) ++ s.dropped.map (·.1) ++ s.worker.hands)
  begun : (s.executed.map (·.1)).Perm (s.ran.map (·.1) ++ s.submitted)
  cancelled : ∀ x ∈ s.dropped, x.2 = true

/-- The step moves no timer out of the heap and into the worker's hands, or on from there. -/
theorem Accounted.mono (h : Accounted s) (hremoved : s'.removed = s.removed) (hexecuted : s'.executed = s.executed)
    (hdropped : s'.dropped = s.dropped) (hran : s'.ran = s.ran) (hsubmitted : s'.submitted = s.submitted)
    (hhands : s'.worker.hands = s.worker.hands) : Accounted s' := by
  refine ⟨?_, ?_, ?_⟩
  · rw [hremoved, hexecuted, hdropped, hhands]
    exact h.removed
  · rw [hexecuted, hran, hsubmitted]
    exact h.begun
  · rw [hdropped]
    exact h.cancelled

theorem Accounted.execute (h : Accounted s) {t : Timer} (hw : s.worker = .ready t) {w : Worker} (hw' : w.hands = []) :
    (s.removed.map (·.1)).Perm ((s.executed ++ [(t, s.clock)]).map (·.1) ++ s.dropped.map (·.1) ++ w.hands) := by
  have hremoved := h.removed
  simp only [hw, Worker.hands] at hremoved
  refine hremoved.trans ?_
  rw [hw', List.map_append, List.append_nil, List.append_assoc, List.append_assoc]
  exact List.perm_append_comm.append_left _

theorem Move.accounted (hmove : Move s a s') (hborn : Born s) (h : Accounted s) : Accounted s' := by
  cases hmove with
  | started hst => exact h.mono rfl rfl rfl rfl rfl (by rw [hborn hst]; rfl)
  | wandered _ hw hw' => exact h.mono rfl rfl rfl rfl rfl (by rw [hands_free hw, hands_free hw'])
  | @gaveUp t rest hw hq _ =>
    refine ⟨?_, h.begun, ?_⟩
    · have hremoved := h.removed.append_right [t]
      simpa [hw, Worker.hands] using hremoved
    · simpa [or_imp, forall_and] using h.cancelled
  | @took t rest hw hq _ _ =>
    refine ⟨?_, h.begun, h.cancelled⟩
    have hremoved := h.removed.append_right [t]
    simpa [hw, Worker.hands] using hremoved
  | @relented t hw _ =>
    refine ⟨?_, h.begun, ?_⟩
    · have hremoved := h.removed
      simpa [hw, Worker.hands] using hremoved
    · simpa [or_imp, forall_and] using h.cancelled
  | passed hw _ => exact h.mono rfl rfl rfl rfl rfl (by rw [hw]; rfl)
  | @handed t hw _ =>
    refine ⟨h.execute hw rfl, ?_, h.cancelled⟩
    have hbegun := h.begun.append_right [t]
    simpa using hbegun
  | @ran t hw _ =>
    refine ⟨h.execute hw rfl, ?_, h.cancelled⟩
    have hbegun := h.begun.append_right [t]
    rw [List.append_assoc] at hbegun
    simpa using hbegun.trans (List.perm_append_comm.append_left _)
  | finished hw => exact h.mono rfl rfl rfl rfl rfl (by rw [hw]; rfl)
  | done hw _ => exact h.mono rfl rfl rfl rfl rfl (by rw [hw]; rfl)
  | ended hw _ _ => exact h.mono rfl rfl rfl rfl rfl (by rw [hw]; rfl)
  | again hw _ _ => exact h.mono rfl rfl rfl rfl rfl (by rw [hw]; rfl)
  | stopped hw _ => exact h.mono rfl rfl rfl rfl rfl (by rw [hw]; rfl)
  | renewed hw => exact h.mono rfl rfl rfl rfl rfl (by rw [hw]; rfl)
  | requeued hw => exact h.mono rfl rfl rfl rfl rfl (by rw [hw]; rfl)
  | @poolRan i t hi =>
    refine ⟨h.removed, h.begun.trans ?_, h.cancelled⟩
    obtain ⟨hlt, rfl⟩ := List.getElem?_eq_some_iff.mp hi
    have hsubmitted := (List.getElem_cons_eraseIdx_perm hlt).symm
    simpa using hsubmitted.append_left (s.ran.map (·.1))
  | _ => exact h.mono rfl rfl rfl rfl rfl rfl

/-- Nothing is executed, or begun, before its expiration. -/
structure Due (s : Queue) : Prop where
  executed : ∀ x ∈ s.executed, x.1.expiration ≤ x.2
  ran : ∀ x ∈ s.ran, x.1.expiration ≤ x.2
  hands : ∀ t ∈ s.worker.hands, t.expiration ≤ s.clock
  submitted : ∀ t ∈ s.submitted, t.expiration ≤ s.clock

theorem Due.free (h : Due s) {w : Worker} (hw : w.hands = []) : Due { s with worker := w } :=
  ⟨h.executed, h.ran, by simp [hw], h.submitted⟩

theorem Move.due (hmove : Move s a s') (h : Due s) : Due s' := by
  cases hmove with
  | started => exact ⟨h.executed, h.ran, by simp [Worker.hands], h.submitted⟩
  | flags hle =>
    exact ⟨h.executed, h.ran, fun t ht => (h.hands t ht).trans hle, fun t ht => (h.submitted t ht).trans hle⟩
  | called | checked | created | pushed | cancelled | cancelledAll | cleared | gaveUp =>
    exact ⟨h.executed, h.ran, h.hands, h.submitted⟩
  | wandered _ _ hw' => exact h.free (hands_free hw')
  | took hw hq _ hdue => exact ⟨h.executed, h.ran, by simpa [Worker.hands] using hdue, h.submitted⟩
  | relented => exact ⟨h.executed, h.ran, by simp [Worker.hands], h.submitted⟩
  | passed hw _ => exact ⟨h.executed, h.ran, by simpa [hw, Worker.hands] using h.hands, h.submitted⟩
  | handed hw _ =>
    have hdue := h.hands
    simp only [hw, Worker.hands, List.mem_singleton, forall_eq] at hdue
    refine ⟨?_, h.ran, by simp [Worker.hands], ?_⟩
    · simpa [or_imp, forall_and, hdue] using h.executed
    · simpa [or_imp, forall_and, hdue] using h.submitted
  | ran hw _ =>
    have hdue := h.hands
    simp only [hw, Worker.hands, List.mem_singleton, forall_eq] at hdue
    refine ⟨?_, ?_, by simp [Worker.hands], h.submitted⟩
    · simpa [or_imp, forall_and, hdue] using h.executed
    · simpa [or_imp, forall_and, hdue] using h.ran
  | finished | done | again | stopped | renewed => exact h.free rfl
  | ended | requeued => exact ⟨h.executed, h.ran, by simp [Worker.hands], h.submitted⟩
  | @poolRan i t hi =>
    have hdue := h.submitted t (List.mem_of_getElem? hi)
    refine ⟨h.executed, ?_, h.hands, fun u hu => h.submitted u (List.mem_of_mem_eraseIdx hu)⟩
    simpa [or_imp, forall_and, hdue] using h.ran

/-! ## The cancellations -/

/-- A timer past the worker's second look is of a generation that was current at that look. -/
def Checked (generation : Nat) (s : Queue) : Prop :=
  generation ≤ s.cancelGeneration ∧ ∀ t, s.worker = .ready t → generation ≤ t.generation

theorem not_cancelled_iff {t : Timer} :
    isCancelledLocked s t = false ↔ s.cancelGeneration ≤ t.generation ∧ t.id ∉ s.cancelled := by
  simp [isCancelledLocked]

theorem Move.checked_of {generation : Nat} (hmove : Move s a s') (h : Checked generation s) : Checked generation s' := by
  obtain ⟨hle, hready⟩ := h
  cases hmove with
  | cancelledAll | cleared => exact ⟨Nat.le_succ_of_le hle, hready⟩
  | wandered _ _ hw' => exact ⟨hle, fun t ht => by subst ht; cases hw'⟩
  | passed hw hc =>
    refine ⟨hle, fun u hu => ?_⟩
    cases hu
    exact hle.trans (not_cancelled_iff.mp hc).1
  | started | took | relented | handed | ran | finished | done | ended | again | stopped | renewed | requeued =>
    exact ⟨hle, fun t ht => by cases ht⟩
  | _ => exact ⟨hle, hready⟩

/-! ## Dispatch -/

structure Dispatch (s : Queue) : Prop where
  /-- a one-shot timer is executed once, and its task begun once -/
  once : ∀ id, holds ((s.executed.map (·.1)).filter (!·.repeats)) id ≤ 1
  begunOnce : ∀ id, holds ((s.ran.map (·.1)).filter (!·.repeats)) id ≤ 1
  /-- not before its expiration -/
  executedDue : ∀ x ∈ s.executed, x.1.expiration ≤ x.2
  begunDue : ∀ x ∈ s.ran, x.1.expiration ≤ x.2
  /-- what was removed was executed or given up, or the worker is about to do one of the two -/
  removed : (s.removed.map (·.1)).Perm (s.executed.map (·.1) ++ s.dropped.map (·.1) ++ s.worker.hands)
  /-- and what was given up was cancelled when it was -/
  dropped : ∀ x ∈ s.dropped, x.2 = true

/-- A step that finds the worker anywhere but between its second look at a timer and the execution, and a later
    execution: the timer was created after every `cancelAll` and `stop` that was over by the first. -/
def Outlived (p q : Queue × Act) : Prop :=
  (∀ t, p.1.worker ≠ .ready t) → q.2 = .worker → ∀ t, q.1.worker = .ready t → p.1.cancelGeneration ≤ t.generation

theorem timers_are_dispatched {threadPool : Bool} {tr : List (Queue × Act)}
    (h : (machine threadPool).Trace (fun _ _ => True) tr s) : Dispatch s ∧ tr.Pairwise Outlived := by
  have hr := h.reach
  have hacc : Born s ∧ Accounted s := hr.inv (I := fun s => Born s ∧ Accounted s)
    ⟨fun _ => rfl, ⟨by simp [machine, make, Worker.hands], by simp [machine, make], by simp [machine, make]⟩⟩
    fun _ _ _ hI _ hstep => ⟨(step_move hstep).born hI.1, (step_move hstep).accounted hI.1 hI.2⟩
  have hdue : Due s := hr.inv (I := Due)
    ⟨by simp [machine, make], by simp [machine, make], by simp [machine, make, Worker.hands], by simp [machine, make]⟩
    fun _ _ _ hI _ hstep => (step_move hstep).due hI
  have honce (id : Nat) : holds ((s.executed.map (·.1)).filter (!·.repeats)) id ≤ 1 := by
    have hid := reach_unique hr id
    simp only [once] at hid
    split at hid <;> omega
  refine ⟨⟨honce, fun id => ?_, hdue.executed, hdue.ran, hacc.2.removed, hacc.2.cancelled⟩, ?_⟩
  · have hcount := ((hacc.2.begun.filter (!·.repeats)).countP_eq (·.id = id))
    have hid := honce id
    simp only [holds, List.filter_append, List.countP_append] at hcount hid ⊢
    omega
  · refine h.pairwise (I := fun p s => (∀ t, p.1.worker ≠ .ready t) → Checked p.1.cancelGeneration s) ?_ ?_ ?_
    · intro s a s' _ _ hstep hnot
      exact (step_move hstep).checked_of ⟨le_refl _, fun t ht => absurd ht (hnot t)⟩
    · intro p s a s' hI _ _ hstep hnot
      exact (step_move hstep).checked_of (hI hnot)
    · intro p s a hI _ hnot _ t ht
      exact (hI hnot).2 t ht

/-- A one-shot timer is executed; a repeating one is outlived by a `cancelAll`. -/
theorem timers_are_dispatched_two :
    ∃ tr s, (machine false).Trace (fun _ _ => True) tr s ∧ s.executed.map (·.1.id) = [1] ∧ s.dropped.map (·.1.id) = [2] ∧
      Dispatch s ∧ tr.Pairwise Outlived := by
  obtain ⟨tr, s, htr, hs⟩ := Machine.Trace.of_run (machine false) (fun _ _ => True)
    (fun _ s => s.executed.map (·.1.id) == [1] && s.dropped.map (·.1.id) == [2])
    [.start, .runAt 0 true, .check 0, .create 0, .push 0, .runEvery 1 true, .check 1, .create 1, .push 1, .worker, .worker,
      .worker, .worker, .worker, .worker, .cancelAll, .worker, .worker, .worker, .worker, .worker, .worker]
    (by decide +kernel)
  simp only [Bool.and_eq_true, beq_iff_eq] at hs
  obtain ⟨hdispatch, hpairs⟩ := timers_are_dispatched htr
  exact ⟨tr, s, htr, hs.1, hs.2, hdispatch, hpairs⟩

/-- A timer that was not cancelled when it was removed, and is in nobody's hands: it was cancelled before the second
    look. -/
theorem a_removed_timer_is_cancelled_later :
    ∃ s, (machine false).Reach (fun _ _ => True) s ∧ s.worker = .top ∧ live s = [] ∧ s.executed = [] ∧
      ∃ t, (t, false) ∈ s.removed := by
  obtain ⟨s, hr, hs⟩ := Machine.Reach.of_run (machine false) (fun _ _ => True)
    (fun s => s.worker == .top && live s == [] && s.executed == [] && s.removed == [(⟨1, 0, 0, false, 0⟩, false)])
    [.start, .runAt 0 true, .check 0, .create 0, .push 0, .worker, .worker, .worker, .worker, .cancel 1, .worker]
    (by decide +kernel)
  simp only [Bool.and_eq_true, beq_iff_eq] at hs
  obtain ⟨⟨⟨hw, hlive⟩, hexec⟩, hrem⟩ := hs
  exact ⟨s, hr, hw, hlive, hexec, _, by rw [hrem]; exact List.mem_singleton_self _⟩

/-! ## What is remembered -/

/-- The timers in the worker's hands that it will look at again before it is done with them. -/
def Worker.toCheck : Worker → List Timer
  | .taken t => [t]
  | .ready t | .executing t | .executed t => if t.repeats then [t] else []
  | .requeue t | .pushing t => [t]
  | _ => []

theorem toCheck_free {w : Worker} (h : w.free = true) : w.toCheck = [] := by
  cases w <;> first | rfl | cases h

/-- The timers the worker will look at again: on their way into the heap, in it, or in its hands. -/
def ahead (s : Queue) : List Timer := incoming s ++ s.tasks ++ s.worker.toCheck

/-- A call of `cancel` that returns true. -/
def Cancels (id : Nat) (p : Queue × Act) : Prop := p.2 = .cancel id ∧ id ∉ p.1.cancelled

instance (id : Nat) (p : Queue × Act) : Decidable (Cancels id p) := inferInstanceAs (Decidable (_ ∧ _))

/-- A call of `cancel` that returns true with an id that the worker will not look for: no timer has it, or not yet, or
    the last look at that timer is over. -/
def untimely (p : Queue × Act) : Option Nat :=
  match p.2 with
  | .cancel id => if id ∉ p.1.cancelled ∧ holds (ahead p.1) id = 0 then some id else none
  | _ => none

/-- The queue is halted by `stop()` only. -/
structure Halted (s : Queue) : Prop where
  stopped : s.stopped = true → s.worker = .unborn ∨ s.stopping ≠ .uncalled
  stopRequested : s.stopRequested = true → s.stopping ≠ .uncalled

theorem Halted.goto (h : Halted s) (hne : s.worker ≠ .unborn) (hstopped : s'.stopped = s.stopped)
    (hrequested : s'.stopRequested = s.stopRequested) (hstopping : s'.stopping = s.stopping) : Halted s' := by
  refine ⟨fun hs => ?_, fun hs => ?_⟩
  · rw [hstopping]
    exact .inr ((h.stopped (hstopped ▸ hs)).resolve_left hne)
  · rw [hstopping]
    exact h.stopRequested (hrequested ▸ hs)

theorem Move.halted (hmove : Move s a s') (h : Halted s) : Halted s' := by
  cases hmove with
  | started => exact ⟨by simp, h.stopRequested⟩
  | flags _ hstopping _ hstopped hrequested =>
    refine ⟨fun hs => ?_, fun hs => ?_⟩
    · rcases hstopped hs with hs | hs
      · exact (h.stopped hs).imp_right fun hne heq => hne (hstopping heq)
      · exact .inr hs
    · rcases hrequested hs with hs | hs
      · exact fun heq => h.stopRequested hs (hstopping heq)
      · exact hs
  | cleared => exact ⟨by simp, by simp⟩
  | wandered hne => exact h.goto hne rfl rfl rfl
  | gaveUp hw | took hw | relented hw | passed hw | handed hw | ran hw | finished hw | done hw | ended hw | again hw
  | stopped hw | renewed hw | requeued hw => exact h.goto (by simp [hw]) rfl rfl rfl
  | _ => exact ⟨h.stopped, h.stopRequested⟩

theorem ne_of_mem_forget {l : List Nat} {id id' : Nat} (h : id ∈ l.filter (· ≠ id')) : id' ≠ id := by
  have hne := (List.mem_filter.mp h).2
  exact fun heq => by simp [heq] at hne

/-- A timer whose id is remembered goes nowhere, unless the queue is stopped. -/
theorem Move.ahead_of (hmove : Move s a s') (hborn : Born s) (hhalted : Halted s) {id : Nat} (hid : id ∈ s'.cancelled)
    (h : 0 < holds (ahead s) id) : 0 < holds (ahead s') id ∨ s'.stopping ≠ .uncalled := by
  simp only [ahead, incoming, holds_append] at h ⊢
  cases hmove with
  | started hst => exact .inl (by simpa [hborn hst, Worker.toCheck] using h)
  | flags => exact .inl h
  | called hc => exact .inl (by simpa [hc] using h)
  | @checked k c c' hk hc hc' =>
    have hset := holds_incoming_set hk c' id
    simp only [hc, hc', Option.toList_none, holds_nil] at hset
    exact .inl (by simp only [incoming] at hset ⊢; omega)
  | @created k request hk _ =>
    have hset := holds_incoming_set hk (.pushing (newTimer request s)) id
    simp only [Call.timer?, Option.toList_none, Option.toList_some, holds_nil, holds_cons] at hset
    exact .inl (by simp only [incoming] at hset ⊢; omega)
  | @pushed k t hk _ =>
    have hset := holds_incoming_set hk (.returned t.id) id
    simp only [Call.timer?, Option.toList_none, Option.toList_some, holds_nil, holds_cons] at hset
    exact .inl (by simp only [incoming, holds_orderedInsert] at hset ⊢; omega)
  | cancelled => exact .inl h
  | cancelledAll | cleared => cases hid
  | wandered _ hw hw' => exact .inl (by simpa [toCheck_free hw, toCheck_free hw'] using h)
  | gaveUp hw hq _ => exact .inl (by simpa [hw, hq, Worker.toCheck, ne_of_mem_forget hid] using h)
  | took hw hq _ _ =>
    simp only [hw, hq, Worker.toCheck, holds_cons, holds_nil] at h
    exact .inl (by simp only [Worker.toCheck, holds_cons, holds_nil]; omega)
  | relented hw _ => exact .inl (by simpa [hw, Worker.toCheck, ne_of_mem_forget hid] using h)
  | @passed t hw hc =>
    have hne : t.id ≠ id := fun heq => (not_cancelled_iff.mp hc).2 (heq ▸ hid)
    simp only [hw, Worker.toCheck, holds_cons, holds_nil, if_neg hne] at h
    exact .inl (by simp only; omega)
  | handed hw _ | ran hw _ | finished hw => exact .inl (by simpa [hw, Worker.toCheck] using h)
  | done hw hr => exact .inl (by simpa [hw, hr, Worker.toCheck] using h)
  | ended hw hr _ => exact .inl (by simpa [hw, hr, Worker.toCheck, ne_of_mem_forget hid] using h)
  | again hw hr _ => exact .inl (by simpa [hw, hr, Worker.toCheck] using h)
  | stopped hw hstop =>
    rcases hstop with hstop | hstop
    · exact .inr ((hhalted.stopped hstop).resolve_left (by simp [hw]))
    · exact .inr (hhalted.stopRequested hstop)
  | renewed hw => exact .inl (by simpa [hw, Worker.toCheck] using h)
  | requeued hw =>
    simp only [hw, Worker.toCheck, holds_cons, holds_nil] at h
    exact .inl (by simp only [Worker.toCheck, holds_orderedInsert, holds_nil]; omega)
  | poolRan => exact .inl h

/-- An id gets into the set by a call that returns true, and once. -/
theorem Move.mem_cancelled (hmove : Move s a s') {id : Nat} (h : id ∈ s'.cancelled) :
    id ∈ s.cancelled ∨ Cancels id (s, a) := by
  cases hmove with
  | cancelled hnew =>
    rcases List.mem_cons.mp h with rfl | h
    · exact .inr ⟨rfl, hnew⟩
    · exact .inl h
  | cancelledAll | cleared => cases h
  | gaveUp | relented | ended => exact .inl (List.mem_of_mem_filter h)
  | _ => exact .inl h

theorem Move.nodup_cancelled (hmove : Move s a s') (h : s.cancelled.Nodup) : s'.cancelled.Nodup := by
  cases hmove with
  | cancelled hnew => exact List.nodup_cons.mpr ⟨hnew, h⟩
  | cancelledAll | cleared => exact List.nodup_nil
  | gaveUp | relented | ended => exact h.filter _
  | _ => exact h

/-- Every id in the set is that of the last `cancel` of it that returned true; and where the worker was to look at the
    timer again, it still is, unless the queue is stopped. -/
def Remembered (tr : List (Queue × Act)) (s : Queue) : Prop :=
  ∀ id ∈ s.cancelled, ∃ before p since, tr = before ++ p :: since ∧ Cancels id p ∧ (∀ q ∈ since, ¬ Cancels id q) ∧
    (0 < holds (ahead p.1) id → 0 < holds (ahead s) id ∨ s.stopping ≠ .uncalled)

theorem Move.stopping (hmove : Move s a s') (h : s.stopping ≠ .uncalled) : s'.stopping ≠ .uncalled := by
  cases hmove with
  | flags _ hstopping => exact fun heq => h (hstopping heq)
  | cleared => simp
  | _ => exact h

theorem Move.remembered {tr : List (Queue × Act)} (hmove : Move s a s') (hborn : Born s) (hhalted : Halted s)
    (h : Remembered tr s) : Remembered (tr ++ [(s, a)]) s' := by
  intro id hid
  by_cases hcancels : Cancels id (s, a)
  · exact ⟨tr, (s, a), [], rfl, hcancels, by simp, hmove.ahead_of hborn hhalted hid⟩
  · obtain ⟨before, p, since, rfl, hp, hsince, hkept⟩ := h id ((hmove.mem_cancelled hid).resolve_right hcancels)
    refine ⟨before, p, since ++ [(s, a)], by simp, hp, ?_, fun hahead => ?_⟩
    · intro q hq
      rcases List.mem_append.mp hq with hq | hq
      · exact hsince q hq
      · rwa [List.mem_singleton.mp hq]
    · rcases hkept hahead with hkept | hstopped
      · exact hmove.ahead_of hborn hhalted hid hkept
      · exact .inr (hmove.stopping hstopped)

/-! ## Where a timer comes from -/

theorem mem_incoming_set {k : Nat} {c : Call} {t : Timer} (h : t ∈ (s.calls.set k c).filterMap Call.timer?) :
    t ∈ incoming s ∨ c.timer? = some t := by
  obtain ⟨d, hd, ht⟩ := List.mem_filterMap.mp h
  rcases List.mem_or_eq_of_mem_set hd with hd | rfl
  · exact .inl (List.mem_filterMap.mpr ⟨d, hd, ht⟩)
  · exact .inr ht

theorem mem_live {t : Timer} : t ∈ live s ↔ t ∈ incoming s ∨ t ∈ s.tasks ∨ t ∈ s.worker.pending := by
  rw [live, List.mem_append, List.mem_append, or_assoc]

/-- A timer that is yet to be executed was so before the step, up to its expiration, or has just been created. -/
theorem Move.live_from (hmove : Move s a s') {t : Timer} (ht : t ∈ live s') :
    (∃ u ∈ live s, u.id = t.id ∧ u.generation = t.generation) ∨
      (t.id = s.nextId + 1 ∧ t.generation = s'.cancelGeneration) := by
  have hsame (h : t ∈ incoming s ∨ t ∈ s.tasks ∨ t ∈ s.worker.pending) :
      (∃ u ∈ live s, u.id = t.id ∧ u.generation = t.generation) ∨
        (t.id = s.nextId + 1 ∧ t.generation = s'.cancelGeneration) := .inl ⟨t, mem_live.mpr h, rfl, rfl⟩
  simp only [mem_live, incoming] at ht
  cases hmove with
  | started => exact hsame (ht.imp_right fun ht => .inl (ht.resolve_right (by simp [Worker.pending])))
  | called hc => exact hsame (by simpa [incoming, hc] using ht)
  | checked hk hc hc' =>
    refine hsame (ht.imp_left fun ht => ?_)
    exact (mem_incoming_set ht).resolve_right (by simp [hc'])
  | @created k request hk _ =>
    rcases ht with ht | ht
    · rcases mem_incoming_set ht with ht | ht
      · exact hsame (.inl ht)
      · obtain rfl := Option.some.inj ht
        exact .inr (by cases request <;> exact ⟨rfl, rfl⟩)
    · exact hsame (.inr ht)
  | @pushed k u hk _ =>
    rcases ht with ht | ht | ht
    · exact hsame (.inl ((mem_incoming_set ht).resolve_right (by simp [Call.timer?])))
    · rcases (List.mem_orderedInsert _).mp ht with rfl | ht
      · exact hsame (.inl (List.mem_filterMap.mpr ⟨_, List.mem_of_getElem? hk, rfl⟩))
      · exact hsame (.inr (.inl ht))
    · exact hsame (.inr (.inr ht))
  | cleared => exact hsame (ht.imp_right fun ht => .inr (ht.resolve_left (by simp)))
  | wandered _ _ hw' => exact hsame (ht.imp_right fun ht => .inl (ht.resolve_right (by simp [hw'])))
  | gaveUp hw hq _ => exact hsame (ht.imp_right (.imp_left fun ht => by rw [hq]; exact List.mem_cons_of_mem _ ht))
  | took hw hq _ _ =>
    refine hsame (ht.imp_right fun ht => .inl ?_)
    rw [hq]
    exact List.mem_cons.mpr (by simpa [Worker.pending, or_comm] using ht)
  | relented | stopped | done | ended => exact hsame (ht.imp_right (.imp_right fun ht => by simp [Worker.pending] at ht))
  | passed hw _ => exact hsame (by simpa [hw, Worker.pending, incoming] using ht)
  | @handed u hw _ | @ran u hw _ =>
    refine hsame (ht.imp_right (.imp_right fun ht => ?_))
    simp only [Worker.pending] at ht
    split at ht
    · simpa [hw, Worker.pending] using ht
    · cases ht
  | finished hw => exact hsame (by simpa [hw, Worker.pending, incoming] using ht)
  | again hw hr _ => exact hsame (by simpa [hw, hr, Worker.pending, incoming] using ht)
  | @renewed u hw =>
    rcases ht with ht | ht | ht
    · exact hsame (.inl ht)
    · exact hsame (.inr (.inl ht))
    · obtain rfl := List.mem_singleton.mp ht
      exact .inl ⟨u, mem_live.mpr (.inr (.inr (by simp [hw, Worker.pending]))), rfl, rfl⟩
  | requeued hw =>
    rcases ht with ht | ht | ht
    · exact hsame (.inl ht)
    · rcases (List.mem_orderedInsert _).mp ht with rfl | ht
      · exact hsame (.inr (.inr (by simp [hw, Worker.pending])))
      · exact hsame (.inr (.inl ht))
    · cases ht
  | _ => exact hsame ht

theorem Unique.id_le (h : Unique s) {t : Timer} (ht : t ∈ live s) : t.id ≤ s.nextId := by
  have hpos := holds_pos ht
  have hid := h t.id
  simp only [live, holds_append] at hpos
  split at hid
  · assumption
  · omega

theorem Move.generation (hmove : Move s a s') : s'.cancelGeneration = s.cancelGeneration ∨
    (a = .cancelAll ∨ a = .stopClear) ∧ s'.cancelGeneration = s.cancelGeneration + 1 := by
  cases hmove with
  | cancelledAll => exact .inr ⟨.inl rfl, rfl⟩
  | cleared => exact .inr ⟨.inr rfl, rfl⟩
  | _ => exact .inl rfl

/-- A call that sets every timer created so far aside. -/
def Sweeps (id : Nat) (p : Queue × Act) : Prop := (p.2 = .cancelAll ∨ p.2 = .stopClear) ∧ id ≤ p.1.nextId

/-- No timer is ahead of the generation, and one that is behind it was created before a `cancelAll` or a `stop`. -/
def Aged (tr : List (Queue × Act)) (s : Queue) : Prop :=
  ∀ t ∈ live s, t.generation ≤ s.cancelGeneration ∧ (t.generation < s.cancelGeneration → ∃ p ∈ tr, Sweeps t.id p)

theorem Move.aged {tr : List (Queue × Act)} (hmove : Move s a s') (hunique : Unique s) (h : Aged tr s) :
    Aged (tr ++ [(s, a)]) s' := by
  intro t ht
  rcases hmove.live_from ht with ⟨u, hu, hid, hgen⟩ | ⟨-, hgen⟩
  · obtain ⟨hle, hbehind⟩ := h u hu
    have hbefore (hlt : t.generation < s.cancelGeneration) : ∃ p ∈ tr ++ [(s, a)], Sweeps t.id p := by
      obtain ⟨p, hp, hsweeps⟩ := hbehind (hgen ▸ hlt)
      exact ⟨p, List.mem_append_left _ hp, hid ▸ hsweeps⟩
    rcases hmove.generation with heq | ⟨hcall, heq⟩
    · rw [heq, ← hgen]
      exact ⟨hle, fun hlt => hbefore (hgen ▸ hlt)⟩
    · rw [heq]
      exact ⟨by omega, fun _ => ⟨(s, a), by simp, hcall, hid ▸ hunique.id_le hu⟩⟩
  · rw [hgen]
    exact ⟨le_refl _, fun hlt => absurd hlt (lt_irrefl _)⟩

theorem Move.dropped_from (hmove : Move s a s') {x : Timer × Bool} (hx : x ∈ s'.dropped) :
    x ∈ s.dropped ∨ (x.1 ∈ live s ∧ isCancelledLocked s x.1 = true) := by
  cases hmove with
  | gaveUp _ hq hc =>
    rcases List.mem_append.mp hx with hx | hx
    · exact .inl hx
    · obtain rfl := List.mem_singleton.mp hx
      exact .inr ⟨mem_live.mpr (.inr (.inl (by simp [hq]))), hc⟩
  | relented hw hc =>
    rcases List.mem_append.mp hx with hx | hx
    · exact .inl hx
    · obtain rfl := List.mem_singleton.mp hx
      exact .inr ⟨mem_live.mpr (.inr (.inr (by simp [hw, Worker.pending]))), hc⟩
  | _ => exact .inl hx

/-- A timer is given up for a `cancel` of its id, or for a call that came after its creation. -/
def Excused (tr : List (Queue × Act)) (s : Queue) : Prop :=
  ∀ x ∈ s.dropped, (∃ p ∈ tr, Cancels x.1.id p) ∨ ∃ p ∈ tr, Sweeps x.1.id p

theorem Move.excused {tr : List (Queue × Act)} (hmove : Move s a s') (hremembered : Remembered tr s) (haged : Aged tr s)
    (h : Excused tr s) : Excused (tr ++ [(s, a)]) s' := by
  intro x hx
  have hlift {P : Queue × Act → Prop} (hp : ∃ p ∈ tr, P p) : ∃ p ∈ tr ++ [(s, a)], P p := by
    obtain ⟨p, hp, hP⟩ := hp
    exact ⟨p, List.mem_append_left _ hp, hP⟩
  rcases hmove.dropped_from hx with hx | ⟨hlive, hc⟩
  · exact (h x hx).imp hlift hlift
  · simp only [isCancelledLocked, Bool.or_eq_true, decide_eq_true_eq] at hc
    rcases hc with hlt | hin
    · exact .inr (hlift ((haged _ hlive).2 hlt))
    · obtain ⟨before, p, since, rfl, hp, -⟩ := hremembered _ hin
      exact .inl (hlift ⟨p, by simp, hp⟩)

/-- The cancellations that are remembered, and the timers given up for them. -/
structure Memory (tr : List (Queue × Act)) (s : Queue) : Prop where
  remembered : Remembered tr s
  excused : Excused tr s
  bounded : s.stopping = .uncalled → s.cancelled.length ≤ (ahead s).length + (tr.filterMap untimely).length

theorem Remembered.bounded {tr : List (Queue × Act)} (h : Remembered tr s) (hnodup : s.cancelled.Nodup)
    (hstopping : s.stopping = .uncalled) : s.cancelled.length ≤ (ahead s).length + (tr.filterMap untimely).length := by
  have hsub : s.cancelled ⊆ (ahead s).map (·.id) ++ tr.filterMap untimely := by
    intro id hid
    obtain ⟨before, p, since, rfl, ⟨hcall, hnew⟩, -, hkept⟩ := h id hid
    rw [List.mem_append]
    by_cases hahead : holds (ahead p.1) id = 0
    · refine .inr (List.mem_filterMap.mpr ⟨p, by simp, ?_⟩)
      rw [untimely, hcall]
      exact if_pos ⟨hnew, hahead⟩
    · have hstill := (hkept (Nat.pos_of_ne_zero hahead)).resolve_right (not_not.mpr hstopping)
      obtain ⟨t, ht, hteq⟩ := List.countP_pos_iff.mp hstill
      exact .inl (List.mem_map.mpr ⟨t, ht, by simpa using hteq⟩)
  have hle := (List.subperm_of_subset hnodup hsub).length_le
  simpa using hle

theorem reach_halted {threadPool : Bool} {ok : Queue → Act → Prop} (h : (machine threadPool).Reach ok s) :
    Born s ∧ Halted s :=
  h.inv (I := fun s => Born s ∧ Halted s) ⟨fun _ => rfl, ⟨fun _ => .inl rfl, by simp [machine, make]⟩⟩
    fun _ _ _ hI _ hstep => ⟨(step_move hstep).born hI.1, (step_move hstep).halted hI.2⟩

theorem trace_aged {threadPool : Bool} {ok : Queue → Act → Prop} {tr : List (Queue × Act)}
    (h : (machine threadPool).Trace ok tr s) : Aged tr s := by
  induction h with
  | nil => exact fun t ht => by simp [live, incoming, machine, make, Worker.pending] at ht
  | snoc htr _ hstep ih => exact (step_move hstep).aged (reach_unique htr.reach) ih

theorem cancellations_are_remembered {threadPool : Bool} {tr : List (Queue × Act)}
    (h : (machine threadPool).Trace (fun _ _ => True) tr s) : Memory tr s := by
  have hboth : Remembered tr s ∧ Excused tr s := by
    induction h with
    | nil => exact ⟨fun id hid => by simp [machine, make] at hid, fun x hx => by simp [machine, make] at hx⟩
    | snoc htr _ hstep ih =>
      obtain ⟨hborn, hhalted⟩ := reach_halted htr.reach
      have hmove := step_move hstep
      exact ⟨hmove.remembered hborn hhalted ih.1, hmove.excused ih.1 (trace_aged htr) ih.2⟩
  have hnodup : s.cancelled.Nodup := h.reach.inv (I := fun s => s.cancelled.Nodup) List.nodup_nil
    fun _ _ _ hI _ hstep => (step_move hstep).nodup_cancelled hI
  exact ⟨hboth.1, hboth.2, hboth.1.bounded hnodup⟩

/-- A timer cancelled in time is forgotten, one cancelled during its last execution is not. -/
theorem cancellations_are_remembered_late :
    ∃ tr s, (machine false).Trace (fun _ _ => True) tr s ∧ s.dropped.map (·.1.id) = [2] ∧ s.cancelled = [1] ∧
      tr.filterMap untimely = [1] ∧ Memory tr s := by
  obtain ⟨tr, s, htr, hs⟩ := Machine.Trace.of_run (machine false) (fun _ _ => True)
    (fun tr s => s.dropped.map (·.1.id) == [2] && s.cancelled == [1] && tr.filterMap untimely == [1])
    [.start, .runAt 0 true, .check 0, .create 0, .push 0, .runAt 0 true, .check 1, .create 1, .push 1, .cancel 2,
      .worker, .worker, .worker, .worker, .worker, .worker, .cancel 1, .worker, .worker, .worker, .worker, .worker,
      .worker]
    (by decide +kernel)
  simp only [Bool.and_eq_true, beq_iff_eq] at hs
  obtain ⟨⟨hdropped, hcancelled⟩, huntimely⟩ := hs
  exact ⟨tr, s, htr, hdropped, hcancelled, huntimely, cancellations_are_remembered htr⟩

/-- Nobody has created a timer, and an id is remembered. -/
theorem an_unknown_id_is_remembered :
    ∃ s, (machine false).Reach (fun _ _ => True) s ∧ 7 ∈ s.cancelled ∧ s.nextId = 0 ∧ live s = [] := by
  obtain ⟨s, hr, hs⟩ := Machine.Reach.of_run (machine false) (fun _ _ => True)
    (fun s => s.cancelled == [7] && s.nextId == 0 && live s == []) [.start, .cancel 7] (by decide +kernel)
  simp only [Bool.and_eq_true, beq_iff_eq] at hs
  obtain ⟨⟨hcancelled, hnext⟩, hlive⟩ := hs
  exact ⟨s, hr, by simp [hcancelled], hnext, hlive⟩

/-! ## Cancelled in time -/

/-- No `cancel` comes between the worker's second look at the timer and its execution. -/
def timely (s : Queue) : Act → Bool
  | .cancel timerId =>
    match s.worker with
    | .ready t => t.id ≠ timerId
    | _ => true
  | _ => true

/-- The timer of the id, if it is yet to be executed, is cancelled, and the worker will see it. -/
structure Doomed (id : Nat) (s : Queue) : Prop where
  created : id ≤ s.nextId
  notReady : ∀ t, s.worker = .ready t → t.id ≠ id
  marked : ∀ t ∈ live s, t.id = id → isCancelledLocked s t = true

theorem Move.ready_from (hmove : Move s a s') {t : Timer} (ht : s'.worker = .ready t) :
    s.worker = .ready t ∨ (s.worker = .taken t ∧ isCancelledLocked s t = false) := by
  cases hmove with
  | passed hw hc =>
    cases ht
    exact .inr ⟨hw, hc⟩
  | wandered _ _ hw' =>
    subst ht
    cases hw'
  | started | took | relented | handed | ran | finished | done | ended | again | stopped | renewed | requeued => cases ht
  | _ => exact .inl ht

theorem Move.nextId_le (hmove : Move s a s') : s.nextId ≤ s'.nextId := by
  cases hmove with
  | created => exact Nat.le_succ _
  | _ => exact le_refl _

/-- An id is forgotten with its timer, or when every timer is of an older generation. -/
theorem Move.forgets (hmove : Move s a s') (hunique : Unique s) {id : Nat} (h : id ∈ s.cancelled) :
    id ∈ s'.cancelled ∨ s'.cancelGeneration = s.cancelGeneration + 1 ∨ holds (live s') id = 0 := by
  have hid := hunique id
  have hle : (if id ≤ s.nextId then 1 else 0) ≤ 1 := by split <;> omega
  have hkeep {l : List Nat} {t : Timer} (hne : t.id ≠ id) (h : id ∈ l) : id ∈ l.filter (· ≠ t.id) :=
    List.mem_filter.mpr ⟨h, by simpa using hne.symm⟩
  cases hmove with
  | cancelled => exact .inl (List.mem_cons_of_mem _ h)
  | cancelledAll | cleared => exact .inr (.inl rfl)
  | @gaveUp t rest hw hq _ =>
    by_cases heq : t.id = id
    · simp only [hq, hw, heq, Worker.pending, holds_cons, holds_nil, if_pos] at hid
      exact .inr (.inr (by simp only [live, incoming, hw, Worker.pending, holds_append, holds_nil] at hid ⊢; omega))
    · exact .inl (hkeep heq h)
  | @relented t hw _ =>
    by_cases heq : t.id = id
    · simp only [hw, heq, Worker.pending, holds_cons, holds_nil, if_pos] at hid
      exact .inr (.inr (by simp only [live, incoming, Worker.pending, holds_append, holds_nil] at hid ⊢; omega))
    · exact .inl (hkeep heq h)
  | @ended t hw hr _ =>
    by_cases heq : t.id = id
    · simp only [hw, hr, heq, Worker.pending, holds_cons, holds_nil, if_pos] at hid
      exact .inr (.inr (by simp only [live, incoming, Worker.pending, holds_append, holds_nil] at hid ⊢; omega))
    · exact .inl (hkeep heq h)
  | _ => exact .inl h

theorem Doomed.of_cancel {id : Nat} (hmove : Move s (.cancel id) s') (hnew : id ∉ s.cancelled) (hle : id ≤ s.nextId)
    (htimely : timely s (.cancel id) = true) : Doomed id s' := by
  cases hmove with
  | flags _ _ hold => exact absurd (hold id rfl) hnew
  | called _ hne => exact absurd rfl (hne id)
  | cancelled =>
    refine ⟨hle, fun t hw => ?_, fun t _ hid => by simp [isCancelledLocked, hid]⟩
    simp only [timely] at htimely
    rw [hw] at htimely
    simpa using htimely

theorem Move.doomed {tr : List (Queue × Act)} (hmove : Move s a s') (hunique : Unique s) (haged : Aged tr s) {id : Nat}
    (h : Doomed id s) : Doomed id s' := by
  refine ⟨h.created.trans hmove.nextId_le, fun t ht => ?_, fun t ht hid => ?_⟩
  · rcases hmove.ready_from ht with hw | ⟨hw, hc⟩
    · exact h.notReady t hw
    · intro hid
      have hmarked := h.marked t (mem_live.mpr (.inr (.inr (by simp [hw, Worker.pending])))) hid
      rw [hc] at hmarked
      cases hmarked
  · rcases hmove.live_from ht with ⟨u, hu, huid, hgen⟩ | ⟨hnew, -⟩
    · have hmarked := h.marked u hu (huid.trans hid)
      have hold := (haged u hu).1
      simp only [isCancelledLocked, Bool.or_eq_true, decide_eq_true_eq, huid, hid, hgen] at hmarked hold ⊢
      have hmono : s.cancelGeneration ≤ s'.cancelGeneration := by
        rcases hmove.generation with heq | ⟨-, heq⟩ <;> omega
      rcases hmarked with hlt | hin
      · exact .inl (lt_of_lt_of_le hlt hmono)
      · rcases hmove.forgets hunique hin with hin | hswept | hnone
        · exact .inr hin
        · exact .inl (by omega)
        · have hpos := holds_pos ht
          rw [hid] at hpos
          omega
    · have hcreated := h.created
      omega

/-- A `cancel` that returns true for a timer, and a later execution of it. -/
def Honoured (p q : Queue × Act) : Prop :=
  ∀ id, Cancels id p → id ≤ p.1.nextId → q.2 = .worker → ∀ t, q.1.worker = .ready t → t.id ≠ id

theorem cancel_is_honoured {tr : List (Queue × Act)}
    (h : (machine false).Trace (fun s a => timely s a = true ∧ a ≠ .setThreadPool true) tr s) : tr.Pairwise Honoured := by
  refine h.pairwise (I := fun p s => ∀ id, Cancels id p → id ≤ p.1.nextId → Doomed id s) ?_ ?_ ?_
  · rintro s a s' _ ⟨htimely, -⟩ hstep id ⟨rfl, hnew⟩ hle
    exact .of_cancel (step_move hstep) hnew hle htimely
  · intro p s a s' hI hr _ hstep id hp hle
    obtain ⟨tr, htr⟩ := hr.trace
    exact (step_move hstep).doomed (reach_unique hr) (trace_aged htr) (hI id hp hle)
  · intro p s a hI _ id hp hle _ t ht
    exact (hI id hp hle).notReady t ht

/-- A repeating timer is cancelled during its first execution. -/
theorem cancel_is_honoured_repeating :
    ∃ tr s, (machine false).Trace (fun s a => timely s a = true ∧ a ≠ .setThreadPool true) tr s ∧
      s.executed.map (·.1.id) = [1] ∧ s.worker = .waiting ∧ live s = [] ∧ tr.Pairwise Honoured := by
  obtain ⟨tr, s, htr, hs⟩ := Machine.Trace.of_run (machine false)
    (fun s a => timely s a = true ∧ a ≠ .setThreadPool true)
    (fun _ s => s.executed.map (·.1.id) == [1] && s.worker == .waiting && live s == [])
    [.start, .runEvery 1 true, .check 0, .create 0, .push 0, .tick 1000000, .worker, .worker, .worker, .worker, .worker,
      .worker, .cancel 1, .worker, .worker, .worker]
    (by decide +kernel)
  simp only [Bool.and_eq_true, beq_iff_eq] at hs
  obtain ⟨⟨hexecuted, hworker⟩, hlive⟩ := hs
  exact ⟨tr, s, htr, hexecuted, hworker, hlive, cancel_is_honoured htr⟩

/-- The call comes after the second look, and before the execution. -/
theorem a_cancelled_timer_is_executed :
    ∃ tr s, (machine false).Trace (fun _ a => a ≠ .setThreadPool true) tr s ∧ s.executed.map (·.1.id) = [1] ∧
      ¬ tr.Pairwise Honoured := by
  obtain ⟨tr, s, htr, hs⟩ := Machine.Trace.of_run (machine false) (fun _ a => a ≠ .setThreadPool true)
    (fun _ s => s.worker == .ready ⟨1, 0, 0, false, 0⟩ && s.cancelled == [] && s.nextId == 1 && s.threadPool == false &&
      s.executed == [])
    [.start, .runAt 0 true, .check 0, .create 0, .push 0, .worker, .worker, .worker, .worker, .worker]
    (by decide +kernel)
  simp only [Bool.and_eq_true, beq_iff_eq] at hs
  obtain ⟨⟨⟨⟨hworker, hcancelled⟩, hnext⟩, hpool⟩, hexecuted⟩ := hs
  have hcancel : (machine false).step s (.cancel 1) = some { s with cancelled := [1] } := by
    simp [machine, step, TimerQueue.cancel, hworker, hcancelled, Worker.holds]
  have hwork : (machine false).step { s with cancelled := [1] } .worker =
      some (executeTask ⟨1, 0, 0, false, 0⟩ { s with cancelled := [1] }) := by
    simp [machine, step, workerStep, hworker]
  refine ⟨_, _, (htr.snoc (by simp) hcancel).snoc (by simp) hwork, by simp [executeTask, hpool, hexecuted], ?_⟩
  intro hpairs
  have hcross := (List.pairwise_append.mp hpairs).2.2
  have hpair := hcross (s, .cancel 1) (by simp) ({ s with cancelled := [1] }, .worker) (by simp)
  exact hpair 1 ⟨rfl, by simp [hcancelled]⟩ (by simp [hnext]) rfl _ hworker rfl

end Dbase.Thread.TimerQueue
