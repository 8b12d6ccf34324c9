/-
  Dbase.Log.AsyncLoggerProofs — no accepted record is lost; flushes and wake-ups, where the threads keep out of each
  other's way.

  `Move` says once what a step can do: a call goes from one stage to the next (`Went`), the worker does (`WorkerWent`),
  or the step is one of those that touch more than a stage.
-/

import Dbase.Lib.Crew
import Dbase.Log.AsyncLogger

namespace Dbase.Log.AsyncLogger

open Dbase.Lib
open Dbase.Lib.Crew

variable {s s' : Logger} {a : Act}

/-! ## The moves -/

/-- A step of a call that changes its stage only. -/
inductive Went (s : Logger) : Call → Call → Prop
  | kept {event : LogEvent} : Went s (.logging event) (.numbering event false)
  | quiet {event : LogEvent} : Went s (.logging event) (.returned .quiet)
  | late : s.stopping = true → Went s .flushing .fallback
  | asked : Went s .flushing (.numbering ⟨.info, ""⟩ true)
  | locked {item : QueueItem} : free s = true → Went s (.locking item) (.locked item)
  | refused {item : QueueItem} : s.stopping = true → Went s (.locked item) (refuse item)
  | entered {item : QueueItem} : Went s (.locked item) (.predicate item)
  | sized {item : QueueItem} : s.stopping = false → item.flushOnly = false → Went s (.locked item) (.sizing item)
  | through {item : QueueItem} : (s.stopping = true ∨ s.queue.length < s.queueCapacity) →
      Went s (.predicate item) (.through item)
  | failed {item : QueueItem} : s.stopping = false → Went s (.predicate item) (.window item)
  | blocked {item : QueueItem} : Went s (.window item) (.blocked item)
  | woke {item : QueueItem} : Went s (.blocked item) (.woken item)
  | relocked {item : QueueItem} : free s = true → Went s (.woken item) (.predicate item)
  | refusedLate {item : QueueItem} : s.stopping = true → Went s (.through item) (refuse item)
  | cleared {item : QueueItem} : s.stopping = false → Went s (.through item) (.pushing item)
  | flushLocked {item : QueueItem} : free s = true → Went s (.flushLocking item) (.flushPredicate item)
  | flushed {item : QueueItem} : item.sequence ≤ s.processedSequence →
      Went s (.flushPredicate item) (.returned (.flushed item))
  | flushFailed {item : QueueItem} : s.processedSequence < item.sequence →
      Went s (.flushPredicate item) (.flushWindow item)
  | flushBlocked {item : QueueItem} : Went s (.flushWindow item) (.flushBlocked item)
  | flushWoke {item : QueueItem} : Went s (.flushBlocked item) (.flushWoken item)
  | flushRelocked {item : QueueItem} : free s = true → Went s (.flushWoken item) (.flushPredicate item)
  | copied : Went s .fallback (.flushingSinks s.sinks)
  | fellBack : Went s (.flushingSinks []) (.returned .fellBack)

/-- Behind `enqueueItem`: a flush waits, a log returns. -/
def afterPush (item : QueueItem) : Call := if item.flushOnly then .flushLocking item else .returned (.accepted item)

/-- A step of the worker that changes its stage only. -/
inductive WorkerWent (s : Logger) : Worker → Worker → Prop
  | loaded : WorkerWent s .loading (.locking s.flushOn)
  | locked {flushOn : Level} : free s = true → WorkerWent s (.locking flushOn) (.predicate flushOn)
  | through {flushOn : Level} : WorkerWent s (.predicate flushOn) (.through flushOn)
  | failed {flushOn : Level} : s.stopping = false → WorkerWent s (.predicate flushOn) (.window flushOn)
  | blocked {flushOn : Level} : WorkerWent s (.window flushOn) (.blocked flushOn)
  | woke {flushOn : Level} : WorkerWent s (.blocked flushOn) (.woken flushOn)
  | relocked {flushOn : Level} : free s = true → WorkerWent s (.woken flushOn) (.predicate flushOn)
  | left {flushOn : Level} : s.stopping = true → s.queue = [] → WorkerWent s (.through flushOn) .exiting
  | again {batch : Batch} : WorkerWent s (.items batch []) .loading
  | begun {batch : Batch} {item : QueueItem} {rest : List QueueItem} :
      WorkerWent s (.items batch (item :: rest)) (.calling batch item rest (outputs batch item))
  | copied : WorkerWent s .exiting (.closing s.sinks)
  | exited : WorkerWent s (.closing []) .exited

/-- What a step can do. -/
inductive Move (s : Logger) : Act → Logger → Prop
  | set {a : Act} {level flushOn : Level} {style : PatternStyle} {sinks : List Nat} :
      Move s a { s with level := level, flushOn := flushOn, style := style, sinks := sinks }
  | log {level : Level} {message : String} :
      Move s (.log level message) { s with calls := s.calls ++ [.logging ⟨level, message⟩] }
  | flush : Move s .flush { s with calls := s.calls ++ [.flushing] }
  | went {a : Act} {k : Nat} {c c' : Call} : s.calls[k]? = some c → Went s c c' →
      Move s a { s with calls := s.calls.set k c' }
  | numbered {k : Nat} {event : LogEvent} {flushOnly : Bool} : s.calls[k]? = some (.numbering event flushOnly) →
      Move s (.call k) { s with
        nextSequence := s.nextSequence + 1, calls := s.calls.set k (.locking ⟨event, s.nextSequence + 1, flushOnly⟩) }
  | pushed {k : Nat} {c : Call} {item : QueueItem} : s.calls[k]? = some c →
      (c = .pushing item ∨ (c = .sizing item ∧ s.queue.length < s.queueCapacity)) →
      Move s (.call k) { s with
        queue := s.queue ++ [item], accepted := s.accepted ++ [item], calls := s.calls.set k (.notifying item) }
  | dropped {k : Nat} {item : QueueItem} : s.calls[k]? = some (.sizing item) → s.queueCapacity ≤ s.queue.length →
      Move s (.call k) { s with droppedCount := s.droppedCount + 1, calls := s.calls.set k (.returned (.dropped item)) }
  | notified {k : Nat} {item : QueueItem} : s.calls[k]? = some (.notifying item) →
      Move s (.call k) { s with
        worker := s.worker.wake
        calls := (s.calls.map Call.wake).set k (afterPush item) }
  | flushedSink {k sink : Nat} {rest : List Nat} : s.calls[k]? = some (.flushingSinks (sink :: rest)) →
      Move s (.call k) { s with calls := s.calls.set k (.flushingSinks rest), output := s.output ++ [.flush sink] }
  | workerWent {a : Act} {w : Worker} : WorkerWent s s.worker w → Move s a { s with worker := w }
  | swapped {flushOn : Level} : s.worker = .through flushOn → (s.stopping = false ∨ s.queue ≠ []) →
      Move s .worker { s with worker := .notifying ⟨s.sinks, s.style, flushOn⟩ s.queue, queue := [] }
  | workerNotified {batch : Batch} {items : List QueueItem} : s.worker = .notifying batch items →
      Move s .worker { s with worker := .items batch items, calls := s.calls.map Call.wake }
  | called {batch : Batch} {item : QueueItem} {rest : List QueueItem} {o : Output} {todo : List Output} :
      s.worker = .calling batch item rest (o :: todo) →
      Move s .worker { s with worker := .calling batch item rest todo, output := s.output ++ [o] }
  | stored {batch : Batch} {item : QueueItem} {rest : List QueueItem} : s.worker = .calling batch item rest [] →
      Move s .worker { s with
        worker := .notifyingFlush batch rest, processedSequence := item.sequence
        processed := s.processed ++ [(item, batch)] }
  | flushNotified {batch : Batch} {rest : List QueueItem} : s.worker = .notifyingFlush batch rest →
      Move s .worker { s with worker := .items batch rest, calls := s.calls.map Call.wakeFlush }
  | closed {sink : Nat} {rest : List Nat} : s.worker = .closing (sink :: rest) →
      Move s .worker { s with worker := .closing rest, output := s.output ++ [.flush sink] }
  | stopped : s.stopping = false → Move s .stop { s with stopping := true, stopper := .notifying }
  | stopNotified : s.stopper = .notifying →
      Move s .stopStep { s with worker := s.worker.wake, calls := s.calls.map Call.wake, stopper := .notifyingFlush }
  | stopFlushNotified : s.stopper = .notifyingFlush →
      Move s .stopStep { s with calls := s.calls.map Call.wakeFlush, stopper := .joining }
  | joined : s.stopper = .joining → Move s .stopStep { s with stopper := .joined }

theorem callStep_move {k : Nat} (h : callStep k s = some s') : Move s (.call k) s' := by
  unfold callStep at h
  have hset {c : Call} (hk : s.calls[k]? = some c) (c' : Call) (hwent : Went s c c') (he : setCall k c' s = s') :
      Move s (.call k) s' := by
    subst he
    exact .went hk hwent
  match hk : s.calls[k]? with
  | none => simp [hk] at h
  | some (.blocked item) => simp [hk] at h
  | some (.flushBlocked item) => simp [hk] at h
  | some (.returned outcome) => simp [hk] at h
  | some (.logging event) =>
    simp only [hk, Option.some.injEq] at h
    split at h
    · exact hset hk _ .kept h
    · exact hset hk _ .quiet h
  | some .flushing =>
    simp only [hk, Option.some.injEq] at h
    split at h
    · rename_i hst
      exact hset hk _ (.late hst) h
    · exact hset hk _ .asked h
  | some (.numbering event flushOnly) =>
    simp only [hk, Option.some.injEq] at h
    subst h
    exact .numbered hk
  | some (.locking item) =>
    simp only [hk] at h
    split at h
    · rename_i hfree
      exact hset hk _ (.locked hfree) (Option.some.inj h)
    · cases h
  | some (.locked item) =>
    simp only [hk] at h
    split at h
    · rename_i hst
      exact hset hk _ (.refused hst) (Option.some.inj h)
    · rename_i hst
      split at h
      · exact hset hk _ .entered (Option.some.inj h)
      · rename_i hpolicy
        have hlog : item.flushOnly = false := by
          simp only [not_or, Bool.not_eq_true] at hpolicy
          exact hpolicy.2
        exact hset hk _ (.sized (by simpa using hst) hlog) (Option.some.inj h)
  | some (.sizing item) =>
    simp only [hk] at h
    split at h
    · rename_i hfull
      obtain rfl := Option.some.inj h
      exact .dropped hk hfull
    · rename_i hfull
      obtain rfl := Option.some.inj h
      exact .pushed hk (.inr ⟨rfl, by omega⟩)
  | some (.predicate item) =>
    simp only [hk, Option.some.injEq] at h
    split at h
    · rename_i hpred
      exact hset hk _ (.through (by simpa using hpred)) h
    · rename_i hpred
      simp only [Bool.or_eq_true, not_or, Bool.not_eq_true] at hpred
      exact hset hk _ (.failed hpred.1) h
  | some (.window item) => exact hset hk _ .blocked (by simpa [hk] using h)
  | some (.woken item) =>
    simp only [hk] at h
    split at h
    · rename_i hfree
      exact hset hk _ (.relocked hfree) (Option.some.inj h)
    · cases h
  | some (.through item) =>
    simp only [hk, Option.some.injEq] at h
    split at h
    · rename_i hst
      exact hset hk _ (.refusedLate hst) h
    · rename_i hst
      exact hset hk _ (.cleared (by simpa using hst)) h
  | some (.pushing item) =>
    simp only [hk, Option.some.injEq] at h
    subst h
    exact .pushed hk (.inl rfl)
  | some (.notifying item) =>
    simp only [hk, Option.some.injEq] at h
    subst h
    exact .notified hk
  | some (.flushLocking item) =>
    simp only [hk] at h
    split at h
    · rename_i hfree
      exact hset hk _ (.flushLocked hfree) (Option.some.inj h)
    · cases h
  | some (.flushPredicate item) =>
    simp only [hk, Option.some.injEq] at h
    split at h
    · rename_i hle
      exact hset hk _ (.flushed hle) h
    · rename_i hle
      exact hset hk _ (.flushFailed (by omega)) h
  | some (.flushWindow item) => exact hset hk _ .flushBlocked (by simpa [hk] using h)
  | some (.flushWoken item) =>
    simp only [hk] at h
    split at h
    · rename_i hfree
      exact hset hk _ (.flushRelocked hfree) (Option.some.inj h)
    · cases h
  | some .fallback =>
    simp only [hk] at h
    split at h
    · exact hset hk _ .copied (Option.some.inj h)
    · cases h
  | some (.flushingSinks []) => exact hset hk _ .fellBack (by simpa [hk] using h)
  | some (.flushingSinks (sink :: rest)) =>
    simp only [hk, Option.some.injEq] at h
    subst h
    exact .flushedSink hk

theorem workerStep_move (h : workerStep s = some s') : Move s .worker s' := by
  unfold workerStep at h
  have hgoto {w : Worker} (hw : s.worker = w) (w' : Worker) (hwent : WorkerWent s w w') (he : goto w' s = s') :
      Move s .worker s' := by
    subst he hw
    exact .workerWent hwent
  match hw : s.worker with
  | .blocked flushOn => simp [hw] at h
  | .exited => simp [hw] at h
  | .loading => exact hgoto hw _ .loaded (by simpa [hw] using h)
  | .locking flushOn =>
    simp only [hw] at h
    split at h
    · rename_i hfree
      exact hgoto hw _ (.locked hfree) (Option.some.inj h)
    · cases h
  | .predicate flushOn =>
    simp only [hw, Option.some.injEq] at h
    split at h
    · exact hgoto hw _ .through h
    · rename_i hpred
      simp only [Bool.or_eq_true, not_or, Bool.not_eq_true] at hpred
      exact hgoto hw _ (.failed hpred.1) h
  | .window flushOn => exact hgoto hw _ .blocked (by simpa [hw] using h)
  | .woken flushOn =>
    simp only [hw] at h
    split at h
    · rename_i hfree
      exact hgoto hw _ (.relocked hfree) (Option.some.inj h)
    · cases h
  | .through flushOn =>
    simp only [hw] at h
    split at h
    · rename_i hleave
      simp only [Bool.and_eq_true, List.isEmpty_iff] at hleave
      exact hgoto hw _ (.left hleave.1 hleave.2) (Option.some.inj h)
    · rename_i hstay
      obtain rfl := Option.some.inj h
      refine .swapped hw ?_
      cases hst : s.stopping
      · exact .inl rfl
      · exact .inr (by simpa [hst] using hstay)
  | .notifying batch items =>
    simp only [hw, Option.some.injEq] at h
    subst h
    exact .workerNotified hw
  | .items batch [] => exact hgoto hw _ .again (by simpa [hw] using h)
  | .items batch (item :: rest) => exact hgoto hw _ .begun (by simpa [hw] using h)
  | .calling batch item rest (o :: todo) =>
    simp only [hw, Option.some.injEq] at h
    subst h
    exact .called hw
  | .calling batch item rest [] =>
    simp only [hw, Option.some.injEq] at h
    subst h
    exact .stored hw
  | .notifyingFlush batch rest =>
    simp only [hw, Option.some.injEq] at h
    subst h
    exact .flushNotified hw
  | .exiting =>
    simp only [hw] at h
    split at h
    · exact hgoto hw _ .copied (Option.some.inj h)
    · cases h
  | .closing (sink :: rest) =>
    simp only [hw, Option.some.injEq] at h
    subst h
    exact .closed hw
  | .closing [] => exact hgoto hw _ .exited (by simpa [hw] using h)

theorem step_move (h : step s a = some s') : Move s a s' := by
  cases a with
  | setLevel level | setFlushOn level =>
    obtain rfl := Option.some.inj h
    exact .set
  | setPatternStyle style =>
    simp only [step] at h
    split at h
    · obtain rfl := Option.some.inj h
      exact .set
    · cases h
  | addSink sink =>
    cases sink with
    | none =>
      obtain rfl := Option.some.inj h
      exact .set
    | some sink =>
      simp only [step, addSink] at h
      split at h
      · obtain rfl := Option.some.inj h
        exact .set
      · cases h
  | clearSinks =>
    simp only [step] at h
    split at h
    · obtain rfl := Option.some.inj h
      exact .set
    · cases h
  | log level message =>
    obtain rfl := Option.some.inj h
    exact .log
  | flush =>
    obtain rfl := Option.some.inj h
    exact .flush
  | call k => exact callStep_move h
  | callWake k =>
    simp only [step, callWake] at h
    split at h
    · rename_i hk
      obtain rfl := Option.some.inj h
      exact .went hk .woke
    · rename_i hk
      obtain rfl := Option.some.inj h
      exact .went hk .flushWoke
    · cases h
  | worker => exact workerStep_move h
  | workerWake =>
    simp only [step, workerWake] at h
    split at h
    · rename_i hw
      obtain rfl := Option.some.inj h
      exact .workerWent (hw ▸ .woke)
    · cases h
  | stop =>
    obtain rfl : stop s = s' := by simpa [step] using h
    unfold stop
    split
    · exact .set
    · rename_i hst
      exact .stopped (by simpa using hst)
  | stopStep =>
    simp only [step, stopStep] at h
    split at h
    · rename_i hst
      obtain rfl := Option.some.inj h
      exact .stopNotified hst
    · rename_i hst
      obtain rfl := Option.some.inj h
      exact .stopFlushNotified hst
    · rename_i hst
      split at h
      · obtain rfl := Option.some.inj h
        exact .joined hst
      · cases h
    · cases h
    · cases h

/-! ## The mutex -/

theorem holds_wake (c : Call) : c.wake.holds = c.holds := by cases c <;> rfl

theorem holds_wakeFlush (c : Call) : c.wakeFlush.holds = c.holds := by cases c <;> rfl

theorem worker_holds_wake (w : Worker) : w.wake.holds = w.holds := by cases w <;> rfl

theorem refuse_holds (item : QueueItem) : (refuse item).holds = false := by
  unfold refuse
  split <;> rfl

theorem afterPush_holds (item : QueueItem) : (afterPush item).holds = false := by
  unfold afterPush
  split <;> rfl

/-- How many calls hold the mutex. -/
def holders (calls : List Call) : Nat := (calls.map (·.holds.toNat)).sum

theorem holders_set {k : Nat} {c : Call} {l : List Call} (h : l[k]? = some c) (c' : Call) :
    holders (l.set k c') + c.holds.toNat = holders l + c'.holds.toNat :=
  sum_set_of _ h c'

theorem holders_map {f : Call → Call} (hf : ∀ c, (f c).holds = c.holds) (l : List Call) :
    holders (l.map f) = holders l := by
  simp [holders, Function.comp_def, hf]

theorem holders_zero {l : List Call} : holders l = 0 ↔ ∀ c ∈ l, c.holds = false := by
  simp [holders, List.sum_eq_zero_iff]

/-- One thread at a time. -/
def Exclusive (s : Logger) : Prop := holders s.calls + s.worker.holds.toNat ≤ 1

theorem free_holders (h : free s = true) : holders s.calls = 0 ∧ s.worker.holds = false := by
  simpa [free, holders_zero, and_comm] using h

theorem Exclusive.others (h : Exclusive s) {k : Nat} {c : Call} (hk : s.calls[k]? = some c) (hc : c.holds = true) :
    s.worker.holds = false ∧ ∀ d, d.holds = false → ∀ e ∈ s.calls.set k d, e.holds = false := by
  have hset (d : Call) := holders_set hk d
  simp only [hc, Bool.toNat_true] at hset
  unfold Exclusive at h
  refine ⟨?_, fun d hd => holders_zero.mp ?_⟩
  · have h1 := hset .flushing
    simp only [Call.holds, Bool.toNat_false] at h1
    cases hw : s.worker.holds
    · rfl
    · simp only [hw, Bool.toNat_true] at h
      omega
  · have h1 := hset d
    rw [hd, Bool.toNat_false] at h1
    omega

theorem Exclusive.worker (h : Exclusive s) (hw : s.worker.holds = true) : ∀ c ∈ s.calls, c.holds = false := by
  rw [Exclusive, hw, Bool.toNat_true] at h
  exact holders_zero.mp (by omega)

/-- Whoever takes the mutex finds it free. -/
theorem Went.holds {c c' : Call} (h : Went s c c') : c'.holds = true → c.holds = true ∨ free s = true := by
  cases h with
  | locked hfree | relocked hfree | flushLocked hfree | flushRelocked hfree => exact fun _ => .inr hfree
  | refused | refusedLate => exact fun hc => absurd hc (by simp [refuse_holds])
  | kept | quiet | late | asked | blocked | woke | flushed | flushBlocked | flushWoke | copied | fellBack =>
    exact fun hc => by cases hc
  | _ => exact fun _ => .inl rfl

theorem WorkerWent.holds {w w' : Worker} (h : WorkerWent s w w') : w'.holds = true → w.holds = true ∨ free s = true := by
  cases h with
  | locked hfree | relocked hfree => exact fun _ => .inr hfree
  | through | failed => exact fun _ => .inl rfl
  | _ => exact fun hw => by cases hw

theorem Exclusive.set (h : Exclusive s) {k : Nat} {c c' : Call} (hk : s.calls[k]? = some c)
    (hc : c'.holds = true → c.holds = true ∨ free s = true) (hcalls : s'.calls = s.calls.set k c')
    (hworker : s'.worker = s.worker) : Exclusive s' := by
  have hset := holders_set hk c'
  rw [Exclusive, hcalls, hworker]
  unfold Exclusive at h
  cases hc' : c'.holds
  · simp only [hc', Bool.toNat_false] at hset
    omega
  · simp only [hc', Bool.toNat_true] at hset
    rcases hc hc' with hold | hfree
    · simp only [hold, Bool.toNat_true] at hset
      omega
    · obtain ⟨hzero, hw⟩ := free_holders hfree
      rw [hw, Bool.toNat_false]
      omega

theorem Exclusive.released (h : Exclusive s) (hcalls : holders s'.calls = holders s.calls)
    (hworker : s'.worker.holds = true → s.worker.holds = true) : Exclusive s' := by
  rw [Exclusive, hcalls]
  unfold Exclusive at h
  cases hw' : s'.worker.holds
  · rw [Bool.toNat_false]
    omega
  · rwa [hworker hw'] at h

theorem Move.exclusive (hmove : Move s a s') (h : Exclusive s) : Exclusive s' := by
  cases hmove with
  | set | joined => exact h
  | log | flush => exact h.released (by simp [holders, Call.holds]) id
  | went hk hwent => exact h.set hk hwent.holds rfl rfl
  | numbered hk => exact h.set hk (by simp [Call.holds]) rfl rfl
  | pushed hk hc => exact h.set hk (by simp [Call.holds]) rfl rfl
  | dropped hk => exact h.set hk (by simp [Call.holds]) rfl rfl
  | @notified k item hk =>
    have hk' : (s.calls.map Call.wake)[k]? = some (.notifying item) := by simp [hk, Call.wake]
    have hset := holders_set hk' (afterPush item)
    rw [afterPush_holds, holders_map holds_wake] at hset
    refine h.released (by simpa [Call.holds] using hset) fun hw => ?_
    rwa [worker_holds_wake] at hw
  | flushedSink hk => exact h.set hk (by simp [Call.holds]) rfl rfl
  | workerWent hwent =>
    unfold Exclusive at h ⊢
    simp only
    cases hw : Worker.holds _
    · rw [Bool.toNat_false]
      omega
    · rcases hwent.holds hw with hold | hfree
      · rwa [hold] at h
      · rw [(free_holders hfree).1, Bool.toNat_true]
  | swapped => exact h.released rfl (by simp [Worker.holds])
  | workerNotified => exact h.released (holders_map holds_wake _) (by simp [Worker.holds])
  | called | stored | closed => exact h.released rfl (by simp [Worker.holds])
  | flushNotified => exact h.released (holders_map holds_wakeFlush _) (by simp [Worker.holds])
  | stopped => exact h
  | stopNotified => exact h.released (holders_map holds_wake _) fun hw => by rwa [worker_holds_wake] at hw
  | stopFlushNotified => exact h.released (holders_map holds_wakeFlush _) id

/-! ## The queue -/

/-- A call that is to push has room, unless the logger is stopping. -/
def Call.fits (s : Logger) : Call → Prop
  | .through _ => s.stopping = true ∨ s.queue.length < s.queueCapacity
  | .pushing _ => s.queue.length < s.queueCapacity
  | _ => True

structure Bounded (s : Logger) : Prop where
  queue : s.queue.length ≤ s.queueCapacity
  calls : ∀ c ∈ s.calls, c.fits s

theorem fits_of_not_holds {c : Call} (h : c.holds = false) : c.fits s := by
  cases c with
  | through | pushing => cases h
  | _ => trivial

theorem fits_wake {c : Call} (h : c.fits s) : c.wake.fits s := by
  cases c with
  | blocked => trivial
  | _ => exact h

theorem fits_wakeFlush {c : Call} (h : c.fits s) : c.wakeFlush.fits s := by
  cases c with
  | flushBlocked => trivial
  | _ => exact h

/-- The queue and the flag stay as they are. -/
theorem Call.fits.mono {c : Call} (h : c.fits s) (hqueue : s'.queue = s.queue) (hcap : s'.queueCapacity = s.queueCapacity)
    (hstop : s.stopping = true → s'.stopping = true) : c.fits s' := by
  cases c with
  | through item => exact h.imp hstop fun hlt => by rwa [hqueue, hcap]
  | pushing item =>
    rw [Call.fits, hqueue, hcap]
    exact h
  | _ => trivial

theorem Bounded.mono (h : Bounded s) (hqueue : s'.queue = s.queue) (hcap : s'.queueCapacity = s.queueCapacity)
    (hstop : s.stopping = true → s'.stopping = true) (hcalls : ∀ c ∈ s'.calls, c.fits s) : Bounded s' := by
  refine ⟨?_, fun c hc => (hcalls c hc).mono hqueue hcap hstop⟩
  rw [hqueue, hcap]
  exact h.queue

theorem Went.fits {c c' : Call} (hwent : Went s c c') (h : c.fits s) : c'.fits s := by
  cases hwent with
  | through hpred => exact hpred
  | cleared hst =>
    rcases h with hstop | hlt
    · rw [hst] at hstop
      cases hstop
    · exact hlt
  | refused | refusedLate => exact fits_of_not_holds (refuse_holds _)
  | _ => trivial

theorem Move.bounded (hmove : Move s a s') (hex : Exclusive s) (h : Bounded s) : Bounded s' := by
  cases hmove with
  | set | workerWent | called | stored | closed | joined => exact h.mono rfl rfl id h.calls
  | log | flush => exact h.mono rfl rfl id (forall_snoc h.calls trivial)
  | went hk hwent => exact h.mono rfl rfl id (forall_set h.calls (hwent.fits (h.calls _ (List.mem_of_getElem? hk))))
  | numbered | dropped | flushedSink => exact h.mono rfl rfl id (forall_set h.calls trivial)
  | @pushed k c item hk hc =>
    have hroom : s.queue.length < s.queueCapacity := by
      rcases hc with rfl | ⟨rfl, hlt⟩
      · exact h.calls _ (List.mem_of_getElem? hk)
      · exact hlt
    have hholds : c.holds = true := by rcases hc with rfl | ⟨rfl, -⟩ <;> rfl
    exact ⟨by simpa using hroom, fun d hd => fits_of_not_holds ((hex.others hk hholds).2 _ rfl d hd)⟩
  | notified =>
    refine h.mono rfl rfl id (forall_set (List.forall_mem_map.mpr fun c hc => fits_wake (h.calls c hc)) ?_)
    exact fits_of_not_holds (afterPush_holds _)
  | swapped hw =>
    exact ⟨Nat.zero_le _, fun d hd => fits_of_not_holds (hex.worker (by rw [hw]; rfl) d hd)⟩
  | workerNotified | stopNotified =>
    exact h.mono rfl rfl id (List.forall_mem_map.mpr fun c hc => fits_wake (h.calls c hc))
  | flushNotified | stopFlushNotified =>
    exact h.mono rfl rfl id (List.forall_mem_map.mpr fun c hc => fits_wakeFlush (h.calls c hc))
  | stopped => exact h.mono rfl rfl (fun _ => rfl) h.calls

/-! ## The end of the worker -/

def Worker.done : Worker → Bool
  | .exiting | .closing _ | .exited => true
  | _ => false

/-- A call that goes on to push whatever the flag becomes. -/
def Call.committed : Call → Bool
  | .sizing _ | .pushing _ => true
  | _ => false

theorem committed_of_not_holds {c : Call} (h : c.holds = false) : c.committed = false := by
  cases c with
  | sizing | pushing => cases h
  | _ => rfl

theorem committed_wake (c : Call) : c.wake.committed = c.committed := by cases c <;> rfl

theorem committed_wakeFlush (c : Call) : c.wakeFlush.committed = c.committed := by cases c <;> rfl

/-- The worker leaves an empty queue behind, and nobody is going to push. -/
structure Closed (s : Logger) : Prop where
  stopping : s.stopping = true
  queue : s.queue = []
  calls : ∀ c ∈ s.calls, c.committed = false

theorem Closed.mono (h : Closed s) (hqueue : s'.queue = s.queue) (hstop : s'.stopping = s.stopping)
    (hcalls : ∀ c ∈ s'.calls, c.committed = false) : Closed s' :=
  ⟨hstop.trans h.stopping, hqueue.trans h.queue, hcalls⟩

theorem Closed.wake (h : Closed s) : ∀ c ∈ s.calls.map Call.wake, c.committed = false :=
  List.forall_mem_map.mpr fun c hc => (committed_wake c).trans (h.calls c hc)

theorem Closed.wakeFlush (h : Closed s) : ∀ c ∈ s.calls.map Call.wakeFlush, c.committed = false :=
  List.forall_mem_map.mpr fun c hc => (committed_wakeFlush c).trans (h.calls c hc)

theorem done_wake {w : Worker} (h : w.wake.done = true) : w.done = true := by
  cases w with
  | blocked => cases h
  | _ => exact h

theorem Went.committed {c c' : Call} (hwent : Went s c c') (hst : s.stopping = true) : c'.committed = false := by
  cases hwent with
  | sized hno => simp [hst] at hno
  | cleared hno => simp [hst] at hno
  | refused | refusedLate => exact committed_of_not_holds (refuse_holds _)
  | _ => rfl

theorem Move.closed_of (hmove : Move s a s') (hex : Exclusive s) (h : s.worker.done = true → Closed s)
    (hdone : s'.worker.done = true) : Closed s' := by
  cases hmove with
  | set | joined => exact (h hdone).mono rfl rfl (h hdone).calls
  | log | flush => exact (h hdone).mono rfl rfl (forall_snoc (h hdone).calls rfl)
  | went hk hwent => exact (h hdone).mono rfl rfl (forall_set (h hdone).calls (hwent.committed (h hdone).stopping))
  | numbered | dropped | flushedSink => exact (h hdone).mono rfl rfl (forall_set (h hdone).calls rfl)
  | pushed hk hc =>
    have hno := (h hdone).calls _ (List.mem_of_getElem? hk)
    rcases hc with rfl | ⟨rfl, -⟩ <;> cases hno
  | notified hk =>
    have hclosed := h (done_wake hdone)
    exact hclosed.mono rfl rfl (forall_set hclosed.wake (committed_of_not_holds (afterPush_holds _)))
  | workerWent hwent =>
    cases hw : s.worker.done
    · generalize hworker : s.worker = v at hwent hw
      cases hwent with
      | left hst hq =>
        exact ⟨hst, hq, fun c hc => committed_of_not_holds (hex.worker (by rw [hworker]; rfl) c hc)⟩
      | copied | exited => cases hw
      | _ => cases hdone
    · exact (h hw).mono rfl rfl (h hw).calls
  | swapped | workerNotified | called | stored | flushNotified => cases hdone
  | closed hw =>
    have hclosed := h (by rw [hw]; rfl)
    exact hclosed.mono rfl rfl hclosed.calls
  | stopped => exact ⟨rfl, (h hdone).queue, (h hdone).calls⟩
  | stopNotified =>
    have hclosed := h (done_wake hdone)
    exact hclosed.mono rfl rfl hclosed.wake
  | stopFlushNotified => exact (h hdone).mono rfl rfl (h hdone).wakeFlush

/-! ## The items -/

/-- The items in the worker's hands. -/
def Worker.pending : Worker → List QueueItem
  | .notifying _ rest | .items _ rest => rest
  | .calling _ item rest _ => item :: rest
  | .notifyingFlush _ rest => rest
  | _ => []

@[simp] theorem pending_wake (w : Worker) : w.wake.pending = w.pending := by cases w <;> rfl

/-- An item that was pushed is processed, in the worker's hands, or in the queue. -/
def InOrder (s : Logger) : Prop := s.accepted = s.processed.map (·.1) ++ s.worker.pending ++ s.queue

theorem WorkerWent.pending {w w' : Worker} (h : WorkerWent s w w') : w'.pending = w.pending := by cases h <;> rfl

theorem Move.inOrder (hmove : Move s a s') (h : InOrder s) : InOrder s' := by
  unfold InOrder at h ⊢
  cases hmove with
  | pushed => simp only [h, List.append_assoc]
  | notified | stopNotified => simpa using h
  | workerWent hwent => simpa [hwent.pending] using h
  | swapped hw => simpa [hw, Worker.pending] using h
  | workerNotified hw | called hw | stored hw | flushNotified hw | closed hw => simpa [hw, Worker.pending] using h
  | _ => exact h

/-- The item of a call that is yet to push it. -/
def Call.carried? : Call → Option QueueItem
  | .locking item | .locked item | .sizing item | .predicate item | .window item | .blocked item | .woken item
  | .through item | .pushing item => some item
  | _ => none

/-- The item of a call that has pushed it. -/
def Call.accepted? : Call → Option QueueItem
  | .notifying item | .flushLocking item | .flushPredicate item | .flushWindow item | .flushBlocked item
  | .flushWoken item | .returned (.accepted item) | .returned (.flushed item) => some item
  | _ => none

/-- The item of a call that found the queue full. -/
def Call.dropped? : Call → Option QueueItem
  | .returned (.dropped item) => some item
  | _ => none

theorem carried_wake (c : Call) : c.wake.carried? = c.carried? := by cases c <;> rfl

theorem carried_wakeFlush (c : Call) : c.wakeFlush.carried? = c.carried? := by cases c <;> rfl

theorem accepted_wake (c : Call) : c.wake.accepted? = c.accepted? := by cases c <;> rfl

theorem accepted_wakeFlush (c : Call) : c.wakeFlush.accepted? = c.accepted? := by cases c <;> rfl

theorem dropped_wake (c : Call) : c.wake.dropped? = c.dropped? := by cases c <;> rfl

theorem dropped_wakeFlush (c : Call) : c.wakeFlush.dropped? = c.dropped? := by cases c <;> rfl

theorem refuse_eq (item : QueueItem) : refuse item = .fallback ∨ refuse item = .returned (.rejected item) := by
  unfold refuse
  split
  · exact .inl rfl
  · exact .inr rfl

theorem Went.carried {c c' : Call} (h : Went s c c') : c'.carried? = c.carried? ∨ c'.carried? = none := by
  cases h with
  | @refused item | @refusedLate item => rcases refuse_eq item with heq | heq <;> exact .inr (by rw [heq]; rfl)
  | _ => exact .inl rfl

theorem Went.accepted {c c' : Call} (h : Went s c c') : c'.accepted? = c.accepted? := by
  cases h with
  | @refused item | @refusedLate item => rcases refuse_eq item with heq | heq <;> rw [heq] <;> rfl
  | _ => rfl

theorem Went.dropped {c c' : Call} (h : Went s c c') : c'.dropped? = c.dropped? := by
  cases h with
  | @refused item | @refusedLate item => rcases refuse_eq item with heq | heq <;> rw [heq] <;> rfl
  | _ => rfl

theorem afterPush_spec (item : QueueItem) :
    (afterPush item).carried? = none ∧ (afterPush item).accepted? = some item ∧ (afterPush item).dropped? = none := by
  unfold afterPush
  split <;> exact ⟨rfl, rfl, rfl⟩

/-- `enqueueItem` returns true for pushed items only. -/
def Returned (s : Logger) : Prop := ∀ c ∈ s.calls, ∀ item, c.accepted? = some item → item ∈ s.accepted

theorem Move.accepted_grows (hmove : Move s a s') : s.accepted <+: s'.accepted := by
  cases hmove with
  | pushed => exact List.prefix_append _ _
  | _ => exact List.prefix_rfl

theorem Move.returned (hmove : Move s a s') (h : Returned s) : Returned s' := by
  have hnone {c : Call} (hc : c.accepted? = none) (item : QueueItem) (he : c.accepted? = some item) :
      item ∈ s.accepted := by
    rw [hc] at he
    cases he
  cases hmove with
  | log | flush => exact forall_snoc h (hnone rfl)
  | went hk hwent =>
    refine forall_set h fun item hitem => h _ (List.mem_of_getElem? hk) item ?_
    rwa [hwent.accepted] at hitem
  | numbered | dropped | flushedSink => exact forall_set h (hnone rfl)
  | pushed =>
    refine forall_set (fun c hc item hitem => List.mem_append_left _ (h c hc item hitem)) fun item hitem => ?_
    cases hitem
    exact List.mem_append_right _ (List.mem_singleton_self _)
  | @notified k item hk =>
    refine forall_set (List.forall_mem_map.mpr fun c hc => ?_) fun item' hitem => ?_
    · rw [accepted_wake]
      exact h c hc
    · rw [(afterPush_spec item).2.1] at hitem
      cases hitem
      exact h _ (List.mem_of_getElem? hk) item rfl
  | workerNotified | stopNotified =>
    refine List.forall_mem_map.mpr fun c hc => ?_
    rw [accepted_wake]
    exact h c hc
  | flushNotified | stopFlushNotified =>
    refine List.forall_mem_map.mpr fun c hc => ?_
    rw [accepted_wakeFlush]
    exact h c hc
  | _ => exact h

/-- Every dropped item is counted. -/
def Counted (s : Logger) : Prop := s.droppedCount = (s.calls.filterMap Call.dropped?).length

theorem filterMap_map_of {g : Call → Option QueueItem} {f : Call → Call} (hf : ∀ c, g (f c) = g c) (l : List Call) :
    (l.map f).filterMap g = l.filterMap g := by
  rw [List.filterMap_map]
  exact congrArg (List.filterMap · l) (funext hf)

theorem Counted.mono (h : Counted s) (hcount : s'.droppedCount = s.droppedCount)
    (hcalls : s'.calls.filterMap Call.dropped? = s.calls.filterMap Call.dropped?) : Counted s' := by
  rw [Counted, hcount, hcalls]
  exact h

theorem Move.counted (hmove : Move s a s') (h : Counted s) : Counted s' := by
  cases hmove with
  | log | flush => exact h.mono rfl (by simp [Call.dropped?, List.filterMap_append])
  | went hk hwent => exact h.mono rfl (filterMap_set_of hk hwent.dropped)
  | numbered hk | flushedSink hk => exact h.mono rfl (filterMap_set_of hk rfl)
  | pushed hk hc => exact h.mono rfl (filterMap_set_of hk (by rcases hc with rfl | ⟨rfl, -⟩ <;> rfl))
  | @dropped k item hk _ =>
    have hlen := (filterMap_set_perm Call.dropped? hk (.returned (.dropped item))).length_eq
    simp only [Call.dropped?, List.length_append, Option.toList_none, Option.toList_some, List.length_nil,
      List.length_cons] at hlen
    unfold Counted at h ⊢
    simp only
    omega
  | @notified k item hk =>
    have hk' : (s.calls.map Call.wake)[k]? = some (.notifying item) := by simp [hk, Call.wake]
    exact h.mono rfl ((filterMap_set_of hk' (afterPush_spec item).2.2).trans (filterMap_map_of dropped_wake _))
  | workerNotified | stopNotified => exact h.mono rfl (filterMap_map_of dropped_wake _)
  | flushNotified | stopFlushNotified => exact h.mono rfl (filterMap_map_of dropped_wakeFlush _)
  | _ => exact h

/-- The item of a call that may find the queue full, or did. -/
def Call.discards? : Call → Option QueueItem
  | .sizing item | .returned (.dropped item) => some item
  | _ => none

theorem discards_wake (c : Call) : c.wake.discards? = c.discards? := by cases c <;> rfl

theorem discards_wakeFlush (c : Call) : c.wakeFlush.discards? = c.discards? := by cases c <;> rfl

/-- Only records are discarded. -/
def DiscardsLogs (s : Logger) : Prop := ∀ c ∈ s.calls, ∀ item, c.discards? = some item → item.flushOnly = false

theorem Went.discards {c c' : Call} (hwent : Went s c c') {item : QueueItem} (h : c'.discards? = some item) :
    item.flushOnly = false := by
  cases hwent with
  | sized _ hlog =>
    cases h
    exact hlog
  | @refused other | @refusedLate other => rcases refuse_eq other with heq | heq <;> rw [heq] at h <;> cases h
  | _ => cases h

theorem Move.discardsLogs (hmove : Move s a s') (h : DiscardsLogs s) : DiscardsLogs s' := by
  cases hmove with
  | log | flush => exact forall_snoc h fun item hitem => by cases hitem
  | went _ hwent => exact forall_set h fun item hitem => hwent.discards hitem
  | numbered | pushed | flushedSink => exact forall_set h fun item hitem => by cases hitem
  | dropped hk => exact forall_set h fun item hitem => h _ (List.mem_of_getElem? hk) item hitem
  | notified =>
    refine forall_set (List.forall_mem_map.mpr fun c hc item hitem => ?_) fun item hitem => ?_
    · exact h c hc item (discards_wake c ▸ hitem)
    · unfold afterPush at hitem
      split at hitem <;> cases hitem
  | workerNotified | stopNotified =>
    exact List.forall_mem_map.mpr fun c hc item hitem => h c hc item (discards_wake c ▸ hitem)
  | flushNotified | stopFlushNotified =>
    exact List.forall_mem_map.mpr fun c hc item hitem => h c hc item (discards_wakeFlush c ▸ hitem)
  | _ => exact h

theorem DiscardsLogs.dropped (h : DiscardsLogs s) {item : QueueItem} (hitem : item ∈ s.calls.filterMap Call.dropped?) :
    item.flushOnly = false := by
  obtain ⟨c, hc, hdropped⟩ := List.mem_filterMap.mp hitem
  refine h c hc item ?_
  cases c with
  | returned outcome =>
    cases outcome with
    | dropped => exact hdropped
    | _ => cases hdropped
  | _ => cases hdropped

/-! ## Sequence numbers -/

/-- How many of the items have the number. -/
def withNumber (l : List QueueItem) (n : Nat) : Nat := l.countP (·.sequence = n)

@[simp] theorem withNumber_nil (n : Nat) : withNumber [] n = 0 := rfl

theorem withNumber_cons (item : QueueItem) (l : List QueueItem) (n : Nat) :
    withNumber (item :: l) n = withNumber l n + if item.sequence = n then 1 else 0 := by
  simp [withNumber, List.countP_cons]

theorem withNumber_append (l r : List QueueItem) (n : Nat) : withNumber (l ++ r) n = withNumber l n + withNumber r n :=
  List.countP_append

/-- Every number is that of one item at most, on its way into the queue or pushed; and it has been taken. -/
def Numbered (s : Logger) : Prop := ∀ n,
  withNumber (s.calls.filterMap Call.carried?) n + withNumber s.accepted n ≤ if 0 < n ∧ n ≤ s.nextSequence then 1 else 0

theorem withNumber_set {k : Nat} {c : Call} (hk : s.calls[k]? = some c) (c' : Call) (n : Nat) :
    withNumber c.carried?.toList n + withNumber ((s.calls.set k c').filterMap Call.carried?) n =
      withNumber c'.carried?.toList n + withNumber (s.calls.filterMap Call.carried?) n := by
  rw [← withNumber_append, ← withNumber_append]
  exact (filterMap_set_perm Call.carried? hk c').countP_eq _

theorem Numbered.mono (h : Numbered s) (hnext : s'.nextSequence = s.nextSequence) (haccepted : s'.accepted = s.accepted)
    (hcalls : ∀ n, withNumber (s'.calls.filterMap Call.carried?) n ≤ withNumber (s.calls.filterMap Call.carried?) n) :
    Numbered s' := by
  intro n
  have hn := h n
  have hle := hcalls n
  rw [hnext, haccepted]
  omega

theorem Move.numbered_of (hmove : Move s a s') (h : Numbered s) : Numbered s' := by
  have hsame {l : List Call} (heq : l.filterMap Call.carried? = s.calls.filterMap Call.carried?) (n : Nat) :
      withNumber (l.filterMap Call.carried?) n ≤ withNumber (s.calls.filterMap Call.carried?) n := by
    rw [heq]
  have hgone {k : Nat} {c c' : Call} (hk : s.calls[k]? = some c) (hc : c'.carried? = none) (n : Nat) :
      withNumber ((s.calls.set k c').filterMap Call.carried?) n ≤
        withNumber (s.calls.filterMap Call.carried?) n := by
    have hset := withNumber_set hk c' n
    rw [hc, Option.toList_none, withNumber_nil] at hset
    omega
  cases hmove with
  | log | flush => exact h.mono rfl rfl (hsame (by simp [Call.carried?, List.filterMap_append]))
  | went hk hwent =>
    rcases hwent.carried with heq | heq
    · exact h.mono rfl rfl (hsame (filterMap_set_of hk heq))
    · exact h.mono rfl rfl (hgone hk heq)
  | @numbered k event flushOnly hk =>
    intro n
    have hset := withNumber_set hk (.locking ⟨event, s.nextSequence + 1, flushOnly⟩) n
    have hn := h n
    simp only [Call.carried?, Option.toList_none, Option.toList_some, withNumber_cons,
      withNumber_nil] at hset
    simp only
    by_cases heq : s.nextSequence + 1 = n
    · subst heq
      simp only [if_true] at hset
      rw [if_neg (by omega)] at hn
      rw [if_pos (by omega)]
      omega
    · simp only [heq, if_false] at hset
      split at hn
      · rw [if_pos (by omega)]
        omega
      · omega
  | @pushed k c item hk hc =>
    intro n
    have hset := withNumber_set hk (.notifying item) n
    have hcarried : c.carried? = some item := by rcases hc with rfl | ⟨rfl, -⟩ <;> rfl
    have hn := h n
    rw [hcarried, Option.toList_some] at hset
    simp only [Call.carried?, Option.toList_none, withNumber_nil] at hset
    simp only [withNumber_append]
    omega
  | dropped hk => exact h.mono rfl rfl (hgone hk rfl)
  | @notified k item hk =>
    have hk' : (s.calls.map Call.wake)[k]? = some (.notifying item) := by simp [hk, Call.wake]
    exact h.mono rfl rfl
      (hsame ((filterMap_set_of hk' (afterPush_spec item).1).trans (filterMap_map_of carried_wake _)))
  | flushedSink hk => exact h.mono rfl rfl (hsame (filterMap_set_of hk rfl))
  | workerNotified | stopNotified => exact h.mono rfl rfl (hsame (filterMap_map_of carried_wake _))
  | flushNotified | stopFlushNotified => exact h.mono rfl rfl (hsame (filterMap_map_of carried_wakeFlush _))
  | _ => exact h

theorem Numbered.nodup (h : Numbered s) : s.accepted.Nodup := by
  have hcount : (s.accepted.map (·.sequence)).Nodup := by
    refine List.nodup_iff_count_le_one.mpr fun n => ?_
    have hn := h n
    rw [List.count, List.countP_map]
    simp only [withNumber] at hn
    have heq : s.accepted.countP ((· == n) ∘ (·.sequence)) = s.accepted.countP (·.sequence = n) :=
      List.countP_congr fun item _ => by simp
    split at hn <;> omega
  exact hcount.of_map

/-! ## The sinks -/

def Output.isWrite : Output → Bool
  | .write .. => true
  | .flush _ => false

/-- What is written for an item. -/
def writes (x : QueueItem × Batch) : List Output := (outputs x.2 x.1).filter Output.isWrite

/-- The item the worker is at, and what is still to be written for it. -/
def Worker.current : Worker → List (QueueItem × Batch)
  | .calling batch item _ _ => [(item, batch)]
  | _ => []

def Worker.todo : Worker → List Output
  | .calling _ _ _ todo => todo.filter Output.isWrite
  | _ => []

/-- The records are written item by item. -/
def Written (s : Logger) : Prop := ∃ begun, s.output.filter Output.isWrite = s.processed.flatMap writes ++ begun ∧
  begun ++ s.worker.todo = s.worker.current.flatMap writes

theorem current_wake (w : Worker) : w.wake.current = w.current := by cases w <;> rfl

theorem todo_wake (w : Worker) : w.wake.todo = w.todo := by cases w <;> rfl

theorem Move.written (hmove : Move s a s') (h : Written s) : Written s' := by
  obtain ⟨begun, houtput, hbegun⟩ := h
  cases hmove with
  | flushedSink => exact ⟨begun, by simpa [Output.isWrite] using houtput, hbegun⟩
  | closed hw =>
    refine ⟨begun, by simpa [Output.isWrite] using houtput, ?_⟩
    simpa [hw, Worker.todo, Worker.current] using hbegun
  | notified | stopNotified => exact ⟨begun, houtput, by simpa only [current_wake, todo_wake] using hbegun⟩
  | workerWent hwent =>
    refine ⟨begun, houtput, ?_⟩
    generalize hw : s.worker = w at hwent hbegun
    cases hwent with
    | begun =>
      obtain rfl : begun = [] := by simpa [Worker.todo, Worker.current] using hbegun
      simp [Worker.todo, Worker.current, writes]
    | _ => simpa [Worker.todo, Worker.current] using hbegun
  | swapped hw | workerNotified hw | flushNotified hw =>
    exact ⟨begun, houtput, by simpa [hw, Worker.todo, Worker.current] using hbegun⟩
  | @called batch item rest o todo hw =>
    simp only [hw, Worker.todo, Worker.current] at hbegun
    refine ⟨begun ++ [o].filter Output.isWrite, by simp [houtput, List.filter_append], ?_⟩
    rw [Worker.todo, Worker.current, ← hbegun, List.append_assoc, ← List.filter_append, List.singleton_append]
  | stored hw =>
    simp only [hw, Worker.todo, Worker.current, List.filter_nil, List.append_nil] at hbegun
    exact ⟨[], by simp [houtput, hbegun], rfl⟩
  | _ => exact ⟨begun, houtput, hbegun⟩

theorem Written.mem (h : Written s) {item : QueueItem} {batch : Batch} (hx : (item, batch) ∈ s.processed)
    (hlog : item.flushOnly = false) {sink : Nat} (hsink : sink ∈ batch.sinks) :
    .write sink item.event batch.style ∈ s.output := by
  obtain ⟨begun, houtput, -⟩ := h
  have hw : .write sink item.event batch.style ∈ writes (item, batch) := by
    simp only [writes, outputs, hlog, Bool.false_eq_true, if_false]
    exact List.mem_filter.mpr ⟨List.mem_append_left _ (List.mem_map.mpr ⟨sink, hsink, rfl⟩), rfl⟩
  have hall : .write sink item.event batch.style ∈ s.output.filter Output.isWrite := by
    rw [houtput]
    exact List.mem_append_left _ (List.mem_flatMap.mpr ⟨_, hx, hw⟩)
  exact List.mem_of_mem_filter hall

/-! ## No accepted record is lost -/

structure Lossless (s : Logger) : Prop where
  /-- processed once, in the order of the queue -/
  order : s.accepted = s.processed.map (·.1) ++ s.worker.pending ++ s.queue
  once : s.accepted.Nodup
  returned : ∀ c ∈ s.calls, ∀ item, c.accepted? = some item → item ∈ s.accepted
  /-- before the worker leaves its loop -/
  done : s.worker.done = true → s.processed.map (·.1) = s.accepted
  /-- to be processed is to be written to every sink of the batch -/
  written : Written s
  bounded : s.queue.length ≤ s.queueCapacity
  /-- the records that found the queue full are counted -/
  dropped : s.droppedCount = (s.calls.filterMap Call.dropped?).length
  droppedLogs : ∀ item ∈ s.calls.filterMap Call.dropped?, item.flushOnly = false

variable {style : PatternStyle} {queueCapacity : Nat} {overflowPolicy : AsyncOverflowPolicy} {ok : Logger → Act → Prop}

theorem make_exclusive : Exclusive (make style queueCapacity overflowPolicy) := by
  simp [Exclusive, make, holders, Worker.holds]

theorem reach_exclusive (h : (machine style queueCapacity overflowPolicy).Reach ok s) : Exclusive s :=
  h.inv (I := Exclusive) make_exclusive fun _ _ _ hI _ hstep => (step_move hstep).exclusive hI

theorem reach_inOrder (h : (machine style queueCapacity overflowPolicy).Reach ok s) : InOrder s :=
  h.inv (I := InOrder) (by rfl) fun _ _ _ hI _ hstep => (step_move hstep).inOrder hI

theorem reach_written (h : (machine style queueCapacity overflowPolicy).Reach ok s) : Written s :=
  h.inv (I := Written) ⟨[], rfl, rfl⟩ fun _ _ _ hI _ hstep => (step_move hstep).written hI

theorem records_are_not_lost (h : (machine style queueCapacity overflowPolicy).Reach (fun _ _ => True) s) : Lossless s := by
  have horder := reach_inOrder h
  have hbounded : Bounded s := h.inv_of_reach (I := Bounded) ⟨Nat.zero_le _, by simp [machine, make]⟩
    fun _ _ _ hr hI _ hstep => (step_move hstep).bounded (reach_exclusive hr) hI
  have hclosed : s.worker.done = true → Closed s :=
    h.inv_of_reach (I := fun s => s.worker.done = true → Closed s) (fun hdone => by cases hdone)
      fun _ _ _ hr hI _ hstep => (step_move hstep).closed_of (reach_exclusive hr) hI
  have hreturned : Returned s := h.inv (I := Returned) (fun c hc => by simp [machine, make] at hc)
    fun _ _ _ hI _ hstep => (step_move hstep).returned hI
  have hcounted : Counted s := h.inv (I := Counted) (by rfl) fun _ _ _ hI _ hstep => (step_move hstep).counted hI
  have hnumbered : Numbered s := h.inv (I := Numbered) (fun n => by simp [machine, make])
    fun _ _ _ hI _ hstep => (step_move hstep).numbered_of hI
  have hlogs : DiscardsLogs s := h.inv (I := DiscardsLogs) (fun c hc => by simp [machine, make] at hc)
    fun _ _ _ hI _ hstep => (step_move hstep).discardsLogs hI
  refine ⟨horder, hnumbered.nodup, hreturned, fun hdone => ?_, reach_written h, hbounded.queue, hcounted,
    fun item hitem => hlogs.dropped hitem⟩
  have hpending : s.worker.pending = [] := by
    cases hw : s.worker with
    | exiting | closing | exited => rfl
    | _ => simp [hw, Worker.done] at hdone
  rw [horder, hpending, (hclosed hdone).queue, List.append_nil, List.append_nil]

/-- The second record finds the queue full; the third is pushed after the flag is set, which its producer loaded
    before. -/
theorem records_are_not_lost_stopped :
    ∃ s, (machine .source 1 .discardNewest).Reach (fun _ _ => True) s ∧ s.worker = .exited ∧ s.droppedCount = 1 ∧
      s.output.filter Output.isWrite = [.write 0 ⟨.warn, "a"⟩ .source, .write 0 ⟨.info, "c"⟩ .source] ∧ Lossless s := by
  obtain ⟨s, hr, hs⟩ := Machine.Reach.of_run (machine .source 1 .discardNewest) (fun _ _ => True)
    (fun s => s.worker == .exited && s.droppedCount == 1 &&
      s.output.filter Output.isWrite == [.write 0 ⟨.warn, "a"⟩ .source, .write 0 ⟨.info, "c"⟩ .source])
    ([Act.log .warn "a", .log .warn "b", .log .info "c", .call 0, .call 0, .call 0, .call 0, .call 0, .call 1, .call 1,
      .call 1, .call 1, .call 1, .worker, .worker, .worker, .worker, .call 2, .call 2, .call 2, .call 2, .stop, .call 2] ++
      List.replicate 23 Act.worker)
    (by decide +kernel)
  simp only [Bool.and_eq_true, beq_iff_eq] at hs
  obtain ⟨⟨hworker, hdropped⟩, houtput⟩ := hs
  exact ⟨s, hr, hworker, hdropped, houtput, records_are_not_lost hr⟩

/-! ## Flushes -/

/-- An item is pushed behind items with lower numbers only. -/
def sequenced (s : Logger) : Act → Bool
  | .call k =>
    match s.calls[k]? with
    | some (.pushing item) => s.accepted.all (·.sequence < item.sequence)
    | some (.sizing item) => s.queueCapacity ≤ s.queue.length || s.accepted.all (·.sequence < item.sequence)
    | _ => true
  | _ => true

/-- The order of the queue is that of the numbers. -/
def Ordered (s : Logger) : Prop := s.accepted.Pairwise (·.sequence < ·.sequence)

theorem Move.ordered (hmove : Move s a s') (hok : sequenced s a = true) (h : Ordered s) : Ordered s' := by
  cases hmove with
  | @pushed k c item hk hc =>
    have hall : s.accepted.all (·.sequence < item.sequence) = true := by
      rcases hc with rfl | ⟨rfl, hroom⟩
      · simpa [sequenced, hk] using hok
      · have hfull : ¬ s.queueCapacity ≤ s.queue.length := by omega
        simpa [sequenced, hk, hfull] using hok
    refine List.pairwise_append.mpr ⟨h, List.pairwise_singleton _ _, fun x hx y hy => ?_⟩
    rw [List.mem_singleton.mp hy]
    simpa using List.all_eq_true.mp hall x hx
  | _ => exact h

/-- The counter is the number of the last item that was processed. -/
def Latest (s : Logger) : Prop := s.processedSequence = ((s.processed.map (·.1.sequence)).getLast?).getD 0

theorem Move.latest (hmove : Move s a s') (h : Latest s) : Latest s' := by
  cases hmove with
  | stored => simp [Latest]
  | _ => exact h

theorem Move.processed_grows (hmove : Move s a s') : s.processed <+: s'.processed := by
  cases hmove with
  | stored => exact List.prefix_append _ _
  | _ => exact List.prefix_rfl

theorem Numbered.pos (h : Numbered s) {item : QueueItem} (hitem : item ∈ s.accepted) : 0 < item.sequence := by
  have hn := h item.sequence
  have hpos : 0 < withNumber s.accepted item.sequence := List.countP_pos_iff.mpr ⟨item, hitem, by simp⟩
  split at hn
  · rename_i hle
    exact hle.1
  · omega

/-- What holds in a run whose items are pushed in the order of their numbers. -/
structure Sequenced (s : Logger) : Prop where
  order : InOrder s
  ordered : Ordered s
  latest : Latest s
  numbered : Numbered s

/-- A flush item that was processed is told to be. -/
theorem Sequenced.told (h : Sequenced s) {x : QueueItem × Batch} (hx : x ∈ s.processed) :
    x.1.sequence ≤ s.processedSequence := by
  have hpairs : (s.processed.map (·.1.sequence)).Pairwise (· < ·) := by
    have hp := h.ordered
    rw [Ordered, h.order, List.append_assoc] at hp
    have hleft := (List.pairwise_append.mp hp).1
    rw [List.pairwise_map] at hleft ⊢
    exact hleft
  have hlatest := h.latest
  obtain ⟨before, y, hy⟩ := (List.eq_nil_or_concat' (s.processed.map (·.1.sequence))).resolve_left
    (by simpa using List.ne_nil_of_mem hx)
  rw [Latest, hy] at hlatest
  rw [hy] at hpairs
  have hmem : x.1.sequence ∈ before ++ [y] := hy ▸ List.mem_map_of_mem (f := fun x => x.1.sequence) hx
  simp only [List.getLast?_append, List.getLast?_singleton, Option.some_or, Option.getD_some] at hlatest
  rw [hlatest]
  rcases List.mem_append.mp hmem with hmem | hmem
  · exact ((List.pairwise_append.mp hpairs).2.2 _ hmem _ (List.mem_singleton_self _)).le
  · exact (List.mem_singleton.mp hmem).le

/-- When a number is reached, everything pushed before its item is processed. -/
theorem Sequenced.reached (h : Sequenced s) {n : Nat} {item : QueueItem} (hitem : item ∈ s.accepted.drop n)
    (hle : item.sequence ≤ s.processedSequence) : n ≤ s.processed.length := by
  by_contra hlt
  have hsplit : s.accepted = s.processed.map (·.1) ++ (s.worker.pending ++ s.queue) := by rw [h.order, List.append_assoc]
  have hlater : item ∈ s.worker.pending ++ s.queue := by
    rw [hsplit, List.drop_append, List.drop_eq_nil_of_le (by simp; omega), List.nil_append] at hitem
    exact List.mem_of_mem_drop hitem
  have hbefore : ∀ y ∈ s.processed.map (·.1), y.sequence < item.sequence := fun y hy => by
    have hp := h.ordered
    rw [Ordered, hsplit] at hp
    exact (List.pairwise_append.mp hp).2.2 y hy item hlater
  have hpos : 0 < item.sequence := h.numbered.pos (List.mem_of_mem_drop hitem)
  have hlatest := h.latest
  unfold Latest at hlatest
  cases hlast : (s.processed.map (·.1.sequence)).getLast? with
  | none =>
    rw [hlast, Option.getD_none] at hlatest
    omega
  | some m =>
    rw [hlast, Option.getD_some] at hlatest
    obtain ⟨x, hx, rfl⟩ := List.mem_map.mp (List.mem_of_getLast? hlast)
    have hxlt := hbefore x.1 (List.mem_map_of_mem hx)
    omega

theorem Move.sequenced (hmove : Move s a s') (hok : AsyncLogger.sequenced s a = true) (h : Sequenced s) : Sequenced s' :=
  ⟨hmove.inOrder h.order, hmove.ordered hok h.ordered, hmove.latest h.latest, hmove.numbered_of h.numbered⟩

theorem reach_sequenced
    (h : (machine style queueCapacity overflowPolicy).Reach (fun s a => sequenced s a = true) s) : Sequenced s :=
  h.inv (I := Sequenced) ⟨by rfl, by simp [Ordered, machine, make], by rfl, fun n => by simp [machine, make]⟩
    fun _ _ _ hI hok hstep => (step_move hstep).sequenced hok hI

/-- A call that began when `n` items had been pushed: its own item is behind them, and when it is told that this is
    processed, so are they. -/
structure Call.After (n : Nat) (s : Logger) (c : Call) : Prop where
  behind : ∀ item, c.accepted? = some item → item ∈ s.accepted.drop n
  told : ∀ item, c = .returned (.flushed item) → n ≤ s.processed.length

theorem Call.After.mono {n : Nat} {c c' : Call} (h : c.After n s) (hmove : Move s a s') (hn : n ≤ s.accepted.length)
    (haccepted : c'.accepted? = c.accepted?) (htold : ∀ item, c' = .returned (.flushed item) → n ≤ s.processed.length) :
    c'.After n s' := by
  refine ⟨fun item hitem => ?_, fun item hitem => (htold item hitem).trans hmove.processed_grows.length_le⟩
  obtain ⟨rest, hrest⟩ := hmove.accepted_grows
  rw [← hrest, List.drop_append_of_le_length hn]
  exact List.mem_append_left _ (h.behind item (haccepted ▸ hitem))

theorem Call.After.idle {n : Nat} {c : Call} (hc : c.accepted? = none) : c.After n s :=
  ⟨fun item hitem => by simp [hc] at hitem, fun item hitem => by subst hitem; cases hc⟩

theorem told_wake {n : Nat} {c : Call} (h : c.After n s) (item : QueueItem) (he : c.wake = .returned (.flushed item)) :
    n ≤ s.processed.length := by
  cases c with
  | blocked => cases he
  | _ => exact h.told item he

theorem told_wakeFlush {n : Nat} {c : Call} (h : c.After n s) (item : QueueItem)
    (he : c.wakeFlush = .returned (.flushed item)) : n ≤ s.processed.length := by
  cases c with
  | flushBlocked => cases he
  | _ => exact h.told item he

/-- The same of the calls from the `m`-th on. -/
structure Since (m n : Nat) (s : Logger) : Prop where
  accepted : n ≤ s.accepted.length
  calls : ∀ k c, m ≤ k → s.calls[k]? = some c → c.After n s

theorem after_set {m n k : Nat} {c c' : Call} {l : List Call} (h : ∀ u d, m ≤ u → l[u]? = some d → d.After n s)
    (hk : l[k]? = some c) (hc : m ≤ k → c'.After n s) (u : Nat) (d : Call) (hu : m ≤ u) (hd : (l.set k c')[u]? = some d) :
    d.After n s := by
  rw [getElem?_set_of hk] at hd
  split at hd
  · rename_i heq
    cases hd
    exact hc (heq ▸ hu)
  · exact h u d hu hd

theorem Went.told {c c' : Call} {item : QueueItem} (hwent : Went s c c') (h : c' = .returned (.flushed item)) :
    c = .flushPredicate item ∧ item.sequence ≤ s.processedSequence := by
  cases hwent with
  | flushed hle =>
    cases h
    exact ⟨rfl, hle⟩
  | @refused other | @refusedLate other => rcases refuse_eq other with heq | heq <;> rw [heq] at h <;> cases h
  | _ => cases h

theorem Move.since {m n : Nat} (hmove : Move s a s') (hs : Sequenced s) (h : Since m n s) : Since m n s' := by
  refine ⟨h.accepted.trans hmove.accepted_grows.length_le, ?_⟩
  have hkeep : ∀ u d, m ≤ u → s.calls[u]? = some d → d.After n s' := fun u d hu hd =>
    (h.calls u d hu hd).mono hmove h.accepted rfl (h.calls u d hu hd).told
  have hsnoc {c : Call} (hc : c.accepted? = none) (u : Nat) (d : Call) (hu : m ≤ u) (hd : (s.calls ++ [c])[u]? = some d) :
      d.After n s' := by
    rcases getElem?_snoc s.calls c u with heq | ⟨-, heq⟩
    · exact hkeep u d hu (heq ▸ hd)
    · rw [heq] at hd
      cases hd
      exact .idle hc
  have hwake (u : Nat) (d : Call) (hu : m ≤ u) (hd : (s.calls.map Call.wake)[u]? = some d) : d.After n s' := by
    rw [List.getElem?_map] at hd
    obtain ⟨c, hc, rfl⟩ := Option.map_eq_some_iff.mp hd
    exact (h.calls u c hu hc).mono hmove h.accepted (accepted_wake c) (told_wake (h.calls u c hu hc))
  have hwakeFlush (u : Nat) (d : Call) (hu : m ≤ u) (hd : (s.calls.map Call.wakeFlush)[u]? = some d) : d.After n s' := by
    rw [List.getElem?_map] at hd
    obtain ⟨c, hc, rfl⟩ := Option.map_eq_some_iff.mp hd
    exact (h.calls u c hu hc).mono hmove h.accepted (accepted_wakeFlush c) (told_wakeFlush (h.calls u c hu hc))
  have hmove' := hmove
  cases hmove with
  | log | flush => exact hsnoc rfl
  | @went a k c c' hk hwent =>
    refine after_set hkeep hk fun hle => ?_
    have hc := h.calls k c hle hk
    refine hc.mono hmove' h.accepted hwent.accepted fun item heq => ?_
    obtain ⟨rfl, hreached⟩ := hwent.told heq
    exact hs.reached (hc.behind item rfl) hreached
  | numbered hk | flushedSink hk => exact after_set hkeep hk fun _ => .idle rfl
  | dropped hk => exact after_set hkeep hk fun _ => .idle rfl
  | @pushed k c item hk hc =>
    refine after_set hkeep hk fun _ => ⟨fun item' hitem => ?_, fun item' hitem => by cases hitem⟩
    cases hitem
    rw [List.drop_append_of_le_length h.accepted]
    exact List.mem_append_right _ (List.mem_singleton_self _)
  | @notified k item hk =>
    refine after_set hwake (c := .notifying item) (by simp [hk, Call.wake]) fun hle => ?_
    refine (h.calls k _ hle hk).mono hmove' h.accepted (afterPush_spec item).2.1 fun other heq => ?_
    unfold afterPush at heq
    split at heq <;> cases heq
  | workerNotified | stopNotified => exact hwake
  | flushNotified | stopFlushNotified => exact hwakeFlush
  | _ => exact hkeep

/-- The end of a `flush` that does not wait. -/
def Call.fallsBack : Call → Bool
  | .fallback | .flushingSinks _ | .returned .fellBack => true
  | _ => false

theorem Went.fallsBack {c c' : Call} (h : Went s c c') (hc : c'.fallsBack = true) :
    c.fallsBack = true ∨ s.stopping = true := by
  cases h with
  | late hst | refused hst | refusedLate hst => exact .inr hst
  | copied | fellBack => exact .inl rfl
  | _ => cases hc

/-- It does not wait only if the logger is stopping. -/
def Waits (s : Logger) : Prop := ∀ c ∈ s.calls, c.fallsBack = true → s.stopping = true

theorem Move.waits (hmove : Move s a s') (h : Waits s) : Waits s' := by
  cases hmove with
  | log | flush => exact forall_snoc h fun hc => by cases hc
  | went hk hwent =>
    exact forall_set h fun hc => (hwent.fallsBack hc).elim (h _ (List.mem_of_getElem? hk)) id
  | numbered | dropped | pushed => exact forall_set h fun hc => by cases hc
  | flushedSink hk => exact forall_set h fun _ => h _ (List.mem_of_getElem? hk) rfl
  | @notified k item hk =>
    refine forall_set (List.forall_mem_map.mpr fun c hc hback => h c hc ?_) fun hback => ?_
    · cases c with
      | blocked => cases hback
      | _ => exact hback
    · unfold afterPush at hback
      split at hback <;> cases hback
  | workerNotified | stopNotified =>
    refine List.forall_mem_map.mpr fun c hc hback => h c hc ?_
    cases c with
    | blocked => cases hback
    | _ => exact hback
  | flushNotified | stopFlushNotified =>
    refine List.forall_mem_map.mpr fun c hc hback => h c hc ?_
    cases c with
    | flushBlocked => cases hback
    | _ => exact hback
  | stopped => exact fun _ _ _ => rfl
  | _ => exact h

/-- What a later state says of an earlier one. -/
structure Progress (s t : Logger) : Prop where
  /-- `m_processedSequence` has not come down -/
  monotone : s.processedSequence ≤ t.processedSequence
  /-- the predicate of every item that was processed is true -/
  told : ∀ x ∈ s.processed, x.1.sequence ≤ t.processedSequence
  /-- a flush called since, and told that its item is processed, has all records written that were accepted before -/
  flushed : ∀ k item, s.calls.length ≤ k → t.calls[k]? = some (.returned (.flushed item)) → ∀ record ∈ s.accepted,
    ∃ batch, (record, batch) ∈ t.processed ∧
      (record.flushOnly = false → ∀ sink ∈ batch.sinks, .write sink record.event batch.style ∈ t.output)
  /-- and a flush that is not told so found the logger stopping -/
  fellBack : .returned .fellBack ∈ t.calls → t.stopping = true

/-- Runs in which the items are pushed in the order of their numbers. -/
theorem flush_makes_progress {t : Logger}
    (h : (machine style queueCapacity overflowPolicy).Reach (fun s a => sequenced s a = true) s)
    (hl : (machine style queueCapacity overflowPolicy).Later (fun s a => sequenced s a = true) s t) : Progress s t := by
  have hs := reach_sequenced h
  have ht := reach_sequenced (hl.reach h)
  have hgrown : s.processed <+: t.processed := hl.inv (I := fun t => s.processed <+: t.processed)
    (fun _ _ _ hI _ hstep => hI.trans (step_move hstep).processed_grows) List.prefix_rfl
  have haccepted : s.accepted <+: t.accepted := hl.inv (I := fun t => s.accepted <+: t.accepted)
    (fun _ _ _ hI _ hstep => hI.trans (step_move hstep).accepted_grows) List.prefix_rfl
  have hwaits : Waits t := (hl.reach h).inv (I := Waits) (fun c hc => by simp [machine, make] at hc)
    fun _ _ _ hI _ hstep => (step_move hstep).waits hI
  have hsince : Sequenced t ∧ Since s.calls.length s.accepted.length t :=
    hl.inv (I := fun t => Sequenced t ∧ Since s.calls.length s.accepted.length t)
      (fun _ _ _ hI hok hstep => ⟨(step_move hstep).sequenced hok hI.1, (step_move hstep).since hI.1 hI.2⟩)
      ⟨hs, le_refl _, fun k c hle hk => by simp [List.getElem?_eq_none hle] at hk⟩
  refine ⟨?_, fun x hx => ht.told (hgrown.subset hx), fun k item hle hk record hrecord => ?_, fun hc => hwaits _ hc rfl⟩
  · have hlatest := hs.latest
    unfold Latest at hlatest
    cases hlast : (s.processed.map (·.1.sequence)).getLast? with
    | none =>
      rw [hlatest, hlast]
      exact Nat.zero_le _
    | some m =>
      obtain ⟨x, hx, rfl⟩ := List.mem_map.mp (List.mem_of_getLast? hlast)
      rw [hlatest, hlast]
      exact ht.told (hgrown.subset hx)
  · have hn : s.accepted.length ≤ t.processed.length := (hsince.2.calls k _ hle hk).told item rfl
    have hmem : record ∈ t.processed.map (·.1) := by
      have hproc : t.processed.map (·.1) <+: t.accepted := by
        rw [ht.order, List.append_assoc]
        exact List.prefix_append _ _
      exact (List.prefix_of_prefix_length_le haccepted hproc (by simpa using hn)).subset hrecord
    obtain ⟨⟨item', batch⟩, hx, rfl⟩ := List.mem_map.mp hmem
    exact ⟨batch, hx, fun hlog sink hsink => (reach_written (hl.reach h)).mem hx hlog hsink⟩

/-- A record was accepted, and the worker has not begun. -/
def oneRecord : Logger :=
  { make .source 2 .block with
    queue := [⟨⟨.info, "a"⟩, 1, false⟩], nextSequence := 1, calls := [.returned (.accepted ⟨⟨.info, "a"⟩, 1, false⟩)]
    accepted := [⟨⟨.info, "a"⟩, 1, false⟩] }

theorem flush_makes_progress_one :
    ∃ t, (machine .source 2 .block).Later (fun s a => sequenced s a = true) oneRecord t ∧
      t.calls[1]? = some (.returned (.flushed ⟨⟨.info, ""⟩, 2, true⟩)) ∧ Progress oneRecord t := by
  have hrun : (machine .source 2 .block).run (fun s a => sequenced s a = true) (make .source 2 .block)
      [.log .info "a", .call 0, .call 0, .call 0, .call 0, .call 0, .call 0, .call 0, .call 0] = some oneRecord := by
    decide +kernel
  have hlater : ((machine .source 2 .block).run (fun s a => sequenced s a = true) oneRecord
      ([Act.flush, .call 1, .call 1, .call 1, .call 1, .call 1, .call 1, .call 1, .call 1] ++
        List.replicate 12 Act.worker ++ [Act.call 1, .call 1])).any
      (fun t => t.calls[1]? == some (.returned (.flushed ⟨⟨.info, ""⟩, 2, true⟩))) = true := by
    decide +kernel
  obtain ⟨t, ht, hcall⟩ := (Option.any_eq_true _ _).mp hlater
  have hl := Machine.Later.run Machine.Later.refl ht
  exact ⟨t, hl, by simpa using hcall, flush_makes_progress (Machine.Reach.run Machine.Reach.init hrun) hl⟩

/-- A flush takes its number after a record and is pushed before it. It waits for good. -/
theorem a_flush_item_is_overtaken :
    ∃ s, (machine .source 2 .block).Reach (fun _ _ => True) s ∧
      s.calls[1]? = some (.flushBlocked ⟨⟨.info, ""⟩, 2, true⟩) ∧ s.worker = .blocked .error ∧ s.stopper = .uncalled ∧
      ¬ Progress s s := by
  obtain ⟨s, hr, hs⟩ := Machine.Reach.of_run (machine .source 2 .block) (fun _ _ => True)
    (fun s => s.calls[1]? == some (.flushBlocked ⟨⟨.info, ""⟩, 2, true⟩) && s.worker == .blocked .error &&
      s.stopper == .uncalled && s.processedSequence == 1 &&
      s.processed.any fun x => x.1 == ⟨⟨.info, ""⟩, 2, true⟩)
    ([Act.log .info "a", .call 0, .call 0, .flush, .call 1, .call 1, .call 1, .call 1, .call 1, .call 1, .call 1, .call 1,
      .call 0, .call 0, .call 0, .call 0, .call 0, .call 0] ++ List.replicate 13 Act.worker ++
      [Act.call 1, .call 1, .call 1] ++ List.replicate 5 Act.worker)
    (by decide +kernel)
  simp only [Bool.and_eq_true, beq_iff_eq, List.any_eq_true] at hs
  obtain ⟨⟨⟨⟨hcall, hworker⟩, hstopper⟩, hcounter⟩, x, hx, hitem⟩ := hs
  refine ⟨s, hr, hcall, hworker, hstopper, fun hp => ?_⟩
  have hle := hp.told x hx
  rw [hitem, hcounter] at hle
  exact absurd hle (by decide)

/-! ## Wake-ups -/

/-- In the wait on `m_cv`, with a false predicate. -/
def Call.waits : Call → Bool
  | .window _ | .blocked _ => true
  | _ => false

def Worker.waits : Worker → Bool
  | .window _ | .blocked _ => true
  | _ => false

def Call.inWindow : Call → Bool
  | .window _ => true
  | _ => false

def Worker.inWindow : Worker → Bool
  | .window _ => true
  | _ => false

/-- In the wait on `m_flushCv`, for a number. -/
def Call.awaits? : Call → Option Nat
  | .flushWindow item | .flushBlocked item => some item.sequence
  | _ => none

/-- A call that is about to block on `m_flushCv` although its item is processed by now. -/
def Call.late (s : Logger) : Call → Bool
  | .flushWindow item => item.sequence ≤ s.processedSequence
  | _ => false

/-- When `stop` notifies on `m_cv`, nobody is between a false predicate and the block; and neither is a flush whose
    item is processed, when the worker notifies on `m_flushCv`. -/
def unmissed (s : Logger) : Act → Bool
  | .stopStep => s.stopper ≠ .notifying || (!s.worker.inWindow && s.calls.all (!·.inWindow))
  | .worker =>
    match s.worker with
    | .notifyingFlush _ _ => s.calls.all (!·.late s)
    | _ => true
  | _ => true

/-- `stop` sets the flag first. -/
def Flagged (s : Logger) : Prop := s.stopper ≠ .uncalled → s.stopping = true

theorem Move.flagged (hmove : Move s a s') (h : Flagged s) : Flagged s' := by
  cases hmove with
  | stopped => exact fun _ => rfl
  | stopNotified hst => exact fun _ => h (by simp [hst])
  | stopFlushNotified hst => exact fun _ => h (by simp [hst])
  | joined hst => exact fun _ => h (by simp [hst])
  | _ => exact h

/-- `stop` has made its notification on `m_cv`. -/
def Stop.notified : Stop → Bool
  | .uncalled | .notifying => false
  | .notifyingFlush | .joining | .joined => true

/-- From then on nobody is in the wait on `m_cv`. -/
structure Woken (s : Logger) : Prop where
  worker : s.worker.waits = false
  calls : ∀ c ∈ s.calls, c.waits = false

theorem Went.waits {c c' : Call} (hwent : Went s c c') (hst : s.stopping = true) (h : c.waits = false) :
    c'.waits = false := by
  cases hwent with
  | failed hno => simp [hst] at hno
  | blocked => cases h
  | @refused item | @refusedLate item => rcases refuse_eq item with heq | heq <;> rw [heq] <;> rfl
  | _ => rfl

theorem WorkerWent.waits {w w' : Worker} (hwent : WorkerWent s w w') (hst : s.stopping = true) (h : w.waits = false) :
    w'.waits = false := by
  cases hwent with
  | failed hno => simp [hst] at hno
  | blocked => cases h
  | _ => rfl

theorem waits_wake {c : Call} (h : c.inWindow = false) : c.wake.waits = false := by
  cases c with
  | window => cases h
  | _ => rfl

theorem waits_wake_of {c : Call} (h : c.waits = false) : c.wake.waits = false := by
  cases c with
  | window | blocked => cases h
  | _ => rfl

theorem waits_wakeFlush {c : Call} (h : c.waits = false) : c.wakeFlush.waits = false := by
  cases c with
  | window | blocked => cases h
  | _ => rfl

theorem worker_waits_wake {w : Worker} (h : w.inWindow = false) : w.wake.waits = false := by
  cases w with
  | window => cases h
  | _ => rfl

theorem worker_waits_wake_of {w : Worker} (h : w.waits = false) : w.wake.waits = false := by
  cases w with
  | window | blocked => cases h
  | _ => rfl

theorem Move.woken (hmove : Move s a s') (hok : unmissed s a = true) (hflagged : Flagged s)
    (h : s.stopper.notified = true → Woken s) (hst : s'.stopper.notified = true) : Woken s' := by
  have hflag (hn : s.stopper.notified = true) : s.stopping = true := by
    apply hflagged
    intro heq
    rw [heq] at hn
    cases hn
  cases hmove with
  | set => exact ⟨(h hst).worker, (h hst).calls⟩
  | log | flush => exact ⟨(h hst).worker, forall_snoc (h hst).calls rfl⟩
  | went hk hwent =>
    exact ⟨(h hst).worker, forall_set (h hst).calls (hwent.waits (hflag hst) ((h hst).calls _ (List.mem_of_getElem? hk)))⟩
  | numbered | dropped | pushed | flushedSink => exact ⟨(h hst).worker, forall_set (h hst).calls rfl⟩
  | notified =>
    refine ⟨worker_waits_wake_of (h hst).worker,
      forall_set (List.forall_mem_map.mpr fun c hc => waits_wake_of ((h hst).calls c hc)) ?_⟩
    unfold afterPush
    split <;> rfl
  | workerWent hwent => exact ⟨hwent.waits (hflag hst) (h hst).worker, (h hst).calls⟩
  | swapped | called | stored | closed => exact ⟨rfl, (h hst).calls⟩
  | workerNotified => exact ⟨rfl, List.forall_mem_map.mpr fun c hc => waits_wake_of ((h hst).calls c hc)⟩
  | flushNotified => exact ⟨rfl, List.forall_mem_map.mpr fun c hc => waits_wakeFlush ((h hst).calls c hc)⟩
  | stopped => cases hst
  | stopNotified hnotifying =>
    simp only [unmissed, hnotifying, ne_eq, not_true_eq_false, decide_false, Bool.false_or, Bool.and_eq_true,
      Bool.not_eq_true', List.all_eq_true] at hok
    exact ⟨worker_waits_wake hok.1, List.forall_mem_map.mpr fun c hc => waits_wake (hok.2 c hc)⟩
  | stopFlushNotified hnotifying =>
    have hw := h (by rw [hnotifying]; rfl)
    exact ⟨hw.worker, List.forall_mem_map.mpr fun c hc => waits_wakeFlush (hw.calls c hc)⟩
  | joined hjoining =>
    have hw := h (by rw [hjoining]; rfl)
    exact ⟨hw.worker, hw.calls⟩

/-- A flush waits for an item that is processed only while the worker is about to notify. -/
def Told (s : Logger) : Prop := ∀ c ∈ s.calls, ∀ n, c.awaits? = some n → n ≤ s.processedSequence →
  ∃ batch rest, s.worker = .notifyingFlush batch rest

theorem awaits_wake (c : Call) : c.wake.awaits? = c.awaits? := by cases c <;> rfl

theorem Went.awaits {c c' : Call} (hwent : Went s c c') {n : Nat} (hn : c'.awaits? = some n) :
    c.awaits? = some n ∨ s.processedSequence < n := by
  cases hwent with
  | flushFailed hlt =>
    cases hn
    exact .inr hlt
  | flushBlocked => exact .inl hn
  | @refused item | @refusedLate item => rcases refuse_eq item with heq | heq <;> rw [heq] at hn <;> cases hn
  | _ => cases hn

theorem awaits_wakeFlush {c : Call} {n : Nat} (h : c.wakeFlush.awaits? = some n) :
    ∃ item, c = .flushWindow item ∧ item.sequence = n := by
  cases c with
  | flushWindow item => exact ⟨item, rfl, Option.some.inj h⟩
  | _ => cases h

/-- The counter stays, and the worker is not about to notify, or still is. -/
theorem Told.mono (h : Told s) (hprocessed : s'.processedSequence = s.processedSequence)
    (hworker : ∀ batch rest, s.worker = .notifyingFlush batch rest → s'.worker = .notifyingFlush batch rest)
    (hcalls : ∀ c ∈ s'.calls, ∀ n, c.awaits? = some n → (∃ d ∈ s.calls, d.awaits? = some n) ∨ s.processedSequence < n) :
    Told s' := by
  intro c hc n hn hle
  rw [hprocessed] at hle
  rcases hcalls c hc n hn with ⟨d, hd, hdn⟩ | hlt
  · obtain ⟨batch, rest, hw⟩ := h d hd n hdn hle
    exact ⟨batch, rest, hworker batch rest hw⟩
  · omega

theorem Move.told (hmove : Move s a s') (hok : unmissed s a = true) (h : Told s) : Told s' := by
  have hsame : ∀ c ∈ s.calls, ∀ n, c.awaits? = some n → (∃ d ∈ s.calls, d.awaits? = some n) ∨ s.processedSequence < n :=
    fun c hc n hn => .inl ⟨c, hc, hn⟩
  have hidle {c : Call} (hc : c.awaits? = none) (n : Nat) (hn : c.awaits? = some n) :
      (∃ d ∈ s.calls, d.awaits? = some n) ∨ s.processedSequence < n := by
    rw [hc] at hn
    cases hn
  have hwake : ∀ c ∈ s.calls.map Call.wake, ∀ n, c.awaits? = some n →
      (∃ d ∈ s.calls, d.awaits? = some n) ∨ s.processedSequence < n :=
    List.forall_mem_map.mpr fun c hc n hn => .inl ⟨c, hc, awaits_wake c ▸ hn⟩
  have hwakeFlush : ∀ c ∈ s.calls.map Call.wakeFlush, ∀ n, c.awaits? = some n →
      (∃ d ∈ s.calls, d.awaits? = some n) ∨ s.processedSequence < n :=
    List.forall_mem_map.mpr fun c hc n hn => by
      obtain ⟨item, rfl, rfl⟩ := awaits_wakeFlush hn
      exact .inl ⟨_, hc, rfl⟩
  cases hmove with
  | set | stopped | joined => exact h.mono rfl (fun _ _ => id) hsame
  | log | flush => exact h.mono rfl (fun _ _ => id) (forall_snoc hsame (hidle rfl))
  | went hk hwent =>
    refine h.mono rfl (fun _ _ => id) (forall_set hsame fun n hn => ?_)
    exact (hwent.awaits hn).imp_left fun hn => ⟨_, List.mem_of_getElem? hk, hn⟩
  | numbered | dropped | pushed | flushedSink => exact h.mono rfl (fun _ _ => id) (forall_set hsame (hidle rfl))
  | notified =>
    refine h.mono rfl (fun _ _ hw => by simp [hw, Worker.wake]) (forall_set hwake fun n hn => ?_)
    unfold afterPush at hn
    split at hn <;> cases hn
  | workerWent hwent => exact h.mono rfl (fun _ _ hw => by rw [hw] at hwent; cases hwent) hsame
  | swapped hw | called hw | closed hw => exact h.mono rfl (fun _ _ hw' => by simp [hw] at hw') hsame
  | workerNotified hw => exact h.mono rfl (fun _ _ hw' => by simp [hw] at hw') hwake
  | stored => exact fun _ _ _ _ _ => ⟨_, _, rfl⟩
  | flushNotified hw =>
    refine List.forall_mem_map.mpr fun c hc n hn hle => ?_
    obtain ⟨item, rfl, rfl⟩ := awaits_wakeFlush hn
    simp only [unmissed, hw, List.all_eq_true, Bool.not_eq_true'] at hok
    have hlate := hok _ hc
    simp only [Call.late, decide_eq_false_iff_not] at hlate
    exact absurd hle hlate
  | stopNotified => exact h.mono rfl (fun _ _ hw => by simp [hw, Worker.wake]) hwake
  | stopFlushNotified => exact h.mono rfl (fun _ _ => id) hwakeFlush

structure NoMissedWakeup (s : Logger) : Prop where
  /-- past both notifications of `stop`, nobody is blocked on `m_cv` -/
  stopped : (s.stopper = .joining ∨ s.stopper = .joined) → s.stopping = true →
    (∀ flushOn, s.worker ≠ .blocked flushOn) ∧ ∀ item, .blocked item ∉ s.calls
  /-- who is blocked on `m_flushCv` with a true predicate will be notified, by the worker's next step or by `stop` -/
  flushed : ∀ item, .flushBlocked item ∈ s.calls → item.sequence ≤ s.processedSequence →
    (∃ batch rest, s.worker = .notifyingFlush batch rest) ∨ s.stopper = .notifying ∨ s.stopper = .notifyingFlush

theorem wakeups_are_not_missed
    (h : (machine style queueCapacity overflowPolicy).Reach (fun s a => unmissed s a = true) s) : NoMissedWakeup s := by
  have hboth : Flagged s ∧ (s.stopper.notified = true → Woken s) :=
    h.inv (I := fun s => Flagged s ∧ (s.stopper.notified = true → Woken s))
      ⟨fun hne => absurd rfl hne, fun hn => by cases hn⟩
      fun _ _ _ hI hok hstep => ⟨(step_move hstep).flagged hI.1, (step_move hstep).woken hok hI.1 hI.2⟩
  have htold : Told s := h.inv (I := Told) (fun c hc => by simp [machine, make] at hc)
    fun _ _ _ hI hok hstep => (step_move hstep).told hok hI
  refine ⟨fun hst _ => ?_, fun item hmem hle => .inl (htold _ hmem _ rfl hle)⟩
  have hwoken := hboth.2 (by rcases hst with hst | hst <;> rw [hst] <;> rfl)
  refine ⟨fun flushOn hw => ?_, fun item hmem => ?_⟩
  · have hwaits := hwoken.worker
    rw [hw] at hwaits
    cases hwaits
  · cases hwoken.calls _ hmem

/-- The worker is blocked when `stop` is called, and so is a flush. -/
theorem wakeups_are_not_missed_stopped :
    ∃ s, (machine .source 2 .block).Reach (fun s a => unmissed s a = true) s ∧ s.stopper = .joined ∧
      s.worker = .exited ∧ s.calls = [.returned (.flushed ⟨⟨.info, ""⟩, 1, true⟩)] ∧ NoMissedWakeup s := by
  obtain ⟨s, hr, hs⟩ := Machine.Reach.of_run (machine .source 2 .block) (fun s a => unmissed s a = true)
    (fun s => s.stopper == .joined && s.worker == .exited && s.calls == [.returned (.flushed ⟨⟨.info, ""⟩, 1, true⟩)])
    ([Act.worker, .worker, .worker, .worker, .flush] ++ List.replicate 11 (Act.call 0) ++
      [Act.stop, .stopStep, .stopStep] ++ List.replicate 16 Act.worker ++ [Act.call 0, .call 0, .stopStep])
    (by decide +kernel)
  simp only [Bool.and_eq_true, beq_iff_eq] at hs
  obtain ⟨⟨hstopper, hworker⟩, hcalls⟩ := hs
  exact ⟨s, hr, hstopper, hworker, hcalls, wakeups_are_not_missed hr⟩

/-- The worker blocks behind the notifications of `stop`; a flush blocks behind the one for its item. -/
theorem wakeups_are_missed :
    (∃ s, (machine .source 2 .block).Reach (fun _ _ => True) s ∧ s.stopping = true ∧ s.stopper = .joining ∧
        s.worker = .blocked .error ∧ ¬ NoMissedWakeup s) ∧
      ∃ s, (machine .source 2 .block).Reach (fun _ _ => True) s ∧
        s.calls = [.flushBlocked ⟨⟨.info, ""⟩, 1, true⟩] ∧ s.processedSequence = 1 ∧ s.worker = .blocked .error ∧
        s.stopper = .uncalled ∧ ¬ NoMissedWakeup s := by
  constructor
  · obtain ⟨s, hr, hs⟩ := Machine.Reach.of_run (machine .source 2 .block) (fun _ _ => True)
      (fun s => s.stopping && s.stopper == .joining && s.worker == .blocked .error)
      [.worker, .worker, .worker, .stop, .stopStep, .stopStep, .worker]
      (by decide +kernel)
    simp only [Bool.and_eq_true, beq_iff_eq] at hs
    obtain ⟨⟨hstopping, hstopper⟩, hworker⟩ := hs
    exact ⟨s, hr, hstopping, hstopper, hworker, fun h => (h.stopped (.inl hstopper) hstopping).1 _ hworker⟩
  · obtain ⟨s, hr, hs⟩ := Machine.Reach.of_run (machine .source 2 .block) (fun _ _ => True)
      (fun s => s.calls == [.flushBlocked ⟨⟨.info, ""⟩, 1, true⟩] && s.processedSequence == 1 &&
        s.worker == .blocked .error && s.stopper == .uncalled)
      ([Act.flush] ++ List.replicate 8 (Act.call 0) ++ List.replicate 7 Act.worker ++
        [Act.call 0, .call 0, .worker, .worker, .call 0] ++ List.replicate 5 Act.worker)
      (by decide +kernel)
    simp only [Bool.and_eq_true, beq_iff_eq] at hs
    obtain ⟨⟨⟨hcalls, hprocessed⟩, hworker⟩, hstopper⟩ := hs
    refine ⟨s, hr, hcalls, hprocessed, hworker, hstopper, fun h => ?_⟩
    have hpending := h.flushed ⟨⟨.info, ""⟩, 1, true⟩ (by simp [hcalls]) (by simp [hprocessed])
    simp [hworker, hstopper] at hpending

end Dbase.Log.AsyncLogger
