/-
  Dbase.Thread.ThreadPoolProofs — every accepted task runs exactly once, and before `stop` returns.

  The invariant counts each task: what came into the queue is there or was taken, what was taken is with a
  worker or finished. A worker leaves only when the queue is stopped and empty, which it then stays.
-/

import Dbase.Sync.BlockingQueueProofs
import Dbase.Thread.ThreadPool

namespace Dbase.Thread.ThreadPool

open Dbase.Lib
open Dbase.Lib.Crew
open Dbase.Sync

variable {p p' : Pool}

/-! ## The moves -/

/-- The task was pushed. -/
def Stage.queued : Stage → Bool
  | .accepted => true
  | .returned => true
  | _ => false

inductive Move (p : Pool) : Pool → Prop
  | submit : Move p { p with submits := p.submits ++ [.checking] }
  | submitBy {w task : Nat} {sub : Option Nat} (hw : p.workers[w]? = some (.running task sub)) :
      Move p { p with submits := p.submits ++ [.checking],
                      workers := p.workers.set w (.running task (some p.submits.length)) }
  | stage {k : Nat} {a b : Stage} (hk : p.submits[k]? = some a) (hopen : a.over = false) (hab : b.queued = a.queued) :
      Move p { p with submits := p.submits.set k b }
  | accept {k : Nat} (hk : p.submits[k]? = some .pushing) (hopen : p.tasks.stopped = false) :
      Move p { p with tasks := ⟨p.tasks.queue ++ [k], p.tasks.stopped⟩, accepted := p.accepted ++ [k],
                      submits := p.submits.set k .accepted }
  | take {w task : Nat} {rest : List Nat} (hw : p.workers[w]? = some .polling) (hq : p.tasks.queue = task :: rest) :
      Move p { p with tasks := ⟨rest, p.tasks.stopped⟩, taken := p.taken ++ [task],
                      workers := p.workers.set w (.took task) }
  | idle : Move p p
  | exit {w : Nat} (hw : p.workers[w]? = some .polling) (hs : p.tasks.stopped = true) (hq : p.tasks.queue = []) :
      Move p { p with workers := p.workers.set w .exited }
  | begin {w task : Nat} (hw : p.workers[w]? = some (.took task)) :
      Move p { p with executed := p.executed ++ [task], workers := p.workers.set w (.running task none) }
  | finish {w task : Nat} {sub : Option Nat} (hw : p.workers[w]? = some (.running task sub)) :
      Move p { p with finished := p.finished ++ [task], workers := p.workers.set w .polling }
  | stop (hs : p.stopper = .idle) (hopen : p.stopped = false) : Move p { p with stopped := true, stopper := .flagged }
  | stopAgain (hs : p.stopper = .idle) (hstopped : p.stopped = true) : Move p { p with stopper := .returned }
  | stopQueue (hs : p.stopper = .flagged) :
      Move p { p with tasks := ⟨p.tasks.queue, true⟩, stopper := .joining 0 }
  | join {w : Nat} (hs : p.stopper = .joining w) (hw : p.workers[w]? = some .exited) :
      Move p { p with stopper := .joining (w + 1) }
  | joined {w : Nat} (hs : p.stopper = .joining w) (hw : p.workers[w]? = none) : Move p { p with stopper := .returned }

theorem step_move {a : Act} (h : step p a = some p') : Move p p' := by
  cases a with
  | submit worker =>
    simp only [step, submit] at h
    split at h
    · cases h
      exact .submit
    · split at h
      · split at h
        · cases h
          exact .submitBy ‹_›
        · cases h
      · cases h
  | check k =>
    simp only [step, checkStarted] at h
    split at h
    · rename_i hk
      split at h
      · cases h
        exact .stage hk rfl rfl
      · cases h
        exact .stage hk rfl rfl
    · cases h
  | push k =>
    simp only [step, push] at h
    split at h
    · rename_i hk
      split at h
      · rename_i hb
        obtain ⟨hopen, rfl⟩ := BlockingQueue.push_done hb
        cases h
        exact .accept ‹_› hopen
      · rename_i hb
        obtain ⟨-, rfl⟩ := BlockingQueue.push_threw hb
        cases h
        exact .stage hk rfl rfl
      · cases h
    · cases h
  | returnFuture k =>
    simp only [step, returnFuture] at h
    split at h
    · rename_i hk
      cases h
      exact .stage hk rfl rfl
    · cases h
  | poll w late =>
    simp only [step, poll] at h
    split at h
    · split at h
      · rename_i hb
        obtain ⟨rest, hq, rfl⟩ := BlockingQueue.popFor_value hb
        cases h
        exact .take ‹_› hq
      · rename_i hb
        obtain rfl := BlockingQueue.popFor_nullopt hb
        cases h
        exact .idle
      · rename_i hb
        obtain ⟨hs, hq, rfl⟩ := BlockingQueue.popFor_threw hb
        cases h
        exact .exit ‹_› hs hq
      · cases h
    · cases h
  | begin w =>
    simp only [step, begin] at h
    split at h
    · cases h
      exact .begin ‹_›
    · cases h
  | finish w =>
    simp only [step, finish] at h
    split at h
    · split at h
      · cases h
        exact .finish ‹_›
      · cases h
    · cases h
  | stop =>
    simp only [step, stop] at h
    split at h
    · split at h
      · cases h
        exact .stopAgain ‹_› ‹_›
      · rename_i hs
        cases h
        exact .stop ‹_› (by simpa using hs)
    · cases h
  | stopQueue =>
    simp only [step, stopQueue] at h
    split at h
    · split at h
      · rename_i hb
        obtain rfl := BlockingQueue.stop_sets hb
        cases h
        exact .stopQueue ‹_›
      · cases h
    · cases h
  | join =>
    simp only [step, join] at h
    split at h
    · split at h
      · cases h
        exact .join ‹_› ‹_›
      · cases h
      · cases h
        exact .joined ‹_› ‹_›
    · cases h

/-! ## The invariant -/

/-- The task is with the worker. -/
def holds (k : Nat) : Worker → Nat
  | .took task => if task = k then 1 else 0
  | .running task _ => if task = k then 1 else 0
  | _ => 0

def runs (k : Nat) : Worker → Nat
  | .running task _ => if task = k then 1 else 0
  | _ => 0

/-- What `stop` has come to. -/
def Stopping (p : Pool) : Stopper → Prop
  | .idle => p.stopped = false
  | .flagged => True
  | .joining w => p.tasks.stopped = true ∧ ∀ u < w, p.workers[u]? = some .exited
  | .returned => ∀ pc ∈ p.workers, pc = .exited

structure Inv (p : Pool) : Prop where
  fifo : p.taken ++ p.tasks.queue = p.accepted
  accepted : ∀ k, p.accepted.count k = if p.submits[k]?.any Stage.queued then 1 else 0
  taken : ∀ k, p.taken.count k = p.finished.count k + (p.workers.map (holds k)).sum
  executed : ∀ k, p.executed.count k = p.finished.count k + (p.workers.map (runs k)).sum
  exited : .exited ∈ p.workers → p.tasks.stopped = true ∧ p.tasks.queue = []
  workers : p.workers ≠ []
  stopping : Stopping p p.stopper

theorem any_queued_snoc (submits : List Stage) (k : Nat) :
    (submits ++ [.checking])[k]?.any Stage.queued = submits[k]?.any Stage.queued := by
  rcases getElem?_snoc submits .checking k with heq | ⟨hnone, heq⟩
  · rw [heq]
  · rw [heq, hnone]
    rfl

theorem any_queued_set {submits : List Stage} {k : Nat} {a b : Stage} (hk : submits[k]? = some a) (u : Nat) :
    (submits.set k b)[u]?.any Stage.queued = if u = k then b.queued else submits[u]?.any Stage.queued := by
  rw [getElem?_set_of hk]
  split <;> rfl

/-- A worker that has not ended is not joined and does not let `stop` return. -/
theorem Stopping.set {w : Nat} {a b : Worker} {workers : List Worker} (h : Stopping p p.stopper) (hw : p.workers[w]? = some a)
    (ha : a ≠ .exited) (hworkers : workers = p.workers.set w b) (hq : p'.tasks.stopped = p.tasks.stopped)
    (hs : p'.stopped = p.stopped) (hw' : p'.workers = workers) : Stopping p' p.stopper := by
  subst hworkers
  cases hst : p.stopper with
  | idle =>
    rw [hst] at h
    exact hs.trans h
  | flagged => trivial
  | joining u =>
    rw [hst] at h
    refine ⟨hq.trans h.1, fun v hv => ?_⟩
    rw [hw', getElem?_set_of hw, if_neg, h.2 v hv]
    rintro rfl
    exact ha (Option.some.inj (hw.symm.trans (h.2 v hv)))
  | returned =>
    rw [hst] at h
    exact absurd (h a (List.mem_of_getElem? hw)) ha

theorem exited_of_mem_set {workers : List Worker} {w : Nat} {b : Worker} (hb : b ≠ .exited) (h : .exited ∈ workers.set w b) :
    .exited ∈ workers := by
  rcases List.mem_or_eq_of_mem_set h with hmem | heq
  · exact hmem
  · exact absurd heq.symm hb

theorem Move.inv (hmove : Move p p') (h : Inv p) : Inv p' := by
  have hset (w : Nat) (b : Worker) : p.workers.set w b ≠ [] := by simpa using h.workers
  cases hmove with
  | submit =>
    refine ⟨h.fifo, fun k => ?_, h.taken, h.executed, h.exited, h.workers, h.stopping⟩
    rw [any_queued_snoc]
    exact h.accepted k
  | submitBy hw =>
    refine ⟨h.fifo, fun k => ?_, fun k => ?_, fun k => ?_, fun hmem => ?_, hset _ _, ?_⟩
    · rw [any_queued_snoc]
      exact h.accepted k
    · rw [map_set_of hw (by rfl)]
      exact h.taken k
    · rw [map_set_of hw (by rfl)]
      exact h.executed k
    · exact h.exited (exited_of_mem_set (by simp) hmem)
    · exact h.stopping.set hw (by simp) rfl rfl rfl rfl
  | @stage k a b hk hopen hab =>
    refine ⟨h.fifo, fun u => ?_, h.taken, h.executed, h.exited, h.workers, h.stopping⟩
    rw [any_queued_set hk, h.accepted u]
    by_cases hu : u = k
    · rw [hu, if_pos rfl, hk, hab]
      rfl
    · rw [if_neg hu]
  | @accept k hk hopen =>
    refine ⟨?_, fun u => ?_, h.taken, h.executed, fun hmem => ?_, h.workers, h.stopping⟩
    · rw [← List.append_assoc, h.fifo]
    · rw [any_queued_set hk, List.count_append, h.accepted u]
      by_cases hu : u = k
      · rw [hu, if_pos rfl, hk]
        simp [Stage.queued]
      · rw [if_neg hu]
        simp [Ne.symm hu]
    · have hs := (h.exited hmem).1
      rw [hopen] at hs
      cases hs
  | @take w task rest hw hq =>
    refine ⟨?_, h.accepted, fun k => ?_, fun k => ?_, fun hmem => ?_, hset _ _, ?_⟩
    · rw [List.append_assoc, List.singleton_append, ← hq]
      exact h.fifo
    · have hsum := sum_set_of (holds k) hw (.took task)
      have hk := h.taken k
      simp only [holds] at hsum
      simp only [List.count_append, List.count_singleton, beq_iff_eq]
      omega
    · rw [map_set_of hw (by rfl)]
      exact h.executed k
    · have hempty := (h.exited (exited_of_mem_set (by simp) hmem)).2
      rw [hq] at hempty
      cases hempty
    · exact h.stopping.set hw (by simp) rfl rfl rfl rfl
  | idle => exact h
  | exit hw hs hq =>
    refine ⟨h.fifo, h.accepted, fun k => ?_, fun k => ?_, fun _ => ⟨hs, hq⟩, hset _ _, ?_⟩
    · rw [map_set_of hw (by rfl)]
      exact h.taken k
    · rw [map_set_of hw (by rfl)]
      exact h.executed k
    · exact h.stopping.set hw (by simp) rfl rfl rfl rfl
  | @begin w task hw =>
    refine ⟨h.fifo, h.accepted, fun k => ?_, fun k => ?_, fun hmem => ?_, hset _ _, ?_⟩
    · rw [map_set_of hw (by rfl)]
      exact h.taken k
    · have hsum := sum_set_of (runs k) hw (.running task none)
      have hk := h.executed k
      simp only [runs] at hsum
      simp only [List.count_append, List.count_singleton, beq_iff_eq]
      omega
    · exact h.exited (exited_of_mem_set (by simp) hmem)
    · exact h.stopping.set hw (by simp) rfl rfl rfl rfl
  | @finish w task sub hw =>
    refine ⟨h.fifo, h.accepted, fun k => ?_, fun k => ?_, fun hmem => ?_, hset _ _, ?_⟩
    · have hsum := sum_set_of (holds k) hw .polling
      have hk := h.taken k
      simp only [holds] at hsum
      simp only [List.count_append, List.count_singleton, beq_iff_eq]
      omega
    · have hsum := sum_set_of (runs k) hw .polling
      have hk := h.executed k
      simp only [runs] at hsum
      simp only [List.count_append, List.count_singleton, beq_iff_eq]
      omega
    · exact h.exited (exited_of_mem_set (by simp) hmem)
    · exact h.stopping.set hw (by simp) rfl rfl rfl rfl
  | stop hs hopen => exact ⟨h.fifo, h.accepted, h.taken, h.executed, h.exited, h.workers, trivial⟩
  | stopAgain hs hstopped =>
    -- the one `stop` finds the pool running
    have hidle := h.stopping
    rw [hs] at hidle
    exact absurd (hidle.symm.trans hstopped) (by simp)
  | stopQueue hs =>
    refine ⟨h.fifo, h.accepted, h.taken, h.executed, fun hmem => ⟨rfl, (h.exited hmem).2⟩, h.workers, rfl, ?_⟩
    exact fun u hu => absurd hu (Nat.not_lt_zero u)
  | @join w hs hw =>
    have hjoin := h.stopping
    rw [hs] at hjoin
    refine ⟨h.fifo, h.accepted, h.taken, h.executed, h.exited, h.workers, hjoin.1, fun u hu => ?_⟩
    rcases Nat.lt_succ_iff_lt_or_eq.mp hu with hlt | rfl
    · exact hjoin.2 u hlt
    · exact hw
  | @joined w hs hw =>
    have hjoin := h.stopping
    rw [hs] at hjoin
    refine ⟨h.fifo, h.accepted, h.taken, h.executed, h.exited, h.workers, fun pc hpc => ?_⟩
    obtain ⟨u, hu⟩ := List.mem_iff_getElem?.mp hpc
    have hlt : u < w := (List.getElem?_eq_some_iff.mp hu).1.trans_le (List.getElem?_eq_none_iff.mp hw)
    exact Option.some.inj (hu.symm.trans (hjoin.2 u hlt))

theorem launch_eq {threadCount queueCapacity : Nat} {p : Pool} (h : launch threadCount queueCapacity = .ok p) :
    0 < threadCount ∧ p = ⟨threadCount, queueCapacity, true, false, ⟨[], false⟩,
      List.replicate threadCount .polling, [], .idle, [], [], [], []⟩ := by
  unfold launch make at h
  split at h
  · cases h
  · rename_i hcount
    cases h
    exact ⟨by omega, rfl⟩

theorem launch_inv {threadCount queueCapacity : Nat} {p : Pool} (h : launch threadCount queueCapacity = .ok p) : Inv p := by
  obtain ⟨hcount, rfl⟩ := launch_eq h
  refine ⟨rfl, fun k => rfl, fun k => ?_, fun k => ?_, fun hmem => ?_, ?_, rfl⟩
  · simp [holds]
  · simp [runs]
  · simp at hmem
  · simp only [ne_eq, List.replicate_eq_nil_iff]
    omega

theorem reach_inv {threadCount queueCapacity : Nat} {p₀ : Pool} (h₀ : launch threadCount queueCapacity = .ok p₀)
    (h : (machine p₀).Reach (fun _ _ => True) p) : Inv p :=
  h.inv (launch_inv h₀) fun _ _ _ hI _ hstep => (step_move hstep).inv hI

/-! ## Once, and before `stop` returns -/

theorem Inv.executed_le (h : Inv p) (k : Nat) : p.executed.count k ≤ p.accepted.count k := by
  have hle : (p.workers.map (runs k)).sum ≤ (p.workers.map (holds k)).sum := by
    refine List.sum_le_sum fun pc _ => ?_
    cases pc <;> simp [runs, holds]
  have htaken := h.taken k
  have hexecuted := h.executed k
  rw [← h.fifo, List.count_append]
  omega

theorem Inv.executed_once (h : Inv p) (k : Nat) : p.executed.count k ≤ 1 := by
  refine (h.executed_le k).trans ?_
  rw [h.accepted k]
  split <;> omega

/-- When every worker has ended, all that was accepted is done. -/
theorem Inv.all_done (h : Inv p) (hexit : ∀ pc ∈ p.workers, pc = .exited) {k : Nat} {st : Stage} (hk : p.submits[k]? = some st)
    (hst : st.queued = true) : p.executed.count k = 1 ∧ k ∈ p.finished := by
  obtain ⟨w, hw⟩ := List.exists_mem_of_ne_nil _ h.workers
  have hempty := (h.exited (hexit w hw ▸ hw)).2
  have hnone (f : Worker → Nat) (hf : f .exited = 0) : (p.workers.map f).sum = 0 :=
    List.sum_eq_zero fun x hx => by
      obtain ⟨pc, hpc, rfl⟩ := List.mem_map.mp hx
      rw [hexit pc hpc, hf]
  have hone : p.accepted.count k = 1 := by rw [h.accepted k, hk, Option.any_some, hst, if_pos rfl]
  have htaken := h.taken k
  have hexecuted := h.executed k
  rw [hnone _ rfl] at htaken hexecuted
  rw [← h.fifo, hempty, List.append_nil] at hone
  exact ⟨by omega, List.count_pos_iff.mp (by omega)⟩

theorem Move.threw (hmove : Move p p') {k : Nat} {e : Err} (hk : p.submits[k]? = some (.threw e)) :
    p'.submits[k]? = some (.threw e) := by
  have hlt := (List.getElem?_eq_some_iff.mp hk).1
  cases hmove with
  | submit => exact (List.getElem?_append_left hlt).trans hk
  | submitBy => exact (List.getElem?_append_left hlt).trans hk
  | stage hu hopen hab =>
    refine (getElem?_set_of hu _ k).trans ?_
    rw [if_neg, hk]
    rintro rfl
    rw [hk] at hu
    cases hu
    cases hopen
  | accept hu =>
    refine (getElem?_set_of hu _ k).trans ?_
    rw [if_neg, hk]
    rintro rfl
    rw [hk] at hu
    cases hu
  | _ => exact hk

/-- With all workers gone nothing begins. -/
theorem Move.silent (hmove : Move p p') (hexit : ∀ pc ∈ p.workers, pc = .exited) :
    p'.workers = p.workers ∧ p'.executed = p.executed := by
  have hgone {w : Nat} {pc : Worker} (hw : p.workers[w]? = some pc) (hpc : pc ≠ .exited) : False :=
    hpc (hexit pc (List.mem_of_getElem? hw))
  cases hmove with
  | submitBy hw => exact (hgone hw (by simp)).elim
  | take hw => exact (hgone hw (by simp)).elim
  | exit hw => exact (hgone hw (by simp)).elim
  | begin hw => exact (hgone hw (by simp)).elim
  | finish hw => exact (hgone hw (by simp)).elim
  | _ => exact ⟨rfl, rfl⟩

/-! ## `stop` comes to an end -/

/-- The submission a running task waits for exists. -/
def SubsKnown (p : Pool) : Prop := ∀ task k, .running task (some k) ∈ p.workers → k < p.submits.length

theorem Move.subsKnown (hmove : Move p p') (h : SubsKnown p) : SubsKnown p' := by
  intro task k hmem
  cases hmove with
  | submit =>
    have := h task k hmem
    simp only [List.length_append]
    omega
  | submitBy hw =>
    simp only [List.length_append, List.length_singleton]
    rcases List.mem_or_eq_of_mem_set hmem with hmem | heq
    · have := h task k hmem
      omega
    · cases heq
      omega
  | stage => simpa using h task k hmem
  | accept => simpa using h task k hmem
  | take hw => exact h task k ((List.mem_or_eq_of_mem_set hmem).resolve_right (by simp))
  | exit hw => exact h task k ((List.mem_or_eq_of_mem_set hmem).resolve_right (by simp))
  | begin hw => exact h task k ((List.mem_or_eq_of_mem_set hmem).resolve_right (by simp))
  | finish hw => exact h task k ((List.mem_or_eq_of_mem_set hmem).resolve_right (by simp))
  | _ => exact h task k hmem

def Stage.rank : Stage → Nat
  | .checking => 3
  | .pushing => 2
  | .accepted => 1
  | _ => 0

def Worker.rank : Worker → Nat
  | .polling => 1
  | .took _ => 4
  | .running .. => 3
  | .exited => 0

def Stopper.rank (workers : Nat) : Stopper → Nat
  | .idle => workers + 3
  | .flagged => workers + 2
  | .joining w => workers - w + 1
  | .returned => 0

/-- What is left to do before `stop` has returned, if nobody begins anything new. -/
def left (p : Pool) : Nat :=
  5 * p.tasks.queue.length + (p.workers.map Worker.rank).sum + (p.submits.map Stage.rank).sum +
    p.stopper.rank p.workers.length

theorem left_setStage {k : Nat} {a b : Stage} (hk : p.submits[k]? = some a) (hab : b.rank < a.rank) :
    left (setStage k b p) < left p := by
  have := sum_set_of Stage.rank hk b
  simp only [left, setStage]
  omega

/-- A submission that is not over goes on, once the queue is stopped. -/
theorem submit_goes_on {k : Nat} {st : Stage} (hs : p.tasks.stopped = true) (hk : p.submits[k]? = some st)
    (hopen : st.over = false) : ∃ a p', step p a = some p' ∧ left p' < left p := by
  cases st with
  | checking =>
    by_cases hstarted : isStarted p = true
    · refine ⟨.check k, setStage k .pushing p, ?_, left_setStage hk (by decide)⟩
      simp only [step, checkStarted, hk, hstarted, if_true]
    · refine ⟨.check k, setStage k (.threw (.logicError "ThreadPool is not started")) p, ?_, left_setStage hk (by decide)⟩
      simp only [step, checkStarted, hk, hstarted]
      rfl
  | pushing =>
    refine ⟨.push k, setStage k (.threw (.logicError "ThreadPool is stopped")) p, ?_, left_setStage hk (by decide)⟩
    simp only [step, push, hk, BlockingQueue.push_of_stopped hs]
  | accepted =>
    refine ⟨.returnFuture k, setStage k .returned p, ?_, left_setStage hk (by decide)⟩
    simp only [step, returnFuture, hk]
  | returned => cases hopen
  | threw e => cases hopen

/-- So does a worker. -/
theorem worker_goes_on {w : Nat} {pc : Worker} (hs : p.tasks.stopped = true) (hsubs : SubsKnown p) (hw : p.workers[w]? = some pc)
    (hpc : pc ≠ .exited) : ∃ a p', step p a = some p' ∧ left p' < left p := by
  have hsum := sum_set_of Worker.rank hw
  cases pc with
  | polling =>
    cases hq : p.tasks.queue with
    | nil =>
      refine ⟨.poll w false, setWorker w .exited p, ?_, ?_⟩
      · simp only [step, poll, hw, BlockingQueue.popFor_of_stopped hs, BlockingQueue.popFront, hq]
      · have := hsum .exited
        simp only [Worker.rank] at this
        simp only [left, setWorker, List.length_set]
        omega
    | cons task rest =>
      refine ⟨.poll w false,
        setWorker w (.took task) { p with tasks := ⟨rest, p.tasks.stopped⟩, taken := p.taken ++ [task] }, ?_, ?_⟩
      · simp only [step, poll, hw, BlockingQueue.popFor_of_stopped hs, BlockingQueue.popFront, hq]
      · have := hsum (.took task)
        simp only [Worker.rank] at this
        simp only [left, setWorker, List.length_set, hq, List.length_cons]
        omega
  | took task =>
    refine ⟨.begin w, setWorker w (.running task none) { p with executed := p.executed ++ [task] }, ?_, ?_⟩
    · simp only [step, begin, hw]
    · have := hsum (.running task none)
      simp only [Worker.rank] at this
      simp only [left, setWorker, List.length_set]
      omega
  | running task sub =>
    by_cases hover : subOver sub p = true
    · refine ⟨.finish w, setWorker w .polling { p with finished := p.finished ++ [task] }, ?_, ?_⟩
      · simp only [step, finish, hw, hover, if_true]
      · have := hsum .polling
        simp only [Worker.rank] at this
        simp only [left, setWorker, List.length_set]
        omega
    · cases sub with
      | none => exact absurd rfl hover
      | some k =>
        have hlt := hsubs task k (List.mem_of_getElem? hw)
        have hk : p.submits[k]? = some p.submits[k] := List.getElem?_eq_getElem hlt
        refine submit_goes_on hs hk ?_
        simpa [subOver, hk] using hover
  | exited => exact absurd rfl hpc

theorem stop_goes_on (h : Inv p) (hsubs : SubsKnown p) (hne : p.stopper ≠ .returned) :
    ∃ a p', step p a = some p' ∧ left p' < left p := by
  have hstopping := h.stopping
  cases hst : p.stopper with
  | idle =>
    rw [hst] at hstopping
    have hopen : p.stopped = false := hstopping
    refine ⟨.stop, { p with stopped := true, stopper := .flagged }, by simp [step, stop, hst, hopen], ?_⟩
    simp only [left, hst, Stopper.rank]
    omega
  | flagged =>
    refine ⟨.stopQueue, { p with tasks := ⟨p.tasks.queue, true⟩, stopper := .joining 0 }, ?_, ?_⟩
    · obtain ⟨inside, after, r, hb⟩ := BlockingQueue.stop_leaves p.queueCapacity false p.tasks
      simp only [step, stopQueue, hst, hb]
    · simp only [left, hst, Stopper.rank]
      omega
  | joining w =>
    rw [hst] at hstopping
    cases hw : p.workers[w]? with
    | none =>
      refine ⟨.join, { p with stopper := .returned }, by simp only [step, join, hst, hw], ?_⟩
      simp only [left, hst, Stopper.rank]
      omega
    | some pc =>
      by_cases hpc : pc = .exited
      · subst hpc
        refine ⟨.join, { p with stopper := .joining (w + 1) }, by simp only [step, join, hst, hw], ?_⟩
        have := (List.getElem?_eq_some_iff.mp hw).1
        simp only [left, hst, Stopper.rank]
        omega
      · exact worker_goes_on hstopping.1 hsubs hw hpc
  | returned => exact absurd hst hne

theorem exists_returned {p₀ : Pool} (n : Nat) : ∀ p, Inv p → SubsKnown p → left p ≤ n →
    ∃ p', (machine p₀).Later (fun _ _ => True) p p' ∧ p'.stopper = .returned := by
  induction n with
  | zero =>
    intro p h hsubs hn
    by_cases hne : p.stopper = .returned
    · exact ⟨p, .refl, hne⟩
    · obtain ⟨a, p', -, hlt⟩ := stop_goes_on h hsubs hne
      omega
  | succ n ih =>
    intro p h hsubs hn
    by_cases hne : p.stopper = .returned
    · exact ⟨p, .refl, hne⟩
    · obtain ⟨a, p', hstep, hlt⟩ := stop_goes_on h hsubs hne
      have hmove := step_move hstep
      obtain ⟨p'', hlater, hret⟩ := ih p' (hmove.inv h) (hmove.subsKnown hsubs) (by omega)
      exact ⟨p'', (Machine.Later.refl.step trivial hstep).trans hlater, hret⟩

/-- A started pool, any number of workers, any capacity, any interleaving with one `stop`. -/
theorem pool_runs_every_task_once {threadCount queueCapacity : Nat} {p₀ p : Pool}
    (h₀ : launch threadCount queueCapacity = .ok p₀) (h : (machine p₀).Reach (fun _ _ => True) p) :
    (∀ k, p.executed.count k ≤ 1) ∧
      (∀ k st, p.stopper = .returned → p.submits[k]? = some st → st = .accepted ∨ st = .returned →
        p.executed.count k = 1 ∧ k ∈ p.finished) ∧
      (∀ k e p', p.submits[k]? = some (.threw e) → (machine p₀).Later (fun _ _ => True) p p' → k ∉ p'.executed) ∧
      (∀ p', p.stopper = .returned → (machine p₀).Later (fun _ _ => True) p p' → p'.executed = p.executed) ∧
      ∃ p', (machine p₀).Later (fun _ _ => True) p p' ∧ p'.stopper = .returned := by
  have hinv := reach_inv h₀ h
  have hexit (hret : p.stopper = .returned) : ∀ pc ∈ p.workers, pc = .exited := by
    have := hinv.stopping
    rwa [hret] at this
  refine ⟨hinv.executed_once, ?_, ?_, ?_, ?_⟩
  · intro k st hret hk hst
    refine hinv.all_done (hexit hret) hk ?_
    rcases hst with rfl | rfl <;> rfl
  · intro k e p' hk hlater
    have hk' : p'.submits[k]? = some (.threw e) :=
      hlater.inv (I := fun q => q.submits[k]? = some (.threw e))
        (fun _ _ _ hq _ hstep => (step_move hstep).threw hq) hk
    have hnone : p'.accepted.count k = 0 := by
      rw [(reach_inv h₀ (hlater.reach h)).accepted k, hk']
      rfl
    have hle := (reach_inv h₀ (hlater.reach h)).executed_le k
    rw [hnone] at hle
    exact List.count_eq_zero.mp (Nat.le_zero.mp hle)
  · intro p' hret hlater
    refine (hlater.inv (I := fun q => q.workers = p.workers ∧ q.executed = p.executed)
      (fun q _ q' hq _ hstep => ?_) ⟨rfl, rfl⟩).2
    obtain ⟨hw, he⟩ := (step_move hstep).silent (hq.1 ▸ hexit hret)
    exact ⟨hw.trans hq.1, he.trans hq.2⟩
  · have hsubs : SubsKnown p := by
      refine h.inv (I := SubsKnown) ?_ fun _ _ _ hI _ hstep => (step_move hstep).subsKnown hI
      obtain ⟨-, rfl⟩ := launch_eq h₀
      exact fun task k hmem => by simp [machine] at hmem
    exact exists_returned _ p hinv hsubs le_rfl

/-- One worker and room for one task: a task that submits another one, which is run after `stop` was called. -/
theorem pool_runs_every_task_once_nested :
    ∃ p₀ p, launch 1 1 = .ok p₀ ∧ (machine p₀).Reach (fun _ _ => True) p ∧ p.stopper = .returned ∧
      p.submits = [.returned, .returned] ∧ p.executed.count 1 = 1 ∧ 1 ∈ p.finished := by
  have hlaunch : launch 1 1 = .ok ⟨1, 1, true, false, ⟨[], false⟩, [.polling], [], .idle, [], [], [], []⟩ := rfl
  obtain ⟨p, hr, hp⟩ := Machine.Reach.of_run (machine ⟨1, 1, true, false, ⟨[], false⟩, [.polling], [], .idle, [], [], [], []⟩)
    (fun _ _ => True) (fun p => p.stopper == .returned && p.submits == [.returned, .returned])
    [.submit none, .check 0, .push 0, .returnFuture 0, .poll 0 false, .begin 0, .submit (some 0), .check 1, .push 1,
      .returnFuture 1, .stop, .stopQueue, .finish 0, .poll 0 false, .begin 0, .finish 0, .poll 0 false, .join, .join]
    (by decide +kernel)
  obtain ⟨hret, hsub⟩ := (Bool.and_eq_true _ _).mp hp
  have hret : p.stopper = .returned := by simpa using hret
  have hsub : p.submits = [.returned, .returned] := by simpa using hsub
  obtain ⟨-, hdone, -⟩ := pool_runs_every_task_once hlaunch hr
  exact ⟨_, p, hlaunch, hr, hret, hsub, hdone 1 .returned hret (by rw [hsub]; rfl) (Or.inr rfl)⟩

end Dbase.Thread.ThreadPool
