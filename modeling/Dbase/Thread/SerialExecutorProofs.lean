/-
  Dbase.Thread.SerialExecutorProofs — one drain at a time, in the order of the pushes; and when a task is stranded.

  `m_running` stands for a token. It is with whoever has won the compare-exchange and not handed the drain to
  the pool, with a drain that the pool has, or with a drain in its loop; `Token` counts them. So the
  drain in its loop is alone, and what it takes and runs follows the queue (`InOrder`).

  A queue that is not empty has somebody to see to it (`Tended`): the token, a submitter that has pushed and is yet to
  try for it, or a drain that has given it up and is yet to look again. Only one step can break this: the
  look of a drain that finds the executor stopped.

  A `submit` whose drain the pool refuses throws and leaves its task in the queue; no other `submit` that throws has
  a task anywhere (`submit_is_all_or_nothing`).
-/

import Dbase.Sync.BlockingQueueProofs
import Dbase.Thread.SerialExecutor

namespace Dbase.Thread.SerialExecutor

open Dbase.Lib
open Dbase.Lib.Crew
open Dbase.Sync

variable {s s' : Exec} {a : Act}

/-! ## The moves -/

inductive Move (s : Exec) : Act → Exec → Prop
  | flags {a : Act} {started stopped starting : Bool} {stopping : Nat} :
      Move s a { s with started := started, stopped := stopped, starting := starting, stopping := stopping }
  | idle {a : Act} : Move s a s
  | stopQueue {n : Nat} : Move s .stopQueue { s with tasks := ⟨s.tasks.queue, true⟩, stopping := n }
  | submit : Move s .submit { s with submits := s.submits ++ [.checking] }
  | check {k : Nat} (hk : s.submits[k]? = some .checking) : Move s (.check k) { s with submits := s.submits.set k .pushing }
  | refuse {a : Act} {k : Nat} {st : Stage} {e : Thrown} (hk : s.submits[k]? = some st)
      (hst : st = .checking ∨ st = .pushing) : Move s a { s with submits := s.submits.set k (.threw e) }
  | accept {k : Nat} (hk : s.submits[k]? = some .pushing) (hopen : s.tasks.stopped = false) :
      Move s (.push k) { s with tasks := ⟨s.tasks.queue ++ [k], s.tasks.stopped⟩, accepted := s.accepted ++ [k],
                                submits := s.submits.set k (.scheduling .cas) }
  | lost {k : Nat} {answer : Option Err} (hk : s.submits[k]? = some (.scheduling .cas)) (hr : s.running = true) :
      Move s (.schedule k answer) { s with submits := s.submits.set k .returned }
  | won {k : Nat} {answer : Option Err} (hk : s.submits[k]? = some (.scheduling .cas)) (hr : s.running = false) :
      Move s (.schedule k answer) { s with running := true, submits := s.submits.set k (.scheduling .submit) }
  | handed {k : Nat} (hk : s.submits[k]? = some (.scheduling .submit)) :
      Move s (.schedule k none) { s with queued := s.queued + 1, submits := s.submits.set k .returned }
  | failed {k : Nat} {e : Err} (hk : s.submits[k]? = some (.scheduling .submit)) :
      Move s (.schedule k (some e)) { s with submits := s.submits.set k (.scheduling (.clear e)) }
  | gaveUp {k : Nat} {e : Err} {answer : Option Err} (hk : s.submits[k]? = some (.scheduling (.clear e))) :
      Move s (.schedule k answer) { s with running := false, submits := s.submits.set k (.threw (.err e)) }
  | beginDrain {n : Nat} (hn : s.queued = n + 1) :
      Move s .beginDrain { s with queued := n, drains := s.drains ++ [.popping] }
  | take {d task : Nat} {rest : List Nat} (hd : s.drains[d]? = some .popping) (hq : s.tasks.queue = task :: rest) :
      Move s (.pop d) { s with tasks := ⟨rest, s.tasks.stopped⟩, drains := s.drains.set d (.took task) }
  | dry {d : Nat} (hd : s.drains[d]? = some .popping) (hq : s.tasks.queue = []) :
      Move s (.pop d) { s with drains := s.drains.set d .clearing }
  | run {d task : Nat} (hd : s.drains[d]? = some (.took task)) :
      Move s (.run d) { s with begun := s.begun ++ [task], drains := s.drains.set d (.running task) }
  | finish {d task : Nat} (hd : s.drains[d]? = some (.running task)) :
      Move s (.finish d) { s with finished := s.finished ++ [task], drains := s.drains.set d .popping }
  | clear {d : Nat} (hd : s.drains[d]? = some .clearing) :
      Move s (.clear d) { s with running := false, drains := s.drains.set d .testing }
  | sawEmpty {d : Nat} (hd : s.drains[d]? = some .testing) (hq : s.tasks.queue = []) :
      Move s (.testEmpty d) { s with drains := s.drains.set d .ended }
  | sawTask {d : Nat} (hd : s.drains[d]? = some .testing) : Move s (.testEmpty d) { s with drains := s.drains.set d .loading }
  | again {d : Nat} (hd : s.drains[d]? = some .loading) :
      Move s (.loadStopped d) { s with drains := s.drains.set d (.scheduling .cas) }
  | sawStopped {d : Nat} (hd : s.drains[d]? = some .loading) (hs : s.stopped = true) :
      Move s (.loadStopped d) { s with drains := s.drains.set d .ended }
  | drainLost {d : Nat} {answer : Option Err} (hd : s.drains[d]? = some (.scheduling .cas)) (hr : s.running = true) :
      Move s (.drainSchedule d answer) { s with drains := s.drains.set d .ended }
  | drainWon {d : Nat} {answer : Option Err} (hd : s.drains[d]? = some (.scheduling .cas)) (hr : s.running = false) :
      Move s (.drainSchedule d answer) { s with running := true, drains := s.drains.set d (.scheduling .submit) }
  | drainHanded {d : Nat} (hd : s.drains[d]? = some (.scheduling .submit)) :
      Move s (.drainSchedule d none) { s with queued := s.queued + 1, drains := s.drains.set d .ended }
  | drainFailed {d : Nat} {e : Err} (hd : s.drains[d]? = some (.scheduling .submit)) :
      Move s (.drainSchedule d (some e)) { s with drains := s.drains.set d (.scheduling (.clear e)) }
  | drainGaveUp {d : Nat} {e : Err} {answer : Option Err} (hd : s.drains[d]? = some (.scheduling (.clear e))) :
      Move s (.drainSchedule d answer) { s with running := false, drains := s.drains.set d .ended }

theorem step_move (h : step s a = some s') : Move s a s' := by
  cases a with
  | start =>
    simp only [step, start] at h
    split at h
    · cases h
      exact .idle
    · cases h
      exact .flags
  | startStore =>
    simp only [step, startStore] at h
    split at h
    · cases h
      exact .flags
    · cases h
  | stop =>
    simp only [step, stop] at h
    split at h
    · cases h
      exact .idle
    · cases h
      exact .flags
  | stopQueue =>
    simp only [step, stopQueue] at h
    split at h
    · cases h
    · split at h
      · rename_i hb
        obtain rfl := BlockingQueue.stop_sets hb
        cases h
        exact .stopQueue
      · cases h
  | submit =>
    cases h
    exact .submit
  | check k =>
    simp only [step, checkStarted] at h
    split at h
    · rename_i hk
      split at h
      · cases h
        exact .check hk
      · cases h
        exact .refuse hk (Or.inl rfl)
    · cases h
  | push k =>
    simp only [step, push] at h
    split at h
    · rename_i hk
      split at h
      · rename_i hb
        obtain ⟨hopen, rfl⟩ := BlockingQueue.push_done hb
        cases h
        exact .accept hk hopen
      · rename_i hb
        obtain ⟨-, rfl⟩ := BlockingQueue.push_threw hb
        cases h
        exact .refuse hk (Or.inr rfl)
      · cases h
    · cases h
  | schedule k answer =>
    simp only [step, submitSchedule] at h
    split at h
    · rename_i sc hk
      cases sc with
      | cas =>
        cases hr : s.running with
        | true =>
          simp only [schedule, hr, if_true] at h
          cases h
          exact .lost hk hr
        | false =>
          simp only [schedule, hr, Bool.false_eq_true, if_false] at h
          cases h
          exact .won hk hr
      | submit =>
        cases answer with
        | none =>
          cases h
          exact .handed hk
        | some e =>
          cases h
          exact .failed hk
      | clear e =>
        cases h
        exact .gaveUp hk
    · cases h
  | beginDrain =>
    simp only [step, beginDrain] at h
    split at h
    · cases h
    · cases h
      exact .beginDrain ‹_›
  | pop d =>
    simp only [step, pop] at h
    split at h
    · rename_i hd
      split at h
      · rename_i hb
        obtain ⟨rest, hq, rfl⟩ := BlockingQueue.tryPop_value hb
        cases h
        exact .take hd hq
      · rename_i hb
        obtain ⟨hq, rfl⟩ := BlockingQueue.tryPop_nullopt hb
        cases h
        exact .dry hd hq
      · cases h
    · cases h
  | run d =>
    simp only [step, runTask] at h
    split at h
    · cases h
      exact .run ‹_›
    · cases h
  | finish d =>
    simp only [step, finishTask] at h
    split at h
    · cases h
      exact .finish ‹_›
    · cases h
  | clear d =>
    simp only [step, clear] at h
    split at h
    · cases h
      exact .clear ‹_›
    · cases h
  | testEmpty d =>
    simp only [step, testEmpty] at h
    split at h
    · split at h
      · rename_i hq
        cases h
        exact .sawEmpty ‹_› (by simpa using hq)
      · cases h
        exact .sawTask ‹_›
    · cases h
  | loadStopped d =>
    simp only [step, loadStopped] at h
    split at h
    · split at h
      · cases h
        exact .sawStopped ‹_› ‹_›
      · cases h
        exact .again ‹_›
    · cases h
  | drainSchedule d answer =>
    simp only [step, drainSchedule] at h
    split at h
    · rename_i sc hd
      cases sc with
      | cas =>
        cases hr : s.running with
        | true =>
          simp only [schedule, hr, if_true] at h
          cases h
          exact .drainLost hd hr
        | false =>
          simp only [schedule, hr, Bool.false_eq_true, if_false] at h
          cases h
          exact .drainWon hd hr
      | submit =>
        cases answer with
        | none =>
          cases h
          exact .drainHanded hd
        | some e =>
          cases h
          exact .drainFailed hd
      | clear e =>
        cases h
        exact .drainGaveUp hd
    · cases h

/-! ## The token -/

def Sched.token : Sched → Nat
  | .cas => 0
  | _ => 1

def Stage.token : Stage → Nat
  | .scheduling sc => sc.token
  | _ => 0

/-- The drain is in its loop. -/
def Drain.loops : Drain → Nat
  | .popping => 1
  | .took _ => 1
  | .running _ => 1
  | .clearing => 1
  | _ => 0

def Drain.token : Drain → Nat
  | .scheduling sc => sc.token
  | pc => pc.loops

/-- `m_running` is set if and only if there is a token, and there is no second one. -/
def Token (s : Exec) : Prop :=
  (s.submits.map Stage.token).sum + s.queued + (s.drains.map Drain.token).sum = if s.running then 1 else 0

theorem Move.token (hmove : Move s a s') (h : Token s) : Token s' := by
  have hstage {k : Nat} {a b : Stage} (hk : s.submits[k]? = some a) := sum_set_of Stage.token hk b
  have hdrain {d : Nat} {a b : Drain} (hd : s.drains[d]? = some a) := sum_set_of Drain.token hd b
  unfold Token at h ⊢
  cases hmove with
  | flags => exact h
  | idle => exact h
  | stopQueue => exact h
  | submit => simpa [Stage.token] using h
  | check hk =>
    rw [map_set_of hk (by rfl)]
    exact h
  | refuse hk hst =>
    rw [map_set_of hk (by rcases hst with rfl | rfl <;> rfl)]
    exact h
  | accept hk =>
    rw [map_set_of hk (by rfl)]
    exact h
  | lost hk =>
    rw [map_set_of hk (by rfl)]
    exact h
  | won hk hr =>
    have := hstage (b := .scheduling .submit) hk
    simp only [hr, Stage.token, Sched.token, Bool.false_eq_true, if_false, if_true] at h this ⊢
    omega
  | handed hk =>
    have := hstage (b := .returned) hk
    simp only [Stage.token, Sched.token] at this ⊢
    omega
  | failed hk =>
    rw [map_set_of hk (by rfl)]
    exact h
  | @gaveUp k e answer hk =>
    have := hstage (b := .threw (.err e)) hk
    simp only [Stage.token, Sched.token, Bool.false_eq_true, if_false] at this ⊢
    split at h <;> omega
  | beginDrain hn =>
    simp only [hn, List.map_append, List.sum_append, List.map_singleton, List.sum_singleton, Drain.token, Drain.loops] at h ⊢
    omega
  | take hd =>
    rw [map_set_of hd (by rfl)]
    exact h
  | dry hd =>
    rw [map_set_of hd (by rfl)]
    exact h
  | run hd =>
    rw [map_set_of hd (by rfl)]
    exact h
  | finish hd =>
    rw [map_set_of hd (by rfl)]
    exact h
  | clear hd =>
    have := hdrain (b := .testing) hd
    simp only [Drain.token, Drain.loops, Bool.false_eq_true, if_false] at this ⊢
    split at h <;> omega
  | sawEmpty hd =>
    rw [map_set_of hd (by rfl)]
    exact h
  | sawTask hd =>
    rw [map_set_of hd (by rfl)]
    exact h
  | again hd =>
    rw [map_set_of hd (by rfl)]
    exact h
  | sawStopped hd =>
    rw [map_set_of hd (by rfl)]
    exact h
  | drainLost hd =>
    rw [map_set_of hd (by rfl)]
    exact h
  | drainWon hd hr =>
    have := hdrain (b := .scheduling .submit) hd
    simp only [hr, Drain.token, Sched.token, Bool.false_eq_true, if_false, if_true] at h this ⊢
    omega
  | drainHanded hd =>
    have := hdrain (b := .ended) hd
    simp only [Drain.token, Drain.loops, Sched.token] at this ⊢
    omega
  | drainFailed hd =>
    rw [map_set_of hd (by rfl)]
    exact h
  | drainGaveUp hd =>
    have := hdrain (b := .ended) hd
    simp only [Drain.token, Drain.loops, Sched.token, Bool.false_eq_true, if_false] at this ⊢
    split at h <;> omega

theorem Token.loops_le (h : Token s) : (s.drains.map Drain.loops).sum ≤ 1 := by
  have hle : (s.drains.map Drain.loops).sum ≤ (s.drains.map Drain.token).sum := by
    refine List.sum_le_sum fun pc _ => ?_
    cases pc <;> simp [Drain.loops, Drain.token]
  unfold Token at h
  split at h <;> omega

/-- A drain in its loop has the token. -/
theorem Token.running (h : Token s) {d : Nat} {pc : Drain} (hd : s.drains[d]? = some pc) (hpc : pc.token = 1) :
    s.running = true := by
  have hle := List.single_le_sum (fun _ _ => Nat.zero_le _) _
    (List.mem_map_of_mem (f := Drain.token) (List.mem_of_getElem? hd))
  unfold Token at h
  split at h
  · assumption
  · omega

/-! ## The order -/

def Drain.took? : Drain → Option Nat
  | .took task => some task
  | _ => none

def Drain.running? : Drain → Option Nat
  | .running task => some task
  | _ => none

/-- What was accepted has begun, or is about to, or is in the queue; what has begun is finished or running. -/
structure InOrder (s : Exec) : Prop where
  accepted : s.begun ++ s.drains.filterMap Drain.took? ++ s.tasks.queue = s.accepted
  begun : s.finished ++ s.drains.filterMap Drain.running? = s.begun

theorem took?_of_loops {pc : Drain} (h : pc.loops = 0) : pc.took? = none := by cases pc <;> first | rfl | cases h

theorem running?_of_loops {pc : Drain} (h : pc.loops = 0) : pc.running? = none := by cases pc <;> first | rfl | cases h

/-- A drain goes on and neither takes nor runs a task. -/
theorem InOrder.set (h : InOrder s) {d : Nat} {a b : Drain} (hd : s.drains[d]? = some a) (htook : b.took? = a.took?)
    (hruns : b.running? = a.running?) (r : Bool) (n : Nat) :
    InOrder { s with drains := s.drains.set d b, running := r, queued := n } where
  accepted := by
    rw [filterMap_set_of hd htook]
    exact h.accepted
  begun := by
    rw [filterMap_set_of hd hruns]
    exact h.begun

theorem Move.inOrder (hmove : Move s a s') (htoken : Token s) (h : InOrder s) : InOrder s' := by
  -- a drain in its loop is alone
  have hone {pc : Drain} (hpc : pc.loops = 1) : (s.drains.map Drain.loops).sum ≤ pc.loops := by
    rw [hpc]
    exact htoken.loops_le
  cases hmove with
  | accept hk =>
    refine ⟨?_, h.begun⟩
    rw [← List.append_assoc, h.accepted]
  | beginDrain hn =>
    have htook : [Drain.popping].filterMap Drain.took? = [] := rfl
    have hruns : [Drain.popping].filterMap Drain.running? = [] := rfl
    refine ⟨?_, ?_⟩
    · rw [List.filterMap_append, htook, List.append_nil]
      exact h.accepted
    · rw [List.filterMap_append, hruns, List.append_nil]
      exact h.begun
  | @take d task rest hd hq =>
    have hnone := filterMap_alone hd (hone rfl) fun _ => took?_of_loops
    have hsome := filterMap_set_alone hd (hone rfl) (fun _ => took?_of_loops) (.took task)
    have haccepted := h.accepted
    rw [hnone, hq] at haccepted
    refine ⟨?_, ?_⟩
    · rw [hsome]
      simpa [Drain.took?] using haccepted
    · rw [filterMap_set_of hd (by rfl)]
      exact h.begun
  | @run d task hd =>
    have htook := filterMap_alone hd (hone rfl) fun _ => took?_of_loops
    have htook' := filterMap_set_alone hd (hone rfl) (fun _ => took?_of_loops) (.running task)
    have hruns := filterMap_alone hd (hone rfl) fun _ => running?_of_loops
    have hruns' := filterMap_set_alone hd (hone rfl) (fun _ => running?_of_loops) (.running task)
    have haccepted := h.accepted
    have hbegun := h.begun
    rw [htook] at haccepted
    rw [hruns] at hbegun
    refine ⟨?_, ?_⟩
    · rw [htook']
      simpa [Drain.took?] using haccepted
    · rw [hruns']
      simpa [Drain.running?] using hbegun
  | @finish d task hd =>
    have hruns := filterMap_alone hd (hone rfl) fun _ => running?_of_loops
    have hruns' := filterMap_set_alone hd (hone rfl) (fun _ => running?_of_loops) .popping
    have hbegun := h.begun
    rw [hruns] at hbegun
    refine ⟨?_, ?_⟩
    · rw [filterMap_set_of hd (by rfl)]
      exact h.accepted
    · rw [hruns']
      simpa [Drain.running?] using hbegun
  | dry hd hq => exact h.set hd (by rfl) (by rfl) s.running s.queued
  | clear hd => exact h.set hd (by rfl) (by rfl) false s.queued
  | sawEmpty hd => exact h.set hd (by rfl) (by rfl) s.running s.queued
  | sawTask hd => exact h.set hd (by rfl) (by rfl) s.running s.queued
  | again hd => exact h.set hd (by rfl) (by rfl) s.running s.queued
  | sawStopped hd => exact h.set hd (by rfl) (by rfl) s.running s.queued
  | drainLost hd => exact h.set hd (by rfl) (by rfl) s.running s.queued
  | drainWon hd => exact h.set hd (by rfl) (by rfl) true s.queued
  | drainHanded hd => exact h.set hd (by rfl) (by rfl) s.running _
  | drainFailed hd => exact h.set hd (by rfl) (by rfl) s.running s.queued
  | drainGaveUp hd => exact h.set hd (by rfl) (by rfl) false s.queued
  | _ => exact ⟨h.accepted, h.begun⟩

/-- At most one drain is in its loop, at most one task runs, and tasks start in the order they were pushed. -/
structure Serial (s : Exec) : Prop where
  drains : s.drains.countP (fun pc => pc.loops = 1) ≤ 1
  tasks : s.drains.countP (fun pc => pc.running?.isSome) ≤ 1
  order : s.begun <+: s.accepted

theorem countP_le_sum {l : List Drain} {p : Drain → Bool} (hp : ∀ pc, p pc = true → pc.loops = 1) :
    l.countP p ≤ (l.map Drain.loops).sum := by
  induction l with
  | nil => exact Nat.zero_le _
  | cons pc l ih =>
    rw [List.countP_cons, List.map_cons, List.sum_cons]
    split
    · rename_i h
      have := hp pc h
      omega
    · omega

theorem serial_of (htoken : Token s) (h : InOrder s) : Serial s where
  drains := (countP_le_sum fun pc hpc => by simpa using hpc).trans htoken.loops_le
  tasks := by
    refine (countP_le_sum fun pc hpc => ?_).trans htoken.loops_le
    cases pc with
    | running task => rfl
    | _ => cases hpc
  order := ⟨s.drains.filterMap Drain.took? ++ s.tasks.queue, by rw [← List.append_assoc]; exact h.accepted⟩

theorem make_serial (queueCapacity : Nat) : Token (make queueCapacity) ∧ InOrder (make queueCapacity) := ⟨rfl, rfl, rfl⟩

theorem reach_serial {ok : Exec → Act → Prop} {queueCapacity : Nat} (h : (machine queueCapacity).Reach ok s) :
    Token s ∧ InOrder s := by
  refine h.inv (I := fun s => Token s ∧ InOrder s) (make_serial queueCapacity) fun s a s' hI _ hstep => ?_
  have hmove := step_move hstep
  exact ⟨hmove.token hI.1, hmove.inOrder hI.1 hI.2⟩

/-! ## Somebody sees to the queue -/

/-- A submitter that has pushed and is yet to try for the token. -/
def Stage.waits : Stage → Bool
  | .scheduling .cas => true
  | _ => false

/-- A drain that has given the token up and is yet to look at the queue again, or to try for it. -/
def Drain.looks : Drain → Bool
  | .testing => true
  | .loading => true
  | .scheduling .cas => true
  | _ => false

def Tended (s : Exec) : Prop :=
  s.tasks.queue ≠ [] → s.running = true ∨ s.submits.any Stage.waits = true ∨ s.drains.any Drain.looks = true

/-- The step at which a task is stranded: the last look of a drain finds the executor stopped, with a task in the queue
    and nobody else to see to it, also no other drain that is yet to look. -/
def strands (s : Exec) : Act → Bool
  | .loadStopped d =>
    s.stopped && !s.tasks.queue.isEmpty && !s.running && !s.submits.any Stage.waits &&
      !(s.drains.set d .ended).any Drain.looks
  | _ => false

/-- The pool throws. -/
def refuses : Act → Bool
  | .schedule _ (some _) => true
  | .drainSchedule _ (some _) => true
  | _ => false

theorem Tended.set_stage (h : Tended s) {k : Nat} {a b : Stage} (hk : s.submits[k]? = some a) (ha : a.waits = false) :
    Tended { s with submits := s.submits.set k b } := by
  intro hq
  rcases h hq with hr | hw | hl
  · exact Or.inl hr
  · exact Or.inr (Or.inl (any_set_of_any hk (by simp [ha]) hw))
  · exact Or.inr (Or.inr hl)

theorem Tended.set_drain (h : Tended s) {d : Nat} {a b : Drain} (hd : s.drains[d]? = some a)
    (hab : a.looks = true → b.looks = true) : Tended { s with drains := s.drains.set d b } := by
  intro hq
  rcases h hq with hr | hw | hl
  · exact Or.inl hr
  · exact Or.inr (Or.inl hw)
  · exact Or.inr (Or.inr (any_set_of_any hd hab hl))

def Sched.failing : Sched → Bool
  | .clear _ => true
  | _ => false

def Stage.failing : Stage → Bool
  | .scheduling sc => sc.failing
  | _ => false

def Drain.failing : Drain → Bool
  | .scheduling sc => sc.failing
  | _ => false

/-- The pool has thrown at nobody. -/
structure Unfailed (s : Exec) : Prop where
  submits : s.submits.any Stage.failing = false
  drains : s.drains.any Drain.failing = false

theorem Move.unfailed (hmove : Move s a s') (h : Unfailed s) (hok : refuses a = false) : Unfailed s' := by
  have hstage {k : Nat} {a b : Stage} (hk : s.submits[k]? = some a) (hb : b.failing = false) :
      (s.submits.set k b).any Stage.failing = false := by
    by_contra hany
    exact absurd (any_of_any_set hk hb (by simpa using hany)) (by simp [h.submits])
  have hdrain {d : Nat} {a b : Drain} (hd : s.drains[d]? = some a) (hb : b.failing = false) :
      (s.drains.set d b).any Drain.failing = false := by
    by_contra hany
    exact absurd (any_of_any_set hd hb (by simpa using hany)) (by simp [h.drains])
  cases hmove with
  | flags => exact ⟨h.submits, h.drains⟩
  | idle => exact h
  | stopQueue => exact ⟨h.submits, h.drains⟩
  | submit =>
    refine ⟨?_, h.drains⟩
    rw [List.any_append, h.submits]
    rfl
  | check hk => exact ⟨hstage hk rfl, h.drains⟩
  | refuse hk hst => exact ⟨hstage hk rfl, h.drains⟩
  | accept hk => exact ⟨hstage hk rfl, h.drains⟩
  | lost hk => exact ⟨hstage hk rfl, h.drains⟩
  | won hk => exact ⟨hstage hk rfl, h.drains⟩
  | handed hk => exact ⟨hstage hk rfl, h.drains⟩
  | failed hk => cases hok
  | gaveUp hk => exact ⟨hstage hk rfl, h.drains⟩
  | beginDrain hn =>
    refine ⟨h.submits, ?_⟩
    rw [List.any_append, h.drains]
    rfl
  | take hd => exact ⟨h.submits, hdrain hd rfl⟩
  | dry hd => exact ⟨h.submits, hdrain hd rfl⟩
  | run hd => exact ⟨h.submits, hdrain hd rfl⟩
  | finish hd => exact ⟨h.submits, hdrain hd rfl⟩
  | clear hd => exact ⟨h.submits, hdrain hd rfl⟩
  | sawEmpty hd => exact ⟨h.submits, hdrain hd rfl⟩
  | sawTask hd => exact ⟨h.submits, hdrain hd rfl⟩
  | again hd => exact ⟨h.submits, hdrain hd rfl⟩
  | sawStopped hd => exact ⟨h.submits, hdrain hd rfl⟩
  | drainLost hd => exact ⟨h.submits, hdrain hd rfl⟩
  | drainWon hd => exact ⟨h.submits, hdrain hd rfl⟩
  | drainHanded hd => exact ⟨h.submits, hdrain hd rfl⟩
  | drainFailed hd => cases hok
  | drainGaveUp hd => exact ⟨h.submits, hdrain hd rfl⟩

/-- While the pool accepts and no step strands a task, the queue is tended. -/
theorem Move.tended (hmove : Move s a s') (htoken : Token s) (h : Tended s) (hfail : Unfailed s) (hok : refuses a = false)
    (hs : strands s a = false) : Tended s' := by
  cases hmove with
  | flags => exact h
  | idle => exact h
  | stopQueue => exact h
  | submit =>
    intro hq
    rcases h hq with hr | hw | hl
    · exact Or.inl hr
    · exact Or.inr (Or.inl (by simp [hw]))
    · exact Or.inr (Or.inr hl)
  | check hk => exact h.set_stage hk rfl
  | refuse hk hst => exact h.set_stage hk (by rcases hst with rfl | rfl <;> rfl)
  | accept hk =>
    exact fun _ => Or.inr (Or.inl (any_iff_getElem?.mpr ⟨_, _, by rw [getElem?_set_of hk, if_pos rfl], rfl⟩))
  | lost hk hr => exact fun _ => Or.inl hr
  | won hk hr => exact fun _ => Or.inl rfl
  | handed hk => exact h.set_stage hk rfl
  | failed hk => cases hok
  | gaveUp hk =>
    have hany : s.submits.any Stage.failing = true := any_iff_getElem?.mpr ⟨_, _, hk, rfl⟩
    rw [hfail.submits] at hany
    cases hany
  | beginDrain hn =>
    intro hq
    rcases h hq with hr | hw | hl
    · exact Or.inl hr
    · exact Or.inr (Or.inl hw)
    · exact Or.inr (Or.inr (by simp [hl]))
  | take hd hq => exact fun _ => Or.inl (htoken.running hd rfl)
  | dry hd hq => exact fun hne => absurd hq hne
  | run hd => exact h.set_drain hd (by simp [Drain.looks])
  | finish hd => exact h.set_drain hd (by simp [Drain.looks])
  | clear hd =>
    exact fun _ => Or.inr (Or.inr (any_iff_getElem?.mpr ⟨_, _, by rw [getElem?_set_of hd, if_pos rfl], rfl⟩))
  | sawEmpty hd hq => exact fun hne => absurd hq hne
  | sawTask hd => exact h.set_drain hd fun _ => rfl
  | again hd => exact h.set_drain hd fun _ => rfl
  | sawStopped hd hstopped =>
    intro hq
    by_contra hnone
    simp only [not_or, Bool.not_eq_true] at hnone
    rw [strands, hstopped, hnone.1, hnone.2.1, hnone.2.2] at hs
    exact hq (by simpa using hs)
  | drainLost hd hr => exact fun _ => Or.inl hr
  | drainWon hd hr => exact fun _ => Or.inl rfl
  | drainHanded hd => exact h.set_drain hd (by simp [Drain.looks])
  | drainFailed hd => cases hok
  | drainGaveUp hd =>
    have hany : s.drains.any Drain.failing = true := any_iff_getElem?.mpr ⟨_, _, hd, rfl⟩
    rw [hfail.drains] at hany
    cases hany

/-! ## Returned tasks -/

def Stage.pushed : Stage → Bool
  | .scheduling _ => true
  | .returned => true
  | _ => false

/-- Whoever has pushed has its task among the accepted ones. -/
def Pushed (s : Exec) : Prop := ∀ k st, s.submits[k]? = some st → st.pushed = true → k ∈ s.accepted

theorem Pushed.set (h : Pushed s) {k : Nat} {a b : Stage} (hk : s.submits[k]? = some a) (hab : b.pushed = true → a.pushed = true) :
    ∀ u st, (s.submits.set k b)[u]? = some st → st.pushed = true → u ∈ s.accepted := by
  intro u st hu hst
  rw [getElem?_set_of hk] at hu
  split at hu
  · rename_i heq
    cases hu
    rw [heq]
    exact h k a hk (hab hst)
  · exact h u st hu hst

theorem Move.pushed (hmove : Move s a s') (h : Pushed s) : Pushed s' := by
  cases hmove with
  | submit =>
    intro k st hk hst
    rcases getElem?_snoc s.submits .checking k with heq | ⟨-, heq⟩
    · exact h k st (heq.symm.trans hk) hst
    · cases heq.symm.trans hk
      cases hst
  | check hk => exact h.set hk (by simp [Stage.pushed])
  | refuse hk hst => exact h.set hk (by simp [Stage.pushed])
  | accept hk =>
    intro u st hu hst
    rw [getElem?_set_of hk] at hu
    split at hu
    · rename_i heq
      rw [heq]
      exact List.mem_append_right _ (List.mem_singleton_self _)
    · exact List.mem_append_left _ (h u st hu hst)
  | lost hk => exact h.set hk fun _ => rfl
  | won hk => exact h.set hk fun _ => rfl
  | handed hk => exact h.set hk fun _ => rfl
  | failed hk => exact h.set hk fun _ => rfl
  | gaveUp hk => exact h.set hk (by simp [Stage.pushed])
  | _ => exact h

/-- A submission between its push and the end of its `schedule()`. -/
def Stage.middle : Stage → Bool
  | .scheduling _ => true
  | _ => false

/-- No drain is running or with the pool, and no submitter is between its push and the end of its `schedule()`. -/
structure AtRest (s : Exec) : Prop where
  drains : ∀ pc ∈ s.drains, pc = .ended
  queued : s.queued = 0
  submits : ∀ st ∈ s.submits, st.middle = false

/-- A task in the queue whose `submit` has returned has a drain that runs or is with the pool, or a submitter in the middle. -/
def Covered (s : Exec) : Prop :=
  (∃ k ∈ s.tasks.queue, s.submits[k]? = some .returned) →
    (∃ pc ∈ s.drains, pc ≠ .ended) ∨ 0 < s.queued ∨ ∃ st ∈ s.submits, st.middle = true

theorem AtRest.empty (hrest : AtRest s) (htoken : Token s) (h : Tended s) : s.tasks.queue = [] := by
  have hstages : (s.submits.map Stage.token).sum = 0 := List.sum_eq_zero fun x hx => by
    obtain ⟨st, hst, rfl⟩ := List.mem_map.mp hx
    have := hrest.submits st hst
    cases st with
    | scheduling sc => cases this
    | _ => rfl
  have hdrains : (s.drains.map Drain.token).sum = 0 := List.sum_eq_zero fun x hx => by
    obtain ⟨pc, hpc, rfl⟩ := List.mem_map.mp hx
    rw [hrest.drains pc hpc]
    rfl
  by_contra hq
  rcases h hq with hr | hw | hl
  · simp [Token, hr, hstages, hdrains, hrest.queued] at htoken
  · obtain ⟨st, hst, hwaits⟩ := List.any_eq_true.mp hw
    have := hrest.submits st hst
    cases st with
    | scheduling sc => cases this
    | _ => cases hwaits
  · obtain ⟨pc, hpc, hlooks⟩ := List.any_eq_true.mp hl
    rw [hrest.drains pc hpc] at hlooks
    cases hlooks

/-- At rest all that was accepted is finished. -/
theorem AtRest.finished (hrest : AtRest s) (hempty : s.tasks.queue = []) (horder : InOrder s) : s.finished = s.accepted := by
  have hnone (g : Drain → Option Nat) (hg : g .ended = none) : s.drains.filterMap g = [] :=
    List.filterMap_eq_nil_iff.mpr fun pc hpc => by rw [hrest.drains pc hpc, hg]
  have hbegun := horder.begun
  have haccepted := horder.accepted
  rw [hnone _ rfl, List.append_nil] at hbegun
  rw [hnone _ rfl, hempty, List.append_nil, List.append_nil] at haccepted
  exact hbegun.trans haccepted

/-- Runs in which the pool accepts and no drain ends with the executor stopped, a task in the queue and nobody to see to it. -/
theorem serial_executor_strands_no_task {queueCapacity : Nat}
    (h : (machine queueCapacity).Reach (fun s a => refuses a = false ∧ strands s a = false) s) :
    Covered s ∧ (AtRest s → ∀ k, s.submits[k]? = some .returned → k ∈ s.finished) := by
  obtain ⟨htoken, horder⟩ := reach_serial h
  have hpushed : Pushed s := h.inv (I := Pushed) (fun k st hk => by simp [machine, make] at hk)
    fun _ _ _ hI _ hstep => (step_move hstep).pushed hI
  have htended : Unfailed s ∧ Tended s := by
    refine h.inv_of_reach (I := fun s => Unfailed s ∧ Tended s) ⟨⟨rfl, rfl⟩, fun hq => absurd rfl hq⟩ ?_
    intro t a t' hr hI hok hstep
    have hmove := step_move hstep
    exact ⟨hmove.unfailed hI.1 hok.1, hmove.tended (reach_serial hr).1 hI.2 hI.1 hok.1 hok.2⟩
  refine ⟨?_, fun hrest k hk => ?_⟩
  · rintro ⟨k, hk, -⟩
    by_contra hnone
    simp only [not_or, not_exists, not_and, ne_eq, not_not, Nat.not_lt, Nat.le_zero, Bool.not_eq_true] at hnone
    have hempty := AtRest.empty ⟨hnone.1, hnone.2.1, hnone.2.2⟩ htoken htended.2
    rw [hempty] at hk
    cases hk
  · rw [hrest.finished (hrest.empty htoken htended.2) horder]
    exact hpushed k .returned hk rfl

/-- A second task, pushed while the drain is in its loop, is found by it. -/
theorem serial_executor_strands_no_task_two :
    ∃ s, (machine 0).Reach (fun s a => refuses a = false ∧ strands s a = false) s ∧ s.submits[1]? = some .returned ∧
      1 ∈ s.finished := by
  obtain ⟨s, hr, hs⟩ := Machine.Reach.of_run (machine 0) (fun s a => refuses a = false ∧ strands s a = false)
    (fun s => s.submits == [.returned, .returned] && s.queued == 0 && s.drains == [.ended])
    [.start, .startStore, .submit, .check 0, .push 0, .schedule 0 none, .schedule 0 none, .beginDrain, .pop 0, .run 0,
      .submit, .check 1, .push 1, .schedule 1 none, .stop, .stopQueue, .finish 0, .pop 0, .run 0, .finish 0, .pop 0,
      .clear 0, .testEmpty 0]
    (by decide +kernel)
  simp only [Bool.and_eq_true, beq_iff_eq] at hs
  obtain ⟨⟨hsub, hqueued⟩, hdrains⟩ := hs
  have hrest : AtRest s := ⟨by simp [hdrains], hqueued, by simp [hsub, Stage.middle]⟩
  have hret : s.submits[1]? = some .returned := by rw [hsub]; rfl
  exact ⟨s, hr, hret, (serial_executor_strands_no_task hr).2 hrest 1 hret⟩

/-- Task 1 is pushed when the drain's loop is over but `m_running` still set, so its `schedule()` returns at once; then comes `stop`,
    and the drain does not go on. -/
theorem a_task_is_stranded_by_stop : ∃ s, (machine 0).Reach (fun _ a => refuses a = false) s ∧ ¬ Covered s := by
  obtain ⟨s, hr, hs⟩ := Machine.Reach.of_run (machine 0) (fun _ a => refuses a = false)
    (fun s => s.submits == [.returned, .returned] && s.tasks.queue == [1] && s.queued == 0 && s.drains == [.ended])
    [.start, .startStore, .submit, .check 0, .push 0, .schedule 0 none, .schedule 0 none, .beginDrain, .pop 0, .run 0,
      .finish 0, .submit, .check 1, .pop 0, .push 1, .schedule 1 none, .stop, .clear 0, .testEmpty 0, .loadStopped 0]
    (by decide +kernel)
  simp only [Bool.and_eq_true, beq_iff_eq] at hs
  obtain ⟨⟨⟨hsub, hqueue⟩, hqueued⟩, hdrains⟩ := hs
  refine ⟨s, hr, fun hcovered => ?_⟩
  have := hcovered ⟨1, by simp [hqueue], by rw [hsub]; rfl⟩
  simp [hsub, hqueued, hdrains, Stage.middle] at this

/-! ## Submissions that throw -/

/-- Pushed, and the pool has not refused its drain. -/
def Stage.kept : Stage → Bool
  | .scheduling (.clear _) => false
  | .scheduling _ => true
  | .returned => true
  | _ => false

/-- What was accepted belongs to a submission that has not thrown and is not about to. -/
def Kept (s : Exec) : Prop := ∀ k ∈ s.accepted, ∃ st, s.submits[k]? = some st ∧ st.kept = true

/-- The pool refuses the drain that a `submit` hands it. -/
def rejects (s : Exec) : Act → Bool
  | .schedule k (some _) => s.submits[k]? = some (.scheduling .submit)
  | _ => false

theorem Kept.set (h : Kept s) {k : Nat} {a b : Stage} (hk : s.submits[k]? = some a) (hab : a.kept = true → b.kept = true) :
    ∀ u ∈ s.accepted, ∃ st, (s.submits.set k b)[u]? = some st ∧ st.kept = true := by
  intro u hu
  obtain ⟨st, hst, hkept⟩ := h u hu
  rw [getElem?_set_of hk]
  split
  · rename_i heq
    rw [heq, hk] at hst
    cases hst
    exact ⟨b, rfl, hab hkept⟩
  · exact ⟨st, hst, hkept⟩

theorem Move.kept (hmove : Move s a s') (h : Kept s) (hok : rejects s a = false) : Kept s' := by
  cases hmove with
  | submit =>
    intro k hk
    obtain ⟨st, hst, hkept⟩ := h k hk
    rcases getElem?_snoc s.submits .checking k with heq | ⟨hnone, -⟩
    · exact ⟨st, heq.trans hst, hkept⟩
    · simp [hnone] at hst
  | check hk => exact h.set hk (by simp [Stage.kept])
  | refuse hk hst => exact h.set hk (by rcases hst with rfl | rfl <;> simp [Stage.kept])
  | accept hk =>
    intro u hu
    rcases List.mem_append.mp hu with hu | hu
    · exact h.set hk (by simp [Stage.kept]) u hu
    · obtain rfl := List.mem_singleton.mp hu
      exact ⟨.scheduling .cas, by rw [getElem?_set_of hk, if_pos rfl], rfl⟩
  | lost hk => exact h.set hk fun _ => rfl
  | won hk => exact h.set hk fun _ => rfl
  | handed hk => exact h.set hk fun _ => rfl
  | failed hk => simp [rejects, hk] at hok
  | gaveUp hk => exact h.set hk (by simp [Stage.kept])
  | _ => exact h

/-- A submission that throws leaves no task behind, and one that returns has its task in the queue or with a drain. -/
structure AllOrNothing (s : Exec) : Prop where
  threw : ∀ k e, s.submits[k]? = some (.threw e) →
    k ∉ s.tasks.queue ∧ k ∉ s.drains.filterMap Drain.took? ∧ k ∉ s.begun
  returned : ∀ k, s.submits[k]? = some .returned →
    k ∈ s.tasks.queue ∨ k ∈ s.drains.filterMap Drain.took? ∨ k ∈ s.begun

/-- Runs in which the pool accepts the drain of every `submit` that hands it one. -/
theorem submit_is_all_or_nothing {queueCapacity : Nat}
    (h : (machine queueCapacity).Reach (fun s a => rejects s a = false) s) : AllOrNothing s := by
  have horder := (reach_serial h).2
  have hpushed : Pushed s := h.inv (I := Pushed) (fun k st hk => by simp [machine, make] at hk)
    fun _ _ _ hI _ hstep => (step_move hstep).pushed hI
  have hkept : Kept s := h.inv (I := Kept) (fun k hk => by simp [machine, make] at hk)
    fun _ _ _ hI hok hstep => (step_move hstep).kept hI hok
  have hwhere (k : Nat) :
      k ∈ s.accepted ↔ k ∈ s.begun ∨ k ∈ s.drains.filterMap Drain.took? ∨ k ∈ s.tasks.queue := by
    rw [← horder.accepted, List.mem_append, List.mem_append, or_assoc]
  refine ⟨fun k e hk => ?_, fun k hk => ?_⟩
  · have hnot : k ∉ s.accepted := by
      intro hacc
      obtain ⟨st, hst, hkept⟩ := hkept k hacc
      rw [hk] at hst
      cases hst
      cases hkept
    rw [hwhere] at hnot
    simp only [not_or] at hnot
    exact ⟨hnot.2.2, hnot.2.1, hnot.1⟩
  · rcases (hwhere k).mp (hpushed k .returned hk rfl) with hb | ht | hq
    · exact .inr (.inr hb)
    · exact .inr (.inl ht)
    · exact .inl hq

/-- The executor is stopped between the check of a second `submit` and its push, which throws. -/
theorem submit_is_all_or_nothing_stopped :
    ∃ s, (machine 0).Reach (fun s a => rejects s a = false) s ∧ s.submits[0]? = some .returned ∧
      s.submits[1]? = some (.threw .queueStopped) ∧ AllOrNothing s := by
  obtain ⟨s, hr, hs⟩ := Machine.Reach.of_run (machine 0) (fun s a => rejects s a = false)
    (fun s => s.submits == [.returned, .threw .queueStopped])
    [.start, .startStore, .submit, .check 0, .push 0, .schedule 0 none, .schedule 0 none, .submit, .check 1, .stop,
      .stopQueue, .push 1]
    (by decide +kernel)
  have hsub : s.submits = [.returned, .threw .queueStopped] := by simpa using hs
  exact ⟨s, hr, by rw [hsub]; rfl, by rw [hsub]; rfl, submit_is_all_or_nothing hr⟩

/-- The pool refuses the drain of task 0, whose `submit` throws with the task in the queue; the drain of the next
    submission runs it. -/
theorem a_submission_that_threw_is_run :
    ∃ s, (machine 0).Reach (fun _ _ => True) s ∧
      s.submits[0]? = some (.threw (.err (.logicError "ThreadPool is not started"))) ∧ 0 ∈ s.begun ∧ ¬ AllOrNothing s := by
  obtain ⟨s, hr, hs⟩ := Machine.Reach.of_run (machine 0) (fun _ _ => True)
    (fun s => s.submits == [.threw (.err (.logicError "ThreadPool is not started")), .returned] && s.begun == [0])
    [.start, .startStore, .submit, .check 0, .push 0, .schedule 0 none,
      .schedule 0 (some (.logicError "ThreadPool is not started")), .schedule 0 none,
      .submit, .check 1, .push 1, .schedule 1 none, .schedule 1 none, .beginDrain, .pop 0, .run 0]
    (by decide +kernel)
  simp only [Bool.and_eq_true, beq_iff_eq] at hs
  obtain ⟨hsub, hbegun⟩ := hs
  have hthrew : s.submits[0]? = some (.threw (.err (.logicError "ThreadPool is not started"))) := by
    rw [hsub]
    rfl
  refine ⟨s, hr, hthrew, by simp [hbegun], fun h => ?_⟩
  exact (h.threw 0 _ hthrew).2.2 (by simp [hbegun])

end Dbase.Thread.SerialExecutor

/-! ## Shards -/

namespace Dbase.Thread.ShardedExecutor

open Dbase.Lib
open Dbase.Lib.Crew
open Dbase.Thread.SerialExecutor (Exec Token InOrder Serial)

variable {Key : Type} {hash : Key → Nat} {S S' : Shards Key}

/-- An executor of a shard is in order, and has submissions under keys of its shard only. -/
def ShardOk (hash : Key → Nat) (shardCount i : Nat) (x : Exec × List Key) : Prop :=
  (Token x.1 ∧ InOrder x.1) ∧ x.2.length = x.1.submits.length ∧ ∀ key ∈ x.2, shardIndexFor hash shardCount key = i

structure ShardsOk (hash : Key → Nat) (shardCount : Nat) (S : Shards Key) : Prop where
  count : S.executors.length = shardCount
  shards : ∀ i x, S.executors[i]? = some x → ShardOk hash shardCount i x

theorem ShardsOk.set {shardCount : Nat} (h : ShardsOk hash shardCount S) {i : Nat} {x y : Exec × List Key}
    (hi : S.executors[i]? = some x) (hy : ShardOk hash shardCount i y) : ShardsOk hash shardCount ⟨S.executors.set i y⟩ := by
  refine ⟨by rw [List.length_set, h.count], fun u z hu => ?_⟩
  rw [getElem?_set_of hi] at hu
  split at hu
  · rename_i heq
    cases hu
    rw [heq]
    exact hy
  · exact h.shards u z hu

theorem submits_length_of_step {e e' : Exec} {a : SerialExecutor.Act} (h : SerialExecutor.step e a = some e')
    (ha : a ≠ .submit) : e'.submits.length = e.submits.length := by
  cases SerialExecutor.step_move h with
  | submit => exact absurd rfl ha
  | _ => first | rfl | exact List.length_set ..

theorem step_ok {shardCount : Nat} {a : Act Key} (hstep : step hash S a = some S') (h : ShardsOk hash shardCount S) :
    ShardsOk hash shardCount S' := by
  have hkeep {i : Nat} {e e' : Exec} {keys : List Key} {a : SerialExecutor.Act} (hi : S.executors[i]? = some (e, keys))
      (he : SerialExecutor.step e a = some e') : Token e' ∧ InOrder e' := by
    obtain ⟨⟨htoken, horder⟩, -⟩ := h.shards i _ hi
    exact ⟨(SerialExecutor.step_move he).token htoken, (SerialExecutor.step_move he).inOrder htoken horder⟩
  cases a with
  | submit key =>
    obtain ⟨⟨e, keys⟩, hi, hstep⟩ := Option.bind_eq_some_iff.mp hstep
    obtain ⟨e', he, rfl⟩ := Option.map_eq_some_iff.mp hstep
    obtain ⟨-, hlen, hkeys⟩ := h.shards _ _ hi
    refine h.set hi ⟨hkeep hi he, ?_, fun key' hkey' => ?_⟩
    · cases he
      simpa using hlen
    · rcases List.mem_append.mp hkey' with hold | hnew
      · exact hkeys key' hold
      · rw [List.mem_singleton.mp hnew, h.count]
  | shard i a =>
    by_cases ha : a = .submit
    · subst ha
      cases hstep
    · have hstep' : (S.executors[i]?).bind (fun x => (SerialExecutor.step x.1 a).map fun e =>
          (⟨S.executors.set i (e, x.2)⟩ : Shards Key)) = some S' := by
        cases a <;> first | exact hstep | exact absurd rfl ha
      obtain ⟨⟨e, keys⟩, hi, hstep⟩ := Option.bind_eq_some_iff.mp hstep'
      obtain ⟨e', he, rfl⟩ := Option.map_eq_some_iff.mp hstep
      obtain ⟨-, hlen, hkeys⟩ := h.shards _ _ hi
      exact h.set hi ⟨hkeep hi he, hlen.trans (submits_length_of_step he ha).symm, hkeys⟩

theorem make_ok {shardCount queueCapacityPerShard : Nat} (h : make shardCount queueCapacityPerShard = .ok S) :
    ShardsOk hash shardCount S := by
  unfold make at h
  split at h
  · cases h
  · cases h
    refine ⟨List.length_replicate, fun i x hi => ?_⟩
    obtain rfl := (List.mem_replicate.mp (List.mem_of_getElem? hi)).2
    exact ⟨SerialExecutor.make_serial _, rfl, by simp⟩

/-- One drain and one task at a time, in the order of the pushes; and tasks under one key are all with one executor. -/
theorem executors_are_serial :
    (∀ (queueCapacity : Nat) (s : Exec), (SerialExecutor.machine queueCapacity).Reach (fun _ _ => True) s → Serial s) ∧
      ∀ (Key : Type) (hash : Key → Nat) (shardCount queueCapacityPerShard : Nat) (S₀ S : Shards Key),
        make shardCount queueCapacityPerShard = .ok S₀ → (machine hash S₀).Reach (fun _ _ => True) S →
          S.executors.length = shardCount ∧ ∀ i e keys, S.executors[i]? = some (e, keys) →
            Serial e ∧ keys.length = e.submits.length ∧ ∀ key ∈ keys, shardIndexFor hash shardCount key = i := by
  refine ⟨fun queueCapacity s h => ?_, fun Key hash shardCount cap S₀ S hmake h => ?_⟩
  · obtain ⟨htoken, horder⟩ := SerialExecutor.reach_serial h
    exact SerialExecutor.serial_of htoken horder
  · have hok : ShardsOk hash shardCount S :=
      h.inv (make_ok hmake) fun _ _ _ hI _ hstep => step_ok hstep hI
    refine ⟨hok.count, fun i e keys hi => ?_⟩
    obtain ⟨⟨htoken, horder⟩, hlen, hkeys⟩ := hok.shards i _ hi
    exact ⟨SerialExecutor.serial_of htoken horder, hlen, hkeys⟩

/-- Two shards; the keys 1 and 3 go to the second one. -/
theorem executors_are_serial_two :
    ∃ S₀ S : Shards Nat, make 2 0 = .ok S₀ ∧ (machine id S₀).Reach (fun _ _ => True) S ∧
      ∃ e, S.executors[1]? = some (e, [1, 3]) ∧ e.begun = [0] ∧ Serial e := by
  have hmake : make 2 0 = .ok (⟨List.replicate 2 (SerialExecutor.make 0, [])⟩ : Shards Nat) := rfl
  obtain ⟨S, hr, hS⟩ := Machine.Reach.of_run (machine id ⟨List.replicate 2 (SerialExecutor.make 0, [])⟩) (fun _ _ => True)
    (fun S : Shards Nat => S.executors[1]?.any fun x => x.2 == [1, 3] && x.1.begun == [0])
    [.shard 1 .start, .shard 1 .startStore, .submit 1, .submit 3, .shard 1 (.check 0), .shard 1 (.check 1),
      .shard 1 (.push 0), .shard 1 (.push 1), .shard 1 (.schedule 1 none), .shard 1 (.schedule 0 none),
      .shard 1 (.schedule 1 none), .shard 1 .beginDrain, .shard 1 (.pop 0), .shard 1 (.run 0)]
    (by decide +kernel)
  obtain ⟨⟨e, keys⟩, he, hp⟩ := (Option.any_eq_true _ _).mp hS
  simp only [Bool.and_eq_true, beq_iff_eq] at hp
  obtain ⟨rfl, hbegun⟩ := hp
  exact ⟨_, S, hmake, hr, e, he, hbegun, ((executors_are_serial.2 Nat id 2 0 _ S hmake hr).2 1 e _ he).1⟩

end Dbase.Thread.ShardedExecutor
