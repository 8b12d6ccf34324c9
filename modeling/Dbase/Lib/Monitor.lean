/-
  Dbase.Lib.Monitor — objects with one mutex and condition variables, used by any number of threads.

  An object is its shared state and, for each call, the critical section: a function of the shared state that
  either waits (on the one condition variable of the call, to be entered again from the start) or
  leaves with a new state, a result, and the notifications it makes while it holds the mutex and after it
  has released it. A wait releases the mutex and enters the wait set in one step; a waiter leaves the
  set when it is notified, for no reason at all, or late, if its wait has a time limit, and then has to
  take the mutex again. `notify_one` moves an arbitrary waiter.

  `log` is a ghost: the calls in the order of their critical sections. `Linearized` says that it is a
  sequential history of the object in which every call that has returned stands with its result.
  `Accounts` is what a critical section has to obey for no waiter to be left behind: `need` is the number of
  waiters the state could let through, and every unit of it is matched by a thread that owes a
  notification, or was notified, or is about to look.
-/

import Dbase.Lib.Machine
import Dbase.Lib.Crew

namespace Dbase.Lib.Monitor

open Dbase.Lib.Crew

inductive Note (κ : Type*) where
  | one (cv : κ)
  | all (cv : κ)
  deriving DecidableEq, Repr

inductive Outcome (σ κ ρ : Type*) where
  | wait
  | leave (shared : σ) (inside after : List (Note κ)) (ret : ρ)

structure Object (σ κ C ρ : Type*) where
  init : σ
  /-- the critical section of a call; whether its wait has run out of time -/
  body : C → Bool → σ → Outcome σ κ ρ
  /-- the condition variable a call waits on -/
  waitsOn : C → Option κ
  /-- the wait has a time limit -/
  timed : C → Bool

inductive Pc (κ C ρ : Type*) where
  | idle
  | locking (c : C)
  | inside (c : C) (late : Bool)
  | waiting (c : C)
  | woken (c : C) (late notified : Bool)
  /-- the section is over, the mutex is held -/
  | noting (inside after : List (Note κ)) (c : C) (r : ρ)
  /-- the mutex is released -/
  | returning (after : List (Note κ)) (c : C) (r : ρ)
  deriving DecidableEq, Repr

structure Entry (C ρ : Type*) where
  thread : Nat
  call : C
  ret : ρ
  deriving DecidableEq, Repr

structure St (σ κ C ρ : Type*) where
  shared : σ
  mutex : Option Nat
  threads : List (Pc κ C ρ)
  log : List (Entry C ρ)
  returned : List (Entry C ρ)
  deriving DecidableEq, Repr

inductive Act (C : Type*) where
  | spawn
  | call (t : Nat) (c : C)
  | lock (t : Nat)
  | body (t : Nat)
  /-- the next notification of thread `t`; `w` is the waiter a `notify_one` moves -/
  | note (t w : Nat)
  | unlock (t : Nat)
  | ret (t : Nat)
  | spurious (t : Nat)
  | timeout (t : Nat)

variable {σ κ C ρ : Type*} [DecidableEq κ]

def Pc.waitsFor (O : Object σ κ C ρ) (cv : κ) : Pc κ C ρ → Bool
  | .waiting c => O.waitsOn c = some cv
  | _ => false

def wake (O : Object σ κ C ρ) (cv : κ) : Pc κ C ρ → Pc κ C ρ
  | .waiting c => if O.waitsOn c = some cv then .woken c false true else .waiting c
  | pc => pc

def notify (O : Object σ κ C ρ) (w : Nat) : Note κ → List (Pc κ C ρ) → Option (List (Pc κ C ρ))
  | .one cv, threads =>
    if threads.any (Pc.waitsFor O cv) then
      match threads[w]? with
      | some (.waiting c) => if O.waitsOn c = some cv then some (threads.set w (.woken c false true)) else none
      | _ => none
    else some threads
  | .all cv, threads => some (threads.map (wake O cv))

def step (O : Object σ κ C ρ) (s : St σ κ C ρ) : Act C → Option (St σ κ C ρ)
  | .spawn => some { s with threads := s.threads ++ [.idle] }
  | .call t c =>
    match s.threads[t]? with
    | some .idle => some { s with threads := s.threads.set t (.locking c) }
    | _ => none
  | .lock t =>
    match s.mutex, s.threads[t]? with
    | none, some (.locking c) => some { s with threads := s.threads.set t (.inside c false), mutex := some t }
    | none, some (.woken c late _) => some { s with threads := s.threads.set t (.inside c late), mutex := some t }
    | _, _ => none
  | .body t =>
    match s.threads[t]? with
    | some (.inside c late) =>
      match O.body c late s.shared with
      | .wait => some { s with threads := s.threads.set t (.waiting c), mutex := none }
      | .leave shared inside after r =>
        some { s with shared := shared, threads := s.threads.set t (.noting inside after c r),
                      log := s.log ++ [⟨t, c, r⟩] }
    | _ => none
  | .note t w =>
    match s.threads[t]? with
    | some (.noting (n :: inside) after c r) =>
      (notify O w n s.threads).map fun threads => { s with threads := threads.set t (.noting inside after c r) }
    | some (.returning (n :: after) c r) =>
      (notify O w n s.threads).map fun threads => { s with threads := threads.set t (.returning after c r) }
    | _ => none
  | .unlock t =>
    match s.threads[t]? with
    | some (.noting [] after c r) => some { s with threads := s.threads.set t (.returning after c r), mutex := none }
    | _ => none
  | .ret t =>
    match s.threads[t]? with
    | some (.returning [] c r) =>
      some { s with threads := s.threads.set t .idle, returned := s.returned ++ [⟨t, c, r⟩] }
    | _ => none
  | .spurious t =>
    match s.threads[t]? with
    | some (.waiting c) => some { s with threads := s.threads.set t (.woken c false false) }
    | _ => none
  | .timeout t =>
    match s.threads[t]? with
    | some (.waiting c) =>
      if O.timed c then some { s with threads := s.threads.set t (.woken c true false) } else none
    | some (.woken c _ notified) =>
      if O.timed c then some { s with threads := s.threads.set t (.woken c true notified) } else none
    | _ => none

def machine (O : Object σ κ C ρ) : Machine (St σ κ C ρ) (Act C) := ⟨⟨O.init, none, [], [], []⟩, step O⟩

/-! ## The moves -/

/-- What a notification does to the threads. -/
inductive Notified (O : Object σ κ C ρ) : Note κ → List (Pc κ C ρ) → List (Pc κ C ρ) → Prop
  | one {cv : κ} {threads : List (Pc κ C ρ)} {w : Nat} {c : C} (hw : threads[w]? = some (.waiting c))
      (hc : O.waitsOn c = some cv) : Notified O (.one cv) threads (threads.set w (.woken c false true))
  | nobody {cv : κ} {threads : List (Pc κ C ρ)} (h : ∀ pc ∈ threads, pc.waitsFor O cv = false) :
      Notified O (.one cv) threads threads
  | all {cv : κ} {threads : List (Pc κ C ρ)} : Notified O (.all cv) threads (threads.map (wake O cv))

theorem notified_of_notify {O : Object σ κ C ρ} {w : Nat} {n : Note κ} {threads threads' : List (Pc κ C ρ)}
    (h : notify O w n threads = some threads') : Notified O n threads threads' := by
  cases n with
  | one cv =>
    simp only [notify] at h
    split at h
    · split at h
      · rename_i c hw
        split at h
        · rename_i hc
          cases h
          exact .one hw hc
        · cases h
      · cases h
    · rename_i hnone
      cases h
      refine .nobody fun pc hpc => ?_
      by_contra hwait
      exact hnone (List.any_eq_true.mpr ⟨pc, hpc, by simpa using hwait⟩)
  | all cv =>
    cases h
    exact .all

inductive Move (O : Object σ κ C ρ) (s : St σ κ C ρ) : St σ κ C ρ → Prop
  | spawn : Move O s { s with threads := s.threads ++ [.idle] }
  | call {t : Nat} {c : C} (ht : s.threads[t]? = some .idle) :
      Move O s { s with threads := s.threads.set t (.locking c) }
  | lock {t : Nat} {c : C} (hm : s.mutex = none) (ht : s.threads[t]? = some (.locking c)) :
      Move O s { s with threads := s.threads.set t (.inside c false), mutex := some t }
  | relock {t : Nat} {c : C} {late notified : Bool} (hm : s.mutex = none)
      (ht : s.threads[t]? = some (.woken c late notified)) :
      Move O s { s with threads := s.threads.set t (.inside c late), mutex := some t }
  | wait {t : Nat} {c : C} {late : Bool} (ht : s.threads[t]? = some (.inside c late))
      (hb : O.body c late s.shared = .wait) :
      Move O s { s with threads := s.threads.set t (.waiting c), mutex := none }
  | leave {t : Nat} {c : C} {late : Bool} {shared : σ} {inside after : List (Note κ)} {r : ρ}
      (ht : s.threads[t]? = some (.inside c late)) (hb : O.body c late s.shared = .leave shared inside after r) :
      Move O s { s with shared := shared, threads := s.threads.set t (.noting inside after c r),
                        log := s.log ++ [⟨t, c, r⟩] }
  | noteInside {t : Nat} {n : Note κ} {inside after : List (Note κ)} {c : C} {r : ρ} {threads : List (Pc κ C ρ)}
      (ht : s.threads[t]? = some (.noting (n :: inside) after c r)) (hn : Notified O n s.threads threads) :
      Move O s { s with threads := threads.set t (.noting inside after c r) }
  | noteAfter {t : Nat} {n : Note κ} {after : List (Note κ)} {c : C} {r : ρ} {threads : List (Pc κ C ρ)}
      (ht : s.threads[t]? = some (.returning (n :: after) c r)) (hn : Notified O n s.threads threads) :
      Move O s { s with threads := threads.set t (.returning after c r) }
  | unlock {t : Nat} {after : List (Note κ)} {c : C} {r : ρ} (ht : s.threads[t]? = some (.noting [] after c r)) :
      Move O s { s with threads := s.threads.set t (.returning after c r), mutex := none }
  | ret {t : Nat} {c : C} {r : ρ} (ht : s.threads[t]? = some (.returning [] c r)) :
      Move O s { s with threads := s.threads.set t .idle, returned := s.returned ++ [⟨t, c, r⟩] }
  | unnotified {t : Nat} {c : C} {late : Bool} (ht : s.threads[t]? = some (.waiting c)) :
      Move O s { s with threads := s.threads.set t (.woken c late false) }
  | late {t : Nat} {c : C} {late notified : Bool} (ht : s.threads[t]? = some (.woken c late notified)) :
      Move O s { s with threads := s.threads.set t (.woken c true notified) }

theorem step_move {O : Object σ κ C ρ} {s s' : St σ κ C ρ} {a : Act C} (h : step O s a = some s') : Move O s s' := by
  cases a with
  | spawn =>
    cases h
    exact .spawn
  | call t c =>
    simp only [step] at h
    split at h
    · cases h
      exact .call ‹_›
    · cases h
  | lock t =>
    simp only [step] at h
    split at h
    · cases h
      exact .lock ‹_› ‹_›
    · cases h
      exact .relock ‹_› ‹_›
    · cases h
  | body t =>
    simp only [step] at h
    split at h
    · split at h
      · cases h
        exact .wait ‹_› ‹_›
      · cases h
        exact .leave ‹_› ‹_›
    · cases h
  | note t w =>
    simp only [step] at h
    split at h
    · obtain ⟨threads, hn, rfl⟩ := Option.map_eq_some_iff.mp h
      exact .noteInside ‹_› (notified_of_notify hn)
    · obtain ⟨threads, hn, rfl⟩ := Option.map_eq_some_iff.mp h
      exact .noteAfter ‹_› (notified_of_notify hn)
    · cases h
  | unlock t =>
    simp only [step] at h
    split at h
    · cases h
      exact .unlock ‹_›
    · cases h
  | ret t =>
    simp only [step] at h
    split at h
    · cases h
      exact .ret ‹_›
    · cases h
  | spurious t =>
    simp only [step] at h
    split at h
    · cases h
      exact .unnotified ‹_›
    · cases h
  | timeout t =>
    simp only [step] at h
    split at h
    · split at h
      · cases h
        exact .unnotified ‹_›
      · cases h
    · split at h
      · cases h
        exact .late ‹_›
      · cases h
    · cases h

/-! ## Notifications -/

variable {O : Object σ κ C ρ} {s s' : St σ κ C ρ}

/-- A notification is not seen by what takes the notified for waiting. -/
theorem Notified.map_eq {β : Type*} {f : Pc κ C ρ → β} (hf : ∀ c, f (.woken c false true) = f (.waiting c)) {n : Note κ}
    {threads threads' : List (Pc κ C ρ)} (h : Notified O n threads threads') : threads'.map f = threads.map f := by
  cases h with
  | one hw hc => exact map_set_of hw (hf _)
  | nobody => rfl
  | all =>
    rw [List.map_map]
    refine List.map_congr_left fun pc _ => ?_
    rw [Function.comp_apply]
    unfold wake
    split
    · split
      · exact hf _
      · rfl
    · rfl

/-- The notifier stays where it is. -/
theorem Notified.getElem?_of_not_waiting {n : Note κ} {threads threads' : List (Pc κ C ρ)}
    (h : Notified O n threads threads') {t : Nat} {pc : Pc κ C ρ} (ht : threads[t]? = some pc)
    (hpc : ∀ c, pc ≠ .waiting c) : threads'[t]? = some pc := by
  cases h with
  | one hw hc =>
    rw [getElem?_set_of hw, if_neg, ht]
    rintro rfl
    rw [ht] at hw
    exact hpc _ (Option.some.inj hw)
  | nobody => exact ht
  | all =>
    rw [List.getElem?_map, ht, Option.map_some]
    cases pc with
    | waiting c => exact absurd rfl (hpc c)
    | _ => rfl

/-! ## The mutex -/

def Pc.holds : Pc κ C ρ → Bool
  | .inside .. => true
  | .noting .. => true
  | _ => false

/-- The threads in a critical section are those that hold the mutex. -/
def Exclusive (s : St σ κ C ρ) : Prop := ∀ t, s.mutex = some t ↔ (s.threads.map Pc.holds)[t]? = some true

omit [DecidableEq κ] in
theorem Exclusive.set (h : Exclusive s) {t : Nat} {a b : Pc κ C ρ} {threads : List (Pc κ C ρ)}
    (hthreads : threads.map Pc.holds = s.threads.map Pc.holds) (ht : threads[t]? = some a) (hab : b.holds = a.holds) :
    ∀ u, s.mutex = some u ↔ ((threads.set t b).map Pc.holds)[u]? = some true := by
  intro u
  rw [map_set_of ht hab, hthreads]
  exact h u

omit [DecidableEq κ] in
theorem Exclusive.free (h : Exclusive s) (hm : s.mutex = none) (u : Nat) :
    (s.threads.map Pc.holds)[u]? ≠ some true := by
  rw [Ne, ← h u, hm]
  simp

omit [DecidableEq κ] in
theorem Exclusive.take (h : Exclusive s) (hm : s.mutex = none) {t : Nat} {a b : Pc κ C ρ} (ht : s.threads[t]? = some a)
    (hb : b.holds = true) : ∀ u, some t = some u ↔ ((s.threads.set t b).map Pc.holds)[u]? = some true := by
  intro u
  rw [List.getElem?_map, getElem?_set_of ht]
  by_cases hu : u = t
  · simp [hu, hb]
  · rw [if_neg hu, ← List.getElem?_map]
    exact iff_of_false (fun heq => hu (Option.some.inj heq).symm) (h.free hm u)

omit [DecidableEq κ] in
theorem Exclusive.release (h : Exclusive s) {t : Nat} {a b : Pc κ C ρ} (ht : s.threads[t]? = some a)
    (ha : a.holds = true) (hb : b.holds = false) :
    ∀ u, (none : Option Nat) = some u ↔ ((s.threads.set t b).map Pc.holds)[u]? = some true := by
  have hm : s.mutex = some t := (h t).mpr (by rw [List.getElem?_map, ht, Option.map_some, ha])
  intro u
  rw [List.getElem?_map, getElem?_set_of ht]
  by_cases hu : u = t
  · simp [hu, hb]
  · rw [if_neg hu, ← List.getElem?_map, ← h u, hm]
    simp [Ne.symm hu]

theorem Move.exclusive (hmove : Move O s s') (h : Exclusive s) : Exclusive s' := by
  cases hmove with
  | spawn =>
    intro t
    rw [h t, List.getElem?_map, List.getElem?_map]
    rcases getElem?_snoc s.threads .idle t with heq | ⟨hnone, heq⟩
    · rw [heq]
    · rw [heq, hnone]
      simp [Pc.holds]
  | call ht => exact h.set rfl ht rfl
  | lock hm ht => exact h.take hm ht rfl
  | relock hm ht => exact h.take hm ht rfl
  | wait ht hb => exact h.release ht rfl rfl
  | leave ht hb => exact h.set rfl ht rfl
  | noteInside ht hn => exact h.set (hn.map_eq fun _ => rfl) (hn.getElem?_of_not_waiting ht (by simp)) rfl
  | noteAfter ht hn => exact h.set (hn.map_eq fun _ => rfl) (hn.getElem?_of_not_waiting ht (by simp)) rfl
  | unlock ht => exact h.release ht rfl rfl
  | ret ht => exact h.set rfl ht rfl
  | unnotified ht => exact h.set rfl ht rfl
  | late ht => exact h.set rfl ht rfl

/-! ## The log -/

/-- A sequential history, and the state it leaves. -/
inductive Seq (O : Object σ κ C ρ) : List (Entry C ρ) → σ → Prop
  | nil : Seq O [] O.init
  | snoc {l : List (Entry C ρ)} {shared shared' : σ} {late : Bool} {inside after : List (Note κ)} {e : Entry C ρ} :
      Seq O l shared → O.body e.call late shared = .leave shared' inside after e.ret → Seq O (l ++ [e]) shared'

omit [DecidableEq κ] in
/-- The state in which an entry of a history was made. -/
theorem Seq.split {l₁ l₂ : List (Entry C ρ)} {e : Entry C ρ} {shared : σ} (h : Seq O (l₁ ++ e :: l₂) shared) :
    ∃ shared₁ shared₂ late inside after, Seq O l₁ shared₁ ∧ O.body e.call late shared₁ = .leave shared₂ inside after e.ret := by
  induction l₂ using List.reverseRecOn generalizing shared with
  | nil =>
    generalize hl : l₁ ++ [e] = l at h
    cases h with
    | nil => simp at hl
    | snoc hseq hbody =>
      obtain ⟨rfl, hlast⟩ := List.append_inj' hl rfl
      cases hlast
      exact ⟨_, _, _, _, _, hseq, hbody⟩
  | append_singleton l₂ x ih =>
    generalize hl : l₁ ++ e :: (l₂ ++ [x]) = l at h
    rw [← List.cons_append, ← List.append_assoc] at hl
    cases h with
    | nil => simp at hl
    | snoc hseq hbody =>
      obtain ⟨rfl, -⟩ := List.append_inj' hl rfl
      exact ih hseq

/-- The call that a thread has in the log and has not returned from. -/
def Pc.done : Pc κ C ρ → Option (C × ρ)
  | .noting _ _ c r => some (c, r)
  | .returning _ c r => some (c, r)
  | _ => none

def pending (threads : List (Pc κ C ρ)) (t : Nat) : List (Entry C ρ) :=
  ((threads.map Pc.done)[t]?.join.map fun x => ⟨t, x.1, x.2⟩).toList

/-- The log is sequential, and of each thread it has the calls that returned, with their results and in their order,
    and at most the one that is about to. -/
structure Linearized (O : Object σ κ C ρ) (s : St σ κ C ρ) : Prop where
  seq : Seq O s.log s.shared
  calls : ∀ t, s.log.filter (·.thread = t) = s.returned.filter (·.thread = t) ++ pending s.threads t

omit [DecidableEq κ] in
theorem pending_congr {threads threads' : List (Pc κ C ρ)} (h : threads'.map Pc.done = threads.map Pc.done) (t : Nat) :
    pending threads' t = pending threads t := by
  rw [pending, pending, h]

omit [DecidableEq κ] in
theorem pending_set {threads : List (Pc κ C ρ)} {t : Nat} {a : Pc κ C ρ} (ht : threads[t]? = some a) (b : Pc κ C ρ) (u : Nat) :
    pending (threads.set t b) u = if u = t then (b.done.map fun x => ⟨t, x.1, x.2⟩).toList else pending threads u := by
  rw [pending, List.getElem?_map, getElem?_set_of ht]
  split
  · rename_i hu
    rw [hu]
    rfl
  · rw [pending, List.getElem?_map]

omit [DecidableEq κ] in
/-- A move outside the log. -/
theorem Linearized.move (h : Linearized O s) {threads : List (Pc κ C ρ)} (hdone : threads.map Pc.done = s.threads.map Pc.done)
    (m : Option Nat) : Linearized O { s with threads := threads, mutex := m } where
  seq := h.seq
  calls t := by
    rw [pending_congr hdone]
    exact h.calls t

omit [DecidableEq κ] in
theorem Linearized.set (h : Linearized O s) {t : Nat} {a b : Pc κ C ρ} (ht : s.threads[t]? = some a) (hab : b.done = a.done)
    (m : Option Nat) : Linearized O { s with threads := s.threads.set t b, mutex := m } :=
  h.move (map_set_of ht hab) m

theorem Linearized.note (h : Linearized O s) {n : Note κ} {threads : List (Pc κ C ρ)} (hn : Notified O n s.threads threads)
    {t : Nat} {a b : Pc κ C ρ} (ht : s.threads[t]? = some a) (ha : ∀ c, a ≠ .waiting c) (hab : b.done = a.done)
    (m : Option Nat) : Linearized O { s with threads := threads.set t b, mutex := m } := by
  refine h.move ?_ m
  rw [map_set_of (hn.getElem?_of_not_waiting ht ha) hab, hn.map_eq fun _ => rfl]

theorem Move.linearized (hmove : Move O s s') (h : Linearized O s) : Linearized O s' := by
  cases hmove with
  | spawn =>
    refine ⟨h.seq, fun t => ?_⟩
    have hsame : pending (s.threads ++ [.idle]) t = pending s.threads t := by
      rw [pending, pending, List.getElem?_map, List.getElem?_map]
      rcases getElem?_snoc s.threads .idle t with heq | ⟨hnone, heq⟩
      · rw [heq]
      · rw [heq, hnone]
        rfl
    rw [hsame]
    exact h.calls t
  | call ht => exact h.set ht (by rfl) s.mutex
  | lock hm ht => exact h.set ht (by rfl) _
  | relock hm ht => exact h.set ht (by rfl) _
  | wait ht hb => exact h.set ht (by rfl) _
  | @leave t c late shared inside after r ht hb =>
    refine ⟨h.seq.snoc hb, fun u => ?_⟩
    have hnone : pending s.threads t = [] := by
      rw [pending, List.getElem?_map, ht]
      rfl
    rw [List.filter_append, h.calls u, pending_set ht]
    by_cases hu : u = t
    · subst hu
      simp [hnone, Pc.done]
    · simp [hu, Ne.symm hu]
  | noteInside ht hn => exact h.note hn ht (by simp) (by rfl) s.mutex
  | noteAfter ht hn => exact h.note hn ht (by simp) (by rfl) s.mutex
  | unlock ht => exact h.set ht (by rfl) _
  | @ret t c r ht =>
    refine ⟨h.seq, fun u => ?_⟩
    have hsome : pending s.threads t = [⟨t, c, r⟩] := by
      rw [pending, List.getElem?_map, ht]
      rfl
    rw [List.filter_append, h.calls u, pending_set ht]
    by_cases hu : u = t
    · subst hu
      simp [hsome, Pc.done]
    · simp [hu, Ne.symm hu]
  | unnotified ht => exact h.set ht (by rfl) s.mutex
  | late ht => exact h.set ht (by rfl) s.mutex

/-! ## Waiters and what is due to them -/

def ones (cv : κ) (notes : List (Note κ)) : Nat := notes.count (.one cv)

/-- What a thread is good for to the waiters of a condition variable: the notifications it owes, or the look at the
    state that it is about to take as one of them. -/
def credit (O : Object σ κ C ρ) (cv : κ) : Pc κ C ρ → Nat
  | .inside c _ => if O.waitsOn c = some cv then 1 else 0
  | .woken c _ true => if O.waitsOn c = some cv then 1 else 0
  | .noting inside after _ _ => ones cv (inside ++ after)
  | .returning after _ _ => ones cv after
  | _ => 0

def owesAll (cv : κ) : Pc κ C ρ → Bool
  | .noting inside after _ _ => (inside ++ after).contains (.all cv)
  | .returning after _ _ => after.contains (.all cv)
  | _ => false

/-- How the critical sections treat a condition variable: `need` is the number of its waiters that could go on, and from
    `closed` on all of them can. -/
structure Accounts (O : Object σ κ C ρ) (cv : κ) (need : σ → Nat) (closed : σ → Bool) : Prop where
  wait {c : C} {late : Bool} {shared : σ} : O.body c late shared = .wait → O.waitsOn c = some cv →
    need shared = 0 ∧ closed shared = false
  leave {c : C} {late : Bool} {shared shared' : σ} {inside after : List (Note κ)} {r : ρ} :
    O.body c late shared = .leave shared' inside after r → need shared' = 0 ∨
      need shared' + (if O.waitsOn c = some cv then 1 else 0) ≤ need shared + ones cv (inside ++ after)
  closes {c : C} {late : Bool} {shared shared' : σ} {inside after : List (Note κ)} {r : ρ} :
    O.body c late shared = .leave shared' inside after r → closed shared' = true →
      closed shared = true ∨ (inside ++ after).contains (.all cv) = true

variable {cv : κ} {need : σ → Nat} {closed : σ → Bool}

def Served (O : Object σ κ C ρ) (cv : κ) (need : σ → Nat) (closed : σ → Bool) (shared : σ) (threads : List (Pc κ C ρ)) : Prop :=
  threads.any (Pc.waitsFor O cv) = true → need shared ≤ (threads.map (credit O cv)).sum ∧
    (closed shared = true → threads.any (owesAll cv) = true)

/-- A thread goes on without loss to the waiters. -/
theorem Served.set {shared : σ} {threads : List (Pc κ C ρ)} (h : Served O cv need closed shared threads) {t : Nat}
    {a b : Pc κ C ρ} (ht : threads[t]? = some a) (hb : b.waitsFor O cv = false) (hcredit : credit O cv a ≤ credit O cv b)
    (hall : owesAll cv a = true → owesAll cv b = true) : Served O cv need closed shared (threads.set t b) := by
  intro hw
  obtain ⟨hneed, hclosed⟩ := h (any_of_any_set ht hb hw)
  have hsum := sum_set_of (credit O cv) ht b
  exact ⟨by omega, fun hc => any_set_of_any ht hall (hclosed hc)⟩

theorem credit_woken {c : C} {late notified : Bool} :
    credit O cv (.woken c late notified : Pc κ C ρ) = if notified ∧ O.waitsOn c = some cv then 1 else 0 := by
  cases notified <;> simp [credit]

theorem waitsFor_wake {cv' : κ} {pc : Pc κ C ρ} (h : (wake O cv' pc).waitsFor O cv = true) :
    pc.waitsFor O cv = true ∧ cv' ≠ cv := by
  unfold wake at h
  split at h
  · rename_i c
    split at h
    · cases h
    · rename_i hne
      refine ⟨h, ?_⟩
      rintro rfl
      exact hne (by simpa [Pc.waitsFor] using h)
  · rename_i hpc
    cases pc with
    | waiting c => exact absurd rfl (hpc c)
    | _ => cases h

theorem credit_le_wake (cv' : κ) (pc : Pc κ C ρ) : credit O cv pc ≤ credit O cv (wake O cv' pc) := by
  unfold wake
  split
  · exact Nat.zero_le _
  · exact le_rfl

/-- Who still waits after a notification has lost nothing by it. -/
theorem Notified.still {n : Note κ} {threads threads' : List (Pc κ C ρ)} (h : Notified O n threads threads')
    (hw : threads'.any (Pc.waitsFor O cv) = true) :
    threads.any (Pc.waitsFor O cv) = true ∧
      (threads.map (credit O cv)).sum + ones cv [n] ≤ (threads'.map (credit O cv)).sum ∧ n ≠ .all cv := by
  cases h with
  | one hwc hc =>
    rename_i cv' w c
    have hsum := sum_set_of (credit O cv) hwc (.woken c false true)
    have hwaiting : credit O cv (.waiting c : Pc κ C ρ) = 0 := rfl
    refine ⟨any_of_any_set hwc rfl hw, ?_, by simp⟩
    by_cases hcv : cv' = cv
    · subst hcv
      have : credit O cv' (.woken c false true : Pc κ C ρ) = 1 := by simp [credit, hc]
      have : ones cv' [.one cv'] = 1 := by simp [ones]
      omega
    · have : ones cv [.one cv'] = 0 := by simp [ones, hcv]
      omega
  | nobody hnone =>
    rename_i cv'
    refine ⟨hw, ?_, by simp⟩
    by_cases hcv : cv' = cv
    · subst hcv
      obtain ⟨pc, hpc, hwait⟩ := List.any_eq_true.mp hw
      rw [hnone pc hpc] at hwait
      cases hwait
    · simp [ones, hcv]
  | all =>
    rename_i cv'
    obtain ⟨_, hmem, hwait⟩ := List.any_eq_true.mp hw
    obtain ⟨pc, hpc, rfl⟩ := List.mem_map.mp hmem
    obtain ⟨hwait, hne⟩ := waitsFor_wake hwait
    refine ⟨List.any_eq_true.mpr ⟨pc, hpc, hwait⟩, ?_, by simpa using hne⟩
    rw [List.map_map, show ones cv [.all cv'] = 0 by simp [ones], Nat.add_zero]
    exact List.sum_le_sum fun pc _ => credit_le_wake cv' pc

theorem Served.note {shared : σ} {threads threads' : List (Pc κ C ρ)} (h : Served O cv need closed shared threads) {n : Note κ}
    (hn : Notified O n threads threads') {t : Nat} {a b : Pc κ C ρ} (ht : threads[t]? = some a) (ha : ∀ c, a ≠ .waiting c)
    (hb : b.waitsFor O cv = false) (hcredit : credit O cv a = credit O cv b + ones cv [n])
    (hall : n ≠ .all cv → owesAll cv a = true → owesAll cv b = true) :
    Served O cv need closed shared (threads'.set t b) := by
  intro hw
  have ht' := hn.getElem?_of_not_waiting ht ha
  obtain ⟨hwait, hsum, hne⟩ := hn.still (any_of_any_set ht' hb hw)
  obtain ⟨hneed, hclosed⟩ := h hwait
  have hsum' := sum_set_of (credit O cv) ht' b
  refine ⟨by omega, fun hc => ?_⟩
  have hany := hclosed hc
  have hsame : threads'.any (owesAll cv) = threads.any (owesAll cv) := by
    have := congrArg (·.any id) (hn.map_eq (f := owesAll cv) fun _ => rfl)
    simpa [List.any_map] using this
  exact any_set_of_any ht' (hall hne) (hsame.trans hany)

theorem Move.served (hA : Accounts O cv need closed) (hmove : Move O s s') (h : Served O cv need closed s.shared s.threads) :
    Served O cv need closed s'.shared s'.threads := by
  cases hmove with
  | spawn =>
    intro hw
    have hw' : s.threads.any (Pc.waitsFor O cv) = true := by simpa [Pc.waitsFor] using hw
    obtain ⟨hneed, hclosed⟩ := h hw'
    exact ⟨by simpa [credit] using hneed, fun hc => by simpa [owesAll] using hclosed hc⟩
  | call ht => exact h.set ht rfl (Nat.zero_le _) (by simp [owesAll])
  | lock hm ht => exact h.set ht rfl (Nat.zero_le _) (by simp [owesAll])
  | relock hm ht =>
    refine h.set ht rfl ?_ (by simp [owesAll])
    rw [credit_woken]
    simp only [credit]
    split <;> simp_all
  | @wait t c late ht hb =>
    by_cases hc : O.waitsOn c = some cv
    · intro _
      obtain ⟨hneed, hopen⟩ := hA.wait hb hc
      exact ⟨hneed.trans_le (Nat.zero_le _), fun hcl => absurd (hopen.symm.trans hcl) (by simp)⟩
    · exact h.set ht (by simp [Pc.waitsFor, hc]) (by simp [credit, hc]) (by simp [owesAll])
  | @leave t c late shared inside after r ht hb =>
    intro hw
    obtain ⟨hneed, hclosed⟩ := h (any_of_any_set ht rfl hw)
    have hsum := sum_set_of (credit O cv) ht (.noting inside after c r)
    simp only [credit] at hsum
    refine ⟨?_, fun hc => ?_⟩
    · change need shared ≤ _
      rcases hA.leave hb with hzero | hle
      · exact hzero.trans_le (Nat.zero_le _)
      · change need shared ≤ ((s.threads.set t _).map (credit O cv)).sum
        omega
    · rcases hA.closes hb hc with hc | hall
      · exact any_set_of_any ht (by simp [owesAll]) (hclosed hc)
      · exact any_iff_getElem?.mpr ⟨t, .noting inside after c r, by rw [getElem?_set_of ht, if_pos rfl], hall⟩
  | @noteInside t n inside after c r threads ht hn =>
    refine h.note hn ht (by simp) rfl ?_ fun hne howes => ?_
    · simp only [credit, ones, List.cons_append, List.count_cons, List.count_nil]
      omega
    · simpa [owesAll, Ne.symm hne] using howes
  | @noteAfter t n after c r threads ht hn =>
    refine h.note hn ht (by simp) rfl ?_ fun hne howes => ?_
    · simp only [credit, ones, List.count_cons, List.count_nil]
      omega
    · simpa [owesAll, Ne.symm hne] using howes
  | unlock ht => exact h.set ht rfl (by simp [credit]) (by simp [owesAll])
  | ret ht => exact h.set ht rfl (by simp [credit, ones]) (by simp [owesAll])
  | unnotified ht => exact h.set ht rfl (Nat.zero_le _) (by simp [owesAll])
  | late ht => exact h.set ht rfl (by rw [credit_woken, credit_woken]) (by simp [owesAll])

/-! ## Every reachable state -/

variable {ok : St σ κ C ρ → Act C → Prop}

theorem reach_inv {I : St σ κ C ρ → Prop} (h0 : I (machine O).init) (hmove : ∀ s s', Move O s s' → I s → I s')
    (h : (machine O).Reach ok s) : I s :=
  h.inv h0 fun s _ s' hI _ hstep => hmove s s' (step_move hstep) hI

theorem reach_exclusive (h : (machine O).Reach ok s) : Exclusive s :=
  reach_inv (by simp [Exclusive, machine]) (fun _ _ hmove => hmove.exclusive) h

theorem reach_linearized (h : (machine O).Reach ok s) : Linearized O s :=
  reach_inv ⟨Seq.nil, by simp [machine, pending]⟩ (fun _ _ hmove => hmove.linearized) h

/-- No thread is in a critical section, or owes a notification, or was notified and has yet to run. -/
def Pc.settled : Pc κ C ρ → Bool
  | .inside .. => false
  | .noting .. => false
  | .woken _ _ notified => !notified
  | .returning after _ _ => after.isEmpty
  | _ => true

theorem credit_settled {pc : Pc κ C ρ} (h : pc.settled = true) : credit O cv pc = 0 ∧ owesAll cv pc = false := by
  cases pc with
  | inside c late => cases h
  | noting inside after c r => cases h
  | woken c late notified =>
    obtain rfl : notified = false := by simpa [Pc.settled] using h
    exact ⟨rfl, rfl⟩
  | returning after c r =>
    obtain rfl : after = [] := by simpa [Pc.settled] using h
    exact ⟨rfl, rfl⟩
  | _ => exact ⟨rfl, rfl⟩

/-- No waiter is left behind: where all is settled, who waits has to. -/
theorem waits_only_if_needed (hA : Accounts O cv need closed) (h : (machine O).Reach ok s)
    (hset : ∀ pc ∈ s.threads, pc.settled = true) (hw : s.threads.any (Pc.waitsFor O cv) = true) :
    need s.shared = 0 ∧ closed s.shared = false := by
  have hserved : Served O cv need closed s.shared s.threads :=
    reach_inv (I := fun s => Served O cv need closed s.shared s.threads) (fun hw => by simp [machine] at hw)
      (fun _ _ hmove => hmove.served hA) h
  obtain ⟨hneed, hclosed⟩ := hserved hw
  have hsum : (s.threads.map (credit O cv)).sum = 0 :=
    List.sum_eq_zero fun x hx => by
      obtain ⟨pc, hpc, rfl⟩ := List.mem_map.mp hx
      exact (credit_settled (hset pc hpc)).1
  refine ⟨by omega, ?_⟩
  by_contra hc
  obtain ⟨pc, hpc, howes⟩ := List.any_eq_true.mp (hclosed (by simpa using hc))
  rw [(credit_settled (O := O) (hset pc hpc)).2] at howes
  cases howes

/-! ## Going on -/

abbrev Runs (O : Object σ κ C ρ) : St σ κ C ρ → St σ κ C ρ → Prop := (machine O).Later fun _ _ => True

theorem Runs.of_step {a : Act C} (h : step O s a = some s') : Runs O s s' := Machine.Later.refl.step trivial h

theorem exists_notify (O : Object σ κ C ρ) (n : Note κ) (threads : List (Pc κ C ρ)) :
    ∃ w threads', notify O w n threads = some threads' := by
  cases n with
  | one cv =>
    by_cases hany : threads.any (Pc.waitsFor O cv) = true
    · obtain ⟨w, pc, hw, hpc⟩ := any_iff_getElem?.mp hany
      cases pc with
      | waiting c =>
        have hc : O.waitsOn c = some cv := by simpa [Pc.waitsFor] using hpc
        exact ⟨w, threads.set w (.woken c false true), by simp only [notify, hany, hw, hc, if_true]⟩
      | _ => cases hpc
    · exact ⟨0, threads, if_neg hany⟩
  | all cv => exact ⟨0, _, rfl⟩

/-- A thread that is done makes its notifications and releases the mutex. -/
theorem runs_unlock (inside : List (Note κ)) {after : List (Note κ)} {t : Nat} {c : C} {r : ρ} :
    ∀ s : St σ κ C ρ, s.threads[t]? = some (.noting inside after c r) →
      ∃ s', Runs O s s' ∧ s'.mutex = none ∧ s'.shared = s.shared ∧ s'.log = s.log := by
  induction inside with
  | nil =>
    intro s ht
    have hstep : step O s (.unlock t) =
        some { s with threads := s.threads.set t (.returning after c r), mutex := none } := by
      simp only [step, ht]
    exact ⟨_, Runs.of_step hstep, rfl, rfl, rfl⟩
  | cons n inside ih =>
    intro s ht
    obtain ⟨w, threads, hn⟩ := exists_notify O n s.threads
    have hstep : step O s (.note t w) = some { s with threads := threads.set t (.noting inside after c r) } := by
      simp only [step, ht, hn, Option.map_some]
    have ht' := (notified_of_notify hn).getElem?_of_not_waiting ht (by simp)
    obtain ⟨s', hrun, hm, hshared, hlog⟩ :=
      ih { s with threads := threads.set t (.noting inside after c r) } (by simp [getElem?_set_of ht'])
    exact ⟨s', (Runs.of_step hstep).trans hrun, hm, hshared, hlog⟩

/-- Whoever is in a critical section comes out of it. -/
theorem runs_free (h : Exclusive s) : ∃ s', Runs O s s' ∧ s'.mutex = none := by
  cases hm : s.mutex with
  | none => exact ⟨s, .refl, hm⟩
  | some t =>
    have hholds := (h t).mp hm
    rw [List.getElem?_map] at hholds
    obtain ⟨pc, ht, hpc⟩ := Option.map_eq_some_iff.mp hholds
    cases pc with
    | inside c late =>
      cases hb : O.body c late s.shared with
      | wait =>
        have hstep : step O s (.body t) = some { s with threads := s.threads.set t (.waiting c), mutex := none } := by
          simp only [step, ht, hb]
        exact ⟨_, Runs.of_step hstep, rfl⟩
      | leave shared inside after r =>
        have ht' : (s.threads.set t (.noting inside after c r))[t]? = some (.noting inside after c r) := by
          simp [getElem?_set_of ht]
        obtain ⟨s', hrun, hm', -⟩ := runs_unlock (O := O) inside
          { s with shared := shared, threads := s.threads.set t (.noting inside after c r),
                   log := s.log ++ [⟨t, c, r⟩] } ht'
        exact ⟨s', (Runs.of_step (a := .body t) (by simp only [step, ht, hb])).trans hrun, hm'⟩
    | noting inside after c r =>
      obtain ⟨s', hrun, hm', -⟩ := runs_unlock (O := O) inside s ht
      exact ⟨s', hrun, hm'⟩
    | _ => cases hpc

/-- With the mutex free, a new thread can make any call that does not have to wait. -/
theorem runs_call (hm : s.mutex = none) {c : C} {shared : σ} {inside after : List (Note κ)} {r : ρ}
    (hb : O.body c false s.shared = .leave shared inside after r) :
    ∃ s' t, Runs O s s' ∧ s'.mutex = none ∧ s'.shared = shared ∧ s'.log = s.log ++ [⟨t, c, r⟩] := by
  let t := s.threads.length
  have ht {pc : Pc κ C ρ} : (s.threads ++ [pc])[t]? = some pc := by simp [t]
  have hset (pc pc' : Pc κ C ρ) : (s.threads ++ [pc]).set t pc' = s.threads ++ [pc'] := by simp [t]
  have h1 : step O s .spawn = some { s with threads := s.threads ++ [.idle] } := rfl
  have h2 : step O { s with threads := s.threads ++ [.idle] } (.call t c) =
      some { s with threads := s.threads ++ [.locking c] } := by
    simp only [step, ht, hset]
  have h3 : step O { s with threads := s.threads ++ [.locking c] } (.lock t) =
      some { s with threads := s.threads ++ [.inside c false], mutex := some t } := by
    simp only [step, hm, ht, hset]
  have h4 : step O { s with threads := s.threads ++ [.inside c false], mutex := some t } (.body t) =
      some { s with shared := shared, threads := s.threads ++ [.noting inside after c r], mutex := some t,
                    log := s.log ++ [⟨t, c, r⟩] } := by
    simp only [step, hb, ht, hset]
  have htail : (s.threads ++ [.noting inside after c r])[t]? = some (.noting inside after c r) := ht
  obtain ⟨s', hrun, hm', hshared, hlog⟩ := runs_unlock (O := O) inside
    { s with shared := shared, threads := s.threads ++ [.noting inside after c r], mutex := some t,
             log := s.log ++ [⟨t, c, r⟩] } htail
  have hpre := (((Runs.of_step h1).trans (Runs.of_step h2)).trans (Runs.of_step h3)).trans (Runs.of_step h4)
  exact ⟨s', t, hpre.trans hrun, hm', hshared, hlog⟩

end Dbase.Lib.Monitor
