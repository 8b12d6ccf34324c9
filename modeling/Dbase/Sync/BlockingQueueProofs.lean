/-
  Dbase.Sync.BlockingQueueProofs — the queue is a bounded FIFO for any number of threads, and strands no waiter.

  `Effect` is what one critical section can do; the log of the monitor is a list of such effects. The two
  condition variables are accounts of the monitor: of `notEmpty` the items, of `notFull` the room.
-/

import Dbase.Sync.BlockingQueue

namespace Dbase.Sync.BlockingQueue

open Dbase.Lib
open Dbase.Lib.Monitor (Outcome Note Object Entry Seq Linearized Accounts ones)

variable {T : Type} {capacity : Nat} {q q' : Queue T} {c : Call T} {r : Ret T} {late : Bool}
  {inside after notes : List (Note Cond)}

/-! ## One critical section -/

/-- The item that a call has put into the queue. -/
def accepts : Call T → Ret T → Option T
  | .push v, .done => some v
  | .tryPush v, .bool true => some v
  | _, _ => none

def Ret.popped : Ret T → Option T
  | .value v => some v
  | _ => none

def takes : Call T → Bool
  | .pop => true
  | .popFor => true
  | .tryPop => true
  | _ => false

/-- What a critical section can do, and whom it notifies. -/
inductive Effect (capacity : Nat) (q : Queue T) : Call T → Ret T → Queue T → List (Note Cond) → Prop
  | accept {c : Call T} {r : Ret T} {v : T} (hopen : q.stopped = false) (hroom : capacity = 0 ∨ q.queue.length < capacity)
      (hc : accepts c r = some v) (hr : r.popped = none) (ht : takes c = false) :
      Effect capacity q c r { q with queue := q.queue ++ [v] } [.one .notEmpty]
  | take {c : Call T} {v : T} {rest : List T} (hq : q.queue = v :: rest) (hc : takes c = true) :
      Effect capacity q c (.value v) { q with queue := rest } [.one .notFull]
  | stop (hopen : q.stopped = false) :
      Effect capacity q .stop .done { q with stopped := true } [.all .notEmpty, .all .notFull]
  | stopAgain (hs : q.stopped = true) : Effect capacity q .stop .done q []
  /-- a pop comes to this only with the queue empty, and throws only if it is stopped too; a push throws if it is stopped -/
  | refuse {c : Call T} {r : Ret T} (hc : accepts c r = none) (hr : r.popped = none) (hstop : c ≠ .stop)
      (hempty : takes c = true → q.queue = []) (hthrow : takes c = true → r = .threw → q.stopped = true)
      (hpush : waitsOn c = some .notFull → q.stopped = true) : Effect capacity q c r q []

theorem accepts_value (c : Call T) (v : T) : accepts c (.value v) = none := by cases c <;> rfl

theorem popFront_effect (hc : takes c = true) (hready : ready q = true) (h : popFront q = .leave q' inside after r) :
    Effect capacity q c r q' (inside ++ after) := by
  unfold popFront at h
  split at h
  · rename_i hnil
    cases h
    refine .refuse ?_ rfl ?_ (fun _ => hnil) (fun _ _ => by simpa [ready, hnil] using hready) fun hw => ?_
    · cases c <;> rfl
    · rintro rfl
      cases hc
    · cases c <;> simp_all [takes, waitsOn]
  · rename_i v rest hq
    cases h
    exact .take hq hc

theorem body_effect (h : body capacity c late q = .leave q' inside after r) :
    Effect capacity q c r q' (inside ++ after) := by
  cases c with
  | push v =>
    simp only [body, emplace] at h
    split at h
    · rename_i hp
      split at h
      · rename_i hs
        cases h
        exact .refuse rfl rfl (by simp) (by simp [takes]) (by simp [takes]) fun _ => hs
      · rename_i hs
        cases h
        exact .accept (by simpa using hs) (by simpa [pushable, hs] using hp) rfl rfl rfl
    · cases h
  | pop =>
    simp only [body, pop] at h
    split at h
    · exact popFront_effect rfl ‹_› h
    · cases h
  | popFor =>
    simp only [body, popFor] at h
    split at h
    · exact popFront_effect rfl ‹_› h
    · rename_i hready
      split at h
      · cases h
        exact .refuse rfl rfl (by simp) (fun _ => (by simpa [ready] using hready : _ ∧ _).2) (by simp) (by simp [waitsOn])
      · cases h
  | tryPush v =>
    simp only [body, tryEmplaceImpl] at h
    split at h
    · cases h
      exact .refuse rfl rfl (by simp) (by simp [takes]) (by simp [takes]) (by simp [waitsOn])
    · rename_i hs
      split at h
      · cases h
        exact .refuse rfl rfl (by simp) (by simp [takes]) (by simp [takes]) (by simp [waitsOn])
      · rename_i hroom
        cases h
        exact .accept (by simpa using hs) (by omega) rfl rfl rfl
  | tryPop =>
    simp only [body, tryPop] at h
    split at h
    · cases h
      exact .refuse rfl rfl (by simp) (fun _ => ‹_›) (by simp) (by simp [waitsOn])
    · cases h
      exact .take ‹_› rfl
  | stop =>
    simp only [body, stop] at h
    split at h
    · rename_i hs
      cases h
      exact .stopAgain hs
    · rename_i hs
      cases h
      exact .stop (by simpa using hs)
  | stopped =>
    cases h
    exact .refuse rfl rfl (by simp) (by simp [takes]) (by simp [takes]) (by simp [waitsOn])
  | empty =>
    cases h
    exact .refuse rfl rfl (by simp) (by simp [takes]) (by simp [takes]) (by simp [waitsOn])
  | size =>
    cases h
    exact .refuse rfl rfl (by simp) (by simp [takes]) (by simp [takes]) (by simp [waitsOn])

/-! ## Single calls -/

theorem push_done {v : T} (h : body capacity (.push v) late q = .leave q' inside after .done) :
    q.stopped = false ∧ q' = { q with queue := q.queue ++ [v] } := by
  have he := body_effect h
  generalize inside ++ after = notes at he
  cases he with
  | accept hopen hroom hc =>
    cases hc
    exact ⟨hopen, rfl⟩
  | refuse hc => cases hc

theorem push_threw {v : T} (h : body capacity (.push v) late q = .leave q' inside after .threw) :
    q.stopped = true ∧ q' = q := by
  have he := body_effect h
  generalize inside ++ after = notes at he
  cases he with
  | accept hopen hroom hc => cases hc
  | refuse hc hr hstop hempty hthrow hpush => exact ⟨hpush rfl, rfl⟩

theorem push_of_stopped {v : T} (h : q.stopped = true) : body capacity (.push v) late q = .leave q [] [] .threw := by
  simp [body, emplace, pushable, h]

theorem popFor_value {v : T} (h : body capacity .popFor late q = .leave q' inside after (.value v)) :
    ∃ rest, q.queue = v :: rest ∧ q' = { q with queue := rest } := by
  have he := body_effect h
  generalize inside ++ after = notes at he
  cases he with
  | accept hopen hroom hc => cases hc
  | take hq => exact ⟨_, hq, rfl⟩
  | refuse hc hr => cases hr

theorem popFor_nullopt (h : body capacity .popFor late q = .leave q' inside after .nullopt) : q' = q := by
  have he := body_effect h
  generalize inside ++ after = notes at he
  cases he with
  | accept hopen hroom hc => cases hc
  | refuse => rfl

theorem popFor_threw (h : body capacity .popFor late q = .leave q' inside after .threw) :
    q.stopped = true ∧ q.queue = [] ∧ q' = q := by
  have he := body_effect h
  generalize inside ++ after = notes at he
  cases he with
  | accept hopen hroom hc => cases hc
  | refuse hc hr hstop hempty hthrow => exact ⟨hthrow rfl rfl, hempty rfl, rfl⟩

theorem popFor_of_stopped (h : q.stopped = true) : body capacity .popFor late q = popFront q := by
  simp [body, popFor, ready, h]

theorem tryPop_value {v : T} (h : body capacity .tryPop late q = .leave q' inside after (.value v)) :
    ∃ rest, q.queue = v :: rest ∧ q' = { q with queue := rest } := by
  have he := body_effect h
  generalize inside ++ after = notes at he
  cases he with
  | accept hopen hroom hc => cases hc
  | take hq => exact ⟨_, hq, rfl⟩
  | refuse hc hr => cases hr

theorem tryPop_nullopt (h : body capacity .tryPop late q = .leave q' inside after .nullopt) : q.queue = [] ∧ q' = q := by
  have he := body_effect h
  generalize inside ++ after = notes at he
  cases he with
  | accept hopen hroom hc => cases hc
  | refuse hc hr hstop hempty => exact ⟨hempty rfl, rfl⟩

theorem stop_sets (h : body capacity .stop late q = .leave q' inside after r) : q' = { q with stopped := true } := by
  have he := body_effect h
  generalize inside ++ after = notes at he
  cases he with
  | accept hopen hroom hc => cases r <;> cases hc
  | take hq hc => cases hc
  | stop => rfl
  | stopAgain hs => rw [← hs]
  | refuse hc hr hstop => exact absurd rfl hstop

theorem stop_leaves (capacity : Nat) (late : Bool) (q : Queue T) :
    ∃ inside after r, body capacity .stop late q = .leave { q with stopped := true } inside after r := by
  by_cases hs : q.stopped = true
  · exact ⟨[], [], .done, by simp only [body, stop, hs, if_true]; rw [← hs]⟩
  · exact ⟨_, _, _, if_neg hs⟩

/-! ## Sequential histories -/

abbrev Log (T : Type) := List (Entry (Call T) (Ret T))

/-- The items that were accepted, in order. -/
def accepted (l : Log T) : List T := l.filterMap fun e => accepts e.call e.ret

def popped (l : Log T) : List T := l.filterMap fun e => e.ret.popped

theorem accepted_snoc (l : Log T) (e : Entry (Call T) (Ret T)) :
    accepted (l ++ [e]) = accepted l ++ (accepts e.call e.ret).toList := by
  rw [accepted, List.filterMap_append]
  cases h : accepts e.call e.ret <;> simp [accepted, h]

theorem popped_snoc (l : Log T) (e : Entry (Call T) (Ret T)) : popped (l ++ [e]) = popped l ++ e.ret.popped.toList := by
  rw [popped, List.filterMap_append]
  cases h : e.ret.popped <;> simp [popped, h]

structure Fifo (capacity : Nat) (l : Log T) (q : Queue T) : Prop where
  items : popped l ++ q.queue = accepted l
  bounded : 0 < capacity → q.queue.length ≤ capacity
  stopped : q.stopped = true ↔ ∃ e ∈ l, e.call = .stop

theorem Effect.fifo {e : Entry (Call T) (Ret T)} {l : Log T} (he : Effect capacity q e.call e.ret q' notes)
    (h : Fifo capacity l q) :
    Fifo capacity (l ++ [e]) q' := by
  obtain ⟨t, c, r⟩ := e
  have hold (hc : c ≠ .stop) : (∃ x ∈ l ++ [⟨t, c, r⟩], x.call = .stop) ↔ ∃ x ∈ l, x.call = .stop := by
    simp [or_and_right, exists_or, hc]
  constructor
  · rw [accepted_snoc, popped_snoc]
    cases he with
    | accept hopen hroom hc hr ht => simp [hc, hr, ← h.items]
    | take hq hc =>
      simp [accepts_value, Ret.popped, ← h.items, hq]
    | stop => simp [accepts, Ret.popped, h.items]
    | stopAgain => simp [accepts, Ret.popped, h.items]
    | refuse hc hr => simp [hc, hr, h.items]
  · intro hcap
    have hlen := h.bounded hcap
    cases he with
    | accept hopen hroom hc hr ht =>
      simp only [List.length_append, List.length_singleton]
      omega
    | take hq hc =>
      rw [hq, List.length_cons] at hlen
      exact (Nat.le_succ _).trans hlen
    | stop => exact hlen
    | stopAgain => exact hlen
    | refuse hc hr => exact hlen
  · cases he with
    | accept hopen hroom hc hr ht =>
      rw [hold (by rintro rfl; cases r <;> cases hc)]
      exact h.stopped
    | take hq hc =>
      rw [hold (by rintro rfl; cases hc)]
      exact h.stopped
    | stop => simp
    | stopAgain hs => simp [hs]
    | refuse hc hr hstop =>
      rw [hold hstop]
      exact h.stopped

theorem fifo_of_seq {l : Log T} (h : Seq (object T capacity) l q) : Fifo capacity l q := by
  induction h with
  | nil => exact ⟨rfl, fun _ => Nat.zero_le _, by simp [object]⟩
  | snoc _ hbody ih => exact (body_effect hbody).fifo ih

/-- Of an entry of a history: the queue as it found it, and what it did. -/
theorem seq_effect {l₁ l₂ : Log T} {e : Entry (Call T) (Ret T)} (h : Seq (object T capacity) (l₁ ++ e :: l₂) q) :
    ∃ q₁ q₂ notes, Fifo capacity l₁ q₁ ∧ Effect capacity q₁ e.call e.ret q₂ notes := by
  obtain ⟨q₁, q₂, late, inside, after, hseq, hbody⟩ := h.split
  exact ⟨q₁, q₂, _, fifo_of_seq hseq, body_effect hbody⟩

theorem Effect.not_accepts (h : Effect capacity q c r q' notes) (hs : q.stopped = true) : accepts c r = none := by
  cases h with
  | accept hopen => rw [hs] at hopen; cases hopen
  | take hq hc => exact accepts_value c _
  | stop => rfl
  | stopAgain => rfl
  | refuse hc => exact hc

/-- A pop that finds an item takes it, stopped or not. -/
theorem Effect.takes_front (h : Effect capacity q c r q' notes) (hc : takes c = true) {v : T} {rest : List T}
    (hq : q.queue = v :: rest) : r = .value v := by
  cases h with
  | accept hopen hroom ha hr ht => rw [hc] at ht; cases ht
  | take hq' =>
    rw [hq] at hq'
    cases hq'
    rfl
  | stop => cases hc
  | stopAgain => cases hc
  | refuse ha hr hstop hempty => rw [hempty hc] at hq; cases hq

theorem Effect.throws (h : Effect capacity q c .threw q' notes) (hc : takes c = true) : q.stopped = true ∧ q.queue = [] := by
  cases h with
  | accept hopen hroom ha hr ht => rw [hc] at ht; cases ht
  | refuse ha hr hstop hempty hthrow => exact ⟨hthrow hc rfl, hempty hc⟩

/-- Nothing is accepted behind a `stop`. -/
theorem accepted_after_stop {l₁ l₂ : Log T} {e : Entry (Call T) (Ret T)} (h : Seq (object T capacity) (l₁ ++ e :: l₂) q)
    (he : e.call = .stop) : accepted l₂ = [] := by
  rw [accepted, List.filterMap_eq_nil_iff]
  intro x hx
  obtain ⟨m₁, m₂, rfl⟩ := List.append_of_mem hx
  rw [← List.cons_append, ← List.append_assoc] at h
  obtain ⟨q₁, q₂, notes, hfifo, heffect⟩ := seq_effect h
  exact heffect.not_accepts (hfifo.stopped.mpr ⟨e, by simp, he⟩)

/-! ## After a stop -/

variable {s s' : State T}

/-- From a stop on the queue only shrinks. -/
theorem move_stopped (hmove : Monitor.Move (object T capacity) s s') (hs : s.shared.stopped = true) :
    s'.shared.stopped = true ∧ s'.shared.queue.length ≤ s.shared.queue.length ∧ accepted s'.log = accepted s.log := by
  cases hmove with
  | @leave t c late q inside after r ht hb =>
    have he := body_effect hb
    generalize inside ++ after = notes at he
    refine ⟨?_, ?_, ?_⟩
    · cases he with
      | stop => rfl
      | _ => exact hs
    · cases he with
      | accept hopen => rw [hs] at hopen; cases hopen
      | take hq hc =>
        rw [hq]
        exact Nat.le_succ _
      | _ => exact le_rfl
    · rw [accepted_snoc, he.not_accepts hs, Option.toList_none, List.append_nil]
  | _ => exact ⟨hs, le_rfl, rfl⟩

theorem runs_stopped (h : Monitor.Runs (object T capacity) s s') (hs : s.shared.stopped = true) :
    s'.shared.stopped = true ∧ s'.shared.queue.length ≤ s.shared.queue.length ∧ accepted s'.log = accepted s.log := by
  refine h.inv (I := fun t => t.shared.stopped = true ∧ t.shared.queue.length ≤ s.shared.queue.length ∧
    accepted t.log = accepted s.log) (fun t a t' ht _ hstep => ?_) ⟨hs, le_rfl, rfl⟩
  obtain ⟨hs', hlen, hacc⟩ := move_stopped (Monitor.step_move hstep) ht.1
  exact ⟨hs', hlen.trans ht.2.1, hacc.trans ht.2.2⟩

/-- What was in the queue can still be popped. -/
theorem exists_drained (n : Nat) : ∀ s : State T, (machine T capacity).Reach (fun _ _ => True) s →
    s.shared.stopped = true → s.shared.queue.length ≤ n →
      ∃ s', Monitor.Runs (object T capacity) s s' ∧ s'.shared.queue = [] := by
  induction n with
  | zero => exact fun s _ _ hlen => ⟨s, .refl, List.eq_nil_of_length_eq_zero (by omega)⟩
  | succ n ih =>
    intro s hr hs hlen
    obtain ⟨s₁, hrun₁, hm₁⟩ := Monitor.runs_free (O := object T capacity) (Monitor.reach_exclusive hr)
    obtain ⟨hs₁, hlen₁, -⟩ := runs_stopped hrun₁ hs
    cases hq : s₁.shared.queue with
    | nil => exact ⟨s₁, hrun₁, hq⟩
    | cons v rest =>
      have hb : (object T capacity).body .tryPop false s₁.shared =
          .leave { s₁.shared with queue := rest } [] [.one .notFull] (.value v) := by
        simp only [object, body, tryPop, hq]
      obtain ⟨s₂, t, hrun₂, hm₂, hshared₂, -⟩ := Monitor.runs_call hm₁ hb
      have hrun := hrun₁.trans hrun₂
      have hlen₂ : s₂.shared.queue.length ≤ n := by
        rw [hq, List.length_cons] at hlen₁
        rw [hshared₂]
        change rest.length ≤ n
        omega
      obtain ⟨s₃, hrun₃, hempty⟩ := ih s₂ (hrun.reach hr) (runs_stopped hrun hs).1 hlen₂
      exact ⟨s₃, hrun.trans hrun₃, hempty⟩

/-- Any number of threads and any interleaving: the log is a sequential history of a bounded FIFO. -/
theorem queue_is_linearizable_fifo (T : Type) (capacity : Nat) {s : State T}
    (h : (machine T capacity).Reach (fun _ _ => True) s) :
    Linearized (object T capacity) s ∧
      popped s.log ++ s.shared.queue = accepted s.log ∧
      (0 < capacity → s.shared.queue.length ≤ capacity) ∧
      (∀ l₁ e l₂, s.log = l₁ ++ e :: l₂ → e.call = .stop → accepted l₂ = []) ∧
      (∀ l₁ e l₂ v rest, s.log = l₁ ++ e :: l₂ → takes e.call = true → popped l₁ ++ v :: rest = accepted l₁ →
        e.ret = .value v) ∧
      (∀ l₁ e l₂, s.log = l₁ ++ e :: l₂ → takes e.call = true → e.ret = .threw →
        (∃ x ∈ l₁, x.call = .stop) ∧ popped l₁ = accepted l₁) ∧
      (s.shared.stopped = true →
        ∃ s', (machine T capacity).Later (fun _ _ => True) s s' ∧ popped s'.log = accepted s.log) := by
  have hlin := Monitor.reach_linearized h
  have hfifo := fifo_of_seq hlin.seq
  refine ⟨hlin, hfifo.items, hfifo.bounded, ?_, ?_, ?_, ?_⟩
  · intro l₁ e l₂ hlog he
    exact accepted_after_stop (hlog ▸ hlin.seq) he
  · intro l₁ e l₂ v rest hlog htakes hfront
    obtain ⟨q₁, q₂, notes, hfifo₁, he⟩ := seq_effect (hlog ▸ hlin.seq)
    have hq : q₁.queue = v :: rest := List.append_cancel_left (hfifo₁.items.trans hfront.symm)
    exact he.takes_front htakes hq
  · intro l₁ e l₂ hlog htakes hthrew
    obtain ⟨q₁, q₂, notes, hfifo₁, he⟩ := seq_effect (hlog ▸ hlin.seq)
    rw [hthrew] at he
    obtain ⟨hs, hempty⟩ := he.throws htakes
    refine ⟨hfifo₁.stopped.mp hs, ?_⟩
    have hitems := hfifo₁.items
    rwa [hempty, List.append_nil] at hitems
  · intro hs
    obtain ⟨s', hrun, hempty⟩ := exists_drained _ s h hs le_rfl
    refine ⟨s', hrun, ?_⟩
    have hitems := (fifo_of_seq (Monitor.reach_linearized (hrun.reach h)).seq).items
    rw [hempty, List.append_nil] at hitems
    exact hitems.trans (runs_stopped hrun hs).2.2

theorem queue_is_linearizable_fifo_two :
    ∃ s : State Nat, (machine Nat 1).Reach (fun _ _ => True) s ∧ s.shared.stopped = true ∧ accepted s.log = [7] ∧
      ∃ s', (machine Nat 1).Later (fun _ _ => True) s s' ∧ popped s'.log = [7] := by
  -- two threads: one pushes 7, the other stops the queue
  obtain ⟨s, hr, hs⟩ := Machine.Reach.of_run (machine Nat 1) (fun _ _ => True)
    (fun s => s.shared.stopped && accepted s.log == [7])
    [.spawn, .spawn, .call 0 (.push 7), .lock 0, .body 0, .unlock 0, .call 1 .stop, .lock 1, .body 1, .note 1 0]
    (by decide +kernel)
  obtain ⟨hstop, hacc⟩ := (Bool.and_eq_true _ _).mp hs
  have hacc : accepted s.log = [7] := by simpa using hacc
  obtain ⟨-, -, -, -, -, -, hdrain⟩ := queue_is_linearizable_fifo Nat 1 hr
  obtain ⟨s', hlater, hpopped⟩ := hdrain hstop
  exact ⟨s, hr, hstop, hacc, s', hlater, hpopped.trans hacc⟩

/-! ## Waiters -/

def room (capacity : Nat) (q : Queue T) : Nat := if q.stopped then 0 else capacity - q.queue.length

theorem takes_of_waitsOn (h : waitsOn c = some .notEmpty) : takes c = true := by
  cases c <;> first | rfl | cases h

theorem accounts_notEmpty (T : Type) (capacity : Nat) :
    Accounts (object T capacity) .notEmpty (·.queue.length) (·.stopped) where
  wait {c late q} hb hc := by
    have hready : ready q = false := by
      cases c with
      | pop =>
        simp only [object, body, pop, popFront] at hb
        grind
      | popFor =>
        simp only [object, body, popFor, popFront] at hb
        grind
      | _ => cases hc
    simpa [ready, and_comm] using hready
  leave {c late q q' inside after r} hb := by
    have he := body_effect hb
    generalize inside ++ after = notes at he ⊢
    change _ ∨ _ + (if waitsOn c = some .notEmpty then 1 else 0) ≤ _
    cases he with
    | accept hopen hroom hc hr ht =>
      have hw : waitsOn c ≠ some .notEmpty := fun hw => by simp [takes_of_waitsOn hw] at ht
      simp [hw, ones]
    | take hq hc =>
      refine Or.inr ?_
      simp only [hq, List.length_cons]
      split <;> omega
    | stop => simp [waitsOn]
    | stopAgain => simp [waitsOn]
    | refuse hc hr hstop hempty =>
      by_cases hw : waitsOn c = some .notEmpty
      · exact Or.inl (by simp [hempty (takes_of_waitsOn hw)])
      · exact Or.inr (by simp [hw])
  closes {c late q q' inside after r} hb hs := by
    have he := body_effect hb
    generalize inside ++ after = notes at he ⊢
    cases he with
    | stop => exact Or.inr (by decide)
    | _ => exact Or.inl hs

/-- Without a capacity a push never waits. -/
theorem accounts_notFull (T : Type) (capacity : Nat) :
    Accounts (object T capacity) .notFull (room capacity) (fun q => q.stopped || capacity = 0) where
  wait {c late q} hb hc := by
    cases c with
    | push v =>
      have hfull : pushable capacity q = false := by
        simp only [object, body, emplace] at hb
        grind
      simp only [pushable, Bool.or_eq_false_iff, decide_eq_false_iff_not, not_lt] at hfull
      obtain ⟨⟨hs, hcap⟩, hlen⟩ := hfull
      exact ⟨by simp [room, hs]; omega, by simp [hs, hcap]⟩
    | _ => cases hc
  leave {c late q q' inside after r} hb := by
    have he := body_effect hb
    generalize inside ++ after = notes at he ⊢
    change _ ∨ _ + (if waitsOn c = some .notFull then 1 else 0) ≤ _
    cases he with
    | accept hopen hroom hc hr ht =>
      by_cases hcap : capacity = 0
      · exact Or.inl (by simp [room, hcap])
      · refine Or.inr ?_
        simp only [room, hopen, Bool.false_eq_true, if_false, List.length_append, List.length_singleton]
        split <;> omega
    | @take c v rest hq hc =>
      have hw : waitsOn c ≠ some .notFull := by cases c <;> simp_all [takes, waitsOn]
      refine Or.inr ?_
      simp only [room, hw, if_false, hq, List.length_cons, ones, List.count_singleton_self]
      split <;> omega
    | stop => exact Or.inl (by simp [room])
    | stopAgain hs => exact Or.inl (by simp [room, hs])
    | refuse hc hr hstop hempty hthrow hpush =>
      by_cases hw : waitsOn c = some .notFull
      · exact Or.inl (by simp [room, hpush hw])
      · exact Or.inr (by simp [hw])
  closes {c late q q' inside after r} hb hs := by
    have he := body_effect hb
    generalize inside ++ after = notes at he ⊢
    cases he with
    | stop => exact Or.inr (by decide)
    | _ => exact Or.inl hs

/-- Where no critical section and no notification is under way and no notified thread has yet to run, a consumer that waits
    faces an empty queue that is not stopped, and a producer a full one. -/
theorem queue_strands_no_waiter (T : Type) (capacity : Nat) {s : State T}
    (h : (machine T capacity).Reach (fun _ _ => True) s) (hset : ∀ pc ∈ s.threads, pc.settled = true) :
    (∀ c, .waiting c ∈ s.threads → waitsOn c = some .notEmpty → s.shared.queue = [] ∧ s.shared.stopped = false) ∧
      (∀ c, .waiting c ∈ s.threads → waitsOn c = some .notFull →
        capacity ≠ 0 ∧ capacity ≤ s.shared.queue.length ∧ s.shared.stopped = false) := by
  have hwaits {c : Call T} {cv : Cond} (hmem : .waiting c ∈ s.threads) (hc : waitsOn c = some cv) :
      s.threads.any (Monitor.Pc.waitsFor (object T capacity) cv) = true :=
    List.any_eq_true.mpr ⟨.waiting c, hmem, decide_eq_true hc⟩
  refine ⟨fun c hmem hc => ?_, fun c hmem hc => ?_⟩
  · obtain ⟨hneed, hopen⟩ := Monitor.waits_only_if_needed (accounts_notEmpty T capacity) h hset (hwaits hmem hc)
    exact ⟨List.eq_nil_of_length_eq_zero hneed, hopen⟩
  · obtain ⟨hneed, hopen⟩ := Monitor.waits_only_if_needed (accounts_notFull T capacity) h hset (hwaits hmem hc)
    simp only [Bool.or_eq_false_iff, decide_eq_false_iff_not] at hopen
    simp only [room, hopen.1, Bool.false_eq_true, if_false] at hneed
    exact ⟨hopen.2, by omega, hopen.1⟩

theorem queue_strands_no_waiter_full :
    ∃ s : State Nat, (machine Nat 1).Reach (fun _ _ => True) s ∧ .waiting (.push 8) ∈ s.threads ∧ 1 ≤ s.shared.queue.length := by
  -- the second push has to wait
  obtain ⟨s, hr, hs⟩ := Machine.Reach.of_run (machine Nat 1) (fun _ _ => True)
    (fun s => s.threads.all Monitor.Pc.settled && s.threads.contains (.waiting (.push 8)))
    [.spawn, .spawn, .call 0 (.push 7), .lock 0, .body 0, .unlock 0, .note 0 0, .ret 0,
      .call 1 (.push 8), .lock 1, .body 1]
    (by decide +kernel)
  obtain ⟨hset, hmem⟩ := (Bool.and_eq_true _ _).mp hs
  have hmem : .waiting (.push 8) ∈ s.threads := by simpa using hmem
  have hfull := (queue_strands_no_waiter Nat 1 hr (List.all_eq_true.mp hset)).2 _ hmem rfl
  exact ⟨s, hr, hmem, hfull.2.1⟩

end Dbase.Sync.BlockingQueue
