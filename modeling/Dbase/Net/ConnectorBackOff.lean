/-
  Dbase.Net.ConnectorBackOff — the delays between the attempts of a connector.

  `retry` arms the timer with `m_retryDelayMs` and doubles it in place, up to the maximum; a connection, `restart` and
  `setRetryDelayMs` begin anew. The doubling is made in an `int` before it is compared with the maximum. So it leaves the
  `int` if a delay of `2^30` or more is still below the maximum, and never if there is no such delay.

  `Watched` is a connector with the delays of its retries since the last new beginning, and whether a doubling has left
  the `int`.

  Proved:
  - `step_paced`: a step keeps the delay, begins anew, or is a retry.
  - `backs_off_of_room`: with room for the doublings the delays are the doublings of the first, cut off at the maximum.
  - `room_of_backs_off`: without it, enough failures in a row make one overflow.
-/

import Dbase.Lib.Signed
import Dbase.Net.ConnectorProofs

namespace Dbase.Net.Connector

open Dbase.Lib Dbase.Lib.Signed

variable {φ : Type} {c c' d : Conn φ}

/-! ## Watching the delays -/

structure Watched (φ : Type) where
  conn : Conn φ
  delays : List Int
  overflowed : Bool
  deriving DecidableEq, Repr

/-- The step begins anew: a connection has been made, or the caller has said so. -/
def resets (c : Conn φ) (a : Act) (c' : Conn φ) : Bool :=
  match a with
  | .setRetryDelayMs .. => true
  | .restart => true
  | .event .. => c.state = .connecting && c'.state = .connected
  | _ => false

/-- The delay of the timer that the step has armed, if any. -/
def armed (c c' : Conn φ) : List Int :=
  if c'.nextTimerId = c.nextTimerId then [] else (c'.timers.getLast?.map (·.2)).toList

/-- The step has armed a timer, and the doubling behind it does not fit. -/
def overflows (c c' : Conn φ) : Bool :=
  c'.nextTimerId ≠ c.nextTimerId && c.retryDelayMs < c.maxRetryDelayMs && !decide (InRange 32 (c.retryDelayMs * 2))

def watch (s : Watched φ) (a : Act) (c' : Conn φ) : Watched φ where
  conn := c'
  delays := if resets s.conn a c' then [] else s.delays ++ armed s.conn c'
  overflowed := s.overflowed || overflows s.conn c'

def watched (c : Conn φ) : Machine (Watched φ) Act := ⟨⟨c, [], false⟩, fun s a => (step s.conn a).map (watch s a)⟩

def Act.sets : Act → Bool
  | .setRetryDelayMs .. => true
  | _ => false

/-! ## What a step makes of the delay -/

/-- What `retry` reads, and which timer is the next. -/
def pace (c : Conn φ) : Int × Int × Int × Nat := (c.initialRetryDelayMs, c.maxRetryDelayMs, c.retryDelayMs, c.nextTimerId)

theorem pace_eq {x y z : Int} {n : Nat} : pace c = (x, y, z, n) ↔
    c.initialRetryDelayMs = x ∧ c.maxRetryDelayMs = y ∧ c.retryDelayMs = z ∧ c.nextTimerId = n := by
  simp [pace]

/-- The delay is as before, or the step is a retry. -/
def Paced (c c' : Conn φ) : Prop := pace c' = pace c ∨ ∃ d, pace d = pace c ∧ d.started = true ∧ c' = retry d

@[simp] theorem pace_release (c : Conn φ) : pace (release c) = pace c := by
  obtain ⟨opened, registered, more, he, -⟩ := release_frame c
  rw [he]
  rfl

@[simp] theorem pace_stopInLoop (c : Conn φ) : pace (stopInLoop c) = pace c := by
  obtain ⟨state, socket, opened, registered, more, he, -⟩ := stopInLoop_frame c
  rw [he]
  rfl

theorem Paced.retry (h : pace d = pace c) : Paced c (retry d) := by
  by_cases hst : d.started = true
  · exact Or.inr ⟨d, h, hst, rfl⟩
  · rw [retry_stopped (by simpa using hst)]
    exact Or.inl h

theorem Paced.startInLoop (h : pace d = pace c) (answer : Attempt) : Paced c (startInLoop answer d) := by
  rcases startInLoop_cases answer d with ⟨-, -, he⟩ | ⟨-, he⟩
  · rw [he]
    have ho := connect_outcome answer d
    generalize connect answer d = c' at ho ⊢
    cases ho with
    | threw => exact Or.inl h
    | begun => exact Or.inl h
    | retried => exact Paced.retry h
    | gaveUp _ => exact Or.inl h
  · rw [he]
    exact Or.inl h

theorem resets_of_state {error write : Bool} {soError : Int} {selfConnect : Option Bool} (h : c'.state = c.state) :
    resets c (.event error write soError selfConnect) c' = false := by
  unfold resets
  rw [h]
  cases c.state <;> rfl

theorem step_paced {a : Act} (hset : a.sets = false) (h : step c a = some c') :
    (resets c a c' = false ∧ Paced c c') ∨
      (resets c a c' = true ∧ pace c' = pace { c with retryDelayMs := c.initialRetryDelayMs }) := by
  cases step_move h with
  | setNewConnectionCallback on => exact Or.inl ⟨rfl, Or.inl rfl⟩
  | setRetryDelayMs => cases hset
  | start answer => exact Or.inl ⟨rfl, Paced.startInLoop rfl answer⟩
  | stop =>
    obtain ⟨id, he⟩ := stop_frame c
    rw [he]
    exact Or.inl ⟨rfl, Or.inl rfl⟩
  | restart =>
    obtain ⟨id, he⟩ := restart_frame c
    rw [he]
    exact Or.inr ⟨rfl, rfl⟩
  | @functor f fs answer hq =>
    refine Or.inl ⟨rfl, ?_⟩
    cases f with
    | stopInLoop => exact Or.inl (pace_stopInLoop _)
    | restartInLoop => exact Paced.startInLoop rfl answer
    | deleteChannel ch => exact Or.inl rfl
    | other f => exact Or.inl rfl
  | fire id answer ht => exact Or.inl ⟨rfl, Paced.startInLoop rfl answer⟩
  | event hch hd =>
    obtain ⟨opened, registered, more, hrel, -⟩ := release_frame c
    cases hd with
    | ignored => exact Or.inl ⟨resets_of_state rfl, Or.inl rfl⟩
    | retried hc => exact Or.inl ⟨by simp [resets], Paced.retry (pace_release c)⟩
    | threw hcomp =>
      rw [hrel]
      exact Or.inl ⟨resets_of_state rfl, Or.inl rfl⟩
    | delivered hcomp _ _ =>
      have hc : c.state = .connecting := by simp_all [completes]
      rw [hrel]
      exact Or.inr ⟨by simp [resets, establish, hc], rfl⟩
    | dropped hcomp _ =>
      have hc : c.state = .connecting := by simp_all [completes]
      rw [hrel]
      exact Or.inr ⟨by simp [resets, establish, hc], rfl⟩

/-- What a retry arms, and what the delay becomes. -/
theorem retry_pace (hst : d.started = true) :
    pace (retry d) = (d.initialRetryDelayMs, d.maxRetryDelayMs, (doubleDelay d).retryDelayMs, d.nextTimerId + 1) ∧
      (retry d).timers.getLast?.map (·.2) = some (if d.retryDelayMs < 0 then 0 else d.retryDelayMs) := by
  obtain ⟨id, hcancel⟩ := cancelRetry_frame (setState .disconnected d)
  have hretry : retry d = doubleDelay (runAfter d.retryDelayMs (cancelRetry (setState .disconnected d))) := if_pos hst
  rw [hretry, hcancel]
  unfold doubleDelay
  by_cases hlt : d.retryDelayMs < d.maxRetryDelayMs
  · rw [if_pos hlt, if_pos (by exact hlt)]
    refine ⟨rfl, ?_⟩
    simp only [runAfter, setState, List.getLast?_concat, Option.map_some]
  · rw [if_neg hlt, if_neg (by exact hlt)]
    refine ⟨rfl, ?_⟩
    simp only [runAfter, setState, List.getLast?_concat, Option.map_some]

theorem watch_kept {s : Watched φ} {a : Act} (hr : resets s.conn a c' = false) (h : pace c' = pace s.conn) :
    watch s a c' = ⟨c', s.delays, s.overflowed⟩ := by
  obtain ⟨-, -, -, hn⟩ := pace_eq.mp h
  simp [watch, hr, armed, overflows, hn]

theorem watch_reset {s : Watched φ} {a : Act} (hr : resets s.conn a c' = true)
    (h : pace c' = pace { s.conn with retryDelayMs := s.conn.initialRetryDelayMs }) :
    watch s a c' = ⟨c', [], s.overflowed⟩ := by
  obtain ⟨-, -, -, hn⟩ := pace_eq.mp h
  simp [watch, hr, overflows, hn]

theorem watch_retried {s : Watched φ} {a : Act} (hr : resets s.conn a (retry d) = false) (h : pace d = pace s.conn)
    (hst : d.started = true) :
    watch s a (retry d) =
      ⟨retry d, s.delays ++ [if s.conn.retryDelayMs < 0 then 0 else s.conn.retryDelayMs], s.overflowed ||
        (s.conn.retryDelayMs < s.conn.maxRetryDelayMs && !decide (InRange 32 (s.conn.retryDelayMs * 2)))⟩ := by
  obtain ⟨hp, ht⟩ := retry_pace hst
  obtain ⟨-, -, hd, hid⟩ := pace_eq.mp h
  obtain ⟨-, -, -, hn⟩ := pace_eq.mp hp
  rw [hid] at hn
  rw [hd] at ht
  simp [watch, hr, armed, overflows, hn, ht]

/-! ## Every run since the settings -/

/-- The settings as `setRetryDelayMs` keeps them. -/
def firstDelay (initialDelayMs : Int) : Int := max initialDelayMs 1

def lastDelay (initialDelayMs maxDelayMs : Int) : Int := max maxDelayMs (firstDelay initialDelayMs)

/-- No doubling of the first delay from `2^30` on is below the maximum. -/
def Room (initialDelayMs maxDelayMs : Int) : Prop :=
  ∀ k : Nat, 2 ^ 30 ≤ firstDelay initialDelayMs * 2 ^ k →
    lastDelay initialDelayMs maxDelayMs ≤ firstDelay initialDelayMs * 2 ^ k

/-- After any run these settings are made, and any run follows that makes no others: the retries since the last new
beginning have been delayed by the doublings of the first delay, up to the maximum, and no doubling has overflowed. -/
def BacksOff (φ : Type) (initialDelayMs maxDelayMs : Int) : Prop :=
  ∀ c : Conn φ, (machine φ).Reach (fun _ _ => True) c →
    ∀ s, (watched (setRetryDelayMs initialDelayMs maxDelayMs c)).Reach (fun _ a => a.sets = false) s →
      s.overflowed = false ∧ s.delays = (List.range s.delays.length).map fun k =>
        min (firstDelay initialDelayMs * 2 ^ k) (lastDelay initialDelayMs maxDelayMs)

variable {i m : Int} {k : Nat}

theorem setRetryDelayMs_pace (i m : Int) (c : Conn φ) :
    pace (setRetryDelayMs i m c) = (firstDelay i, lastDelay i m, firstDelay i, c.nextTimerId) := by
  have h1 : (if i ≤ 0 then 1 else i) = firstDelay i := by
    unfold firstDelay
    split_ifs <;> omega
  have h2 : (if m < firstDelay i then firstDelay i else m) = lastDelay i m := by
    unfold lastDelay
    split_ifs <;> omega
  simp only [pace, setRetryDelayMs, h1, h2]

theorem one_le_doubling (i : Int) (k : Nat) : 1 ≤ firstDelay i * 2 ^ k := by
  have h1 : 1 ≤ firstDelay i := le_max_right ..
  have h2 : (0 : Int) < 2 ^ k := by positivity
  exact one_le_mul_of_one_le_of_one_le h1 h2

/-- One doubling: in range where there is room, and the next value of the closed form. -/
theorem doubleDelay_eq (hm : InRange 32 m) (hi : InRange 32 i) (hroom : Room i m)
    (hd : d.retryDelayMs = min (firstDelay i * 2 ^ k) (lastDelay i m)) (hl : d.maxRetryDelayMs = lastDelay i m) :
    (doubleDelay d).retryDelayMs = min (firstDelay i * 2 ^ (k + 1)) (lastDelay i m) ∧
      (d.retryDelayMs < d.maxRetryDelayMs → InRange 32 (d.retryDelayMs * 2)) := by
  have hx := one_le_doubling i k
  have hr := hroom k
  have hmax : lastDelay i m ≤ 2147483647 := by
    have h1 := hm.2
    have h2 := hi.2
    unfold lastDelay firstDelay
    simp only [maxOf] at h1 h2
    omega
  rw [pow_succ, ← mul_assoc]
  generalize firstDelay i * 2 ^ k = x at *
  generalize lastDelay i m = last at *
  unfold doubleDelay
  rw [hd, hl]
  by_cases hlt : min x last < last
  · -- below the maximum the delay is the doubling itself, and twice as much still fits
    have hx30 : x < 2 ^ 30 := by omega
    have hmin : min x last = x := by omega
    have hmod : (x * 2).bmod (2 ^ 32) = x * 2 := Int.bmod_eq_of_le (by omega) (by omega)
    rw [if_pos hlt, hmin, hmod]
    refine ⟨?_, fun _ => ?_⟩
    · show (if last < x * 2 then last else x * 2) = min (x * 2) last
      split_ifs <;> omega
    · unfold InRange minOf maxOf
      omega
  · rw [if_neg hlt, hd]
    exact ⟨by omega, fun h => absurd h hlt⟩

structure Steady (i m : Int) (s : Watched φ) : Prop where
  first : s.conn.initialRetryDelayMs = firstDelay i
  last : s.conn.maxRetryDelayMs = lastDelay i m
  current : s.conn.retryDelayMs = min (firstDelay i * 2 ^ s.delays.length) (lastDelay i m)
  fits : s.overflowed = false
  delays : s.delays = (List.range s.delays.length).map fun k => min (firstDelay i * 2 ^ k) (lastDelay i m)

theorem first_le_last (i m : Int) : firstDelay i ≤ lastDelay i m := le_max_right ..

theorem steady_init (i m : Int) (c : Conn φ) : Steady i m ⟨setRetryDelayMs i m c, [], false⟩ := by
  obtain ⟨hfirst, hlast, hcur, -⟩ := pace_eq.mp (setRetryDelayMs_pace i m c)
  have hle := first_le_last i m
  refine ⟨hfirst, hlast, ?_, rfl, rfl⟩
  simp only [hcur, List.length_nil, pow_zero, mul_one]
  omega

theorem Steady.step (hi : InRange 32 i) (hm : InRange 32 m) (hroom : Room i m) {s : Watched φ} (hs : Steady i m s) {a : Act}
    (hset : a.sets = false) (h : step s.conn a = some c') : Steady i m (watch s a c') := by
  have hle := first_le_last i m
  rcases step_paced hset h with ⟨hr, hp | ⟨d, hp, hst, rfl⟩⟩ | ⟨hr, hp⟩
  · obtain ⟨hf, hl, hd, -⟩ := pace_eq.mp hp
    rw [watch_kept hr hp]
    exact ⟨hf.trans hs.first, hl.trans hs.last, hd.trans hs.current, hs.fits, hs.delays⟩
  · obtain ⟨hf, hl, hd, -⟩ := pace_eq.mp hp
    obtain ⟨hnext, hfits⟩ := doubleDelay_eq hm hi hroom (hd.trans hs.current) (hl.trans hs.last)
    obtain ⟨hf', hl', hd', -⟩ := pace_eq.mp (retry_pace hst).1
    have hpos := one_le_doubling i s.delays.length
    have hnn : ¬ s.conn.retryDelayMs < 0 := by
      have h1 : 1 ≤ firstDelay i := le_max_right ..
      rw [hs.current]
      omega
    have hov : (s.conn.retryDelayMs < s.conn.maxRetryDelayMs && !decide (InRange 32 (s.conn.retryDelayMs * 2))) = false := by
      rw [hd, hl] at hfits
      by_cases hlt : s.conn.retryDelayMs < s.conn.maxRetryDelayMs
      · simp [hfits hlt]
      · simp [hlt]
    rw [watch_retried hr hp hst, hov, if_neg hnn]
    refine ⟨hf'.trans (hf.trans hs.first), hl'.trans (hl.trans hs.last), ?_, by simp [hs.fits], ?_⟩
    · rw [List.length_append, List.length_singleton, ← hnext]
      exact hd'
    · rw [List.length_append, List.length_singleton, List.range_succ, List.map_append, ← hs.delays, List.map_singleton,
        hs.current]
  · obtain ⟨hf, hl, hd, -⟩ := pace_eq.mp hp
    rw [watch_reset hr hp]
    refine ⟨hf.trans hs.first, hl.trans hs.last, ?_, hs.fits, rfl⟩
    simp only [hd.trans hs.first, List.length_nil, pow_zero, mul_one]
    omega

theorem backs_off_of_room (hi : InRange 32 i) (hm : InRange 32 m) (hroom : Room i m) : BacksOff φ i m := by
  intro c _ s hs
  have hsteady : Steady i m s := by
    refine hs.inv (I := Steady i m) (steady_init i m c) ?_
    intro s a s' hI hset hstep
    obtain ⟨c', hc, rfl⟩ := Option.map_eq_some_iff.mp hstep
    exact hI.step hi hm hroom hset hc
  exact ⟨hsteady.fits, hsteady.delays⟩

/-! ## Failures in a row -/

def refused : Attempt := .failed econnrefused

/-- An attempt that the server refuses is a retry. -/
theorem start_refused (h : c.state = .disconnected) :
    ∃ d, pace d = pace c ∧ d.started = true ∧ start refused c = retry d :=
  ⟨closeSocket (some c.nextSocket) (openSocket (called .start { c with started := true })), rfl, rfl, by
    simp [start, startInLoop, connect, called, refused, h, isInProgressError, isRetryableConnectError, econnrefused,
      einprogress, ealready, ewouldblock]⟩

/-- Any number of refused attempts, one after the other. -/
theorem refused_again (i m : Int) (k : Nat) :
    ∃ s : Watched φ, (watched (setRetryDelayMs i m make)).Reach (fun _ a => a.sets = false) s ∧
      s.conn.state = .disconnected ∧ s.conn.maxRetryDelayMs = lastDelay i m ∧ s.delays.length = k := by
  induction k with
  | zero =>
    obtain ⟨-, hl, -, -⟩ := pace_eq.mp (setRetryDelayMs_pace i m (make (φ := φ)))
    exact ⟨_, .init, rfl, hl, rfl⟩
  | succ k ih =>
    obtain ⟨s, hs, hstate, hl, hlen⟩ := ih
    obtain ⟨d, hp, hst, he⟩ := start_refused hstate
    obtain ⟨-, hld, -, -⟩ := pace_eq.mp hp
    obtain ⟨-, hlr, -, -⟩ := pace_eq.mp (retry_pace hst).1
    refine ⟨watch s (.start refused) (retry d), hs.step (a := .start refused) rfl ?_, ?_, ?_, ?_⟩
    · show (some (start refused s.conn)).map _ = _
      rw [he]
      rfl
    · rw [watch_retried rfl hp hst]
      exact retry_state d
    · rw [watch_retried rfl hp hst]
      exact hlr.trans (hld.trans hl)
    · rw [watch_retried rfl hp hst, List.length_append, hlen, List.length_singleton]

theorem room_of_backs_off (h : BacksOff φ i m) : Room i m := by
  intro k hk
  by_contra hlt
  obtain ⟨s, hs, hstate, hl, hlen⟩ := refused_again (φ := φ) i m k
  obtain ⟨d, hp, hst, he⟩ := start_refused hstate
  have hnext : (watched (setRetryDelayMs i m make)).Reach (fun _ a => a.sets = false)
      (watch s (.start refused) (retry d)) := by
    refine hs.step (a := .start refused) rfl ?_
    show (some (start refused s.conn)).map _ = _
    rw [he]
    rfl
  obtain ⟨hfits, hdelays⟩ := h make .init _ hnext
  rw [watch_retried rfl hp hst] at hfits hdelays
  -- the last delay is the doubling itself, so it is the current one, and twice as much does not fit
  simp only [List.length_append, hlen, List.length_singleton, List.range_succ, List.map_append, List.map_singleton] at hdelays
  have hcur := List.append_inj_right' hdelays rfl
  rw [List.singleton_inj] at hcur
  have hpos := one_le_doubling i k
  have hdelay : s.conn.retryDelayMs = firstDelay i * 2 ^ k := by
    split_ifs at hcur <;> omega
  have hov : (s.conn.retryDelayMs < s.conn.maxRetryDelayMs && !decide (InRange 32 (s.conn.retryDelayMs * 2))) = true := by
    have hout : ¬ InRange 32 (s.conn.retryDelayMs * 2) := by
      rw [hdelay]
      unfold InRange maxOf
      omega
    have hbelow : s.conn.retryDelayMs < s.conn.maxRetryDelayMs := by
      rw [hdelay, hl]
      omega
    simp [hout, hbelow]
  rw [hov, Bool.or_true] at hfits
  cases hfits

/-- The closed form holds in every run if and only if the doublings have room. -/
theorem backs_off_iff (hi : InRange 32 i) (hm : InRange 32 m) : BacksOff φ i m ↔ Room i m :=
  ⟨room_of_backs_off, backs_off_of_room hi hm⟩

/-- The settings a new connector has. -/
theorem backs_off_defaults : BacksOff Unit 500 30000 :=
  (backs_off_iff (by decide) (by decide)).mpr (fun _ hk => le_trans (by decide) hk)

/-- From one millisecond up to the greatest `int`: the doubling of `2^30` overflows. -/
theorem a_doubling_overflows : ¬ ∀ i m : Int, InRange 32 i → InRange 32 m → BacksOff Unit i m := by
  intro h
  have hroom := room_of_backs_off (h 1 (maxOf 32) (by decide) (by decide)) 30
  revert hroom
  decide

end Dbase.Net.Connector
