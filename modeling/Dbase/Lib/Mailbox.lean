/-
  Dbase.Lib.Mailbox — a queue that many threads post to and one consumer empties in batches,
  sleeping in between until it is signalled.

  A post is heard if it leaves a signal behind, or if the poster has announced itself and will
  signal next; a post to a consumer that is about to collect needs neither. Proved: if every post
  is heard, the consumer never listens with posts pending, no signal and nobody announced
  (`Move.sound`); and whatever is heard, it starts the posts in the order they were made, each
  at most once (`Move.accounted`, `Accounted.started`).
-/

import Mathlib

namespace Dbase.Lib

/-- Where the consumer is. -/
inductive Mailbox.Phase (β : Type*) where
  /-- it may sleep before it collects again -/
  | listening
  /-- it collects before it may sleep again -/
  | collecting
  /-- it works through what it collected -/
  | working (rest : List β)
  /-- it neither sleeps nor collects any more -/
  | stopped

structure Mailbox (β : Type*) where
  phase : Mailbox.Phase β
  pending : List β
  signals : Nat
  announced : Nat
  posted : List β
  started : List β

namespace Mailbox

variable {β : Type*} {strict : Prop} {m m' : Mailbox β}

/-- One step of the posters and the consumer; under `strict`, every post is heard. -/
inductive Move (strict : Prop) (m : Mailbox β) : Mailbox β → Prop
  /-- a signal of somebody else, or none -/
  | signal {n : Nat} : m.signals ≤ n → Move strict m { m with signals := n }
  | wake : m.phase = .listening → Move strict m { m with phase := .collecting }
  /-- the consumer takes signals, on its way to collecting -/
  | absorb (n : Nat) : m.phase = .collecting → Move strict m { m with signals := n }
  | collect : m.phase = .collecting → Move strict m { m with phase := .working m.pending, pending := [] }
  | start {x : β} {rest : List β} {n : Nat} : m.phase = .working (x :: rest) → m.signals ≤ n →
      Move strict m { m with phase := .working rest, started := m.started ++ [x], signals := n }
  | rest : m.phase = .working [] → Move strict m { m with phase := .listening }
  | stop : Move strict m { m with phase := .stopped }
  | post {x : β} {n : Nat} : m.signals ≤ n →
      (strict → m.phase = .collecting ∨ m.phase = .stopped ∨ 0 < n ∨ 0 < m.announced) →
      Move strict m { m with pending := m.pending ++ [x], posted := m.posted ++ [x], signals := n }
  | announce (x : β) : Move strict m
      { m with pending := m.pending ++ [x], posted := m.posted ++ [x], announced := m.announced + 1 }
  /-- a poster that announced itself signals -/
  | keep {n : Nat} : 0 < n → Move strict m { m with announced := m.announced - 1, signals := n }

/-- The consumer would be woken, or has nothing to be woken for. -/
def Awake (m : Mailbox β) : Prop := m.pending = [] ∨ 0 < m.signals ∨ 0 < m.announced

def Sound (m : Mailbox β) : Prop := m.phase = .collecting ∨ m.phase = .stopped ∨ Awake m

/-- What is left of the batch. -/
def Phase.batch : Phase β → List β
  | .working rest => rest
  | .listening => []
  | .collecting => []
  | .stopped => []

/-- Every post was started, is in the batch or is pending, in this order; a consumer that stopped
    may have dropped its batch. -/
def Accounted (m : Mailbox β) : Prop :=
  (m.posted = m.started ++ m.phase.batch ++ m.pending) ∨ (m.phase = .stopped ∧ m.started <+: m.posted)

theorem Awake.signal (h : Awake m) {n : Nat} (hn : m.signals ≤ n) : Awake { m with signals := n } := by
  rcases h with h | h | h
  · exact Or.inl h
  · exact Or.inr (Or.inl (Nat.lt_of_lt_of_le h hn))
  · exact Or.inr (Or.inr h)

/-- If every post is heard, the consumer that may sleep is awake. -/
theorem Move.sound (h : Move True m m') (hm : Sound m) : Sound m' := by
  cases h with
  | signal hn =>
    rcases hm with hm | hm | hm
    · exact Or.inl hm
    · exact Or.inr (Or.inl hm)
    · exact Or.inr (Or.inr (hm.signal hn))
  | wake hp => exact Or.inl rfl
  | absorb n hp => exact Or.inl hp
  | collect hp => exact Or.inr (Or.inr (Or.inl rfl))
  | start hp hn =>
    rcases hm with hm | hm | hm
    · rw [hp] at hm; cases hm
    · rw [hp] at hm; cases hm
    · exact Or.inr (Or.inr (hm.signal hn))
  | rest hp =>
    rcases hm with hm | hm | hm
    · rw [hp] at hm; cases hm
    · rw [hp] at hm; cases hm
    · exact Or.inr (Or.inr hm)
  | stop => exact Or.inr (Or.inl rfl)
  | post hn heard =>
    rcases heard trivial with hp | hp | hp | hp
    · exact Or.inl hp
    · exact Or.inr (Or.inl hp)
    · exact Or.inr (Or.inr (Or.inr (Or.inl hp)))
    · exact Or.inr (Or.inr (Or.inr (Or.inr hp)))
  | announce x => exact Or.inr (Or.inr (Or.inr (Or.inr (Nat.succ_pos _))))
  | keep hn => exact Or.inr (Or.inr (Or.inr (Or.inl hn)))

theorem Accounted.started (h : Accounted m) : m.started <+: m.posted := by
  rcases h with h | h
  · exact ⟨m.phase.batch ++ m.pending, by rw [h, List.append_assoc]⟩
  · exact h.2

/-- Posting at the end keeps the order. -/
theorem Accounted.post (h : Accounted m) (x : β) {n k : Nat} :
    Accounted { m with pending := m.pending ++ [x], posted := m.posted ++ [x], signals := n, announced := k } := by
  rcases h with h | ⟨hp, h⟩
  · exact Or.inl (by simp only [h, List.append_assoc])
  · exact Or.inr ⟨hp, h.trans (List.prefix_append _ _)⟩

theorem Move.accounted (h : Move strict m m') (hm : Accounted m) : Accounted m' := by
  cases h with
  | signal hn => exact hm
  | wake hp =>
    rcases hm with hm | ⟨hs, -⟩
    · exact Or.inl (by rw [hp] at hm; exact hm)
    · rw [hp] at hs; cases hs
  | absorb n hp => exact hm
  | collect hp =>
    rcases hm with hm | ⟨hs, -⟩
    · refine Or.inl ?_
      rw [hp] at hm
      simpa [Phase.batch] using hm
    · rw [hp] at hs; cases hs
  | start hp hn =>
    rcases hm with hm | ⟨hs, -⟩
    · refine Or.inl ?_
      rw [hp] at hm
      simpa [Phase.batch] using hm
    · rw [hp] at hs; cases hs
  | rest hp =>
    rcases hm with hm | ⟨hs, -⟩
    · exact Or.inl (by rw [hp] at hm; exact hm)
    · rw [hp] at hs; cases hs
  | stop => exact Or.inr ⟨rfl, hm.started⟩
  | post hn heard => exact hm.post _
  | announce x => exact hm.post x
  | keep hn => exact hm

theorem Move.stopped (h : Move strict m m') (hm : m.phase = .stopped) : m'.phase = .stopped := by
  cases h with
  | wake hp => rw [hp] at hm; cases hm
  | collect hp => rw [hp] at hm; cases hm
  | start hp => rw [hp] at hm; cases hm
  | rest hp => rw [hp] at hm; cases hm
  | stop => rfl
  | _ => exact hm

end Mailbox

end Dbase.Lib
