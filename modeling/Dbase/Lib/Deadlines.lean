/-
  Dbase.Lib.Deadlines — what a timer service owes its clients.

  A client sets a deadline some ticks ahead or cancels one that is pending; the service
  lets time pass tick by tick and fires. `Accepts` says that a history is one of a service
  that fires each pending deadline at its tick and only there: a fire event is due now,
  and time does not pass while something due has not fired.

  In such a history every deadline that is not cancelled fires exactly once, exactly as
  many ticks after it was set as was asked for (`fires_once`).
-/

import Mathlib

namespace Dbase.Lib.Deadlines

variable {ι : Type}

inductive Ev (ι : Type) where
  | set (t : ι) (delay : Nat)
  | cancel (t : ι)
  | fire (t : ι)
  | tick

structure Pending (ι : Type) where
  now : Nat
  due : ι → Option Nat

section
variable [DecidableEq ι]

def Pending.put (s : Pending ι) (t : ι) (d : Option Nat) : Pending ι :=
  { s with due := fun u => if u = t then d else s.due u }

def next (s : Pending ι) : Ev ι → Pending ι
  | .set t delay => s.put t (some (s.now + delay))
  | .cancel t => s.put t none
  | .fire t => s.put t none
  | .tick => { s with now := s.now + 1 }

def Allowed (s : Pending ι) : Ev ι → Prop
  | .set t _ => s.due t = none
  | .cancel t => s.due t ≠ none
  | .fire t => s.due t = some s.now
  | .tick => ∀ t d, s.due t = some d → s.now < d

def after (s : Pending ι) (es : List (Ev ι)) : Pending ι := es.foldl next s

def Accepts (s : Pending ι) : List (Ev ι) → Prop
  | [] => True
  | e :: es => Allowed s e ∧ Accepts (next s e) es

/-- The ticks at which `t` fires, counted from the start of the history. -/
def fires (t : ι) : Nat → List (Ev ι) → List Nat
  | _, [] => []
  | n, .fire u :: es => if u = t then n :: fires t n es else fires t n es
  | n, .tick :: es => fires t (n + 1) es
  | n, .set _ _ :: es => fires t n es
  | n, .cancel _ :: es => fires t n es

def ticks : List (Ev ι) → Nat
  | [] => 0
  | .tick :: es => ticks es + 1
  | .fire _ :: es => ticks es
  | .set _ _ :: es => ticks es
  | .cancel _ :: es => ticks es

/-- No client touches `t`. -/
def Untouched (t : ι) (es : List (Ev ι)) : Prop := ∀ e ∈ es, ∀ d, e ≠ .set t d ∧ e ≠ .cancel t

theorem after_append (s : Pending ι) (es fs : List (Ev ι)) : after s (es ++ fs) = after (after s es) fs :=
  List.foldl_append

theorem accepts_append (s : Pending ι) (es fs : List (Ev ι)) :
    Accepts s (es ++ fs) ↔ Accepts s es ∧ Accepts (after s es) fs := by
  induction es generalizing s with
  | nil => simp [Accepts, after]
  | cons e es ih =>
    simp only [List.cons_append, Accepts, ih, and_assoc]
    rfl

theorem accepts_snoc {s : Pending ι} {es : List (Ev ι)} {e : Ev ι} (h : Accepts s es) (he : Allowed (after s es) e) :
    Accepts s (es ++ [e]) := (accepts_append s es [e]).mpr ⟨h, he, trivial⟩

theorem now_after (s : Pending ι) (es : List (Ev ι)) : (after s es).now = s.now + ticks es := by
  induction es generalizing s with
  | nil => rfl
  | cons e es ih =>
    have h : after s (e :: es) = after (next s e) es := rfl
    rw [h, ih]
    cases e <;> simp only [next, Pending.put, ticks]
    omega

theorem put_same (s : Pending ι) (t : ι) (d : Option Nat) : (s.put t d).due t = d := by simp [Pending.put]

theorem put_other (s : Pending ι) {t u : ι} (d : Option Nat) (h : u ≠ t) : (s.put t d).due u = s.due u := by
  simp [Pending.put, h]

/-- Nothing pending, nothing fires. -/
theorem not_due_no_fire {t : ι} (es : List (Ev ι)) :
    ∀ (s : Pending ι) (n : Nat), Accepts s es → Untouched t es → s.due t = none →
      fires t n es = [] ∧ (after s es).due t = none := by
  induction es with
  | nil => intro s n _ _ h; exact ⟨rfl, h⟩
  | cons e es ih =>
    intro s n ha hu h
    have hu' : Untouched t es := fun x hx => hu x (List.mem_cons_of_mem _ hx)
    have hne := hu e List.mem_cons_self
    cases e with
    | set u d =>
      have hut : t ≠ u := fun e => (hne d).1 (by rw [e])
      exact ih _ n ha.2 hu' (by rw [next, put_other _ _ hut]; exact h)
    | cancel u =>
      have hut : t ≠ u := fun e => (hne 0).2 (by rw [e])
      exact ih _ n ha.2 hu' (by rw [next, put_other _ _ hut]; exact h)
    | fire u =>
      have hut : u ≠ t := by
        intro e
        subst e
        have := ha.1
        simp only [Allowed, h] at this
        cases this
      have hr := ih _ n ha.2 hu' (by rw [next, put_other _ _ (Ne.symm hut)]; exact h)
      simp only [fires, hut, if_false]
      exact hr
    | tick => exact ih _ (n + 1) ha.2 hu' h

/-- What is pending either has not fired yet, or has fired once at its tick. -/
theorem due_fires {t : ι} (es : List (Ev ι)) :
    ∀ (s : Pending ι) (n d : Nat), Accepts s es → Untouched t es → s.due t = some (s.now + d) →
      (fires t n es = [] ∧ (after s es).due t = some (s.now + d)) ∨
      (fires t n es = [n + d] ∧ (after s es).due t = none) := by
  induction es with
  | nil => intro s n d _ _ h; exact Or.inl ⟨rfl, h⟩
  | cons e es ih =>
    intro s n d ha hu h
    have hu' : Untouched t es := fun x hx => hu x (List.mem_cons_of_mem _ hx)
    have hne := hu e List.mem_cons_self
    cases e with
    | set u k =>
      have hut : t ≠ u := fun e => (hne k).1 (by rw [e])
      exact ih _ n d ha.2 hu' (by rw [next, put_other _ _ hut]; exact h)
    | cancel u =>
      have hut : t ≠ u := fun e => (hne 0).2 (by rw [e])
      exact ih _ n d ha.2 hu' (by rw [next, put_other _ _ hut]; exact h)
    | fire u =>
      by_cases hut : u = t
      · subst hut
        have hd : s.due u = some s.now := ha.1
        have hz : d = 0 := by
          rw [h] at hd
          injection hd with hd
          omega
        subst hz
        have hr := not_due_no_fire es _ n ha.2 hu' (put_same s u none)
        right
        simp only [fires, if_true, hr.1]
        exact ⟨rfl, hr.2⟩
      · have hr := ih (next s (.fire u)) n d ha.2 hu' (by rw [next, put_other _ _ (Ne.symm hut)]; exact h)
        simp only [fires, hut, if_false]
        exact hr
    | tick =>
      -- a tick passes only before the deadline
      have hlt : s.now < s.now + d := ha.1 t _ h
      obtain ⟨d, rfl⟩ : ∃ k, d = k + 1 := ⟨d - 1, by omega⟩
      have hr := ih (next s .tick) (n + 1) d ha.2 hu' (by show s.due t = some (s.now + 1 + d); rw [h]; congr 1; omega)
      have e1 : (next s .tick).now + d = s.now + (d + 1) := by simp only [next]; omega
      have e2 : n + 1 + d = n + (d + 1) := by omega
      rw [e1, e2] at hr
      exact hr

/-- A deadline set and left alone fires exactly once, exactly on time: before it is set again,
    or by the time its tick has passed with nothing overdue. -/
theorem fires_once {s : Pending ι} {es fs gs : List (Ev ι)} {t : ι} {d : Nat}
    (ha : Accepts s (es ++ .set t d :: fs ++ gs)) (hu : Untouched t fs)
    (hend : (gs = [] ∧ d ≤ ticks fs ∧
        ∀ u k, (after s (es ++ .set t d :: fs)).due u = some k → (after s (es ++ .set t d :: fs)).now < k) ∨
      ∃ k hs, gs = .set t k :: hs) :
    fires t 0 fs = [d] := by
  rw [accepts_append] at ha
  obtain ⟨ha, hg⟩ := ha
  rw [accepts_append] at ha
  obtain ⟨_, hset, hf⟩ := ha
  have hdue : (next (after s es) (.set t d)).due t = some ((next (after s es) (.set t d)).now + d) := by
    rw [next, put_same]; rfl
  have hstate : after s (es ++ .set t d :: fs) = after (next (after s es) (.set t d)) fs := by
    rw [after_append]; rfl
  rcases due_fires fs _ 0 d hf hu hdue with ⟨_, hp⟩ | ⟨h, _⟩
  · exfalso
    rw [hstate] at hend hg
    rcases hend with ⟨_, hd, hall⟩ | ⟨k, hs, rfl⟩
    · have := hall t _ hp
      rw [now_after] at this
      omega
    · have : (after (next (after s es) (.set t d)) fs).due t = none := hg.1
      rw [hp] at this
      cases this
  · rw [h, Nat.zero_add]

/-- Nothing fires later than the history goes. -/
theorem fires_le {t : ι} (es : List (Ev ι)) : ∀ n k : Nat, k ∈ fires t n es → k ≤ n + ticks es := by
  induction es with
  | nil => intro n k hk; cases hk
  | cons e es ih =>
    intro n k hk
    cases e with
    | set u d => exact ih n k hk
    | cancel u => exact ih n k hk
    | tick =>
      have := ih (n + 1) k hk
      simp only [ticks]; omega
    | fire u =>
      simp only [fires, ticks] at hk ⊢
      split at hk
      · rcases List.mem_cons.mp hk with rfl | hk
        · omega
        · exact ih n k hk
      · exact ih n k hk

/-- Before its tick it has not fired. -/
theorem not_fired_early {s : Pending ι} {es fs : List (Ev ι)} {t : ι} {d : Nat}
    (ha : Accepts s (es ++ .set t d :: fs)) (hu : Untouched t fs) (hd : ticks fs < d) : fires t 0 fs = [] := by
  rw [accepts_append] at ha
  obtain ⟨_, hset, hf⟩ := ha
  have hdue : (next (after s es) (.set t d)).due t = some ((next (after s es) (.set t d)).now + d) := by
    rw [next, put_same]; rfl
  rcases due_fires fs _ 0 d hf hu hdue with ⟨h, _⟩ | ⟨h, _⟩
  · exact h
  · exfalso
    have := fires_le fs 0 d (by rw [h, Nat.zero_add]; exact List.mem_singleton_self d)
    omega

end

end Dbase.Lib.Deadlines
