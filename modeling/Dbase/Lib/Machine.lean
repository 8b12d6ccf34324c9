/-
  Dbase.Lib.Machine — machines that step under labels, the states they reach, and invariants.

  `ok` restricts a run to steps that meet a condition on the state before the step and its label;
  `Reach.inv` is the invariant rule for such runs. `run` executes a list of labels and stops at a step
  that the machine or the condition refuses, so that a concrete run is a computation.

  `Trace` keeps what a run did, each step with the state before it, for statements about one
  step after another; `Later` is what a run may still come to.
-/

import Mathlib

namespace Dbase.Lib

structure Machine (σ α : Type*) where
  init : σ
  step : σ → α → Option σ

namespace Machine

variable {σ α : Type*} {M : Machine σ α} {ok : σ → α → Prop}

inductive Reach (M : Machine σ α) (ok : σ → α → Prop) : σ → Prop
  | init : Reach M ok M.init
  | step {s s' : σ} {a : α} : Reach M ok s → ok s a → M.step s a = some s' → Reach M ok s'

/-- What holds at the start and is kept by every step of the run holds throughout. -/
theorem Reach.inv {I : σ → Prop} (h0 : I M.init) (hs : ∀ s a s', I s → ok s a → M.step s a = some s' → I s')
    {s : σ} (h : Reach M ok s) : I s := by
  induction h with
  | init => exact h0
  | step _ hok hstep ih => exact hs _ _ _ ih hok hstep

/-- The same, where a step may use what is known of the states it leaves. -/
theorem Reach.inv_of_reach {I : σ → Prop} (h0 : I M.init)
    (hs : ∀ s a s', Reach M ok s → I s → ok s a → M.step s a = some s' → I s') {s : σ} (h : Reach M ok s) : I s := by
  induction h with
  | init => exact h0
  | step hr hok hstep ih => exact hs _ _ _ hr ih hok hstep

def run (M : Machine σ α) (ok : σ → α → Prop) [∀ s a, Decidable (ok s a)] : σ → List α → Option σ
  | s, [] => some s
  | s, a :: as => if ok s a then (M.step s a).bind (run M ok · as) else none

theorem Reach.run [∀ s a, Decidable (ok s a)] {s s' : σ} {as : List α} (h : Reach M ok s)
    (hrun : M.run ok s as = some s') : Reach M ok s' := by
  induction as generalizing s with
  | nil =>
    obtain rfl : s = s' := by simpa [Machine.run] using hrun
    exact h
  | cons a as ih =>
    simp only [Machine.run] at hrun
    split at hrun
    · rename_i hok
      obtain ⟨t, ht, hrun⟩ := Option.bind_eq_some_iff.mp hrun
      exact ih (h.step hok ht) hrun
    · cases hrun

/-- A concrete run, for what it comes to. -/
theorem Reach.of_run (M : Machine σ α) (ok : σ → α → Prop) [∀ s a, Decidable (ok s a)] (p : σ → Bool) (as : List α)
    (h : (M.run ok M.init as).any p = true) : ∃ s, Reach M ok s ∧ p s = true := by
  obtain ⟨s, hs, hp⟩ := (Option.any_eq_true _ _).mp h
  exact ⟨s, Reach.init.run hs, hp⟩

/-- A run and the steps it took, oldest first, each with the state before it. -/
inductive Trace (M : Machine σ α) (ok : σ → α → Prop) : List (σ × α) → σ → Prop
  | nil : Trace M ok [] M.init
  | snoc {tr : List (σ × α)} {s s' : σ} {a : α} : Trace M ok tr s → ok s a → M.step s a = some s' →
      Trace M ok (tr ++ [(s, a)]) s'

/-- The invariant rule, over what happened and the state it led to. -/
theorem Trace.inv {I : List (σ × α) → σ → Prop} (h0 : I [] M.init)
    (hs : ∀ tr s a s', I tr s → ok s a → M.step s a = some s' → I (tr ++ [(s, a)]) s')
    {tr : List (σ × α)} {s : σ} (h : Trace M ok tr s) : I tr s := by
  induction h with
  | nil => exact h0
  | snoc _ hok hstep ih => exact hs _ _ _ _ ih hok hstep

theorem Reach.trace {s : σ} (h : Reach M ok s) : ∃ tr, Trace M ok tr s := by
  induction h with
  | init => exact ⟨[], .nil⟩
  | step _ hok hstep ih =>
    obtain ⟨tr, htr⟩ := ih
    exact ⟨_, htr.snoc hok hstep⟩

theorem Trace.reach {tr : List (σ × α)} {s : σ} (h : Trace M ok tr s) : Reach M ok s := by
  induction h with
  | nil => exact .init
  | snoc _ hok hstep ih => exact ih.step hok hstep

/-- One step and a later one: what the first leaves behind, and every step keeps, up to the second. -/
theorem Trace.pairwise {R : σ × α → σ × α → Prop} {I : σ × α → σ → Prop}
    (hnew : ∀ s a s', Reach M ok s → ok s a → M.step s a = some s' → I (s, a) s')
    (hkeep : ∀ p s a s', I p s → Reach M ok s → ok s a → M.step s a = some s' → I p s')
    (huse : ∀ p s a, I p s → ok s a → R p (s, a)) {tr : List (σ × α)} {s : σ} (h : Trace M ok tr s) : tr.Pairwise R := by
  have hboth : tr.Pairwise R ∧ ∀ p ∈ tr, I p s := by
    induction h with
    | nil => simp
    | snoc htr hok hstep ih =>
      obtain ⟨hpairs, hinv⟩ := ih
      refine ⟨List.pairwise_append.mpr ⟨hpairs, by simp, fun p hp q hq => ?_⟩, fun p hp => ?_⟩
      · obtain rfl := List.mem_singleton.mp hq
        exact huse p _ _ (hinv p hp) hok
      · rcases List.mem_append.mp hp with hp | hp
        · exact hkeep p _ _ _ (hinv p hp) htr.reach hok hstep
        · obtain rfl := List.mem_singleton.mp hp
          exact hnew _ _ _ htr.reach hok hstep
  exact hboth.1

/-- The steps of a list of labels, and where they lead. -/
def trace (M : Machine σ α) : σ → List α → Option (List (σ × α) × σ)
  | s, [] => some ([], s)
  | s, a :: as => (M.step s a).bind fun s' => (trace M s' as).map fun (tr, t) => ((s, a) :: tr, t)

theorem Trace.append {tr tr' : List (σ × α)} {s t : σ} {as : List α} (h : Trace M ok tr s)
    (hrun : M.trace s as = some (tr', t)) (hok : ∀ p ∈ tr', ok p.1 p.2) : Trace M ok (tr ++ tr') t := by
  induction as generalizing tr tr' s with
  | nil =>
    simp only [Machine.trace, Option.some.injEq, Prod.mk.injEq] at hrun
    obtain ⟨rfl, rfl⟩ := hrun
    rw [List.append_nil]
    exact h
  | cons a as ih =>
    obtain ⟨u, hu, hrun⟩ := Option.bind_eq_some_iff.mp hrun
    obtain ⟨⟨tr'', t'⟩, hrest, heq⟩ := Option.map_eq_some_iff.mp hrun
    simp only [Prod.mk.injEq] at heq
    obtain ⟨rfl, rfl⟩ := heq
    rw [List.append_cons]
    exact ih (h.snoc (hok (s, a) List.mem_cons_self) hu) hrest fun p hp => hok p (List.mem_cons_of_mem _ hp)

/-- A concrete run, for what it did and what it comes to. -/
theorem Trace.of_run (M : Machine σ α) (ok : σ → α → Prop) [∀ s a, Decidable (ok s a)] (p : List (σ × α) → σ → Bool)
    (as : List α)
    (h : ((M.trace M.init as).any fun x => x.1.all (fun y => decide (ok y.1 y.2)) && p x.1 x.2) = true) :
    ∃ tr s, Trace M ok tr s ∧ p tr s = true := by
  obtain ⟨⟨tr, s⟩, hrun, hp⟩ := (Option.any_eq_true _ _).mp h
  simp only [Bool.and_eq_true, List.all_eq_true, decide_eq_true_eq] at hp
  exact ⟨tr, s, by simpa using Trace.nil.append hrun hp.1, hp.2⟩

inductive Later (M : Machine σ α) (ok : σ → α → Prop) (s : σ) : σ → Prop
  | refl : Later M ok s s
  | step {t t' : σ} {a : α} : Later M ok s t → ok t a → M.step t a = some t' → Later M ok s t'

/-- What holds now and is kept by every step holds from now on. -/
theorem Later.inv {I : σ → Prop} (hs : ∀ t a t', I t → ok t a → M.step t a = some t' → I t') {s t : σ}
    (h : Later M ok s t) (h0 : I s) : I t := by
  induction h with
  | refl => exact h0
  | step _ hok hstep ih => exact hs _ _ _ ih hok hstep

theorem Later.trans {s t u : σ} (h : Later M ok s t) (h' : Later M ok t u) : Later M ok s u := by
  induction h' with
  | refl => exact h
  | step _ hok hstep ih => exact ih.step hok hstep

theorem Later.run [∀ s a, Decidable (ok s a)] {s t t' : σ} {as : List α} (h : Later M ok s t)
    (hrun : M.run ok t as = some t') : Later M ok s t' := by
  induction as generalizing t with
  | nil =>
    obtain rfl : t = t' := by simpa [Machine.run] using hrun
    exact h
  | cons a as ih =>
    simp only [Machine.run] at hrun
    split at hrun
    · rename_i hok
      obtain ⟨u, hu, hrun⟩ := Option.bind_eq_some_iff.mp hrun
      exact ih (h.step hok hu) hrun
    · cases hrun

theorem Later.reach {s t : σ} (h : Later M ok s t) (hr : Reach M ok s) : Reach M ok t := by
  induction h with
  | refl => exact hr
  | step _ hok hstep ih => exact ih.step hok hstep

end Machine

end Dbase.Lib
