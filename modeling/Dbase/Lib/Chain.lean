/-
  Dbase.Lib.Chain — doubly linked chains through cells of any kind.

  `next` and `prev` say where a cell's links lead. `Linked next prev xs` is the chain `xs`, each cell linked to the one
  that follows it and back. A change of a few links leaves the chain where it does not touch it (`Linked.left`,
  `Linked.right`); linking a cell in and taking one out are the two edits.
-/

import Mathlib

namespace Dbase.Lib.Chain

variable {A : Type*} {next prev next' prev' : A → Option A} {us vs xs : List A} {z a t : A}

def Linked (next prev : A → Option A) (xs : List A) : Prop :=
  xs.IsChain fun x y => next x = some y ∧ prev y = some x

/-- Links outside the chain do not matter. -/
theorem Linked.congr (h : Linked next prev xs) (hn : ∀ x ∈ xs, next' x = next x) (hp : ∀ x ∈ xs, prev' x = prev x) :
    Linked next' prev' xs := by
  refine List.IsChain.imp_of_mem_imp ?_ h
  intro x y hx hy ⟨h1, h2⟩
  rw [hn x hx, hp y hy]
  exact ⟨h1, h2⟩

/-- Where the last cell's link leads does not matter. -/
theorem Linked.left (h : Linked next prev (us ++ [z])) (hn : ∀ x ∈ us, next' x = next x)
    (hp : ∀ x ∈ us ++ [z], prev' x = prev x) : Linked next' prev' (us ++ [z]) := by
  induction us with
  | nil => exact List.isChain_singleton z
  | cons u us ih =>
    obtain ⟨y, ys, e⟩ : ∃ y ys, us ++ [z] = y :: ys := by cases us <;> simp
    have ih := ih h.tail (fun x hx => hn x (List.mem_cons_of_mem u hx)) (fun x hx => hp x (List.mem_cons_of_mem u hx))
    rw [List.cons_append, e] at h hp ⊢
    obtain ⟨h1, h2⟩ := (List.isChain_cons_cons.mp h).1
    refine List.isChain_cons_cons.mpr ⟨⟨?_, ?_⟩, e ▸ ih⟩
    · rw [hn u (by simp)]
      exact h1
    · rw [hp y (by simp)]
      exact h2

/-- Where the first cell is reached from does not matter. -/
theorem Linked.right (h : Linked next prev (t :: vs)) (hn : ∀ x ∈ t :: vs, next' x = next x)
    (hp : ∀ x ∈ vs, prev' x = prev x) : Linked next' prev' (t :: vs) := by
  refine List.IsChain.imp_of_mem_tail_imp ?_ h
  intro x y hx hy ⟨h1, h2⟩
  rw [hn x hx, hp y hy]
  exact ⟨h1, h2⟩

theorem linked_seam : Linked next prev (us ++ z :: t :: vs) ↔
    Linked next prev (us ++ [z]) ∧ (next z = some t ∧ prev t = some z) ∧ Linked next prev (t :: vs) :=
  List.isChain_append_cons_cons

/-- An edit between `z` and `t`, with `a` there before it or after it, leaves both sides linked. -/
theorem Linked.sides (hl : Linked next prev (us ++ [z])) (hr : Linked next prev (t :: vs))
    (hnd : (us ++ z :: a :: t :: vs).Nodup) (hn : ∀ x, x ≠ z → x ≠ a → next' x = next x)
    (hp : ∀ x, x ≠ t → x ≠ a → prev' x = prev x) : Linked next' prev' (us ++ [z]) ∧ Linked next' prev' (t :: vs) := by
  rw [List.nodup_append] at hnd
  obtain ⟨-, hzs, hd⟩ := hnd
  simp only [List.nodup_cons, List.mem_cons, not_or] at hzs
  obtain ⟨⟨hza, hzt, hzv⟩, ⟨hat, hav⟩, htv, -⟩ := hzs
  refine ⟨hl.left ?_ ?_, hr.right ?_ ?_⟩
  · intro x hx
    exact hn x (hd x hx z (by simp)) (hd x hx a (by simp))
  · intro x hx
    rcases List.mem_append.mp hx with hx | hx
    · exact hp x (hd x hx t (by simp)) (hd x hx a (by simp))
    · obtain rfl := List.mem_singleton.mp hx
      exact hp x hzt hza
  · intro x hx
    rcases List.mem_cons.mp hx with rfl | hx
    · exact hn x (Ne.symm hzt) (Ne.symm hat)
    · exact hn x (fun e => hzv (e ▸ hx)) (fun e => hav (e ▸ hx))
  · intro x hx
    exact hp x (fun e => htv (e ▸ hx)) (fun e => hav (e ▸ hx))

/-- `a` linked in between `z` and `t`. -/
theorem Linked.insert (h : Linked next prev (us ++ z :: t :: vs)) (hnd : (us ++ z :: a :: t :: vs).Nodup)
    (h1 : next' z = some a) (h2 : prev' a = some z) (h3 : next' a = some t) (h4 : prev' t = some a)
    (hn : ∀ x, x ≠ z → x ≠ a → next' x = next x) (hp : ∀ x, x ≠ t → x ≠ a → prev' x = prev x) :
    Linked next' prev' (us ++ z :: a :: t :: vs) := by
  obtain ⟨hl, -, hr⟩ := linked_seam.mp h
  obtain ⟨hl, hr⟩ := Linked.sides hl hr hnd hn hp
  exact linked_seam.mpr ⟨hl, ⟨h1, h2⟩, List.isChain_cons_cons.mpr ⟨⟨h3, h4⟩, hr⟩⟩

/-- `a` taken out from between `z` and `t`. -/
theorem Linked.remove (h : Linked next prev (us ++ z :: a :: t :: vs)) (hnd : (us ++ z :: a :: t :: vs).Nodup)
    (h1 : next' z = some t) (h2 : prev' t = some z) (hn : ∀ x, x ≠ z → x ≠ a → next' x = next x)
    (hp : ∀ x, x ≠ t → x ≠ a → prev' x = prev x) : Linked next' prev' (us ++ z :: t :: vs) := by
  obtain ⟨hl, -, hr⟩ := linked_seam.mp h
  obtain ⟨hl, hr⟩ := Linked.sides hl (List.isChain_cons_cons.mp hr).2 hnd hn hp
  exact linked_seam.mpr ⟨hl, ⟨h1, h2⟩, hr⟩

/-- The chain read forward and the chain read backward. -/
theorem linked_iff : Linked next prev xs ↔
    xs.IsChain (fun x y => next x = some y) ∧ xs.reverse.IsChain (fun x y => prev x = some y) := by
  rw [List.isChain_reverse]
  constructor
  · intro h
    exact ⟨List.IsChain.imp (fun _ _ h => h.1) h, List.IsChain.imp (fun _ _ h => h.2) h⟩
  · intro ⟨h1, h2⟩
    induction xs with
    | nil => exact List.isChain_nil
    | cons x xs ih =>
      have ih := ih h1.tail h2.tail
      cases xs with
      | nil => exact List.isChain_singleton x
      | cons y ys =>
        exact List.isChain_cons_cons.mpr ⟨⟨(List.isChain_cons_cons.mp h1).1, (List.isChain_cons_cons.mp h2).1⟩, ih⟩

/-- Every cell but the last has one that follows it. -/
theorem exists_next {R : A → A → Prop} (h : (xs ++ [t]).IsChain R) {x : A} (hx : x ∈ xs) :
    ∃ us vs y, xs ++ [t] = us ++ x :: y :: vs ∧ R x y := by
  obtain ⟨us, vs, rfl⟩ := List.append_of_mem hx
  cases vs with
  | nil =>
    refine ⟨us, [], t, by simp, ?_⟩
    rw [List.append_assoc] at h
    exact (List.isChain_append_cons_cons.mp h).2.1
  | cons y ys =>
    refine ⟨us, ys ++ [t], y, by simp, ?_⟩
    rw [List.append_assoc] at h
    exact (List.isChain_append_cons_cons.mp h).2.1

end Dbase.Lib.Chain
