/-
  Dbase.Lib.Reorder — lists of cells that stand for ascending numbers.

  `Marks R xs is`: the cells `xs` are marked, one by one, with the numbers `is`, which ascend. A cell is found by its
  number, put in where its number belongs, or taken out; what is said of the others stays.
-/

import Mathlib

namespace Dbase.Lib.Reorder

variable {α : Type*} {R S : α → Nat → Prop} {xs ys : List α} {is js : List Nat} {x : α} {i : Nat}

structure Marks (R : α → Nat → Prop) (xs : List α) (is : List Nat) : Prop where
  cells : List.Forall₂ R xs is
  ascending : is.Pairwise (· < ·)

namespace Marks

theorem nil : Marks R ([] : List α) [] := ⟨.nil, .nil⟩

theorem length_eq (h : Marks R xs is) : xs.length = is.length := h.cells.length_eq

theorem exists_mark (h : Marks R xs is) (hx : x ∈ xs) : ∃ i ∈ is, R x i := by
  obtain ⟨n, hn, rfl⟩ := List.mem_iff_getElem.mp hx
  have hn' : n < is.length := h.length_eq ▸ hn
  exact ⟨is[n], List.getElem_mem hn', (List.forall₂_iff_get.mp h.cells).2 n hn hn'⟩

/-- Cells are in the order of their numbers. -/
theorem pairwise (h : Marks R xs is) {Q : α → α → Prop}
    (hQ : ∀ x y i j, i ∈ is → j ∈ is → R x i → R y j → i < j → Q x y) : xs.Pairwise Q := by
  refine List.pairwise_iff_getElem.mpr fun m n hm hn hmn => ?_
  have hm' : m < is.length := h.length_eq ▸ hm
  have hn' : n < is.length := h.length_eq ▸ hn
  have hcells := (List.forall₂_iff_get.mp h.cells).2
  exact hQ _ _ is[m] is[n] (List.getElem_mem hm') (List.getElem_mem hn') (hcells m hm hm') (hcells n hn hn')
    (List.pairwise_iff_getElem.mp h.ascending m n hm' hn' hmn)

/-- Different numbers of an interval are not more than it has. -/
theorem length_le (h : Marks R xs is) {a b : Nat} (hab : ∀ i ∈ is, a ≤ i ∧ i < b) : xs.length ≤ b - a := by
  have hnodup : is.Nodup := h.ascending.imp fun hlt => Nat.ne_of_lt hlt
  have hsub : is.toFinset ⊆ Finset.Ico a b := fun i hi => Finset.mem_Ico.mpr (hab i (List.mem_toFinset.mp hi))
  have hcard := Finset.card_le_card hsub
  rw [List.toFinset_card_of_nodup hnodup, Nat.card_Ico] at hcard
  exact h.length_eq ▸ hcard

theorem mono (h : Marks R xs is) (hRS : ∀ x i, i ∈ is → R x i → S x i) : Marks S xs is := by
  refine ⟨?_, h.ascending⟩
  have hc := h.cells
  clear h
  induction hc with
  | nil => exact .nil
  | cons hr _ ih =>
    exact .cons (hRS _ _ List.mem_cons_self hr) (ih fun x i hi => hRS x i (List.mem_cons_of_mem _ hi))

/-- Cells replaced, one for one, by others that are marked the same way. -/
theorem replace (h : Marks R xs is) {T : α → α → Prop} (hxy : List.Forall₂ T xs ys)
    (hT : ∀ x y i, T x y → R x i → S y i) : Marks S ys is := by
  refine ⟨?_, h.ascending⟩
  have hc := h.cells
  clear h
  induction hc generalizing ys with
  | nil =>
    rw [List.forall₂_nil_left_iff.mp hxy]
    exact .nil
  | cons hr _ ih =>
    obtain ⟨y, ys', ht, hrest, rfl⟩ := List.forall₂_cons_left_iff.mp hxy
    exact .cons (hT _ _ _ ht hr) (ih hrest)

theorem drop (h : Marks R xs is) (k : Nat) : Marks R (xs.drop k) (is.drop k) :=
  ⟨List.forall₂_drop k h.cells, h.ascending.sublist (List.drop_sublist k is)⟩

theorem tail (h : Marks R (x :: xs) (i :: is)) : Marks R xs is := h.drop 1

theorem head_lt (h : Marks R xs (i :: is)) : ∀ j ∈ is, i < j := (List.pairwise_cons.mp h.ascending).1

/-- A cell in the middle, with its number. -/
theorem split (h : Marks R (xs ++ x :: ys) is) : ∃ as i bs, is = as ++ i :: bs ∧ R x i ∧ Marks R (xs ++ ys) (as ++ bs) := by
  have h1 := List.forall₂_take xs.length h.cells
  have h2 := List.forall₂_drop xs.length h.cells
  rw [List.take_left] at h1
  rw [List.drop_left] at h2
  obtain ⟨i, bs, hr, hrest, e⟩ := List.forall₂_cons_left_iff.mp h2
  have eis : is = is.take xs.length ++ i :: bs := by rw [← e, List.take_append_drop]
  refine ⟨is.take xs.length, i, bs, eis, hr, List.rel_append h1 hrest, ?_⟩
  rw [eis] at h
  exact h.ascending.sublist (List.Sublist.append_left (List.sublist_cons_self _ _) _)

/-- A cell behind all others. -/
theorem snoc (h : Marks R xs is) (hlt : ∀ j ∈ is, j < i) (hx : R x i) : Marks R (xs ++ [x]) (is ++ [i]) := by
  refine ⟨List.rel_append h.cells (.cons hx .nil), List.pairwise_append.mpr ⟨h.ascending, List.pairwise_singleton _ _, ?_⟩⟩
  intro a ha b hb
  obtain rfl := List.mem_singleton.mp hb
  exact hlt a ha

theorem unsnoc (h : Marks R (xs ++ [x]) is) :
    ∃ is' i, is = is' ++ [i] ∧ Marks R xs is' ∧ R x i ∧ ∀ j ∈ is', j < i := by
  have h1 := List.forall₂_take xs.length h.cells
  have h2 := List.forall₂_drop xs.length h.cells
  rw [List.take_left] at h1
  rw [List.drop_left] at h2
  obtain ⟨i, bs, hr, hnil, e⟩ := List.forall₂_cons_left_iff.mp h2
  obtain rfl := List.forall₂_nil_left_iff.mp hnil
  have eis : is = is.take xs.length ++ [i] := by rw [← e, List.take_append_drop]
  have hasc := h.ascending
  rw [eis] at hasc
  obtain ⟨hpre, -, hlt⟩ := List.pairwise_append.mp hasc
  exact ⟨is.take xs.length, i, eis, ⟨h1, hpre⟩, hr, fun j hj => hlt j hj i (List.mem_singleton_self i)⟩

end Marks

end Dbase.Lib.Reorder
