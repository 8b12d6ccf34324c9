/-
  Dbase.Lib.Crew — threads kept in a list, each with its place in its program.

  A step of one thread is a `set`, a new thread goes to the end. The lemmas say what a step of one does to
  what is said of all of them: a function that does not see it, a sum over them, whether any has a property.
-/

import Mathlib

namespace Dbase.Lib.Crew

variable {α β : Type*}

theorem getElem?_set_of {l : List α} {t : Nat} {a : α} (h : l[t]? = some a) (b : α) (u : Nat) :
    (l.set t b)[u]? = if u = t then some b else l[u]? := by
  obtain ⟨hlt, -⟩ := List.getElem?_eq_some_iff.mp h
  rw [List.getElem?_set]
  by_cases hu : t = u
  · subst hu
    simp [hlt]
  · rw [if_neg hu, if_neg (Ne.symm hu)]

theorem getElem?_snoc (l : List α) (a : α) (t : Nat) :
    (l ++ [a])[t]? = l[t]? ∨ l[t]? = none ∧ (l ++ [a])[t]? = some a := by
  rcases lt_trichotomy t l.length with hlt | rfl | hgt
  · exact Or.inl (List.getElem?_append_left hlt)
  · exact Or.inr ⟨by simp, by simp⟩
  · refine Or.inl ?_
    rw [List.getElem?_eq_none hgt.le, List.getElem?_eq_none (by simp; omega)]

theorem forall_set {P : α → Prop} {l : List α} {t : Nat} {b : α} (h : ∀ x ∈ l, P x) (hb : P b) : ∀ x ∈ l.set t b, P x :=
  fun x hx => (List.mem_or_eq_of_mem_set hx).elim (h x) fun heq => heq ▸ hb

theorem forall_snoc {P : α → Prop} {l : List α} {a : α} (h : ∀ x ∈ l, P x) (ha : P a) : ∀ x ∈ l ++ [a], P x :=
  List.forall_mem_append.mpr ⟨h, by simpa using ha⟩

/-- A thread that goes on where a function does not see it. -/
theorem map_set_of {l : List α} {t : Nat} {a b : α} {f : α → β} (h : l[t]? = some a) (hf : f b = f a) :
    (l.set t b).map f = l.map f := by
  refine List.ext_getElem? fun u => ?_
  rw [List.getElem?_map, List.getElem?_map, getElem?_set_of h]
  split
  · rename_i hu
    rw [hu, h, Option.map_some, Option.map_some, hf]
  · rfl

theorem sum_set_of {l : List α} {t : Nat} {a : α} (f : α → Nat) (h : l[t]? = some a) (b : α) :
    ((l.set t b).map f).sum + f a = (l.map f).sum + f b := by
  induction l generalizing t with
  | nil => simp at h
  | cons x l ih =>
    cases t with
    | zero =>
      obtain rfl : x = a := by simpa using h
      simp only [List.set_cons_zero, List.map_cons, List.sum_cons]
      omega
    | succ t =>
      have := ih (t := t) (by simpa using h)
      simp only [List.set_cons_succ, List.map_cons, List.sum_cons]
      omega

theorem le_sum_of_mem {l : List α} {a : α} (f : α → Nat) (h : a ∈ l) : f a ≤ (l.map f).sum :=
  List.single_le_sum (fun _ _ => Nat.zero_le _) _ (List.mem_map_of_mem h)

/-- Two threads make up no more than all of them. -/
theorem add_le_sum_of_getElem? {l : List α} {t u : Nat} {a b : α} (f : α → Nat) (ha : l[t]? = some a)
    (hb : l[u]? = some b) (hne : t ≠ u) : f a + f b ≤ (l.map f).sum := by
  induction l generalizing t u with
  | nil => simp at ha
  | cons x l ih =>
    simp only [List.map_cons, List.sum_cons]
    cases t with
    | zero =>
      obtain ⟨v, rfl⟩ := Nat.exists_eq_succ_of_ne_zero hne.symm
      obtain rfl : x = a := by simpa using ha
      have hle := le_sum_of_mem f (List.mem_of_getElem? (show l[v]? = some b by simpa using hb))
      omega
    | succ t =>
      cases u with
      | zero =>
        obtain rfl : x = b := by simpa using hb
        have hle := le_sum_of_mem f (List.mem_of_getElem? (show l[t]? = some a by simpa using ha))
        omega
      | succ u =>
        have := ih (t := t) (u := u) (by simpa using ha) (by simpa using hb) (by omega)
        omega

theorem any_iff_getElem? {l : List α} {p : α → Bool} : l.any p = true ↔ ∃ (u : Nat) (a : α), l[u]? = some a ∧ p a = true := by
  rw [List.any_eq_true]
  constructor
  · rintro ⟨a, ha, hp⟩
    obtain ⟨u, hu⟩ := List.mem_iff_getElem?.mp ha
    exact ⟨u, a, hu, hp⟩
  · rintro ⟨u, a, hu, hp⟩
    exact ⟨a, List.mem_of_getElem? hu, hp⟩

theorem any_of_any_set {l : List α} {t : Nat} {a b : α} {p : α → Bool} (ht : l[t]? = some a) (hb : p b = false)
    (h : (l.set t b).any p = true) : l.any p = true := by
  obtain ⟨u, x, hu, hx⟩ := any_iff_getElem?.mp h
  rw [getElem?_set_of ht] at hu
  split at hu
  · cases hu
    rw [hb] at hx
    cases hx
  · exact any_iff_getElem?.mpr ⟨u, x, hu, hx⟩

theorem any_set_of_any {l : List α} {t : Nat} {a b : α} {p : α → Bool} (ht : l[t]? = some a)
    (hab : p a = true → p b = true) (h : l.any p = true) : (l.set t b).any p = true := by
  obtain ⟨u, x, hu, hx⟩ := any_iff_getElem?.mp h
  by_cases hut : u = t
  · subst hut
    rw [ht] at hu
    cases hu
    exact any_iff_getElem?.mpr ⟨u, b, by rw [getElem?_set_of ht, if_pos rfl], hab hx⟩
  · exact any_iff_getElem?.mpr ⟨u, x, by rw [getElem?_set_of ht, if_neg hut, hu], hx⟩

theorem filterMap_set_of {l : List α} {t : Nat} {a b : α} {g : α → Option β} (h : l[t]? = some a) (hab : g b = g a) :
    (l.set t b).filterMap g = l.filterMap g := by
  have hmap := congrArg (List.filterMap id) (map_set_of h hab)
  simpa [List.filterMap_map] using hmap

/-- What is seen of the one that goes on is exchanged. -/
theorem filterMap_set_perm {l : List α} {t : Nat} {a : α} (g : α → Option β) (h : l[t]? = some a) (b : α) :
    ((g a).toList ++ (l.set t b).filterMap g).Perm ((g b).toList ++ l.filterMap g) := by
  induction l generalizing t with
  | nil => simp at h
  | cons x l ih =>
    cases t with
    | zero =>
      obtain rfl : x = a := by simpa using h
      rw [List.set_cons_zero, List.filterMap_cons, List.filterMap_cons]
      cases g x with
      | none => cases g b <;> simp
      | some y => cases g b <;> simp [List.Perm.swap]
    | succ t =>
      have ht := ih (t := t) (by simpa using h)
      rw [List.set_cons_succ, List.filterMap_cons, List.filterMap_cons]
      cases g x with
      | none => exact ht
      | some y => exact List.perm_middle.trans ((ht.cons y).trans List.perm_middle.symm)

/-- The whole sum is with one thread: it alone is seen by what needs a share. -/
theorem filterMap_set_alone {l : List α} {t : Nat} {a : α} {f : α → Nat} {g : α → Option β} (h : l[t]? = some a)
    (hsum : (l.map f).sum ≤ f a) (hg : ∀ x, f x = 0 → g x = none) (b : α) : (l.set t b).filterMap g = (g b).toList := by
  induction l generalizing t with
  | nil => simp at h
  | cons x l ih =>
    simp only [List.map_cons, List.sum_cons] at hsum
    cases t with
    | zero =>
      obtain rfl : x = a := by simpa using h
      have hnone : l.filterMap g = [] := by
        refine List.filterMap_eq_nil_iff.mpr fun y hy => hg y ?_
        have := le_sum_of_mem f hy
        omega
      rw [List.set_cons_zero, List.filterMap_cons, hnone]
      cases g b <;> rfl
    | succ t =>
      have ht : l[t]? = some a := by simpa using h
      have hle := le_sum_of_mem f (List.mem_of_getElem? ht)
      rw [List.set_cons_succ, List.filterMap_cons, hg x (by omega)]
      exact ih ht (by omega)

theorem filterMap_alone {l : List α} {t : Nat} {a : α} {f : α → Nat} {g : α → Option β} (h : l[t]? = some a)
    (hsum : (l.map f).sum ≤ f a) (hg : ∀ x, f x = 0 → g x = none) : l.filterMap g = (g a).toList := by
  have hset : l.set t a = l := by
    refine List.ext_getElem? fun u => ?_
    rw [getElem?_set_of h]
    split
    · rename_i hu
      rw [hu, h]
    · rfl
  rw [← filterMap_set_alone h hsum hg a, hset]

end Dbase.Lib.Crew
