/-
  Dbase.Lib.Writes — what is read along a path after writes along many paths, one after the other.

  The values written are leaves: they have no children, and no node that a child was put into is one. A child put at an
  address takes away the children at the addresses that it clashes with, and leaves those at any other. A write then touches
  a path if one goes on from the other, or if they part at addresses that clash (`touches`).

  A leaf is read along a path if and only if it was written along it and no later write has touched the path
  (`get_writes`), whatever the nodes on the way were before.
-/

import Dbase.Lib.Path

namespace Dbase.Lib.Nodes

variable {σ S : Type*} {N : Nodes σ S} {clash : σ → σ → Bool} {Leaf : S → Prop}

/-- What a child put at an address does to the others. -/
structure Clashing (N : Nodes σ S) (clash : σ → σ → Bool) (Leaf : S → Prop) : Prop where
  lawful : N.Lawful
  leaf_child : ∀ i v, Leaf v → N.child i v = none
  place_leaf : ∀ i s x, ¬ Leaf (N.place i s x)
  blank_child : ∀ i, N.child i N.blank = none
  blank_leaf : ¬ Leaf N.blank
  /-- it takes those away that it clashes with -/
  lost : ∀ i j s x, i ≠ j → clash i j = true → N.child j (N.place i s x) = none
  /-- it leaves any other, or adds a blank -/
  kept : ∀ i j s x, i ≠ j → clash i j = false →
    N.child j (N.place i s x) = N.child j s ∨ (N.child j s = none ∧ N.child j (N.place i s x) = some N.blank)

theorem get_blank (h : N.Clashing clash Leaf) {p : List σ} {v : S} (hv : Leaf v) : N.get p N.blank ≠ some v := by
  intro hget
  cases p with
  | nil =>
    obtain rfl := Option.some.inj hget
    exact h.blank_leaf hv
  | cons i p =>
    rw [get, h.blank_child, Option.bind_none] at hget
    cases hget

theorem get_leaf (h : N.Clashing clash Leaf) {p : List σ} (hp : p ≠ []) {w : S} (hw : Leaf w) : N.get p w = none := by
  cases p with
  | nil => exact absurd rfl hp
  | cons i p => rw [get, h.leaf_child i w hw, Option.bind_none]

/-- Writes one after the other. -/
def writes (N : Nodes σ S) (ws : List (List σ × S)) (s : S) : S := ws.foldl (fun s w => N.set w.1 s w.2) s

theorem writes_append_singleton (ws : List (List σ × S)) (w : List σ × S) (s : S) :
    N.writes (ws ++ [w]) s = N.set w.1 (N.writes ws s) w.2 := by
  rw [writes, List.foldl_append]
  rfl

variable [DecidableEq σ]

/-! ## One write -/

/-- A write along the first path is noticed along the second. -/
def touches (clash : σ → σ → Bool) : List σ → List σ → Bool
  | [], _ | _, [] => true
  | i :: q, j :: p => if i = j then touches clash q p else clash i j

theorem touches_self (p : List σ) : touches clash p p = true := by
  induction p with
  | nil => rfl
  | cons i p ih => rw [touches, if_pos rfl, ih]

/-- A write that touches another path leaves no leaf to be read along it. -/
theorem get_set_of_touches (h : N.Clashing clash Leaf) {q p : List σ} {w v : S} (hw : Leaf w) (hv : Leaf v)
    (hne : q ≠ p) (htouch : touches clash q p = true) (s : S) : N.get p (N.set q s w) ≠ some v := by
  induction q generalizing p s with
  | nil =>
    rw [set, get_leaf h (Ne.symm hne) hw]
    simp
  | cons i q ih =>
    cases p with
    | nil =>
      intro hget
      obtain rfl := Option.some.inj hget
      exact h.place_leaf _ _ _ hv
    | cons j p =>
      rw [set, get]
      rw [touches] at htouch
      split at htouch
      · rename_i hij
        subst hij
        rw [h.lawful.child_place, Option.bind_some]
        exact ih (fun heq => hne (heq ▸ rfl)) htouch _
      · rename_i hij
        rw [h.lost i j _ _ hij htouch, Option.bind_none]
        simp

/-- Any other write leaves what is read. -/
theorem get_set_of_untouched (h : N.Clashing clash Leaf) {q p : List σ} {v : S} (hv : Leaf v)
    (htouch : touches clash q p = false) (s w : S) : N.get p (N.set q s w) = some v ↔ N.get p s = some v := by
  induction q generalizing p s with
  | nil => cases htouch
  | cons i q ih =>
    cases p with
    | nil => cases htouch
    | cons j p =>
      rw [set, get, get]
      rw [touches] at htouch
      split at htouch
      · rename_i hij
        subst hij
        rw [h.lawful.child_place, Option.bind_some, ih htouch]
        cases N.child i s with
        | none => simp [get_blank h hv]
        | some c => rfl
      · rename_i hij
        rcases h.kept i j s _ hij htouch with heq | ⟨hnone, hblank⟩
        · rw [heq]
        · rw [hnone, hblank, Option.bind_some, Option.bind_none]
          simp [get_blank h hv]

/-! ## Many writes -/

/-- The write is among them, and no later one touches its path. -/
def Stays (clash : σ → σ → Bool) (ws : List (List σ × S)) (p : List σ) (v : S) : Prop :=
  ∃ before after, ws = before ++ (p, v) :: after ∧ ∀ w ∈ after, touches clash w.1 p = false

theorem not_stays_nil (p : List σ) (v : S) : ¬ Stays clash [] p v := by
  rintro ⟨before, after, heq, -⟩
  simp at heq

theorem stays_append_singleton {ws : List (List σ × S)} {w : List σ × S} {p : List σ} {v : S} :
    Stays clash (ws ++ [w]) p v ↔ w = (p, v) ∨ (touches clash w.1 p = false ∧ Stays clash ws p v) := by
  constructor
  · rintro ⟨before, after, heq, hafter⟩
    cases after using List.reverseRecOn with
    | nil =>
      obtain ⟨-, hw⟩ := List.append_inj' heq rfl
      exact .inl (List.cons.inj hw).1
    | append_singleton after w' =>
      rw [← List.cons_append, ← List.append_assoc] at heq
      obtain ⟨rfl, hw⟩ := List.append_inj' heq rfl
      obtain rfl := (List.cons.inj hw).1
      exact .inr ⟨hafter w (by simp), before, after, rfl, fun x hx => hafter x (by simp [hx])⟩
  · rintro (rfl | ⟨htouch, before, after, rfl, hafter⟩)
    · exact ⟨ws, [], rfl, by simp⟩
    · refine ⟨before, after ++ [w], by simp, fun x hx => ?_⟩
      rcases List.mem_append.mp hx with hx | hx
      · exact hafter x hx
      · obtain rfl := List.mem_singleton.mp hx
        exact htouch

theorem get_writes (h : N.Clashing clash Leaf) {ws : List (List σ × S)} (hws : ∀ w ∈ ws, Leaf w.2) {p : List σ} {v s : S}
    (hv : Leaf v) (hs : N.get p s ≠ some v) : N.get p (N.writes ws s) = some v ↔ Stays clash ws p v := by
  induction ws using List.reverseRecOn with
  | nil => exact ⟨fun hget => absurd hget hs, fun hstays => absurd hstays (not_stays_nil p v)⟩
  | append_singleton ws w ih =>
    obtain ⟨q, x⟩ := w
    have hx : Leaf x := hws (q, x) (by simp)
    have ih := ih fun w hw => hws w (List.mem_append_left _ hw)
    rw [writes_append_singleton, stays_append_singleton, Prod.mk.injEq]
    by_cases hq : q = p
    · subst hq
      rw [get_set h.lawful, Option.some.injEq, touches_self]
      simp
    · cases htouch : touches clash q p with
      | true => simp [hq, get_set_of_touches h hx hv hq htouch]
      | false => simp [hq, get_set_of_untouched h hv htouch, ih]

end Dbase.Lib.Nodes
