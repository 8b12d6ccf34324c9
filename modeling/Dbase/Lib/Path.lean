/-
  Dbase.Lib.Path — nodes with addressed children, read and written along a path of addresses.

  `Nodes` are given by two operations on one level: the child at an address, if there is one, and putting a child at an
  address, whatever the node was before. `get` and `set` follow a path; `set` makes the nodes that are missing. If putting
  a child at an address is what it says (`Lawful`), then so is `set`; and `set` leaves what is read along another path, if
  no node on its way loses a child (`Spares`).

  `put` replaces the first entry of a key in a list of entries, or adds one at its end; entries put one after the other
  are all there if none contradicts another (`mem_puts`). `emplace` only adds: of entries emplaced one after the other,
  the first of a key stays (`lookup_emplaces`).
-/

import Mathlib

namespace Dbase.Lib

/-! ## Lists of entries -/

namespace Entries

variable {κ α : Type*} [BEq κ]

def put (k : κ) (a : α) : List (κ × α) → List (κ × α)
  | [] => [(k, a)]
  | (k', b) :: l => if k == k' then (k, a) :: l else (k', b) :: put k a l

/-- Adds an entry unless the key has one. -/
def emplace (k : κ) (a : α) (l : List (κ × α)) : List (κ × α) := if l.any (k == ·.1) then l else l ++ [(k, a)]

theorem of_mem_put {k k' : κ} {a b : α} {l : List (κ × α)} (h : (k', b) ∈ put k a l) : b = a ∨ (k', b) ∈ l := by
  induction l with
  | nil =>
    obtain ⟨rfl, rfl⟩ := Prod.mk.inj (List.mem_singleton.mp h)
    exact .inl rfl
  | cons e l ih =>
    obtain ⟨k'', c⟩ := e
    rw [put] at h
    split at h
    · rcases List.mem_cons.mp h with heq | hmem
      · exact .inl (Prod.mk.inj heq).2
      · exact .inr (List.mem_cons_of_mem _ hmem)
    · rcases List.mem_cons.mp h with heq | hmem
      · exact .inr (List.mem_cons.mpr (.inl heq))
      · exact (ih hmem).imp_right (List.mem_cons_of_mem _)

variable [LawfulBEq κ]

theorem emplace_new {k : κ} (a : α) {l : List (κ × α)} (h : k ∉ l.map (·.1)) : emplace k a l = l ++ [(k, a)] := by
  refine if_neg fun hany => ?_
  obtain ⟨e, he, heq⟩ := List.any_eq_true.mp hany
  exact h (List.mem_map.mpr ⟨e, he, (eq_of_beq heq).symm⟩)

theorem lookup_put (k : κ) (a : α) (l : List (κ × α)) : (put k a l).lookup k = some a := by
  induction l with
  | nil => rw [put, List.lookup_cons, beq_self_eq_true]
  | cons e l ih =>
    obtain ⟨k', b⟩ := e
    cases hk : k == k' with
    | true => rw [put, if_pos hk, List.lookup_cons, beq_self_eq_true]
    | false => rw [put, hk, if_neg Bool.false_ne_true, List.lookup_cons, hk, ih]

theorem lookup_put_ne {k k' : κ} (h : k' ≠ k) (a : α) (l : List (κ × α)) : (put k a l).lookup k' = l.lookup k' := by
  induction l with
  | nil => rw [put, List.lookup_cons, beq_false_of_ne h]
  | cons e l ih =>
    obtain ⟨k'', b⟩ := e
    cases hk : k == k'' with
    | true =>
      obtain rfl := eq_of_beq hk
      rw [put, if_pos hk, List.lookup_cons, List.lookup_cons, beq_false_of_ne h]
    | false => rw [put, hk, if_neg Bool.false_ne_true, List.lookup_cons, List.lookup_cons, ih]

theorem put_put (k : κ) (a b : α) (l : List (κ × α)) : put k b (put k a l) = put k b l := by
  induction l with
  | nil => simp [put]
  | cons e l ih =>
    obtain ⟨k', c⟩ := e
    cases hk : k == k' with
    | true => simp [put, hk]
    | false => simp [put, hk, ih]

theorem lookup_emplace (k k' : κ) (a : α) (l : List (κ × α)) :
    (emplace k a l).lookup k' = (l.lookup k').or (if k' == k then some a else none) := by
  unfold emplace
  split
  · rename_i hany
    cases hl : l.lookup k' with
    | some b => rfl
    | none =>
      rw [Option.none_or]
      split
      · rename_i hk
        obtain rfl := eq_of_beq hk
        obtain ⟨e, he, heq⟩ := List.any_eq_true.mp hany
        exact absurd (eq_of_beq heq) (by simpa using List.lookup_eq_none_iff.mp hl e he)
      · rfl
  · rw [List.lookup_append, List.lookup_cons, List.lookup_nil]
    cases k' == k <;> rfl

/-- Entries emplaced one after the other. -/
def emplaces (l : List (κ × α)) (m : List (κ × α)) : List (κ × α) := l.foldl (fun m e => emplace e.1 e.2 m) m

theorem lookup_emplaces (l m : List (κ × α)) (k : κ) : (emplaces l m).lookup k = (m.lookup k).or (l.lookup k) := by
  induction l generalizing m with
  | nil => simp [emplaces]
  | cons e l ih =>
    obtain ⟨k', a⟩ := e
    show (emplaces l (emplace k' a m)).lookup k = _
    rw [ih, lookup_emplace, Option.or_assoc, List.lookup_cons]
    cases k == k' <;> rfl

theorem keys_put (k : κ) (a : α) (l : List (κ × α)) :
    (put k a l).map (·.1) = if l.any (k == ·.1) then l.map (·.1) else l.map (·.1) ++ [k] := by
  induction l with
  | nil => rfl
  | cons e l ih =>
    obtain ⟨k', b⟩ := e
    cases hk : k == k' with
    | true =>
      obtain rfl := eq_of_beq hk
      simp [put]
    | false =>
      rw [put, hk, if_neg Bool.false_ne_true, List.map_cons, ih, List.any_cons, hk, Bool.false_or]
      split <;> rfl

theorem nodup_put {k : κ} {a : α} {l : List (κ × α)} (h : (l.map (·.1)).Nodup) : ((put k a l).map (·.1)).Nodup := by
  rw [keys_put]
  split
  · exact h
  · rename_i hk
    refine List.nodup_append.mpr ⟨h, by simp, ?_⟩
    intro x hx y hy heq
    obtain rfl := List.mem_singleton.mp hy
    obtain ⟨e, he, rfl⟩ := List.mem_map.mp hx
    exact hk (List.any_eq_true.mpr ⟨e, he, by simp [heq]⟩)

/-- Where no key comes twice, a lookup finds what is there. -/
theorem lookup_eq_some_iff {l : List (κ × α)} (h : (l.map (·.1)).Nodup) {k : κ} {a : α} :
    l.lookup k = some a ↔ (k, a) ∈ l := by
  induction l with
  | nil => simp
  | cons e l ih =>
    obtain ⟨k', b⟩ := e
    obtain ⟨hnot, hnodup⟩ := List.nodup_cons.mp h
    rw [List.lookup_cons, List.mem_cons]
    cases hk : k == k' with
    | true =>
      obtain rfl := eq_of_beq hk
      constructor
      · rintro heq
        cases heq
        exact .inl rfl
      · rintro (heq | hmem)
        · cases heq
          rfl
        · exact absurd (List.mem_map_of_mem (f := (·.1)) hmem) hnot
    | false =>
      have hne : k ≠ k' := ne_of_beq_false hk
      simp [ih hnodup, hne]

theorem mem_put {l : List (κ × α)} (h : (l.map (·.1)).Nodup) {k k' : κ} {a b : α} :
    (k, a) ∈ put k' b l ↔ (k = k' ∧ a = b) ∨ (k ≠ k' ∧ (k, a) ∈ l) := by
  rw [← lookup_eq_some_iff (nodup_put h)]
  by_cases hk : k = k'
  · subst hk
    simp [lookup_put, eq_comm]
  · rw [lookup_put_ne hk, lookup_eq_some_iff h]
    simp [hk]

/-- Entries put one after the other. -/
def puts (l : List (κ × α)) (m : List (κ × α)) : List (κ × α) := l.foldl (fun m e => put e.1 e.2 m) m

theorem nodup_puts {l m : List (κ × α)} (h : (m.map (·.1)).Nodup) : ((puts l m).map (·.1)).Nodup := by
  induction l generalizing m with
  | nil => exact h
  | cons e l ih => exact ih (nodup_put h)

/-- They are all there, if none contradicts another. -/
theorem mem_puts {l : List (κ × α)} (h : ∀ k a b, (k, a) ∈ l → (k, b) ∈ l → a = b) {k : κ} {a : α} :
    (k, a) ∈ puts l [] ↔ (k, a) ∈ l := by
  induction l using List.reverseRecOn with
  | nil => rfl
  | append_singleton l e ih =>
    obtain ⟨k', b⟩ := e
    have hl := ih fun k a b ha hb => h k a b (List.mem_append_left _ ha) (List.mem_append_left _ hb)
    have hputs : puts (l ++ [(k', b)]) [] = put k' b (puts l []) := List.foldl_append
    rw [hputs, mem_put (nodup_puts (by simp)), hl, List.mem_append, List.mem_singleton, Prod.mk.injEq]
    constructor
    · rintro (heq | ⟨-, hmem⟩)
      · exact .inr heq
      · exact .inl hmem
    · rintro (hmem | heq)
      · by_cases hk : k = k'
        · subst hk
          exact .inl ⟨rfl, h k a b (List.mem_append_left _ hmem) (by simp)⟩
        · exact .inr ⟨hk, hmem⟩
      · exact .inl heq

end Entries

/-! ## Paths -/

structure Nodes (σ S : Type*) where
  child : σ → S → Option S
  /-- the node with the child at the address -/
  place : σ → S → S → S
  /-- a child that was not there -/
  blank : S

namespace Nodes

variable {σ S : Type*} {N : Nodes σ S}

def get (N : Nodes σ S) : List σ → S → Option S
  | [], s => some s
  | i :: p, s => (N.child i s).bind (get N p)

def set (N : Nodes σ S) : List σ → S → S → S
  | [], _, v => v
  | i :: p, s, v => N.place i s (set N p ((N.child i s).getD N.blank) v)

structure Lawful (N : Nodes σ S) : Prop where
  child_place : ∀ i s x, N.child i (N.place i s x) = some x
  place_place : ∀ i s x y, N.place i (N.place i s x) y = N.place i s y

/-- No node on the way loses another child by it. -/
def Spares (N : Nodes σ S) : List σ → S → Prop
  | [], _ => True
  | i :: p, s => (∀ j x y, j ≠ i → N.child j s = some y → N.child j (N.place i s x) = some y) ∧
      ∀ c, N.child i s = some c → Spares N p c

theorem get_set (hN : N.Lawful) (p : List σ) (s v : S) : N.get p (N.set p s v) = some v := by
  induction p generalizing s with
  | nil => rfl
  | cons i p ih => rw [set, get, hN.child_place, Option.bind_some, ih]

theorem set_set (hN : N.Lawful) (p : List σ) (s v w : S) : N.set p (N.set p s v) w = N.set p s w := by
  induction p generalizing s with
  | nil => rfl
  | cons i p ih => rw [set, set, set, hN.child_place, hN.place_place, Option.getD_some, ih]

/-- What is read along a path that neither goes on from the other nor stops on its way stays. -/
theorem get_set_of_apart [DecidableEq σ] (hN : N.Lawful) {p q : List σ} {s y : S} (v : S) (hs : N.Spares p s)
    (hpq : ¬ p <+: q) (hqp : ¬ q <+: p) (hq : N.get q s = some y) : N.get q (N.set p s v) = some y := by
  induction p generalizing q s with
  | nil => exact absurd List.nil_prefix hpq
  | cons i p ih =>
    cases q with
    | nil => exact absurd List.nil_prefix hqp
    | cons j q =>
      obtain ⟨c, hc, hq⟩ := Option.bind_eq_some_iff.mp hq
      by_cases hij : j = i
      · subst hij
        rw [set, get, hN.child_place, Option.bind_some, hc, Option.getD_some]
        refine ih (hs.2 c hc) (fun h => hpq ?_) (fun h => hqp ?_) hq
        · exact List.cons_prefix_cons.mpr ⟨rfl, h⟩
        · exact List.cons_prefix_cons.mpr ⟨rfl, h⟩
      · rw [set, get, hs.1 j _ c hij hc, Option.bind_some, hq]

/-- The nodes on the way, and the addresses of the steps from them. -/
theorem spares_of {p : List σ} {s : S}
    (h : ∀ before i after c, p = before ++ i :: after → N.get before s = some c →
      ∀ j x y, j ≠ i → N.child j c = some y → N.child j (N.place i c x) = some y) : N.Spares p s := by
  induction p generalizing s with
  | nil => trivial
  | cons i p ih =>
    refine ⟨h [] i p s rfl rfl, fun c hc => ih fun before j after d hp hd => ?_⟩
    exact h (i :: before) j after d (by rw [hp]; rfl) (by rw [get, hc]; exact hd)

end Nodes

end Dbase.Lib
