/-
  Dbase.Lib.Recency — a bounded list of entries with distinct keys, the most recently used first.

  Keys are compared with an arbitrary `==`; an entry keeps the key it came with when a key that is
  equal to it is put again. `put` into a full list gives the last entry up.
-/

import Mathlib

namespace Dbase.Lib.Recency

variable {K V : Type*} [BEq K]

def find? (k : K) (l : List (K × V)) : Option (K × V) := l.find? fun e => e.1 == k

def remove (k : K) (l : List (K × V)) : List (K × V) := l.eraseP fun e => e.1 == k

/-- The entry of a key, if there is one, becomes the most recent. -/
def touch (k : K) (l : List (K × V)) : List (K × V) :=
  match find? k l with
  | some e => e :: remove k l
  | none => l

/-- The list with a value put under a key, and the entry that had to go. -/
def put (capacity : Nat) (k : K) (v : V) (l : List (K × V)) : List (K × V) × Option (K × V) :=
  match find? k l with
  | some e => ((e.1, v) :: remove k l, none)
  | none => if l.length < capacity then ((k, v) :: l, none) else ((k, v) :: l.dropLast, l.getLast?)

/-- No two keys are equal. -/
def Distinct (l : List (K × V)) : Prop := l.Pairwise fun a b => (a.1 == b.1) = false

/-! ## A list split at the first hit -/

theorem find?_split {α : Type*} {p : α → Bool} {pre post : List α} {a : α} (hpre : ∀ x ∈ pre, p x = false)
    (ha : p a = true) : (pre ++ a :: post).find? p = some a := by
  have hnone : pre.find? p = none := List.find?_eq_none.mpr fun x hx => by simp [hpre x hx]
  rw [List.find?_append, hnone, Option.none_or, List.find?_cons_of_pos ha]

theorem eraseP_split {α : Type*} {p : α → Bool} {pre post : List α} {a : α} (hpre : ∀ x ∈ pre, p x = false)
    (ha : p a = true) : (pre ++ a :: post).eraseP p = pre ++ post := by
  rw [List.eraseP_append_right _ fun x hx => by simp [hpre x hx], List.eraseP_cons_of_pos ha]

/-! ## Lengths -/

variable {k : K} {l : List (K × V)} {e : K × V}

theorem remove_length (h : find? k l = some e) : (remove k l).length + 1 = l.length := by
  have hmem : e ∈ l := List.mem_of_find?_eq_some h
  have hlen := List.length_eraseP_of_mem hmem (List.find?_some h)
  have := List.length_pos_of_mem hmem
  rw [remove]
  omega

theorem touch_length (k : K) (l : List (K × V)) : (touch k l).length = l.length := by
  unfold touch
  split
  · rename_i e he
    exact remove_length he
  · rfl

theorem put_length_le {capacity : Nat} {v : V} (hcap : 0 < capacity) (h : l.length ≤ capacity) :
    (put capacity k v l).1.length ≤ capacity := by
  unfold put
  split
  · rename_i e he
    have := remove_length he
    simp only [List.length_cons]
    omega
  · split
    · simp only [List.length_cons]
      omega
    · simp only [List.length_cons, List.length_dropLast]
      omega

end Dbase.Lib.Recency
