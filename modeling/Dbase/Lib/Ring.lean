/-
  Dbase.Lib.Ring — a ring of cells that forgets: a new value goes over the oldest one.

  `latest cap xs` are the last `cap` of a list of values, or all of it if there are fewer. A ring that is not full holds
  the values in order; a full one holds them rotated, and the cell to be written next is the oldest. `Holds` says both.

  Proved:
  - `holds_append`, `holds_overwrite`: what the two phases of a write make of it.
  - `Holds.perm`, `Holds.oldest`: the cells are the latest values in some order, and which the oldest is.
-/

import Mathlib

namespace Dbase.Lib.Ring

variable {α : Type*} {cap next : Nat} {xs cells : List α}

def latest (cap : Nat) (xs : List α) : List α := xs.drop (xs.length - cap)

theorem length_latest (cap : Nat) (xs : List α) : (latest cap xs).length = min xs.length cap := by
  rw [latest, List.length_drop]
  omega

theorem latest_of_le (h : xs.length ≤ cap) : latest cap xs = xs := by
  rw [latest, Nat.sub_eq_zero_of_le h, List.drop_zero]

/-- Where there are enough already, the oldest one goes. -/
theorem latest_append (hcap : 0 < cap) (h : cap ≤ xs.length) (x : α) :
    latest cap (xs ++ [x]) = (latest cap xs).tail ++ [x] := by
  have hlen : (xs ++ [x]).length - cap = xs.length - cap + 1 := by
    rw [List.length_append, List.length_singleton]
    omega
  rw [latest, hlen, List.drop_append_of_le_length (by omega), latest, List.tail_drop]

/-- The cell at `next` is written over and the ring moves on by one. -/
theorem rotate_set (hnext : next < cells.length) (x : α) :
    (cells.set next x).rotate (next + 1) = (cells.rotate next).tail ++ [x] := by
  rw [List.rotate_eq_drop_append_take (by rw [List.length_set]; omega), List.rotate_eq_drop_append_take hnext.le,
    List.drop_set_of_lt (by omega), List.drop_eq_getElem_cons hnext, List.cons_append, List.tail_cons, List.append_assoc]
  congr 1
  rw [List.take_set, List.take_add_one, List.getElem?_eq_getElem hnext, Option.toList_some,
    List.set_append_right _ _ (by rw [List.length_take]; omega), List.length_take, Nat.min_eq_left hnext.le, Nat.sub_self]
  rfl

structure Holds (cap : Nat) (xs : List α) (cells : List α) (next : Nat) : Prop where
  rotated : cells.rotate next = latest cap xs
  next_lt : next < cap
  filling : xs.length < cap → next = 0

theorem Holds.length (h : Holds cap xs cells next) : cells.length = min xs.length cap := by
  rw [← length_latest, ← h.rotated, List.length_rotate]

theorem Holds.perm (h : Holds cap xs cells next) : List.Perm cells (latest cap xs) := by
  rw [← h.rotated]
  exact (List.rotate_perm cells next).symm

/-- The cell to be written next is the oldest of a full ring. -/
theorem Holds.oldest (h : Holds cap xs cells next) (hfull : cap ≤ xs.length) : cells[next]? = (latest cap xs).head? := by
  have hlt : next < cells.length := by
    rw [h.length]
    exact lt_min (lt_of_lt_of_le h.next_lt hfull) h.next_lt
  rw [← h.rotated, List.head?_rotate hlt]

theorem holds_nil (hcap : 0 < cap) : Holds cap ([] : List α) [] 0 := ⟨by simp [latest], hcap, fun _ => rfl⟩

theorem holds_append (h : Holds cap xs cells next) (hroom : xs.length < cap) (x : α) :
    Holds cap (xs ++ [x]) (cells ++ [x]) next := by
  obtain rfl := h.filling hroom
  have hcells : cells = xs := by
    have hrot := h.rotated
    rwa [List.rotate_zero, latest_of_le hroom.le] at hrot
  refine ⟨?_, h.next_lt, fun _ => rfl⟩
  rw [List.rotate_zero, hcells, latest_of_le]
  rw [List.length_append, List.length_singleton]
  omega

theorem holds_overwrite (h : Holds cap xs cells next) (hfull : cap ≤ xs.length) (x : α) :
    Holds cap (xs ++ [x]) (cells.set next x) (if next + 1 ≥ cap then 0 else next + 1) := by
  have hlen : cells.length = cap := by
    rw [h.length]
    omega
  have hlt := h.next_lt
  have hrot : (cells.set next x).rotate (next + 1) = latest cap (xs ++ [x]) := by
    rw [rotate_set (by omega), h.rotated, latest_append (by omega) hfull]
  refine ⟨?_, ?_, ?_⟩
  · split
    · -- a turn by the whole length is none
      rw [← hrot, List.rotate_zero, show next + 1 = (cells.set next x).length by rw [List.length_set]; omega,
        List.rotate_length]
    · exact hrot
  · split <;> omega
  · intro hroom
    rw [List.length_append, List.length_singleton] at hroom
    omega

end Dbase.Lib.Ring
