/-
  Dbase.Lib.Matches — the occurrences of a word in a text, from the left and without overlap.

  `FirstAt d s k`: the word `d` stands in `s` at `k` and nowhere before. `Pieces d s ps`: `s` cut at the first occurrence,
  what follows it cut again, and so on; `ps` is what is left between the cuts. A loop that looks for the next occurrence
  behind the last one walks down such a derivation, one turn for each piece.

  Proved:
  - `Pieces.exists`: every text is cut, by any word but the empty one; `Pieces.length_le` bounds the pieces.
  - `Pieces.intercalate`, `Pieces.free`: with the word between them the pieces are the text, and none contains the word.
-/

import Mathlib

namespace Dbase.Lib.Matches

variable {α : Type*} {d s : List α} {k : Nat} {ps : List (List α)}

structure FirstAt (d s : List α) (k : Nat) : Prop where
  here : d <+: s.drop k
  before : ∀ j < k, ¬ d <+: s.drop j

inductive Pieces (d : List α) : List α → List (List α) → Prop
  | last {s : List α} : ¬ d <:+: s → Pieces d s [s]
  | cut {s : List α} {k : Nat} {ps : List (List α)} : FirstAt d s k → Pieces d (s.drop (k + d.length)) ps →
      Pieces d s (s.take k :: ps)

theorem infix_iff_drop : d <:+: s ↔ ∃ k, d <+: s.drop k := by
  constructor
  · rintro ⟨p, q, rfl⟩
    refine ⟨p.length, q, ?_⟩
    rw [List.append_assoc, List.drop_left]
  · rintro ⟨k, hk⟩
    exact hk.isInfix.trans (List.drop_suffix k s).isInfix

/-- An occurrence is a first one, or a first one stands before it. -/
theorem FirstAt.exists (h : d <:+: s) : ∃ k, FirstAt d s k := by
  classical
  have hk := infix_iff_drop.mp h
  exact ⟨Nat.find hk, Nat.find_spec hk, fun _ => Nat.find_min hk⟩

theorem FirstAt.le (h : FirstAt d s k) (hd : d ≠ []) : k + d.length ≤ s.length := by
  have hl := h.here.length_le
  have hp := List.length_pos_iff.mpr hd
  rw [List.length_drop] at hl
  omega

/-- What stands before the first occurrence has none. -/
theorem FirstAt.free (h : FirstAt d s k) (hd : d ≠ []) : ¬ d <:+: s.take k := by
  intro hin
  obtain ⟨j, hj⟩ := infix_iff_drop.mp hin
  have hl := hj.length_le
  have hp := List.length_pos_iff.mpr hd
  rw [List.length_drop, List.length_take] at hl
  refine h.before j (by omega) (hj.trans ?_)
  rw [List.drop_take]
  exact List.take_prefix _ _

theorem Pieces.ne_nil (h : Pieces d s ps) : ps ≠ [] := by
  cases h <;> exact List.cons_ne_nil _ _

theorem Pieces.exists (hd : d ≠ []) (s : List α) : ∃ ps, Pieces d s ps := by
  induction hn : s.length using Nat.strong_induction_on generalizing s with
  | _ n ih =>
    by_cases hin : d <:+: s
    · obtain ⟨k, hk⟩ := FirstAt.exists hin
      have hle := hk.le hd
      have hp := List.length_pos_iff.mpr hd
      obtain ⟨ps, hps⟩ := ih (s.drop (k + d.length)).length (by rw [List.length_drop]; omega) _ rfl
      exact ⟨_, .cut hk hps⟩
    · exact ⟨_, .last hin⟩

/-- Every occurrence takes at least one letter. -/
theorem Pieces.length_le (h : Pieces d s ps) (hd : d ≠ []) : ps.length ≤ s.length + 1 := by
  induction h with
  | last hin => simp
  | cut hk _ ih =>
    have hle := hk.le hd
    have hp := List.length_pos_iff.mpr hd
    rw [List.length_drop] at ih
    rw [List.length_cons]
    omega

theorem Pieces.intercalate (h : Pieces d s ps) : d.intercalate ps = s := by
  induction h with
  | last hin => exact List.intercalate_singleton
  | @cut s k ps hk hps ih =>
    obtain ⟨q, hq⟩ := hk.here
    have hrest : s.drop (k + d.length) = q := by
      rw [← List.drop_drop, ← hq, List.drop_left]
    rw [List.intercalate_cons_of_ne_nil hps.ne_nil, ih, hrest]
    rw [List.append_assoc, hq, List.take_append_drop]

theorem Pieces.free (h : Pieces d s ps) (hd : d ≠ []) : ∀ p ∈ ps, ¬ d <:+: p := by
  induction h with
  | last hin =>
    intro p hp
    rwa [List.mem_singleton.mp hp]
  | cut hk _ ih =>
    intro p hp
    rcases List.mem_cons.mp hp with rfl | hp
    · exact hk.free hd
    · exact ih p hp

end Dbase.Lib.Matches
