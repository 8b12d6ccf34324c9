/-
  Dbase.Lib.Signed — signed machine integers over the integers.

  A `w`-bit signed value is an integer from `minOf w` to `maxOf w`. Code that must not overflow compares an operand with
  a quotient of a limit before it multiplies; the quotient rounds toward zero. The last three lemmas say what such a
  test decides: whether the exact product is past the limit, for every sign of the operands.
-/

import Mathlib

namespace Dbase.Lib.Signed

def minOf (w : Nat) : Int := -2 ^ (w - 1)

def maxOf (w : Nat) : Int := 2 ^ (w - 1) - 1

def InRange (w : Nat) (x : Int) : Prop := minOf w ≤ x ∧ x ≤ maxOf w

instance (w : Nat) (x : Int) : Decidable (InRange w x) := inferInstanceAs (Decidable (_ ∧ _))

theorem inRange_zero (w : Nat) : InRange w 0 := by
  have h : (0 : Int) < 2 ^ (w - 1) := by positivity
  constructor
  · show -2 ^ (w - 1) ≤ (0 : Int)
    omega
  · show (0 : Int) ≤ 2 ^ (w - 1) - 1
    omega

/-- Only the smallest value has no negation. -/
theorem inRange_neg {w : Nat} {x : Int} (h : InRange w x) : InRange w (-x) ↔ x ≠ minOf w := by
  unfold InRange minOf maxOf at *
  omega

/-- Division rounds toward zero, and leaves the range only for the smallest value by -1. -/
theorem inRange_tdiv {w : Nat} {x b : Int} (h : InRange w x) (hb : b ≠ 0) (hm : x ≠ minOf w ∨ b ≠ -1) :
    InRange w (x.tdiv b) := by
  have e : (x.tdiv b).natAbs = x.natAbs / b.natAbs := Int.natAbs_tdiv x b
  have hp : (0 : Int) < 2 ^ (w - 1) := by positivity
  by_cases h1 : b.natAbs = 1
  · rcases (show b = 1 ∨ b = -1 by omega) with rfl | rfl
    · rwa [Int.tdiv_one]
    · rw [Int.tdiv_neg, Int.tdiv_one]
      exact (inRange_neg h).mpr (hm.resolve_right (by omega))
  · -- a divisor of at least two halves the magnitude
    have hle : x.natAbs / b.natAbs ≤ x.natAbs / 2 := Nat.div_le_div_left (by omega) (by omega)
    unfold InRange minOf maxOf at *
    omega

/-! ## A quotient of the limit against the product -/

theorem tdiv_lt_of_pos {m a b : Int} (hm : 0 ≤ m) (hb : 0 < b) : m.tdiv b < a ↔ m < a * b := by
  rw [Int.tdiv_eq_ediv_of_nonneg hm]
  exact Int.ediv_lt_iff_lt_mul hb

theorem lt_tdiv_of_nonpos {m a b : Int} (hm : m ≤ 0) (hb : 0 < b) : a < m.tdiv b ↔ a * b < m := by
  have h := tdiv_lt_of_pos (show 0 ≤ -m by omega) hb (a := -a)
  rw [Int.neg_tdiv, Int.neg_mul] at h
  omega

theorem lt_tdiv_of_neg {m a b : Int} (hm : 0 ≤ m) (hb : b < 0) : a < m.tdiv b ↔ m < a * b := by
  have h := tdiv_lt_of_pos hm (show 0 < -b by omega) (a := -a)
  rw [Int.tdiv_neg, Int.neg_mul_neg] at h
  omega

end Dbase.Lib.Signed
