/-
  Dbase.Math.FractionOrder — `operator==` and `operator<=>` of `Fraction`.

  Two positive fractions are compared by their integer parts, and where these agree by the inverses of what is left, the
  other way round: Euclid's algorithm on both at once. No cross product is formed, so nothing can overflow.

  Proved:
  - `compareFrom_eq`: the loop answers as the cross products compare, turned round where it is `reversed`.
  - `compare3_exact`: `operator<=>` is the order of the rational numbers, and `operator==` their equality.
-/

import Dbase.Math.FractionProofs

namespace Dbase.Math.Fraction

open Dbase.Lib Dbase.Lib.Signed

/-! ## The loop -/

def turned (reversed : Bool) (o : Ordering) : Ordering := if reversed then o.swap else o

theorem turned_not (reversed : Bool) (o : Ordering) : turned (!reversed) o = turned reversed o.swap := by
  cases reversed <;> simp [turned]

theorem directed_eq {reversed : Bool} {x y : Nat} (h : x ≠ y) :
    directed reversed (x < y) = turned reversed (compare x y) := by
  rcases Nat.lt_or_gt_of_ne h with hl | hg
  · rw [compare_lt_iff_lt.mpr hl]
    cases reversed <;> simp [directed, turned, hl]
  · rw [compare_gt_iff_gt.mpr hg]
    have hn : ¬ x < y := by omega
    cases reversed <;> simp [directed, turned, hn]

/-- A remainder of zero is the smaller one, if the other is not zero too. -/
theorem directed_zero {reversed : Bool} {x y : Nat} (h : x = 0 ∨ y = 0) (h' : ¬ (x = 0 ∧ y = 0)) :
    directed reversed (x = 0) = turned reversed (compare x y) := by
  rw [← directed_eq (by omega)]
  congr 1
  exact decide_eq_decide.mpr (by omega)

theorem compareFrom_eq {a b c d : Nat} {reversed : Bool} (hb : 0 < b) (hd : 0 < d) :
    compareFrom a b c d reversed = .ok (turned reversed (compare (a * d) (c * b))) := by
  induction a, b, c, d, reversed using compareFrom.induct with
  | case1 a b c d reversed h => omega
  | case2 a b c d reversed h q1 q2 hq =>
    rw [compareFrom, dif_neg h, if_pos hq, directed_eq hq, Ratio.compare_of_div_ne hb hd hq]
  | case3 a b c d reversed h q1 q2 hq r1 r2 hr hz =>
    rw [compareFrom, dif_neg h, if_neg hq, if_pos hr, if_pos hz, Ratio.compare_of_div_eq (not_not.mp hq)]
    rw [show a % b = 0 from hz.1, show c % d = 0 from hz.2, Nat.zero_mul, Nat.zero_mul]
    cases reversed <;> rfl
  | case4 a b c d reversed h q1 q2 hq r1 r2 hr hz =>
    rw [compareFrom, dif_neg h, if_neg hq, if_pos hr, if_neg hz, Ratio.compare_of_div_eq (not_not.mp hq)]
    -- a remainder of zero is zero over the other denominator too
    have h1 : r1 * d = 0 ↔ r1 = 0 := by simp [hd.ne']
    have h2 : r2 * b = 0 ↔ r2 = 0 := by simp [hb.ne']
    have e := @directed_zero reversed (r1 * d) (r2 * b) (by rwa [h1, h2]) (by rwa [h1, h2])
    rw [← e]
    simp only [h1, r1]
  | case5 a b c d reversed h q1 q2 hq r1 r2 hr ih =>
    have h1 : 0 < r1 := by omega
    have h2 : 0 < r2 := by omega
    rw [compareFrom, dif_neg h, if_neg hq, if_neg hr, ih h1 h2, Ratio.compare_of_div_eq (not_not.mp hq)]
    rw [turned_not, Nat.compare_swap, Nat.mul_comm d, Nat.mul_comm b]

/-! ## The operators -/

theorem compareUnsignedFractions_eq {a b c d : Nat} (hb : 0 < b) (hd : 0 < d) :
    compareUnsignedFractions a b c d = .ok (compare (a * d) (c * b)) := compareFrom_eq hb hd

/-- Cross products compare as the quotients do. -/
theorem compare_quotients {a b c d : Nat} (hb : 0 < b) (hd : 0 < d) :
    compare (a * d) (c * b) = compare ((a : ℚ) / b) ((c : ℚ) / d) := by
  have hb' : (0 : ℚ) < b := by exact_mod_cast hb
  have hd' : (0 : ℚ) < d := by exact_mod_cast hd
  rcases lt_trichotomy (a * d) (c * b) with h | h | h
  · rw [compare_lt_iff_lt.mpr h, eq_comm, compare_lt_iff_lt, div_lt_div_iff₀ hb' hd']
    exact_mod_cast h
  · rw [compare_eq_iff_eq.mpr h, eq_comm, compare_eq_iff_eq, div_eq_div_iff hb'.ne' hd'.ne']
    exact_mod_cast h
  · rw [compare_gt_iff_gt.mpr h, eq_comm, compare_gt_iff_gt, div_lt_div_iff₀ hd' hb']
    exact_mod_cast h

theorem compare_neg (x y : ℚ) : compare (-x) (-y) = (compare x y).swap := by
  rcases lt_trichotomy x y with h | h | h
  · rw [compare_lt_iff_lt.mpr h, compare_gt_iff_gt.mpr (neg_lt_neg h)]
    rfl
  · rw [h, compare_eq_iff_eq.mpr rfl, compare_eq_iff_eq.mpr rfl]
    rfl
  · rw [compare_gt_iff_gt.mpr h, compare_lt_iff_lt.mpr (neg_lt_neg h)]
    rfl

theorem equal_iff {lhs rhs : Fraction} (hl : Canonical lhs) (hr : Canonical rhs) :
    equal lhs rhs = true ↔ lhs.value = rhs.value := by
  unfold equal
  rw [Bool.and_eq_true, decide_eq_true_iff, decide_eq_true_iff]
  constructor
  · intro ⟨hn, hd⟩
    rw [value, value, hn, hd]
  · intro hv
    have e := hl.ofRat_value
    rw [hv, hr.ofRat_value] at e
    rw [e]
    exact ⟨rfl, rfl⟩

/-- The loop's operands: the magnitude of a fraction, as a quotient of naturals. -/
theorem magnitude_nonneg {f : Fraction} (hf : Canonical f) (h : 0 ≤ f.num) :
    (f.num.natAbs : ℚ) / (f.den % 2 ^ 64).toNat = f.value := by
  have hd := hf.den_range
  have hp := hf.den_pos
  rw [inRange_iff] at hd
  have e1 : ((f.num.natAbs : Int) : ℚ) = f.num := by exact_mod_cast (show (f.num.natAbs : Int) = f.num by omega)
  have e2 : (((f.den % 2 ^ 64).toNat : Int) : ℚ) = f.den := by
    exact_mod_cast (show ((f.den % 2 ^ 64).toNat : Int) = f.den by omega)
  rw [value, ← e1, ← e2, Int.cast_natCast, Int.cast_natCast]

theorem magnitude_neg {f : Fraction} (hf : Canonical f) (h : f.num < 0) :
    (f.num.natAbs : ℚ) / (f.den % 2 ^ 64).toNat = -f.value := by
  have hd := hf.den_range
  have hp := hf.den_pos
  rw [inRange_iff] at hd
  have e1 : ((f.num.natAbs : Int) : ℚ) = -f.num := by exact_mod_cast (show (f.num.natAbs : Int) = -f.num by omega)
  have e2 : (((f.den % 2 ^ 64).toNat : Int) : ℚ) = f.den := by
    exact_mod_cast (show ((f.den % 2 ^ 64).toNat : Int) = f.den by omega)
  rw [value, ← e2, ← neg_div, ← e1, Int.cast_natCast, Int.cast_natCast]

theorem value_nonneg {f : Fraction} (hf : Canonical f) (h : 0 ≤ f.num) : 0 ≤ f.value := by
  have hp := hf.den_pos
  have h1 : (0 : ℚ) ≤ f.num := by exact_mod_cast h
  have h2 : (0 : ℚ) ≤ f.den := by exact_mod_cast (show 0 ≤ f.den by omega)
  exact div_nonneg h1 h2

theorem value_neg {f : Fraction} (hf : Canonical f) (h : f.num < 0) : f.value < 0 := by
  have hp := hf.den_pos
  have h1 : (f.num : ℚ) < 0 := by exact_mod_cast h
  have h2 : (0 : ℚ) < f.den := by exact_mod_cast (show 0 < f.den by omega)
  exact div_neg_of_neg_of_pos h1 h2

/-- `operator<=>` is defined, terminates and answers as the rational numbers compare; `operator==` is their equality. -/
theorem compare3_exact (lhs rhs : Fraction) (hl : Canonical lhs) (hr : Canonical rhs) :
    compare3 lhs rhs = .ok (compare lhs.value rhs.value) ∧ (equal lhs rhs = true ↔ lhs.value = rhs.value) := by
  refine ⟨?_, equal_iff hl hr⟩
  have hlp := hl.den_pos
  have hrp := hr.den_pos
  have hld := inRange_iff.mp hl.den_range
  have hrd := inRange_iff.mp hr.den_range
  unfold compare3
  by_cases he : lhs.num = rhs.num ∧ lhs.den = rhs.den
  · rw [if_pos he, value, value, he.1, he.2, compare_eq_iff_eq.mpr rfl]
    rfl
  rw [if_neg he]
  by_cases h1 : lhs.num < 0 ∧ rhs.num ≥ 0
  · rw [if_pos h1, compare_lt_iff_lt.mpr ((value_neg hl h1.1).trans_le (value_nonneg hr h1.2))]
    rfl
  rw [if_neg h1]
  by_cases h2 : lhs.num ≥ 0 ∧ rhs.num < 0
  · rw [if_pos h2, compare_gt_iff_gt.mpr ((value_neg hr h2.2).trans_le (value_nonneg hl h2.1))]
    rfl
  rw [if_neg h2, absToUint64_eq hl.num_range, absToUint64_eq hr.num_range]
  show (do let ord ← compareUnsignedFractions _ _ _ _; if _ then _ else _) = _
  rw [compareUnsignedFractions_eq (by omega) (by omega), compare_quotients (by omega) (by omega)]
  show (if lhs.num < 0 then if _ = _ then _ else if _ = _ then _ else _ else _) = _
  by_cases hn : lhs.num < 0
  · rw [if_pos hn, magnitude_neg hl hn, magnitude_neg hr (by omega), compare_neg]
    cases compare lhs.value rhs.value <;> rfl
  · rw [if_neg hn, magnitude_nonneg hl (by omega), magnitude_nonneg hr (by omega)]
    rfl

/-- The smallest numerator, with a denominator. -/
theorem compare3_exact_min :
    compare3 ⟨minOf 64, 3⟩ ⟨-5, 2⟩ = .ok (compare (value ⟨minOf 64, 3⟩) (value ⟨-5, 2⟩)) :=
  (compare3_exact ⟨minOf 64, 3⟩ ⟨-5, 2⟩ (by decide) (by decide)).1

end Dbase.Math.Fraction
