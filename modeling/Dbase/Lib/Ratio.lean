/-
  Dbase.Lib.Ratio — quotients of integers without rationals in the code.

  Products: two reduced ratios, each numerator divided by what it has in common with the other's denominator, multiply
  to a reduced ratio. Order: two ratios of naturals compare as their integer parts do, and when these agree as their
  fractional parts do; so the inverses of the fractional parts, compared the other way round, decide by descent.
-/

import Mathlib

namespace Dbase.Lib.Ratio

/-! ## Reduced ratios -/

theorem num_of_coprime {n d : Int} (hd : 0 < d) (h : IsCoprime n d) : ((n : ℚ) / d).num = n :=
  Rat.num_div_eq_of_coprime hd (Int.isCoprime_iff_nat_coprime.mp h)

theorem den_of_coprime {n d : Int} (hd : 0 < d) (h : IsCoprime n d) : (((n : ℚ) / d).den : Int) = d :=
  Rat.den_div_eq_of_coprime hd (Int.isCoprime_iff_nat_coprime.mp h)

theorem num_of_coprime_neg {n d : Int} (hd : d < 0) (h : IsCoprime n d) : ((n : ℚ) / d).num = -n := by
  have e := num_of_coprime (show 0 < -d by omega) h.neg_neg
  rwa [Int.cast_neg, Int.cast_neg, neg_div_neg_eq] at e

theorem den_of_coprime_neg {n d : Int} (hd : d < 0) (h : IsCoprime n d) : (((n : ℚ) / d).den : Int) = -d := by
  have e := den_of_coprime (show 0 < -d by omega) h.neg_neg
  rwa [Int.cast_neg, Int.cast_neg, neg_div_neg_eq] at e

/-- Both parts divided by what they have in common. -/
theorem reduce {n d : Int} (hd : d ≠ 0) :
    IsCoprime (n / Int.gcd n d) (d / Int.gcd n d) ∧ ((n / Int.gcd n d : Int) : ℚ) / (d / Int.gcd n d : Int) = n / d := by
  have hg : Int.gcd n d ≠ 0 := by
    intro h
    exact hd (Int.gcd_eq_zero_iff.mp h).2
  constructor
  · exact Int.isCoprime_iff_gcd_eq_one.mpr (Int.gcd_ediv_gcd_ediv_gcd (Nat.pos_of_ne_zero hg))
  · rw [Int.cast_div (Int.gcd_dvd_left n d) (by exact_mod_cast hg),
      Int.cast_div (Int.gcd_dvd_right n d) (by exact_mod_cast hg)]
    exact div_div_div_cancel_right₀ (by exact_mod_cast hg) _ _

/-- What is left of two numbers without their common factor. -/
theorem split {a d : Int} (hd : d ≠ 0) :
    ∃ a' d' : Int, a = Int.gcd a d * a' ∧ d = Int.gcd a d * d' ∧ IsCoprime a' d' ∧ (0 : Int) < Int.gcd a d ∧
      a / Int.gcd a d = a' ∧ d / Int.gcd a d = d' := by
  have hg : (0 : Int) < Int.gcd a d := by
    have : Int.gcd a d ≠ 0 := fun h => hd (Int.gcd_eq_zero_iff.mp h).2
    omega
  refine ⟨a / Int.gcd a d, d / Int.gcd a d, ?_, ?_, (reduce hd).1, hg, rfl, rfl⟩
  · exact (Int.mul_ediv_cancel' (Int.gcd_dvd_left a d)).symm
  · exact (Int.mul_ediv_cancel' (Int.gcd_dvd_right a d)).symm

/-- Crosswise reduction leaves nothing to reduce in the product. -/
theorem coprime_cross {a b c d : Int} (hab : IsCoprime a b) (hcd : IsCoprime c d) (hb : b ≠ 0) (hd : d ≠ 0) :
    IsCoprime (a / Int.gcd a d * (c / Int.gcd c b)) (b / Int.gcd c b * (d / Int.gcd a d)) := by
  obtain ⟨a', d', ha, hd', had, -, ea, ed⟩ := split (a := a) hd
  obtain ⟨c', b', hc, hb', hcb, -, ec, eb⟩ := split (a := c) hb
  rw [ea, ed, ec, eb]
  have hab' : IsCoprime a' b' := by
    rw [ha, hb'] at hab
    exact hab.of_mul_left_right.of_mul_right_right
  have hcd' : IsCoprime c' d' := by
    rw [hc, hd'] at hcd
    exact hcd.of_mul_left_right.of_mul_right_right
  exact IsCoprime.mul_left (hab'.mul_right had) (hcb.mul_right hcd')

theorem value_cross {a b c d : Int} (hb : b ≠ 0) (hd : d ≠ 0) :
    ((a / Int.gcd a d * (c / Int.gcd c b) : Int) : ℚ) / (b / Int.gcd c b * (d / Int.gcd a d) : Int) = a / b * (c / d) := by
  obtain ⟨a', d', ha, hd', -, hg, ea, ed⟩ := split (a := a) hd
  obtain ⟨c', b', hc, hb', -, hh, ec, eb⟩ := split (a := c) hb
  rw [ea, ed, ec, eb]
  generalize Int.gcd a d = g at *
  generalize Int.gcd c b = h at *
  have hd0 : d' ≠ 0 := by
    rintro rfl
    simp [hd'] at hd
  have hb0 : b' ≠ 0 := by
    rintro rfl
    simp [hb'] at hb
  rw [ha, hd', hc, hb']
  have e1 : (g : ℚ) ≠ 0 := by exact_mod_cast hg.ne'
  have e2 : (h : ℚ) ≠ 0 := by exact_mod_cast hh.ne'
  have e3 : (d' : ℚ) ≠ 0 := by exact_mod_cast hd0
  have e4 : (b' : ℚ) ≠ 0 := by exact_mod_cast hb0
  push_cast
  field_simp

/-- A sum over the smallest common denominator. -/
theorem value_combine {a b c d : Int} (s : Int) (hb : b ≠ 0) (hd : d ≠ 0) :
    ((a * (d / Int.gcd b d) + s * (c * (b / Int.gcd b d)) : Int) : ℚ) / (b * (d / Int.gcd b d) : Int) =
      a / b + s * (c / d) := by
  obtain ⟨b', d', hb', hd', -, hg, eb, ed⟩ := split (a := b) hd
  rw [eb, ed]
  generalize Int.gcd b d = g at *
  have hd0 : d' ≠ 0 := by
    rintro rfl
    simp [hd'] at hd
  have hb0 : b' ≠ 0 := by
    rintro rfl
    simp [hb'] at hb
  rw [hb', hd']
  have e1 : (g : ℚ) ≠ 0 := by exact_mod_cast hg.ne'
  have e2 : (b' : ℚ) ≠ 0 := by exact_mod_cast hb0
  have e3 : (d' : ℚ) ≠ 0 := by exact_mod_cast hd0
  push_cast
  field_simp

/-! ## Order -/

/-- The integer parts decide where they differ. -/
theorem compare_of_div_ne {a b c d : Nat} (hb : 0 < b) (hd : 0 < d) (h : a / b ≠ c / d) :
    compare (a * d) (c * b) = compare (a / b) (c / d) := by
  rcases Nat.lt_or_gt_of_ne h with hlt | hgt
  · rw [compare_lt_iff_lt.mpr hlt, compare_lt_iff_lt]
    have h1 : a < (a / b + 1) * b := by
      rw [Nat.add_mul, Nat.one_mul, Nat.mul_comm]
      have := Nat.div_add_mod a b
      have := Nat.mod_lt a hb
      omega
    have h2 : c / d * d ≤ c := Nat.div_mul_le_self c d
    calc a * d < (a / b + 1) * b * d := Nat.mul_lt_mul_of_pos_right h1 hd
      _ ≤ c / d * b * d := Nat.mul_le_mul_right _ (Nat.mul_le_mul_right _ hlt)
      _ = c / d * d * b := Nat.mul_right_comm ..
      _ ≤ c * b := Nat.mul_le_mul_right _ h2
  · rw [compare_gt_iff_gt.mpr hgt, compare_gt_iff_gt]
    have h1 : c < (c / d + 1) * d := by
      rw [Nat.add_mul, Nat.one_mul, Nat.mul_comm]
      have := Nat.div_add_mod c d
      have := Nat.mod_lt c hd
      omega
    have h2 : a / b * b ≤ a := Nat.div_mul_le_self a b
    calc c * b < (c / d + 1) * d * b := Nat.mul_lt_mul_of_pos_right h1 hb
      _ ≤ a / b * d * b := Nat.mul_le_mul_right _ (Nat.mul_le_mul_right _ hgt)
      _ = a / b * b * d := Nat.mul_right_comm ..
      _ ≤ a * d := Nat.mul_le_mul_right _ h2

/-- Equal integer parts: the fractional parts decide. -/
theorem compare_of_div_eq {a b c d : Nat} (h : a / b = c / d) :
    compare (a * d) (c * b) = compare (a % b * d) (c % d * b) := by
  have ha : a * d = a / b * b * d + a % b * d := by rw [← Nat.add_mul, Nat.mul_comm (a / b), Nat.div_add_mod]
  have hc : c * b = a / b * b * d + c % d * b := by
    rw [h, Nat.mul_right_comm, ← Nat.add_mul, Nat.mul_comm (c / d), Nat.div_add_mod]
  rw [ha, hc]
  rcases lt_trichotomy (a % b * d) (c % d * b) with hl | he | hg
  · rw [compare_lt_iff_lt.mpr hl, compare_lt_iff_lt]
    omega
  · rw [he]
    simp
  · rw [compare_gt_iff_gt.mpr hg, compare_gt_iff_gt]
    omega

end Dbase.Lib.Ratio
