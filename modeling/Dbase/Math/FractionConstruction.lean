/-
  Dbase.Math.FractionConstruction — `Fraction(numerator, denominator)`: which pairs of 64-bit integers make a fraction.

  A quotient has a fraction if its lowest terms fit, the denominator positive. The constructor reduces before it looks at
  the sign, so what the negation refuses is refused for the lowest terms too; only the common divisor itself has a check
  of its own, and one pair does not pass it.

  Proved:
  - `make_pos`, `make_zero`, `make_neg`: what becomes of each sign of the parts; with a positive denominator nothing throws.
  - `constructs_exactly_iff`: the canonical fraction of the quotient if that fits, an overflow error if it does not, for
    every pair but `INT64_MIN / INT64_MIN`.
  - `one_is_refused`: that pair is the fraction one, and the cast of its divisor `2^63` throws.
-/

import Dbase.Math.FractionProofs

namespace Dbase.Math.Fraction

open Dbase.Lib Dbase.Lib.Signed

/-- Whether the lowest terms of a rational number are two 64-bit integers. -/
def Fits (x : ℚ) : Prop := InRange 64 x.num ∧ (x.den : Int) ≤ maxOf 64

def Overflows (n d : Int) : Prop := ∃ what, make n d = .error (.overflowError what)

/-- The canonical fraction of the quotient, and no other. -/
def Constructs (n d : Int) : Prop :=
  ∃ f, make n d = .ok f ∧ Canonical f ∧ f.value = (n : ℚ) / d ∧ ∀ f', Canonical f' → f'.value = (n : ℚ) / d → f' = f

structure ConstructsExactly (n d : Int) : Prop where
  ends : Constructs n d ∨ Overflows n d
  throws_iff : Overflows n d ↔ ¬ Fits ((n : ℚ) / d)

variable {n d : Int}

theorem make_of_ok {f : Fraction} {mem : Unit → Fraction}
    (h : call (normalize ()) (fun _ : Unit => ⟨n, d⟩) = (.ok (), Function.update mem () f)) : make n d = .ok f := by
  unfold make
  rw [h]
  exact congrArg Except.ok (Function.update_self ..)

theorem make_of_error {mem : Unit → Fraction} {what : String}
    (h : call (normalize ()) (fun _ : Unit => ⟨n, d⟩) = (.error (.overflowError what), mem)) : Overflows n d := by
  refine ⟨what, ?_⟩
  unfold make
  rw [h]

/-- Where the lowest terms fit and are returned, all is as it should be. -/
theorem exactly_of_ok (hf : Fits ((n : ℚ) / d)) (h : make n d = .ok (ofRat ((n : ℚ) / d))) : ConstructsExactly n d where
  ends := by
    refine Or.inl ⟨_, h, canonical_ofRat hf.1 hf.2, value_ofRat _, ?_⟩
    intro f' hc hv
    rw [← hv]
    exact hc.ofRat_value.symm
  throws_iff := by
    refine iff_of_false ?_ (not_not.mpr hf)
    rintro ⟨what, he⟩
    rw [h] at he
    cases he

theorem exactly_of_error (hf : ¬ Fits ((n : ℚ) / d)) (h : Overflows n d) : ConstructsExactly n d :=
  ⟨Or.inr h, iff_of_true h hf⟩

/-! ## By the signs -/

theorem fits_lowest (hn : InRange 64 n) (hd : InRange 64 d) (hp : 0 < d) : Fits ((n : ℚ) / d) :=
  ⟨(canonical_lowest hn hd hp).num_range, (canonical_lowest hn hd hp).den_le⟩

theorem make_pos (hn : InRange 64 n) (hd : InRange 64 d) (hp : 0 < d) : make n d = .ok (ofRat ((n : ℚ) / d)) :=
  make_of_ok (@normalize_pos Unit _ (fun _ => ⟨n, d⟩) () hn hd hp)

theorem make_zero (hd : d ≠ 0) : make 0 d = .ok (ofRat ((0 : Int) / (d : ℚ))) := by
  refine @make_of_ok 0 d _ (fun _ => ⟨0, d⟩) ?_
  unfold normalize
  rw [call_getDen, if_neg hd, call_getNum, if_pos rfl, call_setDen_last]
  simp [ofRat]

/-- With a negative denominator both lowest terms change sign, and one of them may have no negation. -/
theorem make_neg (hn : InRange 64 n) (hd : InRange 64 d) (hp : d < 0) (hz : n ≠ 0) (hg : InRange 64 (Int.gcd n d)) :
    ConstructsExactly n d := by
  have hg0 : (0 : Int) < Int.gcd n d := Int.natCast_pos.mpr (Int.gcd_pos_of_ne_zero_right _ (by omega))
  have hnr := ediv_range hn hg0 (Int.gcd_dvd_left ..)
  have hdr := ediv_range hd hg0 (Int.gcd_dvd_right ..)
  have hneg : d / Int.gcd n d < 0 := Int.ediv_neg_of_neg_of_pos hp hg0
  obtain ⟨hc, hv⟩ := Ratio.reduce (n := n) (show d ≠ 0 by omega)
  have en := Ratio.num_of_coprime_neg hneg hc
  have ed := Ratio.den_of_coprime_neg hneg hc
  rw [hv] at en ed
  have fits : Fits ((n : ℚ) / d) ↔ n / Int.gcd n d ≠ minOf 64 ∧ d / Int.gcd n d ≠ minOf 64 := by
    unfold Fits
    rw [en, ed, inRange_neg hnr, ← inRange_neg hdr]
    refine and_congr_right (fun _ => ?_)
    rw [inRange_iff, maxOf_64]
    omega
  rcases @normalize_neg Unit _ (fun _ => ⟨n, d⟩) () hn hd hp hz hg _ _ rfl rfl with ⟨hm, what, h⟩ | ⟨⟨hdm, hnm⟩, h⟩
  · refine exactly_of_error ?_ (make_of_error h)
    rw [fits]
    intro hf
    exact hm.elim hf.2 hf.1
  · refine exactly_of_ok (fits.mpr ⟨hnm, hdm⟩) ?_
    rw [ofRat, en, ed]
    exact make_of_ok h

/-- The common divisor of the smallest value with itself is no `std::int64_t`. -/
theorem min_overflows : Overflows (minOf 64) (minOf 64) := by
  refine ⟨"integer overflow on cast", ?_⟩
  have hr : InRange 64 (minOf 64) := by decide
  have hg : safeCastU64ToI64 (gcdU64 (minOf 64).natAbs (minOf 64).natAbs) =
      .error (.overflowError "integer overflow on cast") := by
    rw [gcdU64_eq, Nat.gcd_self]
    decide
  unfold make normalize
  rw [call_getDen, if_neg (by decide), call_getNum, if_neg (by decide)]
  simp only [call_getNum, call_getDen, absToUint64_eq hr, call_lift_ok, hg, call_lift_error]

/-! ## Every pair -/

theorem constructs_exactly_iff (hn : InRange 64 n) (hd : InRange 64 d) (h0 : d ≠ 0) :
    ConstructsExactly n d ↔ ¬ (n = minOf 64 ∧ d = minOf 64) := by
  by_cases hm : n = minOf 64 ∧ d = minOf 64
  · obtain ⟨rfl, rfl⟩ := hm
    refine iff_of_false ?_ (not_not.mpr ⟨rfl, rfl⟩)
    intro h
    refine h.throws_iff.mp min_overflows ?_
    rw [div_self (by rw [minOf_64]; norm_num)]
    exact ⟨by decide, by decide⟩
  · refine iff_of_true ?_ hm
    rcases Int.lt_or_gt_of_ne h0 with hneg | hpos
    · by_cases hz : n = 0
      · subst hz
        have hv : (((0 : Int) : ℚ) / d) = 0 := by rw [Int.cast_zero, zero_div]
        refine exactly_of_ok ?_ (make_zero h0)
        rw [hv]
        exact ⟨by decide, by decide⟩
      · exact make_neg hn hd hneg hz (gcd_num_range hn hd hz h0 hm)
    · exact exactly_of_ok (fits_lowest hn hd hpos) (make_pos hn hd hpos)

/-- `INT64_MIN / -2`: the lowest terms are `-2^62` over `-1`, and both have a negation. -/
theorem constructs_exactly_sample : ConstructsExactly (minOf 64) (-2) :=
  (constructs_exactly_iff (by decide) (by decide) (by decide)).mpr (by decide)

/-- `INT64_MIN / INT64_MIN` is one, and throws. -/
theorem one_is_refused : ¬ ∀ n d : Int, InRange 64 n → InRange 64 d → d ≠ 0 → ConstructsExactly n d := by
  intro h
  refine (h (minOf 64) (minOf 64) (by decide) (by decide) (by decide)).throws_iff.mp min_overflows ?_
  rw [div_self (by rw [minOf_64]; norm_num)]
  exact ⟨by decide, by decide⟩

end Dbase.Math.Fraction
