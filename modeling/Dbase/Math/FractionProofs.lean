/-
  Dbase.Math.FractionProofs — what the helpers of `Fraction` compute, and what `normalize` does.

  Each helper gets its exact operands and says what it makes of them: the value, or an overflow error where the value is
  no 64-bit integer. No helper leaves the domain of an operation of the language.

  Proved:
  - `absToUint64_eq`, `gcdU64_eq`, `safeCastU64ToI64_eq`, `safeAdd_eq`: the exact results.
  - `safeAdd_checked`, `safeMul_checked`, `safeNegate_checked`: the exact result wherever it fits, `INT64_MIN` included;
    `safeSub_eq` refuses a second operand `INT64_MIN` whatever the first is, and `helpers_exact_iff` says what that costs.
  - `Canonical.ofRat_value`, `canonical_ofRat`: a canonical fraction is the lowest terms of its value.
  - `normalize_pos`: with a positive denominator the lowest terms are stored and nothing is thrown; `normalize_neg`: with
    a negative one the signs change too, and where a part has no negation the lowest terms are left without the change.
-/

import Dbase.Lib.Ratio
import Dbase.Math.Fraction

namespace Dbase.Math.Fraction

open Dbase.Lib Dbase.Lib.Signed

theorem inRange_iff {x : Int} : InRange 64 x ↔ -9223372036854775808 ≤ x ∧ x ≤ 9223372036854775807 := by
  unfold InRange minOf maxOf
  norm_num

theorem minOf_64 : minOf 64 = -9223372036854775808 := by decide

theorem maxOf_64 : maxOf 64 = 9223372036854775807 := by decide

/-! ## The helpers -/

theorem i64_eq {x : Int} (h : InRange 64 x) : i64 x = .ok x := if_pos h

theorem i64Div_eq {x b : Int} (h : InRange 64 x) (hb : b ≠ 0) (hm : x ≠ minOf 64 ∨ b ≠ -1) :
    i64Div x b = .ok (x.tdiv b) := by
  unfold i64Div
  rw [if_neg hb, i64_eq (inRange_tdiv h hb hm)]

theorem ediv_range {x g : Int} (h : InRange 64 x) (hg : 0 < g) (hd : g ∣ x) : InRange 64 (x / g) := by
  rw [← Int.tdiv_eq_ediv_of_dvd hd]
  exact inRange_tdiv h (by omega) (Or.inr (by omega))

/-- The division of a field by a common divisor is exact. -/
theorem i64Div_dvd {x g : Int} (h : InRange 64 x) (hg : 0 < g) (hd : g ∣ x) : i64Div x g = .ok (x / g) := by
  rw [i64Div_eq h (by omega) (Or.inr (by omega)), Int.tdiv_eq_ediv_of_dvd hd]

theorem absToUint64_eq {x : Int} (h : InRange 64 x) : absToUint64 x = .ok x.natAbs := by
  rw [inRange_iff] at h
  unfold absToUint64
  by_cases hx : x ≥ 0
  · rw [if_pos hx]
    congr 1
    omega
  · have h1 : i64Add x 1 = .ok (x + 1) := i64_eq (by rw [inRange_iff]; omega)
    have h2 : i64Neg (x + 1) = .ok (-(x + 1)) := i64_eq (by rw [inRange_iff]; omega)
    rw [if_neg hx, h1]
    show (do let y ← i64Neg (x + 1); pure _) = _
    rw [h2]
    show Except.ok _ = Except.ok _
    congr 1
    omega

/-- What a range check makes of a result: the value where it fits, and an overflow error where it does not. -/
def Checked (r : Res Int) (x : Int) : Prop := if InRange 64 x then r = .ok x else ∃ what, r = .error (.overflowError what)

theorem Checked.of_ok {x : Int} (h : InRange 64 x) : Checked (.ok x) x := by
  unfold Checked
  rw [if_pos h]

theorem Checked.of_error {x : Int} {what : String} (h : ¬ InRange 64 x) : Checked (.error (.overflowError what)) x := by
  unfold Checked
  rw [if_neg h]
  exact ⟨what, rfl⟩

theorem Checked.value {r : Res Int} {x : Int} (h : Checked r x) (hx : InRange 64 x) : r = .ok x := by
  unfold Checked at h
  rwa [if_pos hx] at h

theorem Checked.overflow {r : Res Int} {x : Int} (h : Checked r x) (hx : ¬ InRange 64 x) :
    ∃ what, r = .error (.overflowError what) := by
  unfold Checked at h
  rwa [if_neg hx] at h

theorem safeAdd_eq {a b : Int} (ha : InRange 64 a) (hb : InRange 64 b) :
    safeAdd a b = if InRange 64 (a + b) then .ok (a + b) else .error (.overflowError "integer overflow on add") := by
  rw [inRange_iff] at ha hb
  have sum : InRange 64 (a + b) → i64Add a b = .ok (a + b) := i64_eq
  unfold safeAdd
  rcases lt_trichotomy b 0 with h | h | h
  · have room : i64Sub (minOf 64) b = .ok (-9223372036854775808 - b) := by
      rw [i64Sub, minOf_64]
      exact i64_eq (by rw [inRange_iff]; omega)
    rw [if_neg (by omega), if_pos h, room]
    show (if a < -9223372036854775808 - b then _ else _) = _
    by_cases hs : InRange 64 (a + b)
    · rw [if_neg (by rw [inRange_iff] at hs; omega), if_pos hs, sum hs]
    · rw [if_pos (by rw [inRange_iff] at hs; omega), if_neg hs]
  · subst h
    rw [if_neg (by omega), if_neg (by omega), if_pos (by rw [inRange_iff]; omega)]
    exact sum (by rw [inRange_iff]; omega)
  · have room : i64Sub (maxOf 64) b = .ok (9223372036854775807 - b) := by
      rw [i64Sub, maxOf_64]
      exact i64_eq (by rw [inRange_iff]; omega)
    rw [if_pos h, room]
    show (if a > 9223372036854775807 - b then _ else _) = _
    by_cases hs : InRange 64 (a + b)
    · rw [if_neg (by rw [inRange_iff] at hs; omega), if_pos hs, sum hs]
    · rw [if_pos (by rw [inRange_iff] at hs; omega), if_neg hs]

theorem safeAdd_checked {a b : Int} (ha : InRange 64 a) (hb : InRange 64 b) : Checked (safeAdd a b) (a + b) := by
  rw [safeAdd_eq ha hb]
  by_cases h : InRange 64 (a + b)
  · rw [if_pos h]
    exact Checked.of_ok h
  · rw [if_neg h]
    exact Checked.of_error h

/-- `a - b`, or an overflow error; the smallest `b` is refused whatever `a` is. -/
theorem safeSub_eq {a b : Int} (ha : InRange 64 a) (hb : InRange 64 b) :
    (InRange 64 (a - b) ∧ safeSub a b = .ok (a - b)) ∨ ∃ what, safeSub a b = .error (.overflowError what) := by
  unfold safeSub
  by_cases h : b = minOf 64
  · rw [if_pos h]
    exact Or.inr ⟨_, rfl⟩
  · have hn : InRange 64 (-b) := (inRange_neg hb).mpr h
    rw [if_neg h, i64Neg, i64_eq hn]
    show (_ ∧ safeAdd a (-b) = _) ∨ ∃ what, safeAdd a (-b) = _
    rw [safeAdd_eq ha hn, ← Int.sub_eq_add_neg]
    by_cases hs : InRange 64 (a - b)
    · rw [if_pos hs]
      exact Or.inl ⟨hs, rfl⟩
    · rw [if_neg hs]
      exact Or.inr ⟨_, rfl⟩

theorem safeNegate_checked {x : Int} (h : InRange 64 x) : Checked (safeNegate x) (-x) := by
  unfold safeNegate
  by_cases hx : x = minOf 64
  · rw [if_pos hx]
    exact Checked.of_error (by rw [inRange_neg h]; simpa using hx)
  · rw [if_neg hx, i64Neg, i64_eq ((inRange_neg h).mpr hx)]
    exact Checked.of_ok ((inRange_neg h).mpr hx)

/-- A test that says whether the product leaves the range, and the product where it does not. -/
theorem checked_of_test {x : Int} {p : Prop} [Decidable p] (h : p ↔ ¬ InRange 64 x) :
    Checked (if p then .error (.overflowError "integer overflow on mul") else i64 x) x := by
  by_cases hx : InRange 64 x
  · rw [if_neg (fun hp => h.mp hp hx), i64_eq hx]
    exact Checked.of_ok hx
  · rw [if_pos (h.mpr hx)]
    exact Checked.of_error hx

theorem safeMul_checked {a b : Int} (ha : InRange 64 a) (hb : InRange 64 b) : Checked (safeMul a b) (a * b) := by
  have ha' := inRange_iff.mp ha
  have hb' := inRange_iff.mp hb
  have hmax : InRange 64 (maxOf 64) := by decide
  have hmin : InRange 64 (minOf 64) := by decide
  unfold safeMul
  by_cases h0 : a = 0 ∨ b = 0
  · rw [if_pos h0, show a * b = 0 by simpa using h0]
    exact Checked.of_ok (inRange_zero 64)
  rw [if_neg h0]
  by_cases ha1 : a = 1
  · rw [if_pos ha1, ha1, Int.one_mul]
    exact Checked.of_ok hb
  rw [if_neg ha1]
  by_cases hb1 : b = 1
  · rw [if_pos hb1, hb1, Int.mul_one]
    exact Checked.of_ok ha
  rw [if_neg hb1]
  by_cases ha2 : a = -1
  · rw [if_pos ha2, ha2, Int.neg_one_mul]
    exact safeNegate_checked hb
  rw [if_neg ha2]
  by_cases hb2 : b = -1
  · rw [if_pos hb2, hb2, Int.mul_neg_one]
    exact safeNegate_checked ha
  rw [if_neg hb2]
  rcases Int.lt_or_gt_of_ne (show a ≠ 0 by omega) with ha0 | ha0
  · rw [if_neg (by omega)]
    rcases Int.lt_or_gt_of_ne (show b ≠ 0 by omega) with hb0 | hb0
    · rw [if_neg (by omega), i64Div_eq hmax (by omega) (Or.inr hb2)]
      refine checked_of_test ?_
      rw [lt_tdiv_of_neg (by decide) hb0, inRange_iff, maxOf_64]
      have : 0 < a * b := Int.mul_pos_of_neg_of_neg ha0 hb0
      omega
    · rw [if_pos hb0, i64Div_eq hmin (by omega) (Or.inr hb2)]
      refine checked_of_test ?_
      rw [lt_tdiv_of_nonpos (by decide) hb0, inRange_iff, minOf_64]
      have : a * b < 0 := Int.mul_neg_of_neg_of_pos ha0 hb0
      omega
  · rw [if_pos ha0]
    rcases Int.lt_or_gt_of_ne (show b ≠ 0 by omega) with hb0 | hb0
    · rw [if_neg (by omega), i64Div_eq hmin (by omega) (Or.inr ha2)]
      refine checked_of_test ?_
      rw [lt_tdiv_of_nonpos (by decide) ha0, Int.mul_comm b a, inRange_iff, minOf_64]
      have : a * b < 0 := Int.mul_neg_of_pos_of_neg ha0 hb0
      omega
    · rw [if_pos hb0, i64Div_eq hmax (by omega) (Or.inr hb2)]
      refine checked_of_test ?_
      rw [gt_iff_lt, tdiv_lt_of_pos (by decide) hb0, inRange_iff, maxOf_64]
      have : 0 < a * b := Int.mul_pos ha0 hb0
      omega

theorem safeCastU64ToI64_eq {x : Nat} (h : InRange 64 x) : safeCastU64ToI64 x = .ok x := by
  unfold safeCastU64ToI64
  by_cases h0 : x = 0
  · rw [if_pos h0, h0]
    rfl
  · rw [if_neg h0, if_neg (not_lt.mpr h.2)]

theorem gcdU64_eq (a b : Nat) : gcdU64 a b = Nat.gcd a b := by
  induction a, b using gcdU64.induct with
  | case1 a =>
    rw [gcdU64, dif_pos rfl, Nat.gcd_zero_right]
  | case2 a b h ih =>
    rw [gcdU64, dif_neg h, ih, Nat.gcd_comm b, ← Nat.gcd_rec, Nat.gcd_comm]

theorem gcd_range {x y : Int} (hy : InRange 64 y) (hp : 0 < y) : InRange 64 (Int.gcd x y) := by
  have hle := Int.le_of_dvd hp (Int.gcd_dvd_right x y)
  rw [inRange_iff] at hy ⊢
  omega

/-- Of two numerators the common divisor fits, but for twice the smallest value. -/
theorem gcd_num_range {x y : Int} (hx : InRange 64 x) (hy : InRange 64 y) (h0 : x ≠ 0) (h1 : y ≠ 0)
    (hm : ¬ (x = minOf 64 ∧ y = minOf 64)) : InRange 64 (Int.gcd x y) := by
  have h2 := Nat.le_of_dvd (Int.natAbs_pos.mpr h0) (Int.natAbs_dvd_natAbs.mpr (Int.gcd_dvd_left x y))
  have h3 := Nat.le_of_dvd (Int.natAbs_pos.mpr h1) (Int.natAbs_dvd_natAbs.mpr (Int.gcd_dvd_right x y))
  rw [minOf_64] at hm
  rw [inRange_iff] at hx hy ⊢
  omega

/-- Each of the four checked helpers gives the exact result where it fits, and an overflow error where it does not. -/
structure HelpersExact (a b : Int) : Prop where
  add : Checked (safeAdd a b) (a + b)
  sub : Checked (safeSub a b) (a - b)
  mul : Checked (safeMul a b) (a * b)
  negate : Checked (safeNegate a) (-a)

/-- A difference is exact but for what the guard on the second operand refuses: there a negative `a` has one that fits. -/
theorem safeSub_checked_iff {a b : Int} (ha : InRange 64 a) (hb : InRange 64 b) :
    Checked (safeSub a b) (a - b) ↔ ¬ (b = minOf 64 ∧ a < 0) := by
  by_cases hm : b = minOf 64
  · have he : safeSub a b = .error (.overflowError "integer overflow on sub") := if_pos hm
    rw [he]
    subst hm
    by_cases hneg : a < 0
    · have hin : InRange 64 (a - minOf 64) := by
        rw [inRange_iff] at ha ⊢
        rw [minOf_64]
        omega
      refine iff_of_false ?_ (not_not.mpr ⟨rfl, hneg⟩)
      intro h
      cases h.value hin
    · have hout : ¬ InRange 64 (a - minOf 64) := by
        rw [inRange_iff, minOf_64]
        omega
      exact iff_of_true (Checked.of_error hout) (fun h => hneg h.2)
  · have hn : InRange 64 (-b) := (inRange_neg hb).mpr hm
    have he : safeSub a b = safeAdd a (-b) := by
      unfold safeSub
      rw [if_neg hm, i64Neg, i64_eq hn]
      rfl
    rw [he, Int.sub_eq_add_neg]
    exact iff_of_true (safeAdd_checked ha hn) (fun h => hm h.1)

/-- Beside that one guard the helpers are exact: no guard overflows, and none refuses a result that fits. -/
theorem helpers_exact_iff {a b : Int} (ha : InRange 64 a) (hb : InRange 64 b) :
    HelpersExact a b ↔ ¬ (b = minOf 64 ∧ a < 0) := by
  rw [← safeSub_checked_iff ha hb]
  constructor
  · intro h
    exact h.sub
  · intro h
    exact ⟨safeAdd_checked ha hb, h, safeMul_checked ha hb, safeNegate_checked ha⟩

theorem helpers_exact_sample : HelpersExact 0 (minOf 64) :=
  (helpers_exact_iff (by decide) (by decide)).mpr (by decide)

/-- `-1 - INT64_MIN` is `INT64_MAX`, and is refused. -/
theorem sub_refuses_min : ¬ ∀ a b : Int, InRange 64 a → InRange 64 b → HelpersExact a b := by
  intro h
  have hs : Checked (safeSub (-1) (minOf 64)) (-1 - minOf 64) := (h (-1) (minOf 64) (by decide) (by decide)).sub
  cases hs.value (by decide)

/-! ## Canonical fractions -/

/-- The rational number that a fraction stands for. -/
def value (f : Fraction) : ℚ := f.num / f.den

/-- The lowest terms of a rational number. -/
def ofRat (x : ℚ) : Fraction := ⟨x.num, x.den⟩

structure Canonical (f : Fraction) : Prop where
  num_range : InRange 64 f.num
  den_pos : 1 ≤ f.den
  den_le : f.den ≤ maxOf 64
  gcd_eq : Int.gcd f.num f.den = 1

theorem canonical_iff {f : Fraction} :
    Canonical f ↔ InRange 64 f.num ∧ 1 ≤ f.den ∧ f.den ≤ maxOf 64 ∧ Int.gcd f.num f.den = 1 := by
  constructor
  · intro h
    exact ⟨h.num_range, h.den_pos, h.den_le, h.gcd_eq⟩
  · intro ⟨h1, h2, h3, h4⟩
    exact ⟨h1, h2, h3, h4⟩

instance (f : Fraction) : Decidable (Canonical f) := decidable_of_iff' _ canonical_iff

theorem Canonical.den_range {f : Fraction} (h : Canonical f) : InRange 64 f.den := by
  refine ⟨?_, h.den_le⟩
  rw [minOf_64]
  have := h.den_pos
  omega

theorem Canonical.ofRat_value {f : Fraction} (h : Canonical f) : ofRat f.value = f := by
  have hd := h.den_pos
  have hc := Int.isCoprime_iff_gcd_eq_one.mpr h.gcd_eq
  unfold ofRat value
  rw [Ratio.num_of_coprime (by omega) hc, Ratio.den_of_coprime (by omega) hc]

theorem value_ofRat (x : ℚ) : (ofRat x).value = x := by
  unfold ofRat value
  exact_mod_cast Rat.num_div_den x

theorem canonical_ofRat {x : ℚ} (hn : InRange 64 x.num) (hd : (x.den : Int) ≤ maxOf 64) : Canonical (ofRat x) where
  num_range := hn
  den_pos := by
    have := x.den_pos
    show (1 : Int) ≤ x.den
    omega
  den_le := hd
  gcd_eq := x.reduced

theorem canonical_lowest {n d : Int} (hn : InRange 64 n) (hd : InRange 64 d) (hp : 0 < d) :
    Canonical (ofRat (value ⟨n, d⟩)) := by
  have hg : (0 : Int) < Int.gcd n d := Int.natCast_pos.mpr (Int.gcd_pos_of_ne_zero_right _ (by omega))
  have hpos : 0 < d / Int.gcd n d := Int.ediv_pos_of_pos_of_dvd hp (by omega) (Int.gcd_dvd_right ..)
  obtain ⟨hc, hv⟩ := Ratio.reduce (n := n) (show d ≠ 0 by omega)
  show Canonical (ofRat ((n : ℚ) / d))
  rw [← hv]
  refine canonical_ofRat ?_ ?_
  · rw [Ratio.num_of_coprime hpos hc]
    exact ediv_range hn hg (Int.gcd_dvd_left ..)
  · rw [Ratio.den_of_coprime hpos hc]
    exact (ediv_range hd hg (Int.gcd_dvd_right ..)).2

/-! ## Calls -/

section Calls

variable {Obj α β : Type} (mem : Obj → Fraction)

@[simp] theorem call_pure (x : α) : call (pure x) mem = (.ok x, mem) := rfl

@[simp] theorem call_throw (e : Thrown) : call (throw e : Member Obj α) mem = (.error e, mem) := rfl

@[simp] theorem call_lift_ok (x : α) (f : α → Member Obj β) :
    call (liftM (Except.ok x : Res α) >>= f) mem = call (f x) mem := rfl

@[simp] theorem call_lift_error (e : Thrown) (f : α → Member Obj β) :
    call (liftM (Except.error e : Res α) >>= f) mem = (.error e, mem) := rfl

@[simp] theorem call_getNum (o : Obj) (f : Int → Member Obj β) :
    call (getNum o >>= f) mem = call (f (mem o).num) mem := rfl

@[simp] theorem call_getDen (o : Obj) (f : Int → Member Obj β) :
    call (getDen o >>= f) mem = call (f (mem o).den) mem := rfl

/-- The greatest common divisor of the absolute values, where it is an `std::int64_t`. -/
theorem call_gcd {x y : Int} (hg : InRange 64 (Int.gcd x y)) (f : Int → Member Obj β) :
    call (liftM (safeCastU64ToI64 (gcdU64 x.natAbs y.natAbs)) >>= f) mem = call (f (Int.gcd x y)) mem := by
  rw [gcdU64_eq, show Nat.gcd x.natAbs y.natAbs = Int.gcd x y from rfl, safeCastU64ToI64_eq hg, call_lift_ok]

theorem call_gcd_abs {x y : Int} (hx : InRange 64 x) (hy : InRange 64 y) (hg : InRange 64 (Int.gcd x y))
    (f : Int → Member Obj β) :
    call (do
      let p ← liftM (absToUint64 x)
      let q ← liftM (absToUint64 y)
      let g ← liftM (safeCastU64ToI64 (gcdU64 p q))
      f g) mem = call (f (Int.gcd x y)) mem := by
  rw [absToUint64_eq hx, absToUint64_eq hy, call_lift_ok, call_lift_ok, call_gcd mem hg]

/-- A checked product: the call ends there, or goes on with the exact one. -/
theorem call_safeMul {a b : Int} (ha : InRange 64 a) (hb : InRange 64 b) (f : Int → Member Obj Unit) :
    (¬ InRange 64 (a * b) ∧
        ∃ what, call (liftM (safeMul a b) >>= f) mem = (.error (.overflowError what), mem)) ∨
      (InRange 64 (a * b) ∧ call (liftM (safeMul a b) >>= f) mem = call (f (a * b)) mem) := by
  by_cases h : InRange 64 (a * b)
  · rw [(safeMul_checked ha hb).value h]
    exact Or.inr ⟨h, rfl⟩
  · obtain ⟨what, e⟩ := (safeMul_checked ha hb).overflow h
    rw [e]
    exact Or.inl ⟨h, what, rfl⟩

variable [DecidableEq Obj]

@[simp] theorem call_setNum (o : Obj) (x : Int) (f : Unit → Member Obj β) :
    call (setNum o x >>= f) mem = call (f ()) (Function.update mem o ⟨x, (mem o).den⟩) := rfl

@[simp] theorem call_setDen (o : Obj) (x : Int) (f : Unit → Member Obj β) :
    call (setDen o x >>= f) mem = call (f ()) (Function.update mem o ⟨(mem o).num, x⟩) := rfl

@[simp] theorem call_setDen_last (o : Obj) (x : Int) :
    call (setDen o x) mem = (.ok (), Function.update mem o ⟨(mem o).num, x⟩) := rfl

end Calls

/-! ## Normalization -/

section Normalize

variable {Obj : Type} [DecidableEq Obj] {mem : Obj → Fraction} {this : Obj}

/-- With a positive denominator nothing is thrown, and the lowest terms of the value are stored. -/
theorem normalize_pos (hn : InRange 64 (mem this).num) (hd : InRange 64 (mem this).den) (hp : 0 < (mem this).den) :
    call (normalize this) mem = (.ok (), Function.update mem this (ofRat (mem this).value)) := by
  unfold normalize
  rw [call_getDen, if_neg (by omega), call_getNum]
  by_cases hz : (mem this).num = 0
  · rw [if_pos hz, call_setDen_last]
    simp [ofRat, value, hz]
  · have hg : 0 < Int.gcd (mem this).num (mem this).den := Int.gcd_pos_of_ne_zero_right _ (by omega)
    have hgd : (Int.gcd (mem this).num (mem this).den : Int) ∣ (mem this).den := Int.gcd_dvd_right ..
    have hgr := gcd_range (x := (mem this).num) hd hp
    have hpos : 0 < (mem this).den / Int.gcd (mem this).num (mem this).den :=
      Int.ediv_pos_of_pos_of_dvd hp (by omega) hgd
    have hnum := i64Div_dvd hn (Int.natCast_pos.mpr hg) (Int.gcd_dvd_left ..)
    have hden := i64Div_dvd hd (Int.natCast_pos.mpr hg) hgd
    obtain ⟨hc, hv⟩ := Ratio.reduce (n := (mem this).num) (show (mem this).den ≠ 0 by omega)
    rw [if_neg hz]
    simp only [call_getNum, call_getDen, absToUint64_eq hn, absToUint64_eq hd, call_lift_ok]
    rw [call_gcd mem hgr]
    simp only [call_getNum, call_getDen, call_setNum, call_setDen, call_lift_ok, Function.update_self, Function.update_idem,
      hnum, hden]
    rw [if_neg (by omega), call_pure]
    congr 2
    unfold ofRat value
    rw [← hv, Ratio.num_of_coprime hpos hc, Ratio.den_of_coprime hpos hc]

/-- With a negative denominator the lowest terms change sign, and where one of them cannot they stay as they are. -/
theorem normalize_neg (hn : InRange 64 (mem this).num) (hd : InRange 64 (mem this).den) (hp : (mem this).den < 0)
    (hz : (mem this).num ≠ 0) (hgr : InRange 64 (Int.gcd (mem this).num (mem this).den)) {n d : Int}
    (en : (mem this).num / Int.gcd (mem this).num (mem this).den = n)
    (ed : (mem this).den / Int.gcd (mem this).num (mem this).den = d) :
    (d = minOf 64 ∨ n = minOf 64) ∧
        (∃ what, call (normalize this) mem = (.error (.overflowError what), Function.update mem this ⟨n, d⟩)) ∨
      (d ≠ minOf 64 ∧ n ≠ minOf 64) ∧ call (normalize this) mem = (.ok (), Function.update mem this ⟨-n, -d⟩) := by
  have hg : (0 : Int) < Int.gcd (mem this).num (mem this).den :=
    Int.natCast_pos.mpr (Int.gcd_pos_of_ne_zero_right _ (by omega))
  have hnr := ediv_range hn hg (Int.gcd_dvd_left ..)
  have hdr := ediv_range hd hg (Int.gcd_dvd_right ..)
  have hneg : (mem this).den / Int.gcd (mem this).num (mem this).den < 0 := Int.ediv_neg_of_neg_of_pos hp hg
  have hnum := i64Div_dvd hn hg (Int.gcd_dvd_left ..)
  have hden := i64Div_dvd hd hg (Int.gcd_dvd_right ..)
  rw [en] at hnr hnum
  rw [ed] at hdr hneg hden
  unfold normalize
  rw [call_getDen, if_neg (by omega), call_getNum, if_neg hz]
  simp only [call_getNum, call_getDen, absToUint64_eq hn, absToUint64_eq hd, call_lift_ok]
  rw [call_gcd mem hgr]
  simp only [call_getNum, call_getDen, call_setNum, call_setDen, call_lift_ok, Function.update_self, Function.update_idem,
    hnum, hden, if_pos hneg]
  by_cases hdm : d = minOf 64
  · rw [if_pos hdm, call_throw]
    exact Or.inl ⟨Or.inl hdm, _, rfl⟩
  rw [if_neg hdm]
  by_cases hnm : n = minOf 64
  · obtain ⟨what, hw⟩ := (safeNegate_checked hnr).overflow (by rw [inRange_neg hnr]; exact not_not.mpr hnm)
    rw [call_getNum, Function.update_self, hw, call_lift_error]
    exact Or.inl ⟨Or.inr hnm, what, rfl⟩
  · rw [call_getNum, Function.update_self, (safeNegate_checked hnr).value ((inRange_neg hnr).mpr hnm), call_lift_ok]
    simp only [call_getDen, call_setNum, call_setDen_last, i64Neg, i64_eq ((inRange_neg hdr).mpr hdm), call_lift_ok,
      Function.update_self, Function.update_idem]
    exact Or.inr ⟨⟨hdm, hnm⟩, trivial⟩

end Normalize

end Dbase.Math.Fraction
