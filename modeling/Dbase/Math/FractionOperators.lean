/-
  Dbase.Math.FractionOperators — the four assignment operators of `Fraction` and its negation.

  Proved, for all canonical operands, also where both are one object:
  - `operators_exact`: what returns is canonical and the exact rational result, and no operation of the language is
    applied outside its domain, whether the call returns or throws.
  - `mul_overflow_iff`: a product overflows exactly where its lowest terms do not fit.
  - `div_overflow_iff`: so does a quotient, but for two kinds of operands: both numerators `INT64_MIN`, whose common
    divisor does not fit, and a negative divisor with a quotient whose numerator is `INT64_MIN`.
  - `keeps_iff`: `+=` and `-=` assign only what is complete; `*=` and `/=` store the numerator first, and leave it where
    the denominator overflows.
-/

import Dbase.Math.FractionProofs

namespace Dbase.Math.Fraction

open Dbase.Lib Dbase.Lib.Signed

section Operators

variable {Obj : Type} [DecidableEq Obj] {mem : Obj → Fraction} {this other : Obj}

/-- `+=` and `-=` store the lowest terms of the exact result, or throw before they assign. -/
theorem combineAssign_spec {combine : Int → Int → Res Int} {s : Int}
    (hcombine : ∀ {a b}, InRange 64 a → InRange 64 b →
      (InRange 64 (a + s * b) ∧ combine a b = .ok (a + s * b)) ∨ ∃ what, combine a b = .error (.overflowError what))
    (ha : Canonical (mem this)) (hb : Canonical (mem other)) :
    (∃ what, call (combineAssign combine this other) mem = (.error (.overflowError what), mem)) ∨
      (call (combineAssign combine this other) mem =
        (.ok (), Function.update mem this (ofRat ((mem this).value + s * (mem other).value))) ∧
        Canonical (ofRat ((mem this).value + s * (mem other).value))) := by
  have hbp := ha.den_pos
  have hdp := hb.den_pos
  have hg : (0 : Int) < Int.gcd (mem this).den (mem other).den :=
    Int.natCast_pos.mpr (Int.gcd_pos_of_ne_zero_right _ (by omega))
  have hgl : (Int.gcd (mem this).den (mem other).den : Int) ∣ (mem other).den := Int.gcd_dvd_right ..
  have hgr : (Int.gcd (mem this).den (mem other).den : Int) ∣ (mem this).den := Int.gcd_dvd_left ..
  have hl : 0 < (mem other).den / Int.gcd (mem this).den (mem other).den :=
    Int.ediv_pos_of_pos_of_dvd (by omega) (by omega) hgl
  have hleft := i64Div_dvd hb.den_range hg hgl
  have hright := i64Div_dvd ha.den_range hg hgr
  have hv := Ratio.value_combine (a := (mem this).num) (c := (mem other).num) s
    (show (mem this).den ≠ 0 by omega) (show (mem other).den ≠ 0 by omega)
  unfold combineAssign
  rw [call_getDen, absToUint64_eq ha.den_range, call_lift_ok, call_getDen, absToUint64_eq hb.den_range, call_lift_ok]
  rw [call_gcd mem (gcd_range hb.den_range (by omega)), call_getDen, hleft, call_lift_ok, call_getDen, hright, call_lift_ok,
    call_getNum]
  have rl := ediv_range hb.den_range hg hgl
  have rr := ediv_range ha.den_range hg hgr
  generalize (mem other).den / Int.gcd (mem this).den (mem other).den = l at *
  generalize (mem this).den / Int.gcd (mem this).den (mem other).den = r at *
  rcases call_safeMul mem ha.num_range rl _ with ⟨-, h⟩ | ⟨h1, e1⟩
  · exact Or.inl h
  rw [e1, call_getNum]
  rcases call_safeMul mem hb.num_range rr _ with ⟨-, h⟩ | ⟨h2, e2⟩
  · exact Or.inl h
  rw [e2]
  rcases hcombine h1 h2 with ⟨h3, e3⟩ | ⟨what, h⟩
  swap
  · rw [h, call_lift_error]
    exact Or.inl ⟨what, rfl⟩
  rw [e3, call_lift_ok, call_getDen]
  rcases call_safeMul mem ha.den_range rl _ with ⟨-, h⟩ | ⟨h4, e4⟩
  · exact Or.inl h
  have hp : 0 < (mem this).den * l := Int.mul_pos (by omega) hl
  rw [e4, call_setNum, call_setDen, Function.update_idem, Function.update_self]
  rw [normalize_pos (by rwa [Function.update_self]) (by rwa [Function.update_self]) (by rwa [Function.update_self])]
  rw [Function.update_idem, Function.update_self]
  have hval : value ⟨(mem this).num * l + s * ((mem other).num * r), (mem this).den * l⟩ =
      (mem this).value + s * (mem other).value := hv
  rw [hval]
  refine Or.inr ⟨rfl, ?_⟩
  rw [← hval]
  exact canonical_lowest h3 h4 hp

/-- The last steps of `*=` and `/=`: the numerator is stored before the denominator is known to fit. -/
theorem call_store (mem : Obj → Fraction) (this : Obj) {a b c d : Int} (ha : InRange 64 a) (hb : InRange 64 b)
    (hc : InRange 64 c) (hd : InRange 64 d) :
    let store : Member Obj Unit := do
      setNum this (← safeMul a c)
      setDen this (← safeMul b d)
      normalize this
    (¬ InRange 64 (a * c) ∧ ∃ what, call store mem = (.error (.overflowError what), mem)) ∨
      (InRange 64 (a * c) ∧ ¬ InRange 64 (b * d) ∧ ∃ what, call store mem =
        (.error (.overflowError what), Function.update mem this ⟨a * c, (mem this).den⟩)) ∨
      (InRange 64 (a * c) ∧ InRange 64 (b * d) ∧
        call store mem = call (normalize this) (Function.update mem this ⟨a * c, b * d⟩)) := by
  intro store
  show (_ ∧ ∃ what, call (liftM (safeMul a c) >>= _) mem = _) ∨ (_ ∧ _ ∧ ∃ what, call (liftM (safeMul a c) >>= _) mem = _) ∨
    (_ ∧ _ ∧ call (liftM (safeMul a c) >>= _) mem = _)
  rcases call_safeMul mem ha hc _ with h | ⟨hn, e⟩
  · exact Or.inl h
  rw [e, call_setNum]
  rcases call_safeMul (Function.update mem this ⟨a * c, (mem this).den⟩) hb hd _ with ⟨hd, h⟩ | ⟨hd, e⟩
  · exact Or.inr (Or.inl ⟨hn, hd, h⟩)
  · rw [e, call_setDen, Function.update_idem, Function.update_self]
    exact Or.inr (Or.inr ⟨hn, hd, rfl⟩)

/-- `*=` stores the exact product in lowest terms, or throws because a part of it does not fit; if it is the denominator
that does not, the numerator has been stored already. -/
theorem mulAssign_spec (ha : Canonical (mem this)) (hb : Canonical (mem other)) {x : ℚ}
    (hx : (mem this).value * (mem other).value = x) :
    (¬ InRange 64 x.num ∧ ∃ what, call (mulAssign this other) mem = (.error (.overflowError what), mem)) ∨
      (InRange 64 x.num ∧ maxOf 64 < x.den ∧ ∃ what, call (mulAssign this other) mem =
        (.error (.overflowError what), Function.update mem this ⟨x.num, (mem this).den⟩)) ∨
      (InRange 64 x.num ∧ (x.den : Int) ≤ maxOf 64 ∧
        call (mulAssign this other) mem = (.ok (), Function.update mem this (ofRat x))) := by
  have hbp := ha.den_pos
  have hdp := hb.den_pos
  have hac := Int.isCoprime_iff_gcd_eq_one.mpr ha.gcd_eq
  have hcd := Int.isCoprime_iff_gcd_eq_one.mpr hb.gcd_eq
  unfold mulAssign
  rw [call_getNum, call_getNum]
  by_cases hz : (mem this).num = 0 ∨ (mem other).num = 0
  · have hx0 : x = 0 := by
      rw [← hx]
      rcases hz with h | h <;> simp [value, h]
    rw [if_pos hz, call_setNum, call_setDen_last, hx0]
    refine Or.inr (Or.inr ⟨inRange_zero 64, by rw [maxOf_64]; decide, ?_⟩)
    rw [Function.update_idem, Function.update_self, ofRat, Rat.num_zero, Rat.den_zero, Nat.cast_one]
  rw [if_neg hz]
  have hg1 : (0 : Int) < Int.gcd (mem this).num (mem other).den :=
    Int.natCast_pos.mpr (Int.gcd_pos_of_ne_zero_right _ (by omega))
  have hg2 : (0 : Int) < Int.gcd (mem other).num (mem this).den :=
    Int.natCast_pos.mpr (Int.gcd_pos_of_ne_zero_right _ (by omega))
  rw [call_getNum, call_getDen, call_getNum, call_getDen]
  rw [call_gcd_abs mem ha.num_range hb.den_range (gcd_range hb.den_range (by omega)),
    i64Div_dvd ha.num_range hg1 (Int.gcd_dvd_left ..), call_lift_ok,
    i64Div_dvd hb.den_range hg1 (Int.gcd_dvd_right ..), call_lift_ok]
  rw [call_gcd_abs mem hb.num_range ha.den_range (gcd_range ha.den_range (by omega)),
    i64Div_dvd hb.num_range hg2 (Int.gcd_dvd_left ..), call_lift_ok,
    i64Div_dvd ha.den_range hg2 (Int.gcd_dvd_right ..), call_lift_ok]
  have hpos : 0 < (mem this).den / Int.gcd (mem other).num (mem this).den *
      ((mem other).den / Int.gcd (mem this).num (mem other).den) :=
    Int.mul_pos (Int.ediv_pos_of_pos_of_dvd (by omega) (by omega) (Int.gcd_dvd_right ..))
      (Int.ediv_pos_of_pos_of_dvd (by omega) (by omega) (Int.gcd_dvd_right ..))
  have hc := Ratio.coprime_cross hac hcd (by omega) (by omega)
  have hv := Ratio.value_cross (a := (mem this).num) (b := (mem this).den) (c := (mem other).num) (d := (mem other).den)
    (by omega) (by omega)
  have hn := Ratio.num_of_coprime hpos hc
  have hd := Ratio.den_of_coprime hpos hc
  rw [hv, show ((mem this).num : ℚ) / (mem this).den * ((mem other).num / (mem other).den) = x from hx] at hn hd
  rcases call_store mem this (ediv_range ha.num_range hg1 (Int.gcd_dvd_left ..))
    (ediv_range ha.den_range hg2 (Int.gcd_dvd_right ..)) (ediv_range hb.num_range hg2 (Int.gcd_dvd_left ..))
    (ediv_range hb.den_range hg1 (Int.gcd_dvd_right ..)) with ⟨h1, h⟩ | ⟨h1, h2, h⟩ | ⟨h1, h2, h⟩
  · rw [← hn] at h1
    exact Or.inl ⟨h1, h⟩
  · rw [← hn] at h1 h
    refine Or.inr (Or.inl ⟨h1, ?_, h⟩)
    rw [hd]
    rw [inRange_iff] at h2
    rw [maxOf_64]
    omega
  · refine Or.inr (Or.inr ⟨by rwa [hn], by rw [hd]; exact h2.2, ?_⟩)
    rw [h, normalize_pos (by rwa [Function.update_self]) (by rwa [Function.update_self]) (by rwa [Function.update_self])]
    rw [Function.update_idem, Function.update_self, ofRat, value, hv]
    exact congrArg (fun y => (_, Function.update mem this (ofRat y))) hx

/-- `/=` up to the last normalization, which has only the signs to change: the quotient `n / d` that it stores has
nothing in common, and the sign of the divisor below the line. -/
theorem divAssign_run (ha : Canonical (mem this)) (hb : Canonical (mem other)) (h0 : (mem this).num ≠ 0)
    (h1 : (mem other).num ≠ 0) (hm : ¬ ((mem this).num = minOf 64 ∧ (mem other).num = minOf 64)) :
    ∃ n d : Int, IsCoprime n d ∧ n ≠ 0 ∧ (0 < (mem other).num → 0 < d) ∧ ((mem other).num < 0 → d < 0) ∧
      (n : ℚ) / d = (mem this).value / (mem other).value ∧
      ((¬ InRange 64 n ∧ ∃ what, call (divAssign this other) mem = (.error (.overflowError what), mem)) ∨
        (InRange 64 n ∧ ¬ InRange 64 d ∧ ∃ what, call (divAssign this other) mem =
          (.error (.overflowError what), Function.update mem this ⟨n, (mem this).den⟩)) ∨
        (InRange 64 n ∧ InRange 64 d ∧
          call (divAssign this other) mem = call (normalize this) (Function.update mem this ⟨n, d⟩))) := by
  have hbp := ha.den_pos
  have hdp := hb.den_pos
  have hab := Int.isCoprime_iff_gcd_eq_one.mpr ha.gcd_eq
  have hdc := (Int.isCoprime_iff_gcd_eq_one.mpr hb.gcd_eq).symm
  have hg1 : (0 : Int) < Int.gcd (mem this).num (mem other).num := Int.natCast_pos.mpr (Int.gcd_pos_of_ne_zero_right _ h1)
  have hg2 : (0 : Int) < Int.gcd (mem other).den (mem this).den :=
    Int.natCast_pos.mpr (Int.gcd_pos_of_ne_zero_right _ (by omega))
  have hn : (mem this).num / Int.gcd (mem this).num (mem other).num ≠ 0 :=
    fun h => h0 (Int.eq_zero_of_ediv_eq_zero (Int.gcd_dvd_left ..) h)
  have hl : 0 < (mem other).den / Int.gcd (mem other).den (mem this).den :=
    Int.ediv_pos_of_pos_of_dvd (by omega) (by omega) (Int.gcd_dvd_left ..)
  have hr : 0 < (mem this).den / Int.gcd (mem other).den (mem this).den :=
    Int.ediv_pos_of_pos_of_dvd (by omega) (by omega) (Int.gcd_dvd_right ..)
  refine ⟨_, _, Ratio.coprime_cross hab hdc (by omega) h1, ?_, ?_, ?_, ?_, ?_⟩
  · exact mul_ne_zero hn hl.ne'
  · intro hp
    exact Int.mul_pos hr (Int.ediv_pos_of_pos_of_dvd hp (by omega) (Int.gcd_dvd_right ..))
  · intro hp
    exact Int.mul_neg_of_pos_of_neg hr (Int.ediv_neg_of_neg_of_pos hp hg1)
  · rw [Ratio.value_cross (by omega) h1, value, value, div_div_eq_mul_div, div_mul_div_comm, mul_div_assoc]
    field_simp
  · unfold divAssign
    rw [call_getNum, if_neg h1, call_getNum, if_neg h0, call_getNum, call_getDen, call_getNum, call_getDen]
    rw [call_gcd_abs mem ha.num_range hb.num_range (gcd_num_range ha.num_range hb.num_range h0 h1 hm),
      i64Div_dvd ha.num_range hg1 (Int.gcd_dvd_left ..), call_lift_ok,
      i64Div_dvd hb.num_range hg1 (Int.gcd_dvd_right ..), call_lift_ok]
    rw [call_gcd_abs mem hb.den_range ha.den_range (gcd_range ha.den_range (by omega)),
      i64Div_dvd hb.den_range hg2 (Int.gcd_dvd_left ..), call_lift_ok,
      i64Div_dvd ha.den_range hg2 (Int.gcd_dvd_right ..), call_lift_ok]
    exact call_store mem this (ediv_range ha.num_range hg1 (Int.gcd_dvd_left ..))
      (ediv_range ha.den_range hg2 (Int.gcd_dvd_right ..))
      (ediv_range hb.den_range hg2 (Int.gcd_dvd_left ..)) (ediv_range hb.num_range hg1 (Int.gcd_dvd_right ..))

theorem divAssign_zero (h1 : (mem other).num = 0) :
    call (divAssign this other) mem = (.error (.domainError "division by zero fraction"), mem) := by
  unfold divAssign
  rw [call_getNum, if_pos h1, call_throw]

theorem divAssign_of_zero (h0 : (mem this).num = 0) (h1 : (mem other).num ≠ 0) :
    call (divAssign this other) mem = (.ok (), Function.update mem this ⟨0, 1⟩) := by
  unfold divAssign
  rw [call_getNum, if_neg h1, call_getNum, if_pos h0, call_setDen_last, h0]

/-- The common divisor of two smallest values does not fit. -/
theorem divAssign_min (ha : (mem this).num = minOf 64) (hb : (mem other).num = minOf 64) :
    call (divAssign this other) mem = (.error (.overflowError "integer overflow on cast"), mem) := by
  have hr : InRange 64 (minOf 64) := by decide
  have h0 : minOf 64 ≠ 0 := by decide
  have hg : safeCastU64ToI64 (gcdU64 (minOf 64).natAbs (minOf 64).natAbs) =
      .error (.overflowError "integer overflow on cast") := by
    rw [gcdU64_eq, Nat.gcd_self]
    decide
  unfold divAssign
  rw [call_getNum, hb, if_neg h0, call_getNum, ha, if_neg h0, call_getNum, call_getDen, call_getNum, call_getDen, ha, hb,
    absToUint64_eq hr, call_lift_ok, call_lift_ok, hg, call_lift_error]

/-- Divided by a positive fraction: as a product. -/
theorem divAssign_pos (ha : Canonical (mem this)) (hb : Canonical (mem other)) (hp : 0 < (mem other).num) {x : ℚ}
    (hx : (mem this).value / (mem other).value = x) :
    (¬ InRange 64 x.num ∧ ∃ what, call (divAssign this other) mem = (.error (.overflowError what), mem)) ∨
      (InRange 64 x.num ∧ maxOf 64 < x.den ∧ ∃ what, call (divAssign this other) mem =
        (.error (.overflowError what), Function.update mem this ⟨x.num, (mem this).den⟩)) ∨
      (InRange 64 x.num ∧ (x.den : Int) ≤ maxOf 64 ∧
        call (divAssign this other) mem = (.ok (), Function.update mem this (ofRat x))) := by
  by_cases h0 : (mem this).num = 0
  · rw [divAssign_of_zero h0 (by omega), ← hx]
    have hz : (mem this).value = 0 := by simp [value, h0]
    rw [hz, zero_div]
    exact Or.inr (Or.inr ⟨inRange_zero 64, by rw [maxOf_64]; decide, by rw [ofRat, Rat.num_zero, Rat.den_zero, Nat.cast_one]⟩)
  obtain ⟨n, d, hc, -, hd, -, hv, h⟩ := divAssign_run ha hb h0 (by omega) (by rw [minOf_64]; omega)
  have en := Ratio.num_of_coprime (hd hp) hc
  have ed := Ratio.den_of_coprime (hd hp) hc
  rw [hv, hx] at en ed
  rw [en, ed]
  rcases h with h | ⟨h1, h2, h⟩ | ⟨h1, h2, h⟩
  · exact Or.inl h
  · have := hd hp
    exact Or.inr (Or.inl ⟨h1, by rw [inRange_iff] at h2; rw [maxOf_64]; omega, h⟩)
  · refine Or.inr (Or.inr ⟨h1, h2.2, ?_⟩)
    rw [h, normalize_pos (by rwa [Function.update_self]) (by rwa [Function.update_self])
      (by rw [Function.update_self]; exact hd hp), Function.update_idem, Function.update_self, value, hv, hx]

/-- Divided by a negative fraction: the signs are put right last, and the two parts have to fit before and after. -/
theorem divAssign_neg (ha : Canonical (mem this)) (hb : Canonical (mem other)) (hp : (mem other).num < 0)
    (hm : ¬ ((mem this).num = minOf 64 ∧ (mem other).num = minOf 64)) {x : ℚ}
    (hx : (mem this).value / (mem other).value = x) :
    (¬ InRange 64 (-x.num) ∧ ∃ what, call (divAssign this other) mem = (.error (.overflowError what), mem)) ∨
      (InRange 64 (-x.num) ∧ minOf 64 > -x.den ∧ ∃ what, call (divAssign this other) mem =
        (.error (.overflowError what), Function.update mem this ⟨-x.num, (mem this).den⟩)) ∨
      (InRange 64 (-x.num) ∧ minOf 64 ≤ -x.den ∧ (-x.den = minOf 64 ∨ -x.num = minOf 64) ∧
        ∃ what, call (divAssign this other) mem =
          (.error (.overflowError what), Function.update mem this ⟨-x.num, -x.den⟩)) ∨
      (InRange 64 x.num ∧ InRange 64 (-x.num) ∧ (x.den : Int) ≤ maxOf 64 ∧
        call (divAssign this other) mem = (.ok (), Function.update mem this (ofRat x))) := by
  by_cases h0 : (mem this).num = 0
  · rw [divAssign_of_zero h0 (by omega), ← hx]
    have hz : (mem this).value = 0 := by simp [value, h0]
    rw [hz, zero_div]
    refine Or.inr (Or.inr (Or.inr ⟨inRange_zero 64, inRange_zero 64, by rw [maxOf_64]; decide, ?_⟩))
    rw [ofRat, Rat.num_zero, Rat.den_zero, Nat.cast_one]
  obtain ⟨n, d, hc, hn, -, hd, hv, h⟩ := divAssign_run ha hb h0 (by omega) hm
  have hd := hd hp
  have en := Ratio.num_of_coprime_neg hd hc
  have ed := Ratio.den_of_coprime_neg hd hc
  rw [hv, hx] at en ed
  rw [en, ed, Int.neg_neg, Int.neg_neg]
  rcases h with h | ⟨h1, h2, h⟩ | ⟨h1, h2, h⟩
  · exact Or.inl h
  · exact Or.inr (Or.inl ⟨h1, by rw [inRange_iff] at h2; rw [minOf_64]; omega, h⟩)
  · have hs : Function.update mem this ⟨n, d⟩ this = ⟨n, d⟩ := Function.update_self ..
    have hg : Int.gcd n d = 1 := Int.isCoprime_iff_gcd_eq_one.mp hc
    rcases @normalize_neg Obj _ (Function.update mem this ⟨n, d⟩) this (by rwa [hs]) (by rwa [hs]) (by rwa [hs])
      (by rwa [hs]) (by rw [hs, hg]; decide) n d (by rw [hs, hg]; exact Int.ediv_one n)
      (by rw [hs, hg]; exact Int.ediv_one d) with ⟨he, what, e⟩ | ⟨he, e⟩
    · rw [h, e, Function.update_idem]
      exact Or.inr (Or.inr (Or.inl ⟨h1, h2.1, he, what, rfl⟩))
    · rw [h, e, Function.update_idem, ofRat, en, ed]
      refine Or.inr (Or.inr (Or.inr ⟨(inRange_neg h1).mpr he.2, h1, ?_, rfl⟩))
      exact ((inRange_neg h2).mpr he.1).2

/-! ## Every operator -/

inductive Op where
  | add
  | sub
  | mul
  | div
  deriving DecidableEq, Repr

def Op.assign : Op → Obj → Obj → Member Obj Unit
  | .add => addAssign
  | .sub => subAssign
  | .mul => mulAssign
  | .div => divAssign

def Op.exact : Op → ℚ → ℚ → ℚ
  | .add => (· + ·)
  | .sub => (· - ·)
  | .mul => (· * ·)
  | .div => (· / ·)

theorem safeAdd_combines {a b : Int} (ha : InRange 64 a) (hb : InRange 64 b) :
    (InRange 64 (a + 1 * b) ∧ safeAdd a b = .ok (a + 1 * b)) ∨ ∃ what, safeAdd a b = .error (.overflowError what) := by
  rw [Int.one_mul, safeAdd_eq ha hb]
  by_cases h : InRange 64 (a + b)
  · rw [if_pos h]
    exact Or.inl ⟨h, rfl⟩
  · rw [if_neg h]
    exact Or.inr ⟨_, rfl⟩

theorem safeSub_combines {a b : Int} (ha : InRange 64 a) (hb : InRange 64 b) :
    (InRange 64 (a + -1 * b) ∧ safeSub a b = .ok (a + -1 * b)) ∨ ∃ what, safeSub a b = .error (.overflowError what) := by
  rw [show a + -1 * b = a - b by omega]
  exact safeSub_eq ha hb

/-- How a call ends: it returns with the exact result in lowest terms, or throws one of the exceptions of the class. -/
theorem assign_outcome (op : Op) (ha : Canonical (mem this)) (hb : Canonical (mem other)) :
    (∃ e mem', e ≠ Thrown.undefined ∧ call (op.assign this other) mem = (.error e, mem')) ∨
      (call (op.assign this other) mem =
          (.ok (), Function.update mem this (ofRat (op.exact (mem this).value (mem other).value))) ∧
        Canonical (ofRat (op.exact (mem this).value (mem other).value))) := by
  have thrown : ∀ {what mem'}, call (op.assign this other) mem = (.error (.overflowError what), mem') →
      ∃ e mem', e ≠ Thrown.undefined ∧ call (op.assign this other) mem = (.error e, mem') := by
    intro what mem' h
    exact ⟨_, _, by simp, h⟩
  cases op with
  | add =>
    rcases combineAssign_spec safeAdd_combines ha hb with ⟨what, h⟩ | ⟨h, hc⟩
    · exact Or.inl (thrown h)
    · rw [Int.cast_one, one_mul] at h hc
      exact Or.inr ⟨h, hc⟩
  | sub =>
    rcases combineAssign_spec safeSub_combines ha hb with ⟨what, h⟩ | ⟨h, hc⟩
    · exact Or.inl (thrown h)
    · rw [show (mem this).value + ((-1 : Int) : ℚ) * (mem other).value = (mem this).value - (mem other).value by
        push_cast
        ring] at h hc
      exact Or.inr ⟨h, hc⟩
  | mul =>
    rcases mulAssign_spec ha hb rfl with ⟨-, what, h⟩ | ⟨-, -, what, h⟩ | ⟨hn, hd, h⟩
    · exact Or.inl (thrown h)
    · exact Or.inl (thrown h)
    · exact Or.inr ⟨h, canonical_ofRat hn hd⟩
  | div =>
    rcases lt_trichotomy (mem other).num 0 with hc | hc | hc
    · by_cases hm : (mem this).num = minOf 64 ∧ (mem other).num = minOf 64
      · exact Or.inl (thrown (divAssign_min hm.1 hm.2))
      · rcases divAssign_neg ha hb hc hm rfl with ⟨-, what, h⟩ | ⟨-, -, what, h⟩ | ⟨-, -, -, what, h⟩ | ⟨hn, -, hd, h⟩
        · exact Or.inl (thrown h)
        · exact Or.inl (thrown h)
        · exact Or.inl (thrown h)
        · exact Or.inr ⟨h, canonical_ofRat hn hd⟩
    · exact Or.inl ⟨_, _, by simp, divAssign_zero hc⟩
    · rcases divAssign_pos ha hb hc rfl with ⟨-, what, h⟩ | ⟨-, -, what, h⟩ | ⟨hn, hd, h⟩
      · exact Or.inl (thrown h)
      · exact Or.inl (thrown h)
      · exact Or.inr ⟨h, canonical_ofRat hn hd⟩

/-- The negation is canonical and exact, or there is none. -/
theorem neg_outcome {f : Fraction} (hf : Canonical f) :
    (∃ what, neg f = .error (.overflowError what)) ∨ (neg f = .ok (ofRat (-f.value)) ∧ Canonical (ofRat (-f.value))) := by
  have hp := hf.den_pos
  unfold neg
  by_cases hn : InRange 64 (-f.num)
  · rw [(safeNegate_checked hf.num_range).value hn]
    have hv : value ⟨-f.num, f.den⟩ = -f.value := by
      unfold value
      push_cast
      exact neg_div ..
    have hc := canonical_lowest hn hf.den_range (by omega)
    rw [hv] at hc
    refine Or.inr ⟨?_, hc⟩
    show make (-f.num) f.den = _
    unfold make
    rw [normalize_pos hn hf.den_range (by show 0 < f.den; omega), hv]
    show Except.ok (Function.update _ () _ ()) = _
    rw [Function.update_self]
  · obtain ⟨what, h⟩ := (safeNegate_checked hf.num_range).overflow hn
    rw [h]
    exact Or.inl ⟨what, rfl⟩

/-- What an operator returns is canonical and exact, only its own object has changed, and whether it returns or throws,
no operation of the language is applied outside its domain. So with the negation. -/
theorem operators_exact (op : Op) (mem : Obj → Fraction) (this other : Obj) (ha : Canonical (mem this))
    (hb : Canonical (mem other)) :
    (call (op.assign this other) mem).1 ≠ .error .undefined ∧
    ((call (op.assign this other) mem).1 = .ok () →
      Canonical ((call (op.assign this other) mem).2 this) ∧
      ((call (op.assign this other) mem).2 this).value = op.exact (mem this).value (mem other).value ∧
      ∀ o ≠ this, (call (op.assign this other) mem).2 o = mem o) ∧
    neg (mem this) ≠ .error .undefined ∧
    (∀ f, neg (mem this) = .ok f → Canonical f ∧ f.value = -(mem this).value) := by
  have hop := assign_outcome op ha hb
  have hneg := neg_outcome ha
  refine ⟨?_, ?_, ?_, ?_⟩
  · rcases hop with ⟨e, mem', he, h⟩ | ⟨h, -⟩ <;> rw [h]
    · simpa using he
    · simp
  · intro hok
    rcases hop with ⟨e, mem', he, h⟩ | ⟨h, hc⟩
    · rw [h] at hok
      cases hok
    · rw [h]
      dsimp only
      rw [Function.update_self]
      exact ⟨hc, value_ofRat _, fun o ho => Function.update_of_ne ho _ _⟩
  · rcases hneg with ⟨what, h⟩ | ⟨h, -⟩ <;> rw [h] <;> simp
  · intro f hf
    rcases hneg with ⟨what, h⟩ | ⟨h, hc⟩ <;> rw [h] at hf <;> cases hf
    exact ⟨hc, value_ofRat _⟩

/-- -3 multiplied by itself. -/
theorem operators_exact_self :
    (call (Op.mul.assign () ()) (fun _ : Unit => ⟨-3, 1⟩)).1 = .ok () ∧
      ((call (Op.mul.assign () ()) (fun _ : Unit => ⟨-3, 1⟩)).2 ()).value = value ⟨-3, 1⟩ * value ⟨-3, 1⟩ := by
  have hc : Canonical ⟨-3, 1⟩ := by decide
  have hok : (call (Op.mul.assign () ()) (fun _ : Unit => ⟨-3, 1⟩)).1 = .ok () := by
    have hnine : value ⟨-3, 1⟩ * value ⟨-3, 1⟩ = ((9 : Int) : ℚ) := by norm_num [value]
    rcases @mulAssign_spec Unit _ (fun _ => ⟨-3, 1⟩) () () hc hc _ hnine with ⟨hn, -⟩ | ⟨-, hd, -⟩ | ⟨-, -, h⟩
    · exact absurd (by decide) hn
    · exact absurd hd (by decide)
    · exact congrArg Prod.fst h
  exact ⟨hok, ((operators_exact .mul (fun _ : Unit => ⟨-3, 1⟩) () () hc hc).2.1 hok).2.1⟩

/-! ## Overflow -/

theorem mul_overflow_iff (mem : Obj → Fraction) (this other : Obj) (ha : Canonical (mem this)) (hb : Canonical (mem other)) :
    (∃ what, (call (mulAssign this other) mem).1 = .error (.overflowError what)) ↔
      ¬ InRange 64 ((mem this).value * (mem other).value).num ∨
        maxOf 64 < ((mem this).value * (mem other).value).den := by
  rcases mulAssign_spec ha hb rfl with ⟨hn, what, h⟩ | ⟨hn, hd, what, h⟩ | ⟨hn, hd, h⟩
  · rw [h]
    exact iff_of_true ⟨what, rfl⟩ (Or.inl hn)
  · rw [h]
    exact iff_of_true ⟨what, rfl⟩ (Or.inr hd)
  · rw [h]
    refine iff_of_false (by simp) ?_
    rintro (hc | hc)
    · exact hc hn
    · omega

theorem mul_overflow_sample :
    (∃ what, (call (mulAssign true false) (fun o => cond o ⟨1, 2 ^ 62⟩ ⟨3, 2 ^ 62⟩)).1 = .error (.overflowError what)) ↔
      ¬ InRange 64 (value ⟨1, 2 ^ 62⟩ * value ⟨3, 2 ^ 62⟩).num ∨
        maxOf 64 < (value ⟨1, 2 ^ 62⟩ * value ⟨3, 2 ^ 62⟩).den :=
  mul_overflow_iff (fun o => cond o ⟨1, 2 ^ 62⟩ ⟨3, 2 ^ 62⟩) true false (by decide) (by decide)

/-- The quotient of two smallest values fits: it has the denominators only. -/
theorem canonical_quotient_min {a b : Fraction} (ha : Canonical a) (hb : Canonical b)
    (hm : a.num = minOf 64 ∧ b.num = minOf 64) :
    Canonical (ofRat (a.value / b.value)) ∧ 0 < (a.value / b.value).num := by
  have hbp := ha.den_pos
  have hdp := hb.den_pos
  have e : a.value / b.value = value ⟨b.den, a.den⟩ := by
    have h0 : ((minOf 64 : Int) : ℚ) ≠ 0 := by exact_mod_cast (show minOf 64 ≠ 0 by decide)
    unfold value
    rw [hm.1, hm.2, div_div_div_cancel_left' _ _ h0]
  rw [e]
  refine ⟨canonical_lowest hb.den_range ha.den_range (by omega), ?_⟩
  rw [Rat.num_pos]
  have h1 : (0 : ℚ) < a.den := by exact_mod_cast hbp
  have h2 : (0 : ℚ) < b.den := by exact_mod_cast hdp
  exact div_pos h2 h1

/-- The operands whose quotient fits and is refused. -/
def RefusesQuotient (a b : Fraction) : Prop :=
  (a.num = minOf 64 ∧ b.num = minOf 64) ∨
    (b.num < 0 ∧ (a.value / b.value).num = minOf 64 ∧ ((a.value / b.value).den : Int) ≤ maxOf 64)

theorem div_overflow_iff (mem : Obj → Fraction) (this other : Obj) (ha : Canonical (mem this)) (hb : Canonical (mem other))
    (hz : (mem other).num ≠ 0) :
    ((∃ what, (call (divAssign this other) mem).1 = .error (.overflowError what)) ↔
        ¬ InRange 64 ((mem this).value / (mem other).value).num ∨
          maxOf 64 < ((mem this).value / (mem other).value).den) ↔
      ¬ RefusesQuotient (mem this) (mem other) := by
  unfold RefusesQuotient
  by_cases hm : (mem this).num = minOf 64 ∧ (mem other).num = minOf 64
  · obtain ⟨hq, -⟩ := canonical_quotient_min ha hb hm
    have hn : InRange 64 ((mem this).value / (mem other).value).num := hq.num_range
    have hd : (((mem this).value / (mem other).value).den : Int) ≤ maxOf 64 := hq.den_le
    rw [divAssign_min hm.1 hm.2]
    refine iff_of_false ?_ (by simp [hm])
    intro h
    rcases h.mp ⟨_, rfl⟩ with h | h
    · exact h hn
    · omega
  -- whether the call overflows is known in each case; what is left is arithmetic of the two parts
  rw [or_iff_right hm]
  have threw : ∀ {what mem'}, call (divAssign this other) mem = (.error (.overflowError what), mem') →
      ((∃ what, (call (divAssign this other) mem).1 = .error (.overflowError what)) ↔ True) := by
    intro what mem' h
    exact iff_true_intro ⟨what, by rw [h]⟩
  have returned : ∀ {mem'}, call (divAssign this other) mem = (.ok (), mem') →
      ((∃ what, (call (divAssign this other) mem).1 = .error (.overflowError what)) ↔ False) := by
    intro mem' h
    rw [h]
    simp
  rcases Int.lt_or_gt_of_ne hz with hc | hc
  · rcases divAssign_neg ha hb hc hm rfl with ⟨hn, what, h⟩ | ⟨hn, hd, what, h⟩ | ⟨hn, hd, hs, what, h⟩ | ⟨hn, hs, hd, h⟩
    · rw [threw h, true_iff]
      simp only [inRange_iff, minOf_64, maxOf_64] at hn ⊢
      omega
    · rw [threw h, true_iff]
      simp only [inRange_iff, minOf_64, maxOf_64] at hn hd ⊢
      omega
    · rw [threw h, true_iff]
      simp only [inRange_iff, minOf_64, maxOf_64] at hn hd hs ⊢
      omega
    · rw [returned h, false_iff]
      simp only [inRange_iff, minOf_64, maxOf_64] at hn hd hs ⊢
      omega
  · rcases divAssign_pos ha hb hc rfl with ⟨hn, what, h⟩ | ⟨hn, hd, what, h⟩ | ⟨hn, hd, h⟩
    · rw [threw h]
      simp only [hn, not_false_iff, true_or, true_iff]
      omega
    · rw [threw h]
      simp only [hd, or_true, true_iff]
      omega
    · rw [returned h, false_iff]
      simp only [inRange_iff, minOf_64, maxOf_64] at hn hd ⊢
      omega

/-- 6 divided by -2. -/
theorem div_overflow_sample :
    (∃ what, (call (divAssign true false) (fun o => cond o ⟨6, 1⟩ ⟨-2, 1⟩)).1 = .error (.overflowError what)) ↔
      ¬ InRange 64 (value ⟨6, 1⟩ / value ⟨-2, 1⟩).num ∨ maxOf 64 < (value ⟨6, 1⟩ / value ⟨-2, 1⟩).den := by
  refine (div_overflow_iff (fun o => cond o ⟨6, 1⟩ ⟨-2, 1⟩) true false (by decide) (by decide) (by decide)).mpr ?_
  have e : value ⟨6, 1⟩ / value ⟨-2, 1⟩ = ((-3 : Int) : ℚ) := by norm_num [value]
  show ¬ (_ ∨ (_ ∧ (value ⟨6, 1⟩ / value ⟨-2, 1⟩).num = _ ∧ _))
  rw [e, Rat.num_intCast]
  decide

/-- `INT64_MIN` divided by itself is 1, and the common divisor of the numerators overflows. -/
theorem div_overflows_falsely :
    ¬ ∀ mem : Unit → Fraction, Canonical (mem ()) → (mem ()).num ≠ 0 →
      ((∃ what, (call (divAssign () ()) mem).1 = .error (.overflowError what)) ↔
        ¬ InRange 64 ((mem ()).value / (mem ()).value).num ∨ maxOf 64 < ((mem ()).value / (mem ()).value).den) := by
  intro h
  have hc : Canonical ⟨minOf 64, 1⟩ := by decide
  have hq := (canonical_quotient_min hc hc ⟨rfl, rfl⟩).1
  have hn := @divAssign_min Unit _ (fun _ => ⟨minOf 64, 1⟩) () () rfl rfl
  rcases (h (fun _ => ⟨minOf 64, 1⟩) hc (by decide)).mp ⟨_, congrArg Prod.fst hn⟩ with h | h
  · exact h hq.num_range
  · exact absurd hq.den_le (Int.not_le.mpr h)

/-! ## What a call that throws leaves -/

/-- A call that throws leaves its object as it was. -/
def Keeps (op : Op) (this other : Obj) (mem : Obj → Fraction) : Prop :=
  ∀ e mem', call (op.assign this other) mem = (.error e, mem') → mem' this = mem this

/-- The operands where a part of the result is stored and then something overflows: the denominator, or, divided by a
negative fraction, the change of the signs. -/
def StoresEarly : Op → Fraction → Fraction → Prop
  | .add, _, _ => False
  | .sub, _, _ => False
  | .mul, a, b =>
    let x := a.value * b.value
    InRange 64 x.num ∧ maxOf 64 < x.den ∧ x.num ≠ a.num
  | .div, a, b =>
    let x := a.value / b.value
    if 0 ≤ b.num then InRange 64 x.num ∧ maxOf 64 < x.den ∧ x.num ≠ a.num
    else
      InRange 64 (-x.num) ∧
        ((minOf 64 > -x.den ∧ -x.num ≠ a.num) ∨ (minOf 64 ≤ -x.den ∧ (-x.den = minOf 64 ∨ -x.num = minOf 64)))

theorem keeps_of_ok (op : Op) {mem' : Obj → Fraction} (h : call (op.assign this other) mem = (.ok (), mem')) :
    Keeps op this other mem := by
  intro e mem'' h'
  rw [h] at h'
  cases h'

theorem keeps_of_error (op : Op) {e : Thrown} {mem' : Obj → Fraction}
    (h : call (op.assign this other) mem = (.error e, mem')) : Keeps op this other mem ↔ mem' this = mem this := by
  constructor
  · intro hk
    exact hk e mem' h
  · intro he e' mem'' h'
    rw [h] at h'
    cases h'
    exact he

/-- With a new numerator and the old denominator the object is what it was, only if the numerator is. -/
theorem keeps_of_num (op : Op) {e : Thrown} {n : Int}
    (h : call (op.assign this other) mem = (.error e, Function.update mem this ⟨n, (mem this).den⟩)) :
    Keeps op this other mem ↔ n = (mem this).num := by
  rw [keeps_of_error op h, Function.update_self]
  constructor
  · intro he
    exact congrArg num he
  · rintro rfl
    rfl

theorem keeps_iff (op : Op) (mem : Obj → Fraction) (this other : Obj) (ha : Canonical (mem this))
    (hb : Canonical (mem other)) : Keeps op this other mem ↔ ¬ StoresEarly op (mem this) (mem other) := by
  cases op with
  | add =>
    refine iff_of_true ?_ not_false
    rcases combineAssign_spec safeAdd_combines ha hb with ⟨what, h⟩ | ⟨h, -⟩
    · exact (keeps_of_error .add h).mpr rfl
    · exact keeps_of_ok .add h
  | sub =>
    refine iff_of_true ?_ not_false
    rcases combineAssign_spec safeSub_combines ha hb with ⟨what, h⟩ | ⟨h, -⟩
    · exact (keeps_of_error .sub h).mpr rfl
    · exact keeps_of_ok .sub h
  | mul =>
    show _ ↔ ¬ (InRange 64 _ ∧ _ ∧ _)
    rcases mulAssign_spec ha hb rfl with ⟨hn, what, h⟩ | ⟨hn, hd, what, h⟩ | ⟨hn, hd, h⟩
    · exact iff_of_true ((keeps_of_error .mul h).mpr rfl) (fun hs => hn hs.1)
    · rw [keeps_of_num .mul h]
      simp only [hn, hd, true_and, ne_eq, not_not]
    · refine iff_of_true (keeps_of_ok .mul h) ?_
      omega
  | div =>
    show _ ↔ ¬ (if 0 ≤ (mem other).num then InRange 64 _ ∧ _ ∧ _ else InRange 64 _ ∧ _)
    rcases lt_trichotomy (mem other).num 0 with hc | hc | hc
    · rw [if_neg (by omega)]
      by_cases hm : (mem this).num = minOf 64 ∧ (mem other).num = minOf 64
      · obtain ⟨hq, hp⟩ := canonical_quotient_min ha hb hm
        have hn : InRange 64 ((mem this).value / (mem other).value).num := hq.num_range
        have hd : (((mem this).value / (mem other).value).den : Int) ≤ maxOf 64 := hq.den_le
        refine iff_of_true ((keeps_of_error .div (divAssign_min hm.1 hm.2)).mpr rfl) ?_
        simp only [inRange_iff, minOf_64, maxOf_64] at hn hd ⊢
        omega
      have hden := ha.den_pos
      rcases divAssign_neg ha hb hc hm rfl with ⟨hn, what, h⟩ | ⟨hn, hd, what, h⟩ | ⟨hn, hd, hs, what, h⟩ | ⟨hn, hs, hd, h⟩
      · exact iff_of_true ((keeps_of_error .div h).mpr rfl) (fun hs => hn hs.1)
      · rw [keeps_of_num .div h]
        simp only [hn, hd, true_and]
        omega
      · rw [keeps_of_error .div h, Function.update_self]
        refine iff_of_false ?_ (by simp only [hn, hd, hs, true_and, or_true, not_true_eq_false, not_false_iff])
        intro he
        have hed : (-((mem this).value / (mem other).value).den : Int) = (mem this).den := congrArg den he
        omega
      · refine iff_of_true (keeps_of_ok .div h) ?_
        simp only [inRange_iff, minOf_64, maxOf_64] at hn hd hs ⊢
        omega
    · rw [if_pos (by omega)]
      refine iff_of_true ((keeps_of_error .div (divAssign_zero hc)).mpr rfl) ?_
      have hx : (mem this).value / (mem other).value = 0 := by simp [value, hc]
      rw [hx, maxOf_64]
      rintro ⟨-, hd, -⟩
      exact absurd hd (by decide)
    · rw [if_pos (by omega)]
      rcases divAssign_pos ha hb hc rfl with ⟨hn, what, h⟩ | ⟨hn, hd, what, h⟩ | ⟨hn, hd, h⟩
      · exact iff_of_true ((keeps_of_error .div h).mpr rfl) (fun hs => hn hs.1)
      · rw [keeps_of_num .div h]
        simp only [hn, hd, true_and, ne_eq, not_not]
      · refine iff_of_true (keeps_of_ok .div h) ?_
        omega

/-- `1/2^62` divided by `-4/3`: the numerator 3 is stored, and the denominator `-2^64` overflows. -/
theorem keeps_iff_sample : ¬ Keeps .div true false (fun o => cond o ⟨1, 2 ^ 62⟩ ⟨-4, 3⟩) := by
  rw [keeps_iff .div (fun o => cond o ⟨1, 2 ^ 62⟩ ⟨-4, 3⟩) true false (by decide) (by decide), not_not]
  have hc : IsCoprime (-3 : Int) (2 ^ 64) := Int.isCoprime_iff_gcd_eq_one.mpr (by decide)
  have e : value ⟨1, 2 ^ 62⟩ / value ⟨-4, 3⟩ = ((-3 : Int) : ℚ) / (2 ^ 64 : Int) := by norm_num [value]
  have hn := Ratio.num_of_coprime (by decide) hc
  have hd := Ratio.den_of_coprime (by decide) hc
  show StoresEarly .div ⟨1, 2 ^ 62⟩ ⟨-4, 3⟩
  simp only [StoresEarly, e, hn, hd]
  decide

/-- `1/2^62 * 3/2^62`: the numerator 3 is stored, and the denominator `2^124` overflows. -/
theorem mul_stores_early :
    ¬ ∀ (op : Op) (mem : Bool → Fraction), Canonical (mem true) → Canonical (mem false) → Keeps op true false mem := by
  intro h
  have hk := h .mul (fun o => cond o ⟨1, 2 ^ 62⟩ ⟨3, 2 ^ 62⟩) (by decide) (by decide)
  have hc : IsCoprime (3 : Int) (2 ^ 124) := Int.isCoprime_iff_gcd_eq_one.mpr (by decide)
  have e : value ⟨1, 2 ^ 62⟩ * value ⟨3, 2 ^ 62⟩ = ((3 : Int) : ℚ) / (2 ^ 124 : Int) := by norm_num [value]
  have hn := Ratio.num_of_coprime (by decide) hc
  have hd := Ratio.den_of_coprime (by decide) hc
  rcases @mulAssign_spec Bool _ (fun o => cond o ⟨1, 2 ^ 62⟩ ⟨3, 2 ^ 62⟩) true false (by decide)
    (by decide) _ e with ⟨hr, -⟩ | ⟨-, -, what, he⟩ | ⟨-, hr, -⟩
  · rw [hn] at hr
    exact hr (by decide)
  · have hs := (keeps_of_num .mul he).mp hk
    rw [hn] at hs
    exact absurd hs (by decide)
  · rw [hd] at hr
    exact absurd hr (by decide)

end Operators

end Dbase.Math.Fraction
