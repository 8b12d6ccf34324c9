/-
  Dbase.Lib.Odometer — a counter shown on a row of wheels.

  Wheel `j` has `c j` positions, and one position of it stands for `base j` counts. A count
  `n` shows `n / base j % c j` on wheel `j`. Counting on moves the wheels one after the
  other, lowest first, and goes on to the next only when the one moved comes back to zero;
  `pos n k` is where the wheels stand on the way from `n` to `n + 1` once the lowest `k`
  have moved.

  `reading` is what the wheels show at such a moment, read as a count down to wheel `w`:
  `n + 1` below the wheels still to be moved, and a whole turn of wheel `k - 1` too little
  above them if that wheel has just come back to zero (`reading_pos`).
-/

import Mathlib

namespace Dbase.Lib.Odometer

variable (c : Nat → Nat)

def base : Nat → Nat
  | 0 => 1
  | j + 1 => base j * c j

/-- The count shown by the wheels below `w` when wheel `j` stands at `d j`. -/
def low (d : Nat → Nat) : Nat → Nat
  | 0 => 0
  | w + 1 => low d w + base c w * d w

/-- The turns of each wheel, counted from the start, with the lowest `k` moved on from `n`. -/
def pos (n k j : Nat) : Nat := if j < k then (n + 1) / base c j else n / base c j

/-- What the wheels show when wheel `j` has made `p j` moves, down to wheel `w`. -/
def reading (p : Nat → Nat) (w : Nat) : Nat := base c w * p w + low c (fun j => p j % c j) w

variable {c}

theorem base_pos (hc : ∀ j, 0 < c j) (j : Nat) : 0 < base c j := by
  induction j with
  | zero => exact Nat.one_pos
  | succ j ih => exact Nat.mul_pos ih (hc j)

theorem base_dvd {i j : Nat} (h : i ≤ j) : base c i ∣ base c j := by
  induction h with
  | refl => exact Nat.dvd_refl _
  | step _ ih => exact Nat.dvd_trans ih (Nat.dvd_mul_right _ _)

theorem base_le (hc : ∀ j, 0 < c j) {i j : Nat} (h : i ≤ j) : base c i ≤ base c j :=
  Nat.le_of_dvd (base_pos hc j) (base_dvd h)

theorem low_lt {d : Nat → Nat} (hd : ∀ j, d j < c j) (w : Nat) : low c d w < base c w := by
  induction w with
  | zero => exact Nat.one_pos
  | succ w ih =>
    calc low c d w + base c w * d w < base c w + base c w * d w := Nat.add_lt_add_right ih _
      _ = base c w * (d w + 1) := by ring
      _ ≤ base c w * c w := Nat.mul_le_mul_left _ (hd w)

theorem low_congr {d e : Nat → Nat} {w : Nat} (h : ∀ j, j < w → d j = e j) : low c d w = low c e w := by
  induction w with
  | zero => rfl
  | succ w ih =>
    rw [low, low, ih (fun j hj => h j (by omega)), h w (by omega)]

/-- The wheels below `w` show the count modulo their span. -/
theorem low_digits (n w : Nat) : low c (fun j => n / base c j % c j) w = n % base c w := by
  induction w with
  | zero => simp [low, base, Nat.mod_one]
  | succ w ih => rw [low, ih, base, Nat.mod_mul]

/-! ## Between two counts -/

theorem succ_mod (n b : Nat) (hb : 0 < b) : (n + 1) % b = 0 ∧ n % b + 1 = b ∨ (n + 1) % b = n % b + 1 := by
  have hlt := Nat.mod_lt n hb
  rw [← Nat.mod_add_mod]
  by_cases h : n % b + 1 < b
  · right
    exact Nat.mod_eq_of_lt h
  · left
    have e : n % b + 1 = b := by omega
    exact ⟨by rw [e, Nat.mod_self], e⟩

/-- Above the moved wheels the old digits stand behind the new ones. -/
theorem low_pos_above (n k i : Nat) :
    low c (fun j => pos c n k j % c j) (k + i) + n % base c k = n % base c (k + i) + (n + 1) % base c k := by
  induction i with
  | zero =>
    have h : low c (fun j => pos c n k j % c j) k = (n + 1) % base c k := by
      rw [← low_digits]
      exact low_congr fun j hj => by simp [pos, hj]
    rw [Nat.add_zero, h, Nat.add_comm]
  | succ i ih =>
    have hp : pos c n k (k + i) = n / base c (k + i) := by simp [pos]
    rw [← Nat.add_assoc, low, hp, base, Nat.mod_mul]
    omega

/-- The reading on the way from `n` to `n + 1`. -/
theorem reading_pos (hc : ∀ j, 0 < c j) (n k w : Nat) :
    reading c (pos c n k) w =
      if k ≤ w ∧ (n + 1) % base c k = 0 then n + 1 - base c k else n + 1 := by
  by_cases hw : w < k
  · have hl : low c (fun j => pos c n k j % c j) w = (n + 1) % base c w := by
      rw [← low_digits]
      exact low_congr fun j hj => by simp [pos, Nat.lt_trans hj hw]
    rw [if_neg (by omega), reading, hl, pos, if_pos hw]
    exact Nat.div_add_mod _ _
  · obtain ⟨i, rfl⟩ : ∃ i, w = k + i := ⟨w - k, by omega⟩
    have hl := low_pos_above (c := c) n k i
    have hd := Nat.div_add_mod n (base c (k + i))
    have hb := base_pos hc k
    have hp : pos c n k (k + i) = n / base c (k + i) := by simp [pos]
    rw [reading, hp]
    rcases succ_mod n (base c k) hb with ⟨h0, h1⟩ | h1
    · rw [if_pos ⟨by omega, h0⟩]
      omega
    · rw [if_neg (by omega)]
      omega

/-- Within one turn a wheel comes to a position once. -/
theorem eq_of_mod_eq {p q m : Nat} (h : q % m = p % m) (h1 : p ≤ q) (h2 : q < p + m) : q = p := by
  have h0 : (q - p) % m = 0 := Nat.sub_mod_eq_zero_of_mod_eq h
  rw [Nat.mod_eq_of_lt (by omega)] at h0
  omega

theorem pos_zero (n j : Nat) : pos c n 0 j = n / base c j := by simp [pos]

/-- The next wheel moves by one, when all below it have come back to zero. -/
theorem pos_move {n k : Nat} (h : (n + 1) % base c k = 0) : pos c n (k + 1) k = pos c n k k + 1 := by
  simp only [pos, Nat.lt_succ_self, Nat.lt_irrefl, if_true, if_false]
  exact Nat.succ_div_of_dvd (Nat.dvd_of_mod_eq_zero h)

theorem pos_move_ne {n k j : Nat} (h : j ≠ k) : pos c n (k + 1) j = pos c n k j := by
  unfold pos
  by_cases hj : j < k
  · rw [if_pos hj, if_pos (by omega)]
  · rw [if_neg hj, if_neg (by omega)]

/-- Once a wheel has not come back to zero, the wheels above it already stand right. -/
theorem pos_done {n k j : Nat} (h : (n + 1) % base c k ≠ 0) : pos c n k j = (n + 1) / base c j := by
  unfold pos
  by_cases hj : j < k
  · rw [if_pos hj]
  · rw [if_neg hj]
    refine (Nat.succ_div_of_not_dvd ?_).symm
    intro hd
    exact h (Nat.mod_eq_zero_of_dvd (Nat.dvd_trans (base_dvd (by omega)) hd))

/-- Whether wheel `k` has come back to zero, once the wheels below it have. -/
theorem wrapped_iff (hc : ∀ j, 0 < c j) {n k : Nat} (h : n % base c k = 0) :
    n / base c k % c k = 0 ↔ n % base c (k + 1) = 0 := by
  have hb := base_pos hc k
  rw [base, Nat.mod_mul, h, Nat.zero_add, Nat.mul_eq_zero]
  constructor
  · exact Or.inr
  · rintro (h0 | h0)
    · omega
    · exact h0

end Dbase.Lib.Odometer
