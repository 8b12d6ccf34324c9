/-
  Dbase.Lib.Word — unsigned machine arithmetic over the naturals.

  A `w`-bit unsigned value is a natural below `2 ^ w`; addition, subtraction and
  multiplication wrap. Each operation has one lemma for the range where it agrees
  with the exact one, and subtraction one more for the range where it does not: a
  check built on a wrapped difference fails there and nowhere else.
-/

import Mathlib

namespace Dbase.Lib.Word

def wadd (w a b : Nat) : Nat := (a + b) % 2 ^ w

def wsub (w a b : Nat) : Nat := (a + (2 ^ w - b % 2 ^ w)) % 2 ^ w

def wmul (w a b : Nat) : Nat := a * b % 2 ^ w

/-- The two's-complement reading of the low `w` bits. -/
def toSigned (w a : Nat) : Int :=
  if 2 * (a % 2 ^ w) < 2 ^ w then (a % 2 ^ w : Nat) else (a % 2 ^ w : Nat) - (2 ^ w : Nat)

theorem wadd_eq {w a b : Nat} (h : a + b < 2 ^ w) : wadd w a b = a + b := Nat.mod_eq_of_lt h

theorem wadd_le (w a b : Nat) : wadd w a b ≤ a + b := Nat.mod_le _ _

theorem wmul_eq {w a b : Nat} (h : a * b < 2 ^ w) : wmul w a b = a * b := Nat.mod_eq_of_lt h

theorem wsub_eq {w a b : Nat} (hb : b ≤ a) (ha : a < 2 ^ w) : wsub w a b = a - b := by
  have hm : b % 2 ^ w = b := Nat.mod_eq_of_lt (by omega)
  have e : a + (2 ^ w - b) = (a - b) + 2 ^ w := by omega
  unfold wsub
  rw [hm, e, Nat.add_mod_right]
  exact Nat.mod_eq_of_lt (by omega)

/-- Below zero the difference comes back as a value near the top of the range. -/
theorem wsub_wrap {w a b : Nat} (h : a < b) (hb : b < 2 ^ w) : wsub w a b = a + 2 ^ w - b := by
  have hm : b % 2 ^ w = b := Nat.mod_eq_of_lt hb
  unfold wsub
  rw [hm, Nat.mod_eq_of_lt (by omega)]
  omega

theorem toSigned_small {w a : Nat} (h : 2 * a < 2 ^ w) : toSigned w a = a := by
  have hm : a % 2 ^ w = a := Nat.mod_eq_of_lt (by omega)
  unfold toSigned
  rw [hm, if_pos h]

end Dbase.Lib.Word
