/-
  Dbase.Lib.Bytes — byte strings in a fixed storage.

  `slice` reads and `blit` writes a run of cells of a list that keeps its length.
  Both are total: a run that leaves the storage reads and writes only the cells
  inside it, so a client that stays inside is one for which the length side
  conditions below hold.

  `leDecode`, `leEncode`, `beDecode` and `beEncode` are the positional readings of a
  byte string; `le` and `be` are mirror images, and encoding in `n` bytes is
  inverse to decoding `n` bytes. The last lemmas take a byte out of a value by a mask and
  put it back by a shift and an or.
-/

import Mathlib

namespace Dbase.Lib.Bytes

/-! ## Runs of cells -/

def slice {α : Type} (xs : List α) (pos n : Nat) : List α := (xs.drop pos).take n

/-- Overwrite the cells from `pos` on with `ys`; what falls outside is lost. -/
def blit {α : Type} (xs : List α) (pos : Nat) (ys : List α) : List α :=
  xs.take pos ++ (ys.take (xs.length - pos) ++ xs.drop (pos + ys.length))

variable {α : Type}

theorem length_slice (xs : List α) (pos n : Nat) : (slice xs pos n).length = min n (xs.length - pos) := by
  simp [slice]

theorem length_slice_of_le {xs : List α} {pos n : Nat} (h : pos + n ≤ xs.length) : (slice xs pos n).length = n := by
  rw [length_slice]; omega

@[simp] theorem slice_zero (xs : List α) (pos : Nat) : slice xs pos 0 = [] := by simp [slice]

@[simp] theorem length_blit (xs : List α) (pos : Nat) (ys : List α) : (blit xs pos ys).length = xs.length := by
  simp [blit]; omega

theorem drop_slice (xs : List α) (pos n k : Nat) : (slice xs pos n).drop k = slice xs (pos + k) (n - k) := by
  simp [slice, List.drop_take, List.drop_drop]

theorem take_slice (xs : List α) (pos : Nat) {n k : Nat} (h : k ≤ n) : (slice xs pos n).take k = slice xs pos k := by
  simp [slice, List.take_take, Nat.min_eq_left h]

theorem slice_append_slice (xs : List α) (pos n k : Nat) : slice xs pos n ++ slice xs (pos + n) k = slice xs pos (n + k) := by
  simp only [slice]
  rw [← List.drop_drop, List.take_add]

/-- A run written inside the storage is read back. -/
theorem slice_blit_self {xs ys : List α} {pos : Nat} (h : pos + ys.length ≤ xs.length) :
    slice (blit xs pos ys) pos ys.length = ys := by
  have hp : (xs.take pos).length = pos := by simp; omega
  have ht : ys.take (xs.length - pos) = ys := List.take_of_length_le (by omega)
  simp only [slice, blit, ht]
  rw [List.drop_append_of_le_length (by omega), List.drop_of_length_le (by omega), List.nil_append]
  simp

/-- A run that ends before the written cells is unchanged. -/
theorem slice_blit_before {xs ys : List α} {pos p n : Nat} (h : p + n ≤ pos) (hx : pos ≤ xs.length) :
    slice (blit xs pos ys) p n = slice xs p n := by
  have hp : (xs.take pos).length = pos := by simp; omega
  simp only [slice, blit]
  rw [List.drop_append_of_le_length (by omega), List.take_append_of_le_length (by simp; omega)]
  rw [List.drop_take, List.take_take]
  congr 1; omega

/-- Writing just behind a run extends it. -/
theorem slice_blit_extend {xs ys : List α} {pos n : Nat} (h : pos + n + ys.length ≤ xs.length) :
    slice (blit xs (pos + n) ys) pos (n + ys.length) = slice xs pos n ++ ys := by
  rw [← slice_append_slice, slice_blit_before (Nat.le_refl _) (by omega), slice_blit_self h]

/-! ## Positional readings -/

def leDecode : List UInt8 → Nat
  | [] => 0
  | b :: bs => b.toNat + 256 * leDecode bs

def leEncode : Nat → Nat → List UInt8
  | 0, _ => []
  | n + 1, v => UInt8.ofNat v :: leEncode n (v / 256)

def beDecode (bs : List UInt8) : Nat := leDecode bs.reverse

def beEncode (n v : Nat) : List UInt8 := (leEncode n v).reverse

@[simp] theorem length_leEncode (n v : Nat) : (leEncode n v).length = n := by
  induction n generalizing v with
  | zero => rfl
  | succ n ih => simp [leEncode, ih]

@[simp] theorem length_beEncode (n v : Nat) : (beEncode n v).length = n := by simp [beEncode]

theorem leDecode_lt (bs : List UInt8) : leDecode bs < 256 ^ bs.length := by
  induction bs with
  | nil => simp [leDecode]
  | cons b bs ih =>
    have := b.toNat_lt
    simp only [leDecode, List.length_cons, Nat.pow_succ]
    omega

theorem beDecode_lt (bs : List UInt8) : beDecode bs < 256 ^ bs.length := by
  have := leDecode_lt bs.reverse
  rwa [List.length_reverse] at this

theorem leDecode_leEncode {n v : Nat} (h : v < 256 ^ n) : leDecode (leEncode n v) = v := by
  induction n generalizing v with
  | zero => simp [leEncode, leDecode] at h ⊢; omega
  | succ n ih =>
    have hv : v / 256 < 256 ^ n := by
      rw [Nat.div_lt_iff_lt_mul (by omega)]; rwa [Nat.pow_succ] at h
    simp only [leEncode, leDecode, ih hv, UInt8.toNat_ofNat']
    omega

theorem leEncode_leDecode (bs : List UInt8) : leEncode bs.length (leDecode bs) = bs := by
  induction bs with
  | nil => rfl
  | cons b bs ih =>
    have hb := b.toNat_lt
    have hd : (b.toNat + 256 * leDecode bs) / 256 = leDecode bs := by omega
    have hm : UInt8.ofNat (b.toNat + 256 * leDecode bs) = b := by
      apply UInt8.toNat_inj.mp
      rw [UInt8.toNat_ofNat']
      omega
    simp only [List.length_cons, leDecode, leEncode, hd, hm, ih]

theorem beDecode_beEncode {n v : Nat} (h : v < 256 ^ n) : beDecode (beEncode n v) = v := by
  simp [beDecode, beEncode, leDecode_leEncode h]

theorem beEncode_beDecode (bs : List UInt8) : beEncode bs.length (beDecode bs) = bs := by
  have h := leEncode_leDecode bs.reverse
  rw [List.length_reverse] at h
  rw [beEncode, beDecode, h, List.reverse_reverse]

/-! ## Bytes of a value, masked and shifted -/

/-- One masked byte. -/
theorem and_byte (v k : Nat) : v &&& (255 <<< k) = (v / 2 ^ k % 256) * 2 ^ k := by
  rw [← Nat.shiftLeft_eq, ← Nat.shiftRight_eq_div_pow, show (256 : Nat) = 2 ^ 8 from rfl]
  apply Nat.eq_of_testBit_eq
  intro i
  rw [Nat.testBit_and, Nat.testBit_shiftLeft, Nat.testBit_shiftLeft, Nat.testBit_mod_two_pow,
    Nat.testBit_shiftRight, show (255 : Nat) = 2 ^ 8 - 1 from rfl, Nat.testBit_two_pow_sub_one]
  by_cases h : k ≤ i
  · have e : k + (i - k) = i := by omega
    simp [h, e, Bool.and_comm]
  · simp [h]

/-- The byte of `v` at bit `k`, masked in place. -/
theorem and_byte_eq {v k b : Nat} (h : v / 2 ^ k % 256 = b) : v &&& (255 <<< k) = b * 2 ^ k := by
  rw [and_byte, h]

theorem byte_shiftLeft (b k j : Nat) : (b * 2 ^ k) <<< j = b * 2 ^ (k + j) := by
  rw [Nat.shiftLeft_eq, Nat.mul_assoc, ← Nat.pow_add]

theorem byte_shiftRight (b k j : Nat) : (b * 2 ^ (k + j)) >>> j = b * 2 ^ k := by
  rw [Nat.shiftRight_eq_div_pow, Nat.pow_add, ← Nat.mul_assoc, Nat.mul_div_cancel _ (Nat.two_pow_pos j)]

/-- A byte placed just below a value shifted past it. -/
theorem or_byte (k : Nat) {x b : Nat} (h : b < 256) : (x * 2 ^ (k + 8)) ||| (b * 2 ^ k) = (x * 256 + b) * 2 ^ k := by
  have hlt : b * 2 ^ k < 2 ^ (k + 8) := by
    rw [Nat.pow_add, Nat.mul_comm (2 ^ k)]
    exact Nat.mul_lt_mul_of_pos_right h (Nat.two_pow_pos k)
  rw [Nat.mul_comm x, ← Nat.two_pow_add_eq_or_of_lt hlt x, Nat.pow_add]
  ring

end Dbase.Lib.Bytes
