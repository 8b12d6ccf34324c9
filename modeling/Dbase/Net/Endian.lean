/-
  Dbase.Net.Endian — the integer helpers of `buffer.cpp`'s anonymous namespace:
  `byteswapValue`, `hostToBigEndian`, `bigEndianToHost`, `readInteger` and
  `writeInteger`.

  An integer type is its width in bytes and its sign (`IntTy`); a value is an
  `Int`, and `raw` / `ofRaw` are the casts to and from the unsigned type of the same
  width. `memcpy` of an integer stores its bytes in the host's order. The host is
  little endian (`native`), the branch of `if constexpr` every supported target
  takes; the big-endian branch is kept.

  Proved: whatever the host's order, `readInteger` reads and `writeInteger` writes
  the big-endian two's-complement bytes (`readInteger_eq`, `writeInteger_eq`).
-/

import Dbase.Lib.Bytes
import Mathlib

namespace Dbase.Net.Endian

open Dbase.Lib.Bytes

inductive IntTy where
  | int8 | int16 | int32 | int64
  | uint8 | uint16 | uint32 | uint64
  deriving DecidableEq, Repr

/-- `sizeof`. -/
def IntTy.size : IntTy → Nat
  | .int8 | .uint8 => 1
  | .int16 | .uint16 => 2
  | .int32 | .uint32 => 4
  | .int64 | .uint64 => 8

def IntTy.signed : IntTy → Bool
  | .int8 | .int16 | .int32 | .int64 => true
  | .uint8 | .uint16 | .uint32 | .uint64 => false

/-- The cast to the unsigned type of the same width. -/
def raw (t : IntTy) (v : Int) : Nat := (v % (256 ^ t.size : Nat)).toNat

/-- The cast back. -/
def ofRaw (t : IntTy) (r : Nat) : Int :=
  if t.signed && 256 ^ t.size ≤ 2 * r then (r : Int) - (256 ^ t.size : Nat) else r

inductive Order where
  | little
  | big
  deriving DecidableEq, Repr

/-- `std::endian::native` of the targets the library is built for. -/
def native : Order := .little

def byteswap16 (v : Nat) : Nat := ((v <<< 8) ||| (v >>> 8)) % 2 ^ 16

def byteswap32 (v : Nat) : Nat :=
  ((v &&& 0x000000FF) <<< 24) |||
  ((v &&& 0x0000FF00) <<< 8) |||
  ((v &&& 0x00FF0000) >>> 8) |||
  ((v &&& 0xFF000000) >>> 24)

def byteswap64 (v : Nat) : Nat :=
  ((v &&& 0x00000000000000FF) <<< 56) |||
  ((v &&& 0x000000000000FF00) <<< 40) |||
  ((v &&& 0x0000000000FF0000) <<< 24) |||
  ((v &&& 0x00000000FF000000) <<< 8) |||
  ((v &&& 0x000000FF00000000) >>> 8) |||
  ((v &&& 0x0000FF0000000000) >>> 24) |||
  ((v &&& 0x00FF000000000000) >>> 40) |||
  ((v &&& 0xFF00000000000000) >>> 56)

/-- `byteswapValue`, by width. -/
def byteswapValue : Nat → Nat → Nat
  | 2, v => byteswap16 v
  | 4, v => byteswap32 v
  | 8, v => byteswap64 v
  | _, v => v

def hostToBigEndian (o : Order) (size v : Nat) : Nat :=
  if size = 1 then v else if o = .little then byteswapValue size v else v

def bigEndianToHost (o : Order) (size v : Nat) : Nat :=
  if size = 1 then v else if o = .little then byteswapValue size v else v

/-- `memcpy(&value, data, sizeof(T))`. -/
def load : Order → List UInt8 → Nat
  | .little, bs => leDecode bs
  | .big, bs => beDecode bs

/-- `memcpy(data, &value, sizeof(T))`. -/
def store : Order → Nat → Nat → List UInt8
  | .little, n, v => leEncode n v
  | .big, n, v => beEncode n v

def readInteger (o : Order) (t : IntTy) (bs : List UInt8) : Int :=
  ofRaw t (bigEndianToHost o t.size (load o bs))

def writeInteger (o : Order) (t : IntTy) (v : Int) : List UInt8 :=
  store o t.size (hostToBigEndian o t.size (raw t v))

/-! ## Swapping the bytes of a value mirrors its positional reading -/

theorem byteswap16_bytes (a b : Nat) (ha : a < 256) (hb : b < 256) : byteswap16 (a + 256 * b) = b + 256 * a := by
  have hd : (a + 256 * b) >>> 8 = b := by rw [Nat.shiftRight_eq_div_pow]; omega
  have ho := or_byte 0 (x := a + 256 * b) hb
  simp only [Nat.zero_add, Nat.pow_zero, Nat.mul_one] at ho
  unfold byteswap16
  rw [Nat.shiftLeft_eq, hd, ho]
  omega

theorem byteswap32_bytes (a b c d : Nat) (ha : a < 256) (hb : b < 256) (hc : c < 256) (hd : d < 256) :
    byteswap32 (a + 256 * (b + 256 * (c + 256 * d))) = d + 256 * (c + 256 * (b + 256 * a)) := by
  obtain ⟨v, hv⟩ : ∃ v, v = a + 256 * (b + 256 * (c + 256 * d)) := ⟨_, rfl⟩
  rw [← hv]
  have h0 : v &&& 0x000000FF = a * 2 ^ 0 := and_byte_eq (k := 0) (by omega)
  have h1 : v &&& 0x0000FF00 = b * 2 ^ 8 := and_byte_eq (k := 8) (by omega)
  have h2 : v &&& 0x00FF0000 = c * 2 ^ 16 := and_byte_eq (k := 16) (by omega)
  have h3 : v &&& 0xFF000000 = d * 2 ^ 24 := and_byte_eq (k := 24) (by omega)
  unfold byteswap32
  rw [h0, h1, h2, h3]
  simp only [byte_shiftLeft, Nat.reduceAdd]
  rw [byte_shiftRight c 8 8, byte_shiftRight d 0 24]
  -- each byte goes in just below everything already placed
  rw [or_byte 16 hb, or_byte 8 hc, or_byte 0 hd]
  omega

theorem byteswap64_bytes (a b c d e f g h : Nat) (ha : a < 256) (hb : b < 256) (hc : c < 256) (hd : d < 256)
    (he : e < 256) (hf : f < 256) (hg : g < 256) (hh : h < 256) :
    byteswap64 (a + 256 * (b + 256 * (c + 256 * (d + 256 * (e + 256 * (f + 256 * (g + 256 * h))))))) =
      h + 256 * (g + 256 * (f + 256 * (e + 256 * (d + 256 * (c + 256 * (b + 256 * a)))))) := by
  obtain ⟨v, hv⟩ : ∃ v, v = a + 256 * (b + 256 * (c + 256 * (d + 256 * (e + 256 * (f + 256 * (g + 256 * h)))))) :=
    ⟨_, rfl⟩
  rw [← hv]
  have h0 : v &&& 0x00000000000000FF = a * 2 ^ 0 := and_byte_eq (k := 0) (by omega)
  have h1 : v &&& 0x000000000000FF00 = b * 2 ^ 8 := and_byte_eq (k := 8) (by omega)
  have h2 : v &&& 0x0000000000FF0000 = c * 2 ^ 16 := and_byte_eq (k := 16) (by omega)
  have h3 : v &&& 0x00000000FF000000 = d * 2 ^ 24 := and_byte_eq (k := 24) (by omega)
  have h4 : v &&& 0x000000FF00000000 = e * 2 ^ 32 := and_byte_eq (k := 32) (by omega)
  have h5 : v &&& 0x0000FF0000000000 = f * 2 ^ 40 := and_byte_eq (k := 40) (by omega)
  have h6 : v &&& 0x00FF000000000000 = g * 2 ^ 48 := and_byte_eq (k := 48) (by omega)
  have h7 : v &&& 0xFF00000000000000 = h * 2 ^ 56 := and_byte_eq (k := 56) (by omega)
  unfold byteswap64
  rw [h0, h1, h2, h3, h4, h5, h6, h7]
  simp only [byte_shiftLeft, Nat.reduceAdd]
  rw [byte_shiftRight e 24 8, byte_shiftRight f 16 24, byte_shiftRight g 8 40, byte_shiftRight h 0 56]
  -- each byte goes in just below everything already placed
  rw [or_byte 48 hb, or_byte 40 hc, or_byte 32 hd, or_byte 24 he, or_byte 16 hf, or_byte 8 hg, or_byte 0 hh]
  omega

/-- Swapping a value loaded in little-endian order reads its bytes in big-endian order. -/
theorem byteswapValue_leDecode (t : IntTy) (bs : List UInt8) (h : bs.length = t.size) (h1 : t.size ≠ 1) :
    byteswapValue t.size (leDecode bs) = beDecode bs := by
  have l := fun b : UInt8 => b.toNat_lt
  have two : ∀ cs : List UInt8, cs.length = 2 → byteswap16 (leDecode cs) = beDecode cs := by
    intro cs hc
    obtain ⟨a, b, rfl⟩ := List.length_eq_two.mp hc
    simpa [leDecode, beDecode] using byteswap16_bytes a.toNat b.toNat (l a) (l b)
  have four : ∀ cs : List UInt8, cs.length = 4 → byteswap32 (leDecode cs) = beDecode cs := by
    intro cs hc
    obtain ⟨a, cs, rfl⟩ := List.exists_cons_of_length_eq_add_one hc
    obtain ⟨b, c, d, rfl⟩ := List.length_eq_three.mp (Nat.succ.inj hc)
    simpa [leDecode, beDecode] using byteswap32_bytes _ _ _ _ (l a) (l b) (l c) (l d)
  have eight : ∀ cs : List UInt8, cs.length = 8 → byteswap64 (leDecode cs) = beDecode cs := by
    intro cs hc
    obtain ⟨a, cs, rfl⟩ := List.exists_cons_of_length_eq_add_one hc
    obtain ⟨b, cs, rfl⟩ := List.exists_cons_of_length_eq_add_one (Nat.succ.inj hc)
    obtain ⟨c, cs, rfl⟩ := List.exists_cons_of_length_eq_add_one (Nat.succ.inj (Nat.succ.inj hc))
    obtain ⟨d, cs, rfl⟩ := List.exists_cons_of_length_eq_add_one (show cs.length = 4 + 1 by simpa using hc)
    obtain ⟨e, cs, rfl⟩ := List.exists_cons_of_length_eq_add_one (show cs.length = 3 + 1 by simpa using hc)
    obtain ⟨f, g, i, rfl⟩ := List.length_eq_three.mp (show cs.length = 3 by simpa using hc)
    simpa [leDecode, beDecode] using byteswap64_bytes _ _ _ _ _ _ _ _ (l a) (l b) (l c) (l d) (l e) (l f) (l g) (l i)
  cases t <;> simp only [IntTy.size, ne_eq, not_true_eq_false] at h h1 ⊢
  · exact two bs h
  · exact four bs h
  · exact eight bs h
  · exact two bs h
  · exact four bs h
  · exact eight bs h

theorem beDecode_singleton {bs : List UInt8} (h : bs.length = 1) : beDecode bs = leDecode bs := by
  obtain ⟨a, rfl⟩ := List.length_eq_one_iff.mp h
  rfl

theorem bigEndianToHost_load (o : Order) (t : IntTy) (bs : List UInt8) (h : bs.length = t.size) :
    bigEndianToHost o t.size (load o bs) = beDecode bs := by
  unfold bigEndianToHost
  by_cases h1 : t.size = 1
  · rw [if_pos h1]
    cases o with
    | little => exact (beDecode_singleton (h.trans h1)).symm
    | big => rfl
  · rw [if_neg h1]
    cases o with
    | little => rw [if_pos rfl]; exact byteswapValue_leDecode t bs h h1
    | big => rfl

theorem readInteger_eq (o : Order) (t : IntTy) (bs : List UInt8) (h : bs.length = t.size) :
    readInteger o t bs = ofRaw t (beDecode bs) := by
  unfold readInteger
  rw [bigEndianToHost_load o t bs h]

theorem raw_lt (t : IntTy) (v : Int) : raw t v < 256 ^ t.size := by
  have hp : (0 : Int) < (256 ^ t.size : Nat) := by
    have := Nat.pow_pos (n := t.size) (show 0 < 256 by decide)
    omega
  have h1 := Int.emod_lt_of_pos v hp
  have h0 := Int.emod_nonneg v (Int.ne_of_gt hp)
  unfold raw
  omega

theorem writeInteger_eq (o : Order) (t : IntTy) (v : Int) : writeInteger o t v = beEncode t.size (raw t v) := by
  have hr := raw_lt t v
  unfold writeInteger hostToBigEndian
  by_cases h1 : t.size = 1
  · rw [if_pos h1, h1]
    cases o with
    | little => rfl
    | big => rfl
  · rw [if_neg h1]
    cases o with
    | little =>
      -- the swapped value stored low byte first is the value stored high byte first
      have hl : (beEncode t.size (raw t v)).length = t.size := length_beEncode _ _
      have hsw := byteswapValue_leDecode t (beEncode t.size (raw t v)).reverse (by simp) h1
      have hb : beDecode (beEncode t.size (raw t v)).reverse = leDecode (beEncode t.size (raw t v)) := by
        simp [beDecode]
      have hv : leDecode (beEncode t.size (raw t v)).reverse = raw t v := beDecode_beEncode hr
      rw [hv, hb] at hsw
      rw [if_pos rfl, hsw]
      have := leEncode_leDecode (beEncode t.size (raw t v))
      rw [hl] at this
      exact this
    | big => rfl

end Dbase.Net.Endian
