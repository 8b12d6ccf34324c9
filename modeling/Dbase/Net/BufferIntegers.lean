/-
  Dbase.Net.BufferIntegers — integers in network order, through appends and reads in any mix.

  A read takes from the front of the readable bytes, and an append puts behind them. So what is appended is read back once
  the bytes before it have been retrieved, whatever has come behind it since; a buffer that holds other bytes hands these
  out first (`older_bytes_come_first`).

  Proved:
  - `encoding_eq`: the byte swaps and casts store the big-endian two's-complement digits, for every width and sign.
  - `ofRaw_raw`: the casts there and back give the value.
  - `appendInts_spec`: a run of appends puts the encodings behind the bytes there are, or stops at an allocation that fails.
  - `readInts_spec`: a run of reads takes them back in order and leaves what stands behind them.
-/

import Dbase.Net.BufferRuns

namespace Dbase.Net.Buffer

open Dbase.Lib.Bytes Dbase.Net.Endian

variable {b c : Buf} {t : IntTy} {v : Int}

/-! ## Values and their encodings -/

/-- The type has the value. -/
def InType (t : IntTy) (v : Int) : Prop :=
  if t.signed then -(256 ^ t.size : Int) ≤ 2 * v ∧ 2 * v < 256 ^ t.size else 0 ≤ v ∧ v < 256 ^ t.size

instance (t : IntTy) (v : Int) : Decidable (InType t v) := by
  unfold InType
  infer_instance

structure TypedInt where
  ty : IntTy
  value : Int
  inType : InType ty value

/-- The digit of weight `256 ^ i`; those of a negative number are its two's complement. -/
def digit (v : Int) (i : Nat) : UInt8 := UInt8.ofNat (v / 256 ^ i % 256).toNat

/-- The digits of a value in as many bytes as its type has, most significant first. -/
def encoding (t : IntTy) (v : Int) : List UInt8 := ((List.range t.size).map (digit v)).reverse

def encodings (xs : List TypedInt) : List UInt8 := xs.flatMap fun x => encoding x.ty x.value

theorem leEncode_eq (n w : Nat) : leEncode n w = (List.range n).map fun i => UInt8.ofNat (w / 256 ^ i) := by
  induction n generalizing w with
  | zero => rfl
  | succ n ih =>
    rw [List.range_succ_eq_map, List.map_cons, List.map_map, leEncode, ih]
    simp only [pow_zero, Nat.div_one, List.cons.injEq, true_and]
    refine List.map_congr_left fun i _ => ?_
    rw [Function.comp, Nat.div_div_eq_div_mul, Nat.pow_succ, Nat.mul_comm]

/-- Below the modulus, the digits of a remainder are those of the number. -/
theorem digit_emod {n i : Nat} (hi : i < n) (v : Int) : v % 256 ^ n / 256 ^ i % 256 = v / 256 ^ i % 256 := by
  obtain ⟨k, rfl⟩ : ∃ k, n = i + 1 + k := ⟨n - i - 1, by omega⟩
  have hpos : (0 : Int) < 256 ^ i := by positivity
  have hsplit : v = v % 256 ^ (i + 1 + k) + 256 ^ i * (256 * (256 ^ k * (v / 256 ^ (i + 1 + k)))) := by
    have := Int.emod_add_mul_ediv v (256 ^ (i + 1 + k))
    rw [pow_add, pow_succ] at this ⊢
    linarith
  conv_rhs => rw [hsplit, Int.add_mul_ediv_left _ _ hpos.ne', Int.add_mul_emod_self_left]

theorem encoding_eq (t : IntTy) (v : Int) : beEncode t.size (raw t v) = encoding t v := by
  have hpow : (0 : Int) < 256 ^ t.size := by positivity
  have hraw : ((raw t v : Nat) : Int) = v % 256 ^ t.size := by
    unfold raw
    rw [Int.toNat_of_nonneg (Int.emod_nonneg _ (by exact_mod_cast hpow.ne'))]
    push_cast
    rfl
  unfold beEncode encoding
  rw [leEncode_eq]
  refine congrArg List.reverse (List.map_congr_left fun i hi => ?_)
  apply UInt8.toNat_inj.mp
  have hdigit := digit_emod (List.mem_range.mp hi) v
  rw [← hraw] at hdigit
  have hcast : ((raw t v / 256 ^ i % 256 : Nat) : Int) = v / 256 ^ i % 256 := by
    rw [← hdigit]
    push_cast
    rfl
  unfold digit
  rw [UInt8.toNat_ofNat', UInt8.toNat_ofNat', ← hcast, Int.toNat_natCast]
  exact (Nat.mod_mod _ _).symm

@[simp] theorem length_encoding (t : IntTy) (v : Int) : (encoding t v).length = t.size := by
  rw [← encoding_eq, length_beEncode]

/-- The cast to the unsigned type and back. -/
theorem ofRaw_raw (h : InType t v) : ofRaw t (raw t v) = v := by
  unfold InType at h
  unfold ofRaw raw
  cases t <;> simp only [IntTy.size, IntTy.signed] at h ⊢ <;> norm_num at h ⊢ <;> omega

/-! ## One call -/

theorem appendInt_spec (A : Alloc) (hb : Tidy b) (t : IntTy) (v : Int) :
    Tidy (appendInt t A b v).2 ∧
      (((appendInt t A b v).1 = .ok () ∧ readableView (appendInt t A b v).2 = readableView b ++ encoding t v) ∨
       ((appendInt t A b v).1 = .error .noStorage ∧ readableView (appendInt t A b v).2 = readableView b)) := by
  have hs : t.size ≤ 8 := by cases t <;> decide
  have hlt := length_readableView_lt hb
  rw [length_readableView hb.1] at hlt
  rw [appendInt_eq, encoding_eq]
  have hroom : RoomOk b (encoding t v).length := roomOk_of_reserve hb.2 _
  obtain ⟨hwf, hk, hret⟩ := appendBytes_spec A hb.1 hroom (by rw [length_encoding]; omega)
  exact ⟨⟨hwf, hk hb.2⟩, hret⟩

theorem readInt_short (h : readableBytes b < t.size) :
    ∃ what, peekInt t b = .error (.outOfRange what) ∧ readInt t b = (.error (.outOfRange what), b) := by
  obtain ⟨what, hp⟩ := peekInt_short t h
  refine ⟨what, hp, ?_⟩
  unfold readInt
  rw [hp]

theorem readInt_encoding {rest : List UInt8} (hb : Tidy b) (hv : InType t v)
    (hview : readableView b = encoding t v ++ rest) :
    ∃ b', readInt t b = (.ok v, b') ∧ Tidy b' ∧ readableView b' = rest := by
  have hlen : t.size ≤ readableBytes b := by
    rw [← length_readableView hb.1, hview, List.length_append, length_encoding]
    omega
  have htake : (readableView b).take t.size = encoding t v := by
    rw [hview]
    exact List.take_left' (length_encoding t v)
  refine ⟨retrieve b t.size, ?_, retrieve_tidy hb _, ?_⟩
  · unfold readInt
    rw [peekInt_eq hb.1 hlen, htake, ← encoding_eq, beDecode_beEncode (raw_lt t v), ofRaw_raw hv]
  · rw [readableView_retrieve hb.1, hview]
    exact List.drop_left' (length_encoding t v)

/-! ## Runs -/

/-- Appends one after the other, each with what the allocator grants at that time, up to one that throws. -/
def appendInts (b : Buf) : List (Alloc × TypedInt) → Ret Unit
  | [] => (.ok (), b)
  | (A, x) :: xs =>
    match appendInt x.ty A b x.value with
    | (.error e, b) => (.error e, b)
    | (.ok _, b) => appendInts b xs

def readInts (b : Buf) : List IntTy → Ret (List Int)
  | [] => (.ok [], b)
  | t :: ts =>
    match readInt t b with
    | (.error e, b) => (.error e, b)
    | (.ok v, b) =>
      match readInts b ts with
      | (.error e, b) => (.error e, b)
      | (.ok vs, b) => (.ok (v :: vs), b)

theorem appendInts_spec (xs : List (Alloc × TypedInt)) : ∀ {b : Buf}, Tidy b →
    (∃ b', appendInts b xs = (.ok (), b') ∧ Tidy b' ∧ readableView b' = readableView b ++ encodings (xs.map (·.2))) ∨
      (appendInts b xs).1 = .error .noStorage := by
  induction xs with
  | nil =>
    intro b hb
    exact Or.inl ⟨b, rfl, hb, by simp [encodings]⟩
  | cons x xs ih =>
    intro b hb
    obtain ⟨A, x⟩ := x
    obtain ⟨htidy, hret⟩ := appendInt_spec A hb x.ty x.value
    unfold appendInts
    rcases ha : appendInt x.ty A b x.value with ⟨r, b₁⟩
    rw [ha] at htidy hret
    rcases hret with ⟨hr, hview⟩ | ⟨hr, -⟩
    · dsimp only at hr hview htidy
      subst hr
      rcases ih htidy with ⟨b', hrun, htidy', hview'⟩ | hthrows
      · refine Or.inl ⟨b', hrun, htidy', ?_⟩
        rw [hview', hview, List.append_assoc]
        rfl
      · exact Or.inr hthrows
    · dsimp only at hr
      subst hr
      exact Or.inr rfl

theorem readInts_spec (xs : List TypedInt) : ∀ {c : Buf} {rest : List UInt8}, Tidy c →
    readableView c = encodings xs ++ rest →
      ∃ c', readInts c (xs.map (·.ty)) = (.ok (xs.map (·.value)), c') ∧ readableView c' = rest := by
  induction xs with
  | nil =>
    intro c rest _ hview
    exact ⟨c, rfl, hview⟩
  | cons x xs ih =>
    intro c rest hc hview
    have hfront : readableView c = encoding x.ty x.value ++ (encodings xs ++ rest) := by
      rw [hview, ← List.append_assoc]
      rfl
    obtain ⟨c₁, hread, htidy, hview₁⟩ := readInt_encoding hc x.inType hfront
    obtain ⟨c', hrun, hrest⟩ := ih htidy hview₁
    refine ⟨c', ?_, hrest⟩
    simp only [List.map_cons, readInts, hread, hrun]

/-- Appended behind any bytes, and read back when these have been retrieved; what comes behind stays. And a `peek` or a
`read` of more bytes than there are throws and leaves the buffer. -/
theorem integers_round_trip (hb : Tidy b) (xs : List (Alloc × TypedInt)) :
    ((∃ b', appendInts b xs = (.ok (), b') ∧ readableView b' = readableView b ++ encodings (xs.map (·.2)) ∧
        Tidy (retrieve b' (readableBytes b)) ∧
        readableView (retrieve b' (readableBytes b)) = encodings (xs.map (·.2))) ∨
      (appendInts b xs).1 = .error .noStorage) ∧
    (∀ c rest, Tidy c → readableView c = encodings (xs.map (·.2)) ++ rest →
      ∃ c', readInts c (xs.map (·.2.ty)) = (.ok (xs.map (·.2.value)), c') ∧ readableView c' = rest) ∧
    ∀ t c, readableBytes c < t.size →
      ∃ what, peekInt t c = .error (.outOfRange what) ∧ readInt t c = (.error (.outOfRange what), c) := by
  refine ⟨?_, ?_, fun t c h => readInt_short h⟩
  · rcases appendInts_spec xs hb with ⟨b', hrun, htidy, hview⟩ | hthrows
    · refine Or.inl ⟨b', hrun, hview, retrieve_tidy htidy _, ?_⟩
      rw [readableView_retrieve htidy.1, hview, ← length_readableView hb.1]
      exact List.drop_left
    · exact Or.inr hthrows
  · intro c rest hc hview
    have h := readInts_spec (xs.map (·.2)) hc hview
    rwa [List.map_map, List.map_map] at h

def mixed : List (Alloc × TypedInt) :=
  [(roomy, ⟨.int16, -2, by decide⟩), (roomy, ⟨.uint8, 200, by decide⟩), (roomy, ⟨.uint32, 4294967295, by decide⟩)]

/-- The three of them and one byte behind. -/
def holding : Buf := ⟨List.replicate 8 0 ++ [255, 254, 200, 255, 255, 255, 255, 7], 8, 16⟩

theorem integers_round_trip_mixed :
    ∃ c', readInts holding [.int16, .uint8, .uint32] = (.ok [-2, 200, 4294967295], c') ∧ readableView c' = [7] := by
  have hb : Tidy ⟨List.replicate 8 0, 8, 8⟩ := ⟨⟨by decide, by decide, by decide, by decide⟩, by decide⟩
  have hc : Tidy holding := ⟨⟨by decide, by decide, by decide, by decide⟩, by decide⟩
  exact (integers_round_trip hb mixed).2.1 holding [7] hc (by decide)

/-- A byte that was there before is read first: `-1`, and not the `1` that was appended. -/
theorem older_bytes_come_first :
    ¬ ∀ (b : Buf) (A : Alloc) (x : TypedInt) (b' : Buf), Tidy b → appendInts b [(A, x)] = (.ok (), b') →
      (readInts b' [x.ty]).1 = .ok [x.value] := by
  intro h
  have hb : Tidy ⟨List.replicate 8 0 ++ [255, 0], 8, 9⟩ := ⟨⟨by decide, by decide, by decide, by decide⟩, by decide⟩
  have hread := h _ roomy ⟨.int8, 1, by decide⟩ _ hb rfl
  revert hread
  decide

end Dbase.Net.Buffer
