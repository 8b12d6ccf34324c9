/-
  Dbase.Net.CanonicalFrames — a frame has one encoding (`LengthFieldCodec::encode` against
  `LengthFieldCodec::tryDecode`).

  `encode` checks the field's range, then the limit; `tryDecode` checks the mode, then the
  limit, then what is there. Both come down to `Fits`: a payload is accepted by the one
  exactly when the other can return it.

  Proved:
  - `frameOf_payloadOf`: the frame `tryDecode` consumes is the encoding of the payload it
    returns.
  - `decodable_iff`: the payloads some buffer decodes to are those that fit and whose frame
    can be in storage.
  - `encode_into` / `encode_loses`: into an existing buffer, `encode` appends the frame or
    throws with the readable bytes as they were, unless `ensureWritableBytes` wraps, where
    it returns with readable bytes missing.
  - `frames_canonical_iff`: the three together, as the exact condition on the allocator and on the
    buffer written to.
-/

import Dbase.Net.LengthFieldCodecProofs

namespace Dbase.Net.LengthFieldCodec

open Dbase.Lib.Word Dbase.Lib.Bytes Dbase.Lib.Framing Dbase.Net.Endian
open Dbase.Net.Buffer (Buf Alloc Ret WF RoomOk readableBytes readableView writableBytes kCheapPrepend)

/-! ## What `tryDecode` accepts -/

/-- The frame at the front is the encoding of its payload. -/
theorem frameOf_payloadOf {c : Codec} {l : List UInt8} (hv : verdict c l = .ok) :
    Fits c (payloadOf c l) ∧ frameOf c (payloadOf c l) = l.take (announced c l) := by
  obtain ⟨hk, hw, hmax, hl⟩ := verdict_ok hv
  have hlen : (payloadOf c l).length = announced c l - c.lengthFieldBytes := by
    simp only [payloadOf, List.length_take, List.length_drop]; omega
  have henc : encoded c (payloadOf c l) = field c l := by
    unfold encoded
    rw [hlen]
    unfold announced at hw ⊢
    by_cases hm : c.lengthMode = .payloadOnly
    · simp only [if_pos hm]; omega
    · simp only [if_neg hm] at hw ⊢; omega
  refine ⟨⟨by rw [henc]; exact field_lt c l, by omega⟩, ?_⟩
  have htake : (l.take c.lengthFieldBytes).length = c.lengthFieldBytes := by rw [List.length_take]; omega
  have hhead : beEncode c.lengthFieldBytes (field c l) = l.take c.lengthFieldBytes := by
    have h := beEncode_beDecode (l.take c.lengthFieldBytes)
    rwa [htake] at h
  calc frameOf c (payloadOf c l)
      = l.take c.lengthFieldBytes ++ (l.drop c.lengthFieldBytes).take (announced c l - c.lengthFieldBytes) := by
        rw [frameOf, henc, hhead, payloadOf]
    _ = l.take (c.lengthFieldBytes + (announced c l - c.lengthFieldBytes)) := List.take_add.symm
    _ = l.take (announced c l) := by rw [Nat.add_sub_cancel' hw]

/-- `tryDecode` returns `Ok` only where the verdict on the readable bytes is. -/
theorem tryDecode_ok {c : Codec} {b b' : Buf} {q : List UInt8} (hb : WF b) (h : tryDecode c b = (.ok ⟨.ok, q⟩, b')) :
    verdict c (readableView b) = .ok ∧ q = payloadOf c (readableView b) ∧ b' = consume c b := by
  by_cases hw : Wraps c (readableView b)
  · rw [tryDecode_wraps c hb hw] at h
    cases h
  · rw [tryDecode_eq c hb hw] at h
    split at h
    · rename_i hv
      cases h
      exact ⟨hv, rfl, rfl⟩
    · rename_i hv
      simp only [Prod.mk.injEq, Except.ok.injEq, DecodeResult.mk.injEq] at h
      exact absurd h.1.1 hv

theorem tryDecode_of_verdict {c : Codec} {b : Buf} (hb : WF b) (hv : verdict c (readableView b) = .ok) :
    tryDecode c b = (.ok ⟨.ok, payloadOf c (readableView b)⟩, consume c b) := by
  have hd : decode c (readableView b) ≠ .malformed := by
    simp [decode, hv]
  rw [tryDecode_eq c hb (not_wraps_of_decode hd), if_pos hv]

/-- The encoding of a payload is such a frame. -/
theorem verdict_frameOf {c : Codec} {p : List UInt8} (hf : Fits c p) :
    verdict c (frameOf c p) = .ok ∧ payloadOf c (frameOf c p) = p := by
  have hd : decode c (frameOf c p ++ []) = .frame p [] := (frames_frameOf c).whole p [] hf
  rw [List.append_nil] at hd
  unfold decode at hd
  rcases hv : verdict c (frameOf c p) with _ | _ | _ | _
  · rw [hv] at hd
    simp only [Verdict.frame.injEq] at hd
    exact ⟨rfl, hd.1⟩
  · rw [hv] at hd; cases hd
  · rw [hv] at hd; cases hd
  · rw [hv] at hd; cases hd

/-- `tryDecode` returns `Ok` with `p` on some byte string. -/
def Decodable (c : Codec) (p : List UInt8) : Prop := ∃ b, WF b ∧ (tryDecode c b).1 = .ok ⟨.ok, p⟩

/-- A buffer that holds `l` and nothing else. -/
def holding (l : List UInt8) : Buf := ⟨l ++ List.replicate (kCheapPrepend - l.length) 0, 0, l.length⟩

theorem holding_wf {l : List UInt8} (h : l.length < 2 ^ 63) : WF (holding l) := by
  have hk := Buffer.kCheapPrepend_eq
  refine ⟨Nat.zero_le _, ?_, ?_, ?_⟩ <;> simp only [holding, List.length_append, List.length_replicate] <;> omega

theorem readableView_holding {l : List UInt8} (h : l.length < 2 ^ 63) : readableView (holding l) = l := by
  unfold readableView
  rw [Buffer.readableBytes_eq (holding_wf h)]
  simp [holding, slice]

theorem decodable_iff {c : Codec} {p : List UInt8} : Decodable c p ↔ Fits c p ∧ (frameOf c p).length < 2 ^ 63 := by
  constructor
  · rintro ⟨b, hb, h⟩
    have hd : tryDecode c b = (.ok ⟨.ok, p⟩, (tryDecode c b).2) := Prod.ext h rfl
    obtain ⟨hv, rfl, _⟩ := tryDecode_ok hb hd
    obtain ⟨hf, he⟩ := frameOf_payloadOf hv
    have hl := Buffer.length_readableView hb
    have h1 := Buffer.readableBytes_add hb
    have h2 := hb.inside
    have h3 := hb.bounded
    refine ⟨hf, ?_⟩
    rw [he, List.length_take]
    omega
  · rintro ⟨hf, hl⟩
    have hview := readableView_holding hl
    obtain ⟨hv, hp⟩ := verdict_frameOf hf
    refine ⟨holding (frameOf c p), holding_wf hl, ?_⟩
    rw [tryDecode_of_verdict (holding_wf hl) (by rw [hview]; exact hv), hview, hp]

/-! ## What `encode` accepts -/

theorem checkRange_of_lt {c : Codec} {v : Nat} (h : v < 256 ^ c.lengthFieldBytes) : checkRange c v = .ok () := by
  unfold checkRange
  rcases c.width with hw | hw | hw | hw <;> rw [hw] at h <;> simp only [hw]
  · rw [if_neg (by omega)]
  · rw [if_neg (by omega)]
  · rw [if_neg (by omega)]

section Encode

variable (A : Alloc) {c : Codec} {p : List UInt8} (hp : p.length < 2 ^ 63)
include hp

/-- The sum `encode` compares with the limit is the length of the frame. -/
theorem frameLength_exact : wadd 64 p.length c.lengthFieldBytes = (frameOf c p).length := by
  have hw := width_le c
  rw [length_frameOf, Nat.add_comm c.lengthFieldBytes]
  exact wadd_eq (by omega)

omit hp in
theorem encoded_eq : (if c.lengthMode = .payloadOnly then p.length else (frameOf c p).length) = encoded c p := by
  unfold encoded
  rw [length_frameOf, Nat.add_comm c.lengthFieldBytes]

/-- A payload that does not fit is refused before the buffer is touched. -/
theorem encode_refuses (hf : ¬ Fits c p) (out : Buf) : ∃ e, encode A c p out = (.error e, out) := by
  have hw := width_le c
  have hlt : encoded c p < 2 ^ 64 := by unfold encoded; split <;> omega
  unfold encode
  simp only [frameLength_exact hp, encoded_eq]
  rcases hr : checkRange c (encoded c p) with e | _
  · exact ⟨e, rfl⟩
  · have hmax : (frameOf c p).length > c.maxFrameLength := by
      by_contra hle
      rw [length_frameOf] at hle
      exact hf ⟨checkRange_ok hlt hr, by omega⟩
    exact ⟨_, if_pos hmax⟩

/-- One that fits: room for the frame, the header, the payload. -/
theorem encode_accepts (hf : Fits c p) (out : Buf) :
    encode A c p out =
      match Buffer.ensureWritableBytes A out (frameOf c p).length with
      | (.error e, out) => (.error e, out)
      | (.ok _, out) =>
        match Buffer.appendBytes A out (beEncode c.lengthFieldBytes (encoded c p)) with
        | (.error e, out) => (.error e, out)
        | (.ok _, out) => Buffer.append A out p := by
  have hl := hf.inLimit
  unfold encode
  simp only [frameLength_exact hp, encoded_eq, checkRange_of_lt hf.inField, appendLengthField_eq _ _ _ hf.inField]
  exact if_neg (by rw [length_frameOf]; omega)

/-- The buffer with the header and the payload copied behind `writerIndex`. -/
def written (c : Codec) (p : List UInt8) (b : Buf) : Buf :=
  let header := beEncode c.lengthFieldBytes (encoded c p)
  let b := Buffer.hasWritten (Buffer.copyToTail b header) header.length
  Buffer.hasWritten (Buffer.copyToTail b p) p.length

/-- With room for the frame nothing is asked of the allocator. -/
theorem encode_within (hf : Fits c p) {b : Buf} (h : (frameOf c p).length ≤ writableBytes b) :
    encode A c p b = (.ok (), written c p b) := by
  have hlen := length_frameOf c p
  have hh : (beEncode c.lengthFieldBytes (encoded c p)).length = c.lengthFieldBytes := by simp
  have he : Buffer.ensureWritableBytes A b (frameOf c p).length = (.ok (), b) := by
    unfold Buffer.ensureWritableBytes
    rw [if_neg (by omega)]
  rw [encode_accepts A hp hf, he]
  simp only
  rw [Buffer.appendBytes_within A (by omega)]
  simp only
  rw [Buffer.append_within]
  · rfl
  · exact Nat.mod_lt _ (by omega)
  · rw [Buffer.writableBytes_hasWritten (by rw [Buffer.writableBytes_copyToTail]; omega), Buffer.writableBytes_copyToTail]
    omega

/-- Once `ensureWritableBytes` has returned, `encode` goes on with what it left. -/
theorem encode_after (hf : Fits c p) {out b : Buf}
    (he : Buffer.ensureWritableBytes A out (frameOf c p).length = (.ok (), b))
    (h : (frameOf c p).length ≤ writableBytes b) : encode A c p out = (.ok (), written c p b) := by
  have hb : Buffer.ensureWritableBytes A b (frameOf c p).length = (.ok (), b) := by
    unfold Buffer.ensureWritableBytes
    rw [if_neg (by omega)]
  rw [← encode_within A hp hf h, encode_accepts A hp hf, encode_accepts A hp hf, he, hb]

end Encode

/-- Behind the readable bytes of a well-formed buffer stands the frame. -/
theorem readableView_written {c : Codec} {p : List UInt8} {b : Buf} (hb : WF b)
    (h : (frameOf c p).length ≤ writableBytes b) : readableView (written c p b) = readableView b ++ frameOf c p := by
  have hlen := length_frameOf c p
  have hh : (beEncode c.lengthFieldBytes (encoded c p)).length = c.lengthFieldBytes := by simp
  have hr : (beEncode c.lengthFieldBytes (encoded c p)).length ≤ writableBytes b := by omega
  obtain ⟨h1, v1⟩ := Buffer.hasWritten_copyToTail hb hr
  rw [← Buffer.writableBytes_copyToTail b (beEncode c.lengthFieldBytes (encoded c p))] at hr
  have hw := Buffer.writableBytes_hasWritten hr
  rw [Buffer.writableBytes_copyToTail] at hw
  obtain ⟨_, v2⟩ := @Buffer.hasWritten_copyToTail _ h1 p (by rw [hw]; omega)
  unfold written
  simp only
  rw [v2, v1, frameOf, List.append_assoc]

/-- What does not fit in a `size_t` is refused: the storage would have to double past `max_size()`. -/
theorem makeSpace_full (A : Alloc) {b : Buf} (hb : WF b) {len : Nat} (hlen : len < 2 ^ 63 + 16)
    (hroom : readableBytes b ≠ 0 → kCheapPrepend ≤ writableBytes b + Buffer.prependableBytes b)
    (hfull : 2 ^ 64 ≤ kCheapPrepend + readableBytes b + len) : (Buffer.makeSpace A b len).1 = .error .noStorage := by
  have hbound := hb.bounded
  have hk := Buffer.kCheapPrepend_eq
  obtain ⟨hfit, h | h | h | h⟩ := Buffer.makeSpace_cases A hb len hroom
  · omega
  · omega
  · have hsize := A.max_size _ h.2.1
    have hdouble : 2 * b.buf.length ≤ Buffer.newSize b len := Nat.le_max_left _ _
    omega
  · rw [h.2.2]

/-- `ensureWritableBytes` makes the room or throws; either way the readable bytes stay. -/
theorem ensureWritableBytes_makes (A : Alloc) {b : Buf} (hb : WF b) {len : Nat} (hlen : len < 2 ^ 63 + 16)
    (hroom : RoomOk b len) :
    ∃ b', WF b' ∧ readableView b' = readableView b ∧
      (Buffer.ensureWritableBytes A b len = (.ok (), b') ∧ len ≤ writableBytes b' ∨
        Buffer.ensureWritableBytes A b len = (.error .noStorage, b')) := by
  obtain ⟨hwf, hview, _, hret⟩ := Buffer.ensureWritableBytes_spec A hb hroom
  refine ⟨_, hwf, hview, ?_⟩
  rcases hret with hok | hbad
  · refine Or.inl ⟨Prod.ext hok rfl, ?_⟩
    by_cases hfit : kCheapPrepend + readableBytes b + len < 2 ^ 64
    · exact Buffer.ensureWritableBytes_room A hb hroom hfit hok
    · unfold Buffer.ensureWritableBytes at hok ⊢
      split at hok
      · rename_i hl
        rw [makeSpace_full A hb hlen (hroom hl) (by omega)] at hok
        cases hok
      · rename_i hl
        rw [if_neg hl]
        simp only
        omega
  · exact Or.inr (Prod.ext hbad rfl)

section Into

variable (A : Alloc) {c : Codec} {p : List UInt8} (hp : p.length < 2 ^ 63)
include hp

theorem length_frameOf_lt : (frameOf c p).length < 2 ^ 63 + 16 := by
  have hw := width_le c
  rw [length_frameOf]; omega

/-- A payload that fits is appended as its frame, or the readable bytes stay as they were. -/
theorem encode_into (hf : Fits c p) {out : Buf} (hb : WF out) (hroom : RoomOk out (frameOf c p).length) :
    ∃ b, encode A c p out = (.ok (), b) ∧ readableView b = readableView out ++ frameOf c p ∨
      encode A c p out = (.error .noStorage, b) ∧ readableView b = readableView out := by
  obtain ⟨b, hwf, hview, ⟨he, hr⟩ | he⟩ := ensureWritableBytes_makes A hb (length_frameOf_lt hp) hroom
  · exact ⟨_, Or.inl ⟨encode_after A hp hf he hr, by rw [readableView_written hwf hr, hview]⟩⟩
  · refine ⟨b, Or.inr ⟨?_, hview⟩⟩
    rw [encode_accepts A hp hf, he]

/-- Where `ensureWritableBytes` wraps, `encode` returns and readable bytes are missing. -/
theorem encode_loses (hf : Fits c p) {out : Buf} (hb : WF out) (hroom : ¬ RoomOk out (frameOf c p).length) :
    (encode A c p out).1 = .ok () ∧ (readableView (encode A c p out).2).length < (readableView out).length := by
  have hk := Buffer.kCheapPrepend_eq
  have hlen := length_frameOf_lt (c := c) hp
  obtain ⟨he, hlt⟩ := Buffer.ensureWritableBytes_compacts A hb hroom (by omega)
  have hadd := Buffer.readableBytes_add hb
  have hin := hb.inside
  have hbound := hb.bounded
  have hreserve := hb.reserve
  have hwide : writableBytes (Buffer.compact out) = out.buf.length + 2 ^ 64 - (kCheapPrepend + readableBytes out) := by
    have e : writableBytes (Buffer.compact out) = wsub 64 out.buf.length (kCheapPrepend + readableBytes out) := by
      simp [writableBytes, Buffer.compact]
    rw [e, wsub_wrap hlt (by omega)]
  rw [encode_after A hp hf he (by rw [hwide]; omega)]
  refine ⟨rfl, ?_⟩
  have hstore : (written c p (Buffer.compact out)).buf.length = out.buf.length := by
    simp [written, Buffer.hasWritten, Buffer.copyToTail, Buffer.compact]
  have hreader : (written c p (Buffer.compact out)).readerIndex = kCheapPrepend := rfl
  rw [Buffer.length_readableView hb, readableView, length_slice, hstore, hreader]
  exact Nat.lt_of_le_of_lt (Nat.min_le_right _ _) (by omega)

/-- `encode(payload)` asks the allocator once. -/
theorem encodeNew_fits (hf : Fits c p) :
    if A.grants (kCheapPrepend + (frameOf c p).length) then
      ∃ o, encodeNew A c p = .ok o ∧ readableView o = frameOf c p
    else encodeNew A c p = .error .noStorage := by
  have hk := Buffer.kCheapPrepend_eq
  have hlen := length_frameOf_lt (c := c) hp
  have hsize : wadd 64 kCheapPrepend (frameOf c p).length = kCheapPrepend + (frameOf c p).length := wadd_eq (by omega)
  unfold encodeNew
  rw [frameLength_exact hp]
  rcases hm : Buffer.make A (frameOf c p).length with e | b
  · have he := Buffer.make_error hm
    unfold Buffer.make at hm
    simp only [hsize] at hm
    split at hm
    · cases hm
    · rename_i hg
      rw [if_neg hg, he]
  · obtain ⟨⟨hwf, _⟩, hview⟩ := Buffer.make_tidy (by omega) hm
    unfold Buffer.make at hm
    simp only [hsize] at hm
    split at hm
    · rename_i hg
      have hr : (frameOf c p).length ≤ writableBytes b := by
        cases hm
        rw [Buffer.writableBytes_eq hwf, List.length_replicate]
        exact Nat.le_of_eq (Nat.add_sub_cancel_left _ _).symm
      rw [if_pos hg]
      simp only
      rw [encode_within A hp hf hr]
      exact ⟨_, rfl, by rw [readableView_written hwf hr, hview, List.nil_append]⟩
    · cases hm

/-- and throws the payload's own error when it does not fit. -/
theorem encodeNew_refuses (hf : ¬ Fits c p) : ∃ e, encodeNew A c p = .error e := by
  unfold encodeNew
  rcases Buffer.make A (wadd 64 p.length c.lengthFieldBytes) with e | b
  · exact ⟨e, rfl⟩
  · obtain ⟨e, he⟩ := encode_refuses A hp hf b
    exact ⟨e, by simp only [he]⟩

end Into

/-! ## One encoding for each frame -/

/-- What is decoded encodes to what was consumed; `encode` throws on exactly the payloads no
    byte string decodes to; into `out` it appends, or throws and leaves the readable bytes. -/
structure Canonical (A : Alloc) (c : Codec) (b : Buf) (p : List UInt8) (out : Buf) : Prop where
  back : ∀ q b', tryDecode c b = (.ok ⟨.ok, q⟩, b') →
    ∃ o, encodeNew A c q = .ok o ∧ readableView b = readableView o ++ readableView b'
  throws : (∃ e, encodeNew A c p = .error e) ↔ ¬ Decodable c p
  keeps : ∀ e, (encode A c p out).1 = .error e → readableView (encode A c p out).2 = readableView out
  appends : (encode A c p out).1 = .ok () → ∃ bytes, readableView (encode A c p out).2 = readableView out ++ bytes

/-- The allocator provides the buffers `encode` makes for frames that exist, and
    `ensureWritableBytes` on `out` does not wrap. -/
structure Provided (A : Alloc) (c : Codec) (b : Buf) (p : List UInt8) (out : Buf) : Prop where
  front : verdict c (readableView b) = .ok → A.grants (kCheapPrepend + announced c (readableView b)) = true
  own : Fits c p → (frameOf c p).length < 2 ^ 63 → A.grants (kCheapPrepend + (frameOf c p).length) = true
  room : Fits c p → RoomOk out (frameOf c p).length

section Canonical

variable (A : Alloc) (c : Codec) {b out : Buf} {p : List UInt8}

theorem back_iff (hb : WF b) :
    (∀ q b', tryDecode c b = (.ok ⟨.ok, q⟩, b') →
      ∃ o, encodeNew A c q = .ok o ∧ readableView b = readableView o ++ readableView b') ↔
    (verdict c (readableView b) = .ok → A.grants (kCheapPrepend + announced c (readableView b)) = true) := by
  by_cases hv : verdict c (readableView b) = .ok
  · obtain ⟨_, hw, _, hl⟩ := verdict_ok hv
    obtain ⟨hf, he⟩ := frameOf_payloadOf hv
    have hlen : (frameOf c (payloadOf c (readableView b))).length = announced c (readableView b) := by
      rw [he, List.length_take]; omega
    have hsize : (payloadOf c (readableView b)).length < 2 ^ 63 := by
      have h1 := Buffer.length_readableView hb
      have h2 := Buffer.readableBytes_add hb
      have h3 := hb.inside
      have h4 := hb.bounded
      rw [length_frameOf] at hlen
      omega
    have hnew := encodeNew_fits A hsize hf
    rw [hlen] at hnew
    constructor
    · intro h _
      obtain ⟨o, ho, _⟩ := h _ _ (tryDecode_of_verdict hb hv)
      by_contra hg
      rw [if_neg hg, ho] at hnew
      cases hnew
    · intro hg q b' hd
      obtain ⟨_, rfl, rfl⟩ := tryDecode_ok hb hd
      rw [if_pos (hg hv)] at hnew
      obtain ⟨o, ho, hview⟩ := hnew
      refine ⟨o, ho, ?_⟩
      rw [hview, he, readableView_consume c hb hw, List.take_append_drop]
  · constructor
    · intro _ h
      exact absurd h hv
    · intro _ q b' hd
      exact absurd (tryDecode_ok hb hd).1 hv

theorem throws_iff (hp : p.length < 2 ^ 63) :
    ((∃ e, encodeNew A c p = .error e) ↔ ¬ Decodable c p) ↔
    (Fits c p → (frameOf c p).length < 2 ^ 63 → A.grants (kCheapPrepend + (frameOf c p).length) = true) := by
  rw [decodable_iff]
  by_cases hf : Fits c p
  · have hnew := encodeNew_fits A hp hf
    by_cases hg : A.grants (kCheapPrepend + (frameOf c p).length) = true
    · have hsize := A.max_size _ hg
      have hlen : (frameOf c p).length < 2 ^ 63 := by omega
      rw [if_pos hg] at hnew
      obtain ⟨o, ho, _⟩ := hnew
      rw [ho]
      constructor
      · exact fun _ _ _ => hg
      · exact fun _ => ⟨fun ⟨_, he⟩ => (by cases he), fun hd => absurd ⟨hf, hlen⟩ hd⟩
    · rw [if_neg hg] at hnew
      rw [hnew]
      constructor
      · exact fun h _ hlen => absurd ⟨hf, hlen⟩ (h.mp ⟨_, rfl⟩)
      · exact fun h => ⟨fun _ hd => hg (h hd.1 hd.2), fun _ => ⟨_, rfl⟩⟩
  · exact ⟨fun _ h => absurd h hf, fun _ => ⟨fun _ hd => hf hd.1, fun _ => encodeNew_refuses A hp hf⟩⟩

theorem into_iff (hp : p.length < 2 ^ 63) (hb : WF out) :
    ((∀ e, (encode A c p out).1 = .error e → readableView (encode A c p out).2 = readableView out) ∧
      ((encode A c p out).1 = .ok () → ∃ bytes, readableView (encode A c p out).2 = readableView out ++ bytes)) ↔
    (Fits c p → RoomOk out (frameOf c p).length) := by
  constructor
  · rintro ⟨_, happ⟩ hf
    by_contra hroom
    obtain ⟨hok, hlt⟩ := encode_loses A hp hf hb hroom
    obtain ⟨bytes, hview⟩ := happ hok
    rw [hview, List.length_append] at hlt
    omega
  · intro hroom
    by_cases hf : Fits c p
    · obtain ⟨b, ⟨he, hview⟩ | ⟨he, hview⟩⟩ := encode_into A hp hf hb (hroom hf)
      · rw [he]
        exact ⟨fun _ h => (by cases h), fun _ => ⟨_, hview⟩⟩
      · rw [he]
        exact ⟨fun _ _ => hview, fun h => (by cases h)⟩
    · obtain ⟨e, he⟩ := encode_refuses A hp hf out
      rw [he]
      exact ⟨fun _ _ => rfl, fun h => (by cases h)⟩

/-- Encoder and decoder agree exactly where the memory is provided and the room is there. -/
theorem frames_canonical_iff (hb : WF b) (hp : p.length < 2 ^ 63) (hout : WF out) :
    Canonical A c b p out ↔ Provided A c b p out := by
  constructor
  · intro h
    exact ⟨(back_iff A c hb).mp h.back, (throws_iff A c hp).mp h.throws,
      (into_iff A c hp hout).mp ⟨h.keeps, h.appends⟩⟩
  · intro h
    obtain ⟨hkeeps, happends⟩ := (into_iff A c hp hout).mpr h.room
    exact ⟨(back_iff A c hb).mpr h.front, (throws_iff A c hp).mpr h.own, hkeeps, happends⟩

end Canonical

theorem one_byte_fields : 1 = 1 ∨ 1 = 2 ∨ 1 = 4 ∨ 1 = 8 := by
  decide

/-- A codec of one-byte fields, with frames up to 16 bytes. -/
def small : Codec := ⟨1, .payloadOnly, 16, one_byte_fields, by decide, by decide⟩

/-- Eight bytes prepended to an empty storage. -/
def prepended : Buf := ⟨[1, 2, 3, 4, 5, 6, 7, 8], 0, 8⟩

theorem prepended_wf : WF prepended := ⟨by decide, by decide, by decide, by show (8 : Nat) < 2 ^ 63; omega⟩

/-- The frame at the front of the eight bytes, its payload, and a buffer that was never prepended to. -/
theorem canonical_into_a_fresh_buffer :
    Canonical Buffer.roomy small prepended [2] ⟨List.replicate 8 0, 8, 8⟩ :=
  (frames_canonical_iff Buffer.roomy small prepended_wf (by decide)
    ⟨by decide, by decide, by decide, by show (8 : Nat) < 2 ^ 63; omega⟩).mpr
    ⟨fun _ => by decide, fun _ _ => by decide, fun _ => by decide⟩

/-- `encode` behind the prepended bytes returns, and the eight readable bytes are gone. -/
theorem a_frame_behind_prepended_bytes : WF prepended ∧ ¬ Canonical Buffer.roomy small prepended [2] prepended := by
  refine ⟨prepended_wf, fun hc => ?_⟩
  obtain ⟨bytes, hview⟩ := hc.appends (by decide)
  have hlost : (readableView (encode Buffer.roomy small [2] prepended).2).length = 0 := by decide
  have hheld : (readableView prepended).length = 8 := by decide
  rw [hview, List.length_append] at hlost
  omega

end Dbase.Net.LengthFieldCodec
