/-
  Dbase.Net.LengthFieldCodecProofs — what `LengthFieldCodec` accepts and what it consumes.

  `field`, `announced` and `verdict` say in unbounded integers what the readable bytes
  announce; `tryDecode` is compared with them.

  Proved:
  (1) `tryDecode_eq`: unless the announced length wraps (`Wraps`), `tryDecode` returns the
      status of `verdict`, consumes the announced frame exactly when that is `ok`, and
      nothing otherwise.
  (2) `tryDecode_wraps`: an 8-byte field in `payloadOnly` mode can announce so much that
      `payloadLength + 8` comes back below 8 and passes both checks. The header is then
      consumed and `retrieveAsString` throws.
  (3) `decodes_safely_iff`: the two together, as the exact condition.
  (4) `encode_spec`: an accepted payload is appended as header and payload.
  (5) `frames_frameOf`: on byte lists, `decode` reads `frameOf` back as `Lib.Framing` asks.
-/

import Dbase.Lib.Framing
import Dbase.Net.BufferRuns
import Dbase.Net.LengthFieldCodec

namespace Dbase.Net.LengthFieldCodec

open Dbase.Lib.Word Dbase.Lib.Bytes Dbase.Lib.Framing Dbase.Net.Endian
open Dbase.Net.Buffer (Buf Alloc Ret WF Tidy readableBytes readableView)

/-! ## What the bytes announce -/

def field (c : Codec) (l : List UInt8) : Nat := beDecode (l.take c.lengthFieldBytes)

/-- The length of the frame the field announces, header included. -/
def announced (c : Codec) (l : List UInt8) : Nat :=
  if c.lengthMode = .payloadOnly then c.lengthFieldBytes + field c l else field c l

def verdict (c : Codec) (l : List UInt8) : DecodeStatus :=
  if l.length < c.lengthFieldBytes then .needMoreData
  else if announced c l < c.lengthFieldBytes then .invalidLength
  else if c.maxFrameLength < announced c l then .exceedMaxFrameLength
  else if l.length < announced c l then .needMoreData
  else .ok

/-- The payload of the frame at the front. -/
def payloadOf (c : Codec) (l : List UInt8) : List UInt8 :=
  (l.drop c.lengthFieldBytes).take (announced c l - c.lengthFieldBytes)

/-- The field announces a frame whose length, taken modulo `2 ^ 64`, is within the limit. -/
def Wraps (c : Codec) (l : List UInt8) : Prop :=
  c.lengthMode = .payloadOnly ∧ c.lengthFieldBytes = 8 ∧ 8 ≤ l.length ∧ 2 ^ 64 ≤ announced c l ∧
    announced c l - 2 ^ 64 ≤ c.maxFrameLength

theorem width_pos (c : Codec) : 0 < c.lengthFieldBytes := by
  rcases c.width with h | h | h | h <;> omega

theorem width_le (c : Codec) : c.lengthFieldBytes ≤ 8 := by
  rcases c.width with h | h | h | h <;> omega

/-- A field of `n` bytes is below `256 ^ n`. -/
theorem field_lt (c : Codec) (l : List UInt8) : field c l < 256 ^ c.lengthFieldBytes := by
  have h := beDecode_lt (l.take c.lengthFieldBytes)
  have hl : (l.take c.lengthFieldBytes).length ≤ c.lengthFieldBytes := by simp
  exact Nat.lt_of_lt_of_le h (Nat.pow_le_pow_right (by omega) hl)

theorem field_lt_word (c : Codec) (l : List UInt8) : field c l < 2 ^ 64 := by
  have h := field_lt c l
  have hp : 256 ^ c.lengthFieldBytes ≤ 256 ^ 8 := Nat.pow_le_pow_right (by omega) (width_le c)
  omega

/-- Below eight bytes the header can be added without leaving the word. -/
theorem field_add_lt (c : Codec) (l : List UInt8) (h : c.lengthFieldBytes ≠ 8) :
    c.lengthFieldBytes + field c l < 2 ^ 64 := by
  have hf := field_lt c l
  have hw : c.lengthFieldBytes ≤ 4 := by rcases c.width with h | h | h | h <;> omega
  have hp : 256 ^ c.lengthFieldBytes ≤ 256 ^ 4 := Nat.pow_le_pow_right (by omega) hw
  omega

/-! ## Peeking the field -/

theorem peekInt_unsigned {t : IntTy} (ht : t.signed = false) {b : Buf} (hb : WF b) (h : t.size ≤ readableBytes b) :
    (Buffer.peekInt t b).map Int.toNat = .ok (beDecode ((readableView b).take t.size)) := by
  rw [Buffer.peekInt_eq hb h]
  simp [Except.map, ofRaw, ht]

theorem peekLengthField_eq (c : Codec) {b : Buf} (hb : WF b) (h : c.lengthFieldBytes ≤ readableBytes b) :
    peekLengthField c b = .ok (field c (readableView b)) := by
  unfold peekLengthField field
  rcases c.width with hw | hw | hw | hw <;> rw [hw] at h ⊢
  · exact peekInt_unsigned (t := .uint8) rfl hb h
  · exact peekInt_unsigned (t := .uint16) rfl hb h
  · exact peekInt_unsigned (t := .uint32) rfl hb h
  · exact peekInt_unsigned (t := .uint64) rfl hb h

/-! ## Decoding -/

/-- The length `tryDecode` compares is the announced one modulo `2 ^ 64`. -/
theorem frameLength_eq (c : Codec) (l : List UInt8) (h : c.lengthFieldBytes ≤ announced c l) :
    (if c.lengthMode = .payloadOnly then wadd 64 (announced c l - c.lengthFieldBytes) c.lengthFieldBytes else field c l) =
      announced c l % 2 ^ 64 := by
  split
  · unfold wadd
    rw [Nat.sub_add_cancel h]
  · rename_i hm
    unfold announced
    rw [if_neg hm, Nat.mod_eq_of_lt (field_lt_word c l)]

theorem payloadLength_eq (c : Codec) (l : List UInt8) (h : c.lengthFieldBytes ≤ announced c l) :
    (if c.lengthMode = .payloadOnly then field c l else wsub 64 (field c l) c.lengthFieldBytes) =
      announced c l - c.lengthFieldBytes := by
  unfold announced at h ⊢
  split
  · omega
  · rename_i hm
    rw [if_neg hm] at h
    exact wsub_eq h (field_lt_word c l)

/-- What is left once the frame at the front is consumed. -/
def consume (c : Codec) (b : Buf) : Buf :=
  Buffer.retrieve (Buffer.retrieve b c.lengthFieldBytes) (announced c (readableView b) - c.lengthFieldBytes)

theorem readableView_consume (c : Codec) {b : Buf} (hb : WF b) (h : c.lengthFieldBytes ≤ announced c (readableView b)) :
    readableView (consume c b) = (readableView b).drop (announced c (readableView b)) := by
  unfold consume
  rw [Buffer.readableView_retrieve (Buffer.retrieve_wf hb _), Buffer.readableView_retrieve hb, List.drop_drop]
  congr 1; omega

/-- Past the checks the payload is there to be taken. -/
theorem retrieveAsString_payload (c : Codec) {b : Buf} (hb : WF b)
    (hw : c.lengthFieldBytes ≤ announced c (readableView b))
    (ha : announced c (readableView b) ≤ (readableView b).length) :
    Buffer.retrieveAsString (Buffer.retrieve b c.lengthFieldBytes) (announced c (readableView b) - c.lengthFieldBytes) =
      (.ok (payloadOf c (readableView b)), consume c b) := by
  have hr := Buffer.retrieve_wf hb c.lengthFieldBytes
  have hv := Buffer.readableView_retrieve hb c.lengthFieldBytes
  have hl : readableBytes (Buffer.retrieve b c.lengthFieldBytes) = (readableView b).length - c.lengthFieldBytes := by
    rw [← Buffer.length_readableView hr, hv, List.length_drop]
  unfold Buffer.retrieveAsString payloadOf consume
  rw [if_neg (by omega), ← hv, ← Buffer.take_readableView (by omega)]

theorem wraps_or_announced_lt (c : Codec) {l : List UInt8} (hl : c.lengthFieldBytes ≤ l.length) :
    announced c l < 2 ^ 64 ∨ Wraps c l ∨ (c.lengthMode = .payloadOnly ∧ c.lengthFieldBytes = 8 ∧
      2 ^ 64 ≤ announced c l ∧ c.maxFrameLength < announced c l - 2 ^ 64) := by
  by_cases h : announced c l < 2 ^ 64
  · exact Or.inl h
  · have hm : c.lengthMode = .payloadOnly := by
      by_contra hm
      have := field_lt_word c l
      unfold announced at h
      rw [if_neg hm] at h
      exact h this
    have hw : c.lengthFieldBytes = 8 := by
      by_contra hw
      have := field_add_lt c l hw
      unfold announced at h
      rw [if_pos hm] at h
      exact h this
    by_cases hx : announced c l - 2 ^ 64 ≤ c.maxFrameLength
    · exact Or.inr (Or.inl ⟨hm, hw, by omega, by omega, hx⟩)
    · exact Or.inr (Or.inr ⟨hm, hw, by omega, by omega⟩)

/-- Unless the announced length wraps, `tryDecode` does what `verdict` says. -/
theorem tryDecode_eq (c : Codec) {b : Buf} (hb : WF b) (hw : ¬ Wraps c (readableView b)) :
    tryDecode c b =
      if verdict c (readableView b) = .ok then (.ok ⟨.ok, payloadOf c (readableView b)⟩, consume c b)
      else (.ok ⟨verdict c (readableView b), []⟩, b) := by
  have hl := Buffer.length_readableView hb
  unfold tryDecode verdict
  rw [hl]
  by_cases h0 : readableBytes b < c.lengthFieldBytes
  · simp [h0]
  · rw [if_neg h0, if_neg h0, peekLengthField_eq c hb (by omega)]
    simp only
    generalize hv : readableView b = l at *
    by_cases h1 : c.lengthMode = .wholeFrame ∧ field c l < c.lengthFieldBytes
    · have ha : announced c l < c.lengthFieldBytes := by
        unfold announced
        rw [if_neg (by rw [h1.1]; decide)]
        exact h1.2
      simp [h1, ha]
    · have ha : c.lengthFieldBytes ≤ announced c l := by
        unfold announced
        split
        · omega
        · rename_i hm
          have : c.lengthMode = .wholeFrame := by cases hx : c.lengthMode <;> simp_all
          by_contra hlt
          exact h1 ⟨this, by omega⟩
      rw [if_neg h1, payloadLength_eq c l ha, frameLength_eq c l ha,
        if_neg (show ¬ announced c l < c.lengthFieldBytes by omega)]
      rcases wraps_or_announced_lt c (l := l) (by omega) with hlt | hx | ⟨hm, h8, hge, hmax⟩
      · rw [Nat.mod_eq_of_lt hlt]
        by_cases h2 : c.maxFrameLength < announced c l
        · simp [h2]
        · by_cases h3 : readableBytes b < announced c l
          · simp [h2, h3]
          · have hp := retrieveAsString_payload c hb (by rw [hv]; exact ha) (by rw [hv, hl]; omega)
            rw [hv] at hp
            simp [h2, h3, hp]
      · exact absurd hx hw
      · have hf := field_lt_word c l
        have he : announced c l = c.lengthFieldBytes + field c l := by unfold announced; rw [if_pos hm]
        have hmod : announced c l % 2 ^ 64 = announced c l - 2 ^ 64 := by omega
        rw [hmod, if_pos hmax, if_pos (show c.maxFrameLength < announced c l by omega), if_neg (by decide)]

/-- Where it wraps, the header is consumed and the payload is not there. -/
theorem tryDecode_wraps (c : Codec) {b : Buf} (hb : WF b) (hw : Wraps c (readableView b)) :
    tryDecode c b =
      (.error (.outOfRange "Buffer::retrieveAsString len out of range"), Buffer.retrieve b c.lengthFieldBytes) := by
  obtain ⟨hm, h8, hlen, hge, hmax⟩ := hw
  have hl := Buffer.length_readableView hb
  have hbound := hb.bounded
  have hadd := Buffer.readableBytes_add hb
  have hin := hb.inside
  have hf := field_lt_word c (readableView b)
  have he : announced c (readableView b) = 8 + field c (readableView b) := by unfold announced; rw [if_pos hm, h8]
  have hmod : wadd 64 (field c (readableView b)) 8 = announced c (readableView b) - 2 ^ 64 := by unfold wadd; omega
  have hr : readableBytes (Buffer.retrieve b 8) = readableBytes b - 8 := by
    rw [← Buffer.length_readableView (Buffer.retrieve_wf hb _), Buffer.readableView_retrieve hb, List.length_drop, hl]
  unfold tryDecode
  rw [if_neg (by omega), peekLengthField_eq c hb (by omega)]
  simp only [hm, if_true, h8, hmod, reduceCtorEq, false_and, if_false]
  rw [if_neg (by omega), if_neg (by omega)]
  unfold Buffer.retrieveAsString
  rw [if_pos (by omega)]

/-- `tryDecode` returns a status; `ok` means that the announced frame is within the limit and
    present, and is what was consumed; with any other status nothing was. -/
def DecodesSafely (c : Codec) (b : Buf) : Prop :=
  ∃ r, (tryDecode c b).1 = .ok r ∧
    (r.status = .ok →
      c.lengthFieldBytes ≤ (readableView b).length ∧
      announced c (readableView b) ≤ c.maxFrameLength ∧
      announced c (readableView b) ≤ (readableView b).length ∧
      readableView (tryDecode c b).2 = (readableView b).drop (announced c (readableView b))) ∧
    (r.status ≠ .ok → readableView (tryDecode c b).2 = readableView b)

theorem verdict_ok {c : Codec} {l : List UInt8} (h : verdict c l = .ok) :
    c.lengthFieldBytes ≤ l.length ∧ c.lengthFieldBytes ≤ announced c l ∧ announced c l ≤ c.maxFrameLength ∧
      announced c l ≤ l.length := by
  unfold verdict at h
  split at h
  · cases h
  · split at h
    · cases h
    · split at h
      · cases h
      · split at h
        · cases h
        · omega

/-- (3) `tryDecode` is safe on an input exactly when the announced length does not wrap on it. -/
theorem decodes_safely_iff (c : Codec) (b : Buf) (hb : WF b) : DecodesSafely c b ↔ ¬ Wraps c (readableView b) := by
  constructor
  · rintro ⟨r, hr, _⟩ hw
    rw [tryDecode_wraps c hb hw] at hr
    cases hr
  · intro hw
    unfold DecodesSafely
    rw [tryDecode_eq c hb hw]
    split
    · rename_i hv
      obtain ⟨h1, h2, h3, h4⟩ := verdict_ok hv
      exact ⟨_, rfl, fun _ => ⟨h1, h3, h4, readableView_consume c hb h2⟩, fun h => absurd rfl h⟩
    · rename_i hv
      exact ⟨_, rfl, fun h => absurd h hv, fun _ => rfl⟩

/-- A codec that takes every length. -/
def wide : Codec := ⟨8, .payloadOnly, 2 ^ 64 - 1, by decide, by decide, by decide⟩

/-- A buffer whose eight bytes announce `2 ^ 64 - 8` payload bytes. -/
def endless : Buf := ⟨List.replicate 8 0 ++ [255, 255, 255, 255, 255, 255, 255, 248], 8, 16⟩

theorem endless_wf : WF endless :=
  ⟨by decide, by decide, by decide, by show (16 : Nat) < 2 ^ 63; omega⟩

/-- A buffer with a whole frame, two payload bytes, and the first byte of the next. -/
def oneFrame : Buf := ⟨List.replicate 8 0 ++ [0, 0, 0, 0, 0, 0, 0, 2, 5, 6, 7], 8, 19⟩

theorem decodes_safely_one_frame :
    DecodesSafely wide oneFrame ∧ (tryDecode wide oneFrame).1 = .ok ⟨.ok, [5, 6]⟩ ∧
      Buffer.readableView (tryDecode wide oneFrame).2 = [7] := by
  have hwf : WF oneFrame := ⟨by decide, by decide, by decide, by show (19 : Nat) < 2 ^ 63; omega⟩
  have hsafe := (decodes_safely_iff wide oneFrame hwf).mpr fun h => absurd h.2.2.2.1 (by decide)
  exact ⟨hsafe, by decide, by decide⟩

/-- The sum comes back as zero, and a status never arrives. -/
theorem an_endless_frame_throws : WF endless ∧ ¬ DecodesSafely wide endless := by
  refine ⟨endless_wf, ?_⟩
  rintro ⟨r, hr, _⟩
  have he : (tryDecode wide endless).1 = .error (.outOfRange "Buffer::retrieveAsString len out of range") := by decide
  rw [he] at hr
  cases hr

/-! ## Encoding -/

/-- The value written into the field. -/
def encoded (c : Codec) (p : List UInt8) : Nat :=
  if c.lengthMode = .payloadOnly then p.length else p.length + c.lengthFieldBytes

structure Fits (c : Codec) (p : List UInt8) : Prop where
  inField : encoded c p < 256 ^ c.lengthFieldBytes
  inLimit : p.length + c.lengthFieldBytes ≤ c.maxFrameLength

def frameOf (c : Codec) (p : List UInt8) : List UInt8 := beEncode c.lengthFieldBytes (encoded c p) ++ p

@[simp] theorem length_frameOf (c : Codec) (p : List UInt8) : (frameOf c p).length = c.lengthFieldBytes + p.length := by
  simp [frameOf]

/-- A member that returned has done what the model says. -/
theorem follows_elim {b : Buf} {r : Ret Unit} {x : List UInt8} (h : Buffer.Follows b (Buffer.outcome r) x)
    (hok : r.1 = .ok ()) : Tidy r.2 ∧ readableView r.2 = x := by
  obtain ⟨h1, h2⟩ := h
  rw [Buffer.outcome_ok hok, if_neg (by simp)] at h2
  rw [Buffer.outcome_snd] at h1 h2
  exact ⟨h1, h2⟩

theorem raw_nat {t : IntTy} {v : Nat} (h : v < 256 ^ t.size) : raw t v = v := by
  unfold raw
  rw [← Int.natCast_emod, Int.toNat_natCast, Nat.mod_eq_of_lt h]

theorem appendLengthField_eq (A : Alloc) (c : Codec) (b : Buf) {v : Nat} (hv : v < 256 ^ c.lengthFieldBytes) :
    appendLengthField A c b v = Buffer.appendBytes A b (beEncode c.lengthFieldBytes v) := by
  have key : ∀ t : IntTy, t.size = c.lengthFieldBytes →
      Buffer.appendInt t A b v = Buffer.appendBytes A b (beEncode c.lengthFieldBytes v) := by
    intro t ht
    rw [← ht] at hv ⊢
    rw [Buffer.appendInt_eq, raw_nat hv]
  unfold appendLengthField
  rcases c.width with hw | hw | hw | hw <;> simp only [hw]
  · rw [← hw]; exact key .uint8 hw.symm
  · rw [← hw]; exact key .uint16 hw.symm
  · rw [← hw]; exact key .uint32 hw.symm
  · rw [← hw]; exact key .uint64 hw.symm

theorem appendLengthField_follows (A : Alloc) (c : Codec) {b : Buf} (hb : Tidy b) {v : Nat}
    (hv : v < 256 ^ c.lengthFieldBytes) :
    Buffer.Follows b (Buffer.outcome (appendLengthField A c b v))
      (readableView b ++ beEncode c.lengthFieldBytes v) := by
  have hw := width_le c
  have hpos := width_pos c
  have e : appendLengthField A c b v = Buffer.append A b (beEncode c.lengthFieldBytes v) := by
    rw [appendLengthField_eq A c b hv, Buffer.append, if_neg (by rw [length_beEncode]; omega)]
  rw [e]
  exact Buffer.append_follows A hb (by rw [length_beEncode]; omega)

theorem checkRange_ok {c : Codec} {v : Nat} (hv : v < 2 ^ 64) (h : checkRange c v = .ok ()) :
    v < 256 ^ c.lengthFieldBytes := by
  unfold checkRange at h
  rcases c.width with hw | hw | hw | hw <;> simp only [hw] at h ⊢
  · split at h
    · cases h
    · omega
  · split at h
    · cases h
    · omega
  · split at h
    · cases h
    · omega
  · omega

/-- (4) What `encode` accepts it appends as header and payload. -/
theorem encode_spec (A : Alloc) (c : Codec) {p : List UInt8} (hp : p.length < 2 ^ 63) {out : Buf} (hb : Tidy out)
    (hok : (encode A c p out).1 = .ok ()) :
    Fits c p ∧ Tidy (encode A c p out).2 ∧ readableView (encode A c p out).2 = readableView out ++ frameOf c p := by
  have hw := width_le c
  have hsum : wadd 64 p.length c.lengthFieldBytes = p.length + c.lengthFieldBytes := wadd_eq (by omega)
  have henc : (if c.lengthMode = .payloadOnly then p.length else p.length + c.lengthFieldBytes) = encoded c p := rfl
  have hlt : encoded c p < 2 ^ 64 := by unfold encoded; split <;> omega
  unfold encode at hok ⊢
  simp only [hsum, henc] at hok ⊢
  rcases hr : checkRange c (encoded c p) with e | u
  · rw [hr] at hok; cases hok
  · rw [hr] at hok
    simp only at hok ⊢
    have hfield := checkRange_ok hlt hr
    split at hok
    · cases hok
    · rename_i hmax
      rw [if_neg hmax]
      obtain ⟨hwf, hview, hk, _⟩ :=
        Buffer.ensureWritableBytes_spec A hb.1 (Buffer.roomOk_of_reserve hb.2 (p.length + c.lengthFieldBytes))
      rcases he : Buffer.ensureWritableBytes A out (p.length + c.lengthFieldBytes) with ⟨_ | _, b1⟩
      · rw [he] at hok; cases hok
      · rw [he] at hok hwf hview hk
        simp only at hok ⊢
        have ha := appendLengthField_follows A c ⟨hwf, hk hb.2⟩ hfield
        rcases hf : appendLengthField A c b1 (encoded c p) with ⟨_ | _, b2⟩
        · rw [hf] at hok; cases hok
        · rw [hf] at hok ha
          simp only at hok ⊢
          obtain ⟨ht2, hv2⟩ := follows_elim ha rfl
          obtain ⟨ht3, hv3⟩ := follows_elim (Buffer.append_follows A ht2 hp) hok
          simp only at hv2 hview
          refine ⟨⟨hfield, by omega⟩, ht3, ?_⟩
          rw [hv3, hv2, hview, frameOf, List.append_assoc]

/-- `encode(payload)` returns a buffer that holds the frame and nothing else. -/
theorem encodeNew_spec {A : Alloc} {c : Codec} {p : List UInt8} (hp : p.length < 2 ^ 63) {out : Buf}
    (h : encodeNew A c p = .ok out) : Fits c p ∧ readableView out = frameOf c p := by
  have hw := width_le c
  have hk := Buffer.kCheapPrepend_eq
  unfold encodeNew at h
  rw [wadd_eq (by omega)] at h
  rcases hm : Buffer.make A (p.length + c.lengthFieldBytes) with e | b
  · rw [hm] at h; cases h
  · rw [hm] at h
    simp only at h
    obtain ⟨htidy, hview⟩ := Buffer.make_tidy (by omega) hm
    have hs := encode_spec A c hp htidy
    rcases he : encode A c p b with ⟨_ | _, b'⟩
    · rw [he] at h; cases h
    · rw [he] at h hs
      simp only [Except.ok.injEq] at h
      subst h
      obtain ⟨h1, _, h3⟩ := hs rfl
      exact ⟨h1, by rw [h3, hview, List.nil_append]⟩

/-! ## The decoder on byte lists -/

def decode (c : Codec) (l : List UInt8) : Verdict UInt8 (List UInt8) :=
  match verdict c l with
  | .ok => .frame (payloadOf c l) (l.drop (announced c l))
  | .needMoreData => .needMore
  | .invalidLength | .exceedMaxFrameLength => .malformed

/-- Once the header is there, it announces the frame. -/
theorem announced_header (c : Codec) {p : List UInt8} (hf : Fits c p) (rest : List UInt8) :
    announced c (beEncode c.lengthFieldBytes (encoded c p) ++ rest) = c.lengthFieldBytes + p.length := by
  have hfield : field c (beEncode c.lengthFieldBytes (encoded c p) ++ rest) = encoded c p := by
    unfold field
    rw [List.take_append_of_le_length (by simp), List.take_of_length_le (by simp), beDecode_beEncode hf.inField]
  unfold announced
  rw [hfield]
  unfold encoded
  split <;> omega

/-- (5) The decoder returns a whole frame whatever follows, and asks for more on every part of one. -/
theorem frames_frameOf (c : Codec) : Frames (frameOf c) (decode c) (Fits c) where
  whole := by
    intro p rest hf
    have ha := announced_header c hf (p ++ rest)
    have hw := width_pos c
    have hl := hf.inLimit
    have hv : verdict c (frameOf c p ++ rest) = .ok := by
      unfold verdict
      rw [frameOf, List.append_assoc, ha]
      simp only [List.length_append, length_beEncode]
      rw [if_neg (by omega), if_neg (by omega), if_neg (by omega), if_neg (by omega)]
    unfold decode
    rw [hv]
    simp only [payloadOf, frameOf, List.append_assoc, ha, Verdict.frame.injEq]
    constructor
    · rw [List.drop_append_of_le_length (by simp), List.drop_of_length_le (by simp)]
      simp
    · rw [← List.append_assoc, List.drop_append_of_le_length (by simp), List.drop_of_length_le (by simp)]
      rfl
  part := by
    intro p l s hf hls hs
    have hpos : 0 < s.length := List.length_pos_of_ne_nil hs
    have hlen : l.length + s.length = c.lengthFieldBytes + p.length := by
      rw [← length_frameOf c p, ← hls, List.length_append]
    have hl := hf.inLimit
    suffices verdict c l = .needMoreData by unfold decode; rw [this]
    unfold verdict
    by_cases h0 : l.length < c.lengthFieldBytes
    · rw [if_pos h0]
    · -- the header is complete, so the rest of the payload is what is missing
      have htake : l.take c.lengthFieldBytes = beEncode c.lengthFieldBytes (encoded c p) := by
        have := congrArg (List.take c.lengthFieldBytes) hls
        rw [List.take_append_of_le_length (by omega)] at this
        rw [this, frameOf, List.take_append_of_le_length (by simp), List.take_of_length_le (by simp)]
      have ha : announced c l = c.lengthFieldBytes + p.length := by
        rw [← List.take_append_drop c.lengthFieldBytes l, htake]
        exact announced_header c hf _
      rw [if_neg h0, ha, if_neg (by omega), if_neg (by omega), if_pos (by omega)]
  empty := by
    have hw := width_pos c
    unfold decode verdict
    simp [hw]

/-- A length that wraps is malformed as the exact one. -/
theorem not_wraps_of_decode {c : Codec} {l : List UInt8} (h : decode c l ≠ .malformed) : ¬ Wraps c l := by
  rintro ⟨_, h8, hl, hge, _⟩
  have := c.size
  apply h
  unfold decode verdict
  rw [if_neg (by omega), if_neg (by omega), if_pos (by omega)]

/-- `tryDecode` where the byte-list decoder asks for more. -/
theorem tryDecode_needMore (c : Codec) {b : Buf} (hb : WF b) (h : decode c (readableView b) = .needMore) :
    tryDecode c b = (.ok ⟨.needMoreData, []⟩, b) := by
  have hv : verdict c (readableView b) = .needMoreData := by
    unfold decode at h
    split at h <;> first | assumption | cases h
  rw [tryDecode_eq c hb (not_wraps_of_decode (by rw [h]; simp)), hv, if_neg (by decide)]

/-- `tryDecode` where the byte-list decoder finds a frame. -/
theorem tryDecode_frame (c : Codec) {b : Buf} (hb : Tidy b) {p rest : List UInt8}
    (h : decode c (readableView b) = .frame p rest) :
    ∃ b', tryDecode c b = (.ok ⟨.ok, p⟩, b') ∧ Tidy b' ∧ readableView b' = rest ∧
      rest.length < (readableView b).length := by
  have hv : verdict c (readableView b) = .ok := by
    unfold decode at h
    split at h <;> first | assumption | cases h
  obtain ⟨h1, h2, h3, h4⟩ := verdict_ok hv
  have hw := width_pos c
  have hd := h
  unfold decode at hd
  rw [hv] at hd
  simp only [Verdict.frame.injEq] at hd
  obtain ⟨rfl, rfl⟩ := hd
  refine ⟨consume c b, ?_, Buffer.retrieve_tidy (Buffer.retrieve_tidy hb _) _, readableView_consume c hb.1 h2, ?_⟩
  · rw [tryDecode_eq c hb.1 (not_wraps_of_decode (by rw [h]; simp)), if_pos hv]
  · rw [List.length_drop]; omega

end Dbase.Net.LengthFieldCodec
