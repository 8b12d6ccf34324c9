/-
  Dbase.Net.FrameLoops — the two loops that drain a buffer through a codec:
  `TcpConnection::handleCodecMessages` and `FramedTcpServer::onRawMessage`.

  A loop runs until `tryDecode` wants more data, and is modelled with a bound on its
  iterations; what it does outside the buffer is the list of its events, in order. `feed`
  is the receiving side of a connection: append what arrived, run the loop, and again.

  Proved: however the concatenated encodings of a list of payloads are cut into chunks,
  both loops deliver exactly those payloads, report no error, and leave the buffer empty
  (`frames_survive_splitting`). The bound is never reached: every frame consumes its header.
-/

import Dbase.Net.LengthFieldCodecProofs

namespace Dbase.Net.FrameLoops

open Dbase.Lib.Framing
open Dbase.Net.Buffer (Buf Alloc Tidy readableBytes readableView)
open Dbase.Net.LengthFieldCodec

/-- `TcpConnection::kCodecError`. -/
def kCodecError : Int := -1001

inductive Event where
  | frame (payload : List UInt8)
  | error (code : Int)
  | handleClose
  | forceClose
  deriving DecidableEq, Repr

inductive LoopEnd where
  | drained
  | gaveUp
  | threw (e : Err)
  | outOfFuel
  deriving DecidableEq, Repr

structure Run where
  events : List Event
  ended : LoopEnd
  buf : Buf
  deriving DecidableEq, Repr

def Run.before (es : List Event) (r : Run) : Run := { r with events := es ++ r.events }

/-- `handleCodecMessages`, of a connection with or without an error callback. -/
def handleCodecMessages (c : Codec) (errorCallback : Bool) : Nat → Buf → Run
  | 0, b => ⟨[], .outOfFuel, b⟩
  | n + 1, b =>
    match tryDecode c b with
    | (.error e, b) => ⟨[], .threw e, b⟩
    | (.ok result, b) =>
      if result.status = .needMoreData then ⟨[], .drained, b⟩
      else if result.status ≠ .ok then
        ⟨(if errorCallback then [.error kCodecError] else []) ++ [.handleClose], .gaveUp, b⟩
      else (handleCodecMessages c errorCallback n b).before [.frame result.payload]

/-- `onRawMessage`, with or without a frame callback, on a connection that may be null. -/
def onRawMessage (c : Codec) (frameMessageCallback conn : Bool) : Nat → Buf → Run
  | 0, b => ⟨[], .outOfFuel, b⟩
  | n + 1, b =>
    match tryDecode c b with
    | (.error e, b) => ⟨[], .threw e, b⟩
    | (.ok result, b) =>
      match result.status with
      | .ok =>
        (onRawMessage c frameMessageCallback conn n b).before
          (if frameMessageCallback then [.frame result.payload] else [])
      | .needMoreData => ⟨[], .drained, b⟩
      | .invalidLength | .exceedMaxFrameLength => ⟨if conn then [.forceClose] else [], .gaveUp, b⟩

/-- Chunks arrive one at a time; after each the loop runs, for at most one turn a byte. -/
def feed (loop : Nat → Buf → Run) (A : Alloc) : Buf → List (List UInt8) → Run
  | b, [] => ⟨[], .drained, b⟩
  | b, chunk :: chunks =>
    match Buffer.append A b chunk with
    | (.error e, b) => ⟨[], .threw e, b⟩
    | (.ok _, b) =>
      let r := loop (readableBytes b + 1) b
      if r.ended = .drained then (feed loop A r.buf chunks).before r.events else r

/-! ## One loop -/

/-- What the two loops have in common. -/
structure Driver (c : Codec) (loop : Nat → Buf → Run) : Prop where
  more : ∀ n b, tryDecode c b = (.ok ⟨.needMoreData, []⟩, b) → loop (n + 1) b = ⟨[], .drained, b⟩
  frame : ∀ n b p b', tryDecode c b = (.ok ⟨.ok, p⟩, b') → loop (n + 1) b = (loop n b').before [.frame p]

theorem handleCodecMessages_driver (c : Codec) (errorCallback : Bool) : Driver c (handleCodecMessages c errorCallback) where
  more n b h := by simp [handleCodecMessages, h]
  frame n b p b' h := by simp [handleCodecMessages, h]

theorem onRawMessage_driver (c : Codec) (conn : Bool) : Driver c (onRawMessage c true conn) where
  more n b h := by simp [onRawMessage, h]
  frame n b p b' h := by simp [onRawMessage, h]

/-- A loop with a turn for every byte drains what the byte-list decoder drains. -/
theorem driver_drains {c : Codec} {loop : Nat → Buf → Run} (hd : Driver c loop) {l l' : List UInt8}
    {ps : List (List UInt8)} (h : Drains (decode c) l ps l') :
    ∀ (n : Nat) (b : Buf), Tidy b → readableView b = l → l.length < n →
      ∃ b', loop n b = ⟨ps.map .frame, .drained, b'⟩ ∧ Tidy b' ∧ readableView b' = l' := by
  induction h with
  | done hm =>
    intro n b hb hv hn
    obtain ⟨k, rfl⟩ : ∃ k, n = k + 1 := ⟨n - 1, by omega⟩
    rw [← hv] at hm
    exact ⟨b, hd.more k b (tryDecode_needMore c hb.1 hm), hb, hv⟩
  | next hm _ ih =>
    intro n b hb hv hn
    obtain ⟨k, rfl⟩ : ∃ k, n = k + 1 := ⟨n - 1, by omega⟩
    rw [← hv] at hm
    obtain ⟨b1, hdec, hb1, hv1, hlt⟩ := tryDecode_frame c hb hm
    obtain ⟨b', hrun, hb', hv'⟩ := ih k b1 hb1 hv1 (by rw [hv] at hlt; omega)
    refine ⟨b', ?_, hb', hv'⟩
    rw [hd.frame k b _ b1 hdec, hrun]
    rfl

/-! ## A stream in chunks -/

/-- Appending to a tidy buffer with memory at hand. -/
theorem append_granted {A : Alloc} {M : Nat} (hA : ∀ n, n ≤ 2 * M → A.grants n = true) {b : Buf} (hb : Tidy b)
    {chunk : List UInt8} (hM : chunk = [] ∨ Buffer.kCheapPrepend + (readableView b).length + chunk.length ≤ M) :
    ∃ b', Buffer.append A b chunk = (.ok (), b') ∧ Tidy b' ∧ readableView b' = readableView b ++ chunk := by
  rcases hM with rfl | hM
  · exact ⟨b, rfl, hb, by simp⟩
  · have hcap := A.max_size (2 * M) (hA _ (Nat.le_refl _))
    have hl := Buffer.length_readableView hb.1
    have hroom := Buffer.roomOk_of_reserve hb.2 chunk.length
    have hok : (Buffer.append A b chunk).1 = .ok () := by
      refine Buffer.append_ok A hb.1 hroom (fun hgrow => hA _ ?_)
      have h := Lib.Word.wadd_le 64 (Buffer.kCheapPrepend + readableBytes b) chunk.length
      unfold Buffer.newSize
      exact Nat.max_le.mpr ⟨by omega, by omega⟩
    obtain ⟨ht, hv⟩ := follows_elim (Buffer.append_follows A hb (by omega)) hok
    exact ⟨(Buffer.append A b chunk).2, Prod.ext hok rfl, ht, hv⟩

/-- A proper part of a stream is shorter than some frame of it. -/
theorem length_le_of_partial {c : Codec} {rest : List (List UInt8)} {l : List UInt8} (h : Partial (frameOf c) rest l) :
    l = [] ∨ ∃ m ∈ rest, l.length ≤ c.lengthFieldBytes + m.length := by
  rcases h with ⟨_, rfl⟩ | ⟨m, ms, t, rfl, _, ht⟩
  · exact Or.inl rfl
  · refine Or.inr ⟨m, by simp, ?_⟩
    rw [← length_frameOf, ← ht, List.length_append]
    omega

/-- The invariant of `feed`: the buffer holds a proper part of the frames still to come, and
    together with the chunks still to come it is exactly those frames. -/
theorem feed_delivers {c : Codec} {loop : Nat → Buf → Run} (hd : Driver c loop) {A : Alloc} {M : Nat}
    (hA : ∀ n, n ≤ 2 * M → A.grants n = true) :
    ∀ (chunks : List (List UInt8)) (b : Buf) (rest : List (List UInt8)), Tidy b → (∀ p ∈ rest, Fits c p) →
      Partial (frameOf c) rest (readableView b) →
      readableView b ++ chunks.flatten = stream (frameOf c) rest →
      (∀ p ∈ rest, ∀ chunk ∈ chunks,
        Buffer.kCheapPrepend + (c.lengthFieldBytes + p.length) + chunk.length ≤ M) →
      ∃ b', feed loop A b chunks = ⟨rest.map .frame, .drained, b'⟩ ∧ Tidy b' ∧ readableView b' = [] := by
  intro chunks
  induction chunks with
  | nil =>
    intro b rest hb _ hpart hstream _
    rcases hpart with ⟨rfl, hnil⟩ | ⟨m, ms, t, rfl, ht, hm⟩
    · exact ⟨b, rfl, hb, hnil⟩
    · -- a proper part cannot be the whole stream
      exfalso
      have h1 := congrArg List.length hm
      have h2 := congrArg List.length hstream
      have h3 := List.length_pos_of_ne_nil ht
      simp at h1 h2
      omega
  | cons chunk chunks ih =>
    intro b rest hb hfits hpart hstream hM
    have hroom : chunk = [] ∨ Buffer.kCheapPrepend + (readableView b).length + chunk.length ≤ M := by
      rcases List.eq_nil_or_concat rest with rfl | ⟨_, p, hrest⟩
      · left
        have : readableView b ++ (chunk ++ chunks.flatten) = [] := by simpa using hstream
        simp only [List.append_eq_nil_iff] at this
        exact this.2.1
      · right
        have hp : p ∈ rest := by rw [hrest]; simp
        rcases length_le_of_partial hpart with hnil | ⟨m, hm, hlen⟩
        · have := hM p hp chunk (by simp)
          rw [hnil, List.length_nil]; omega
        · have := hM m hm chunk (by simp)
          omega
    obtain ⟨b1, happ, hb1, hv1⟩ := append_granted hA hb hroom
    obtain ⟨done, rest', l', hrest, hdr, hs, hp⟩ :=
      drains_prefix (frames_frameOf c) rest (readableView b ++ chunk) chunks.flatten hfits
        (by simpa using hstream)
    obtain ⟨b2, hrun, hb2, hv2⟩ := driver_drains hd hdr (readableBytes b1 + 1) b1 hb1 hv1
      (by rw [← hv1, Buffer.length_readableView hb1.1]; omega)
    obtain ⟨b3, hfeed, hb3, hv3⟩ := ih b2 rest' hb2 (fun p hp => hfits p (by simp [hrest, hp])) (hv2 ▸ hp)
      (hv2 ▸ hs) (fun p hp ch hch => hM p (by simp [hrest, hp]) ch (by simp [hch]))
    refine ⟨b3, ?_, hb3, hv3⟩
    simp only [feed, happ, hrun, if_true, hfeed, Run.before, hrest, List.map_append]

/-- However the encodings are cut, both loops deliver the payloads, in order and nothing else,
    and leave nothing behind. The receiving side needs memory for its largest frame and chunk. -/
theorem frames_survive_splitting (c : Codec) (A A' : Alloc) (errorCallback conn : Bool) (payloads : List (List UInt8))
    (encodings : List Buf) (chunks : List (List UInt8)) (b : Buf) (M : Nat)
    (henc : List.Forall₂ (fun p e => p.length < 2 ^ 63 ∧ encodeNew A' c p = .ok e) payloads encodings)
    (hsplit : chunks.flatten = (encodings.map readableView).flatten)
    (hb : Tidy b) (hempty : readableView b = [])
    (hA : ∀ n, n ≤ 2 * M → A.grants n = true)
    (hM : ∀ p ∈ payloads, ∀ chunk ∈ chunks,
      Buffer.kCheapPrepend + (c.lengthFieldBytes + p.length) + chunk.length ≤ M) :
    ∃ b1 b2, feed (handleCodecMessages c errorCallback) A b chunks = ⟨payloads.map .frame, .drained, b1⟩ ∧
      feed (onRawMessage c true conn) A b chunks = ⟨payloads.map .frame, .drained, b2⟩ ∧
      readableView b1 = [] ∧ readableView b2 = [] := by
  have hstream : (∀ p ∈ payloads, Fits c p) ∧ (encodings.map readableView).flatten = stream (frameOf c) payloads := by
    clear hsplit hM
    induction henc with
    | nil => exact ⟨by simp, rfl⟩
    | cons hp _ ih =>
      obtain ⟨hfit, hview⟩ := encodeNew_spec hp.1 hp.2
      refine ⟨fun p hm => ?_, ?_⟩
      · rcases List.mem_cons.mp hm with rfl | hm
        · exact hfit
        · exact ih.1 p hm
      · simp only [List.map_cons, List.flatten_cons, stream_cons, hview, ih.2]
  have hpart : Partial (frameOf c) payloads (readableView b) := by
    rw [hempty]
    rcases payloads with _ | ⟨p, ps⟩
    · exact Or.inl ⟨rfl, rfl⟩
    · refine Or.inr ⟨p, ps, frameOf c p, rfl, ?_, rfl⟩
      have := width_pos c
      apply List.ne_nil_of_length_pos
      rw [length_frameOf]; omega
  have hall : readableView b ++ chunks.flatten = stream (frameOf c) payloads := by
    rw [hempty, hsplit, hstream.2, List.nil_append]
  obtain ⟨b1, h1, _, hv1⟩ :=
    feed_delivers (handleCodecMessages_driver c errorCallback) hA chunks b payloads hb hstream.1 hpart hall hM
  obtain ⟨b2, h2, _, hv2⟩ := feed_delivers (onRawMessage_driver c conn) hA chunks b payloads hb hstream.1 hpart hall hM
  exact ⟨b1, b2, h1, h2, hv1, hv2⟩

/-- One-byte fields, of frames up to 64 bytes. -/
def small : Codec := ⟨1, .payloadOnly, 64, by decide, by decide, by decide⟩

/-- Two payloads, one of them empty, cut inside the first frame. -/
theorem frames_survive_splitting_two :
    ∃ b1 b2, feed (handleCodecMessages small true) Buffer.roomy ⟨List.replicate 8 0, 8, 8⟩ [[2, 7], [9, 0]] =
        ⟨[.frame [7, 9], .frame []], .drained, b1⟩ ∧
      feed (onRawMessage small true true) Buffer.roomy ⟨List.replicate 8 0, 8, 8⟩ [[2, 7], [9, 0]] =
        ⟨[.frame [7, 9], .frame []], .drained, b2⟩ ∧
      readableView b1 = [] ∧ readableView b2 = [] := by
  have e1 : encodeNew Buffer.roomy small [7, 9] = .ok ⟨List.replicate 8 0 ++ [2, 7, 9], 8, 11⟩ := by decide
  have e2 : encodeNew Buffer.roomy small [] = .ok ⟨List.replicate 8 0 ++ [0], 8, 9⟩ := by decide
  refine frames_survive_splitting small Buffer.roomy Buffer.roomy true true [[7, 9], []] _ _ _ 20
    (.cons ⟨?_, e1⟩ (.cons ⟨?_, e2⟩ .nil)) (by decide) ⟨⟨by decide, by decide, by decide, ?_⟩, by decide⟩ (by decide) ?_
    (by decide)
  · show (2 : Nat) < 2 ^ 63; omega
  · show (0 : Nat) < 2 ^ 63; omega
  · show (8 : Nat) < 2 ^ 63; omega
  · intro n hn
    exact decide_eq_true (show n < 2 ^ 63 by omega)

end Dbase.Net.FrameLoops
