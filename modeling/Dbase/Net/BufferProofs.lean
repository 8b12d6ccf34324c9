/-
  Dbase.Net.BufferProofs — what each `Buffer` operation does to a well-formed buffer
  (see `Dbase.Net.Buffer`).

  `WF` is the class invariant the code relies on: `readerIndex ≤ writerIndex ≤ size`,
  and storage for at least the prepend reserve. `makeSpace` keeps it, and keeps the
  readable bytes, exactly when its unsigned subtraction of `kCheapPrepend` does not
  wrap (`RoomOk`); a wrapped one moves `writerIndex` past the storage
  (`ensureWritableBytes_overruns`).
-/

import Dbase.Net.Buffer
import Mathlib

namespace Dbase.Net.Buffer

open Dbase.Lib.Word Dbase.Lib.Bytes Dbase.Net.Endian

theorem kCheapPrepend_eq : kCheapPrepend = 8 := rfl

structure WF (b : Buf) : Prop where
  order : b.readerIndex ≤ b.writerIndex
  inside : b.writerIndex ≤ b.buf.length
  reserve : kCheapPrepend ≤ b.buf.length
  bounded : b.buf.length < 2 ^ 63

/-! ## Observers of a well-formed buffer -/

theorem readableBytes_eq {b : Buf} (hb : WF b) : readableBytes b = b.writerIndex - b.readerIndex := by
  have := hb.inside
  have := hb.bounded
  exact wsub_eq hb.order (by omega)

theorem writableBytes_eq {b : Buf} (hb : WF b) : writableBytes b = b.buf.length - b.writerIndex := by
  have := hb.bounded
  exact wsub_eq hb.inside (by omega)

theorem readableBytes_add {b : Buf} (hb : WF b) : b.readerIndex + readableBytes b = b.writerIndex := by
  have := hb.order
  rw [readableBytes_eq hb]; omega

theorem length_readableView {b : Buf} (hb : WF b) : (readableView b).length = readableBytes b := by
  have := readableBytes_add hb
  have := hb.inside
  exact length_slice_of_le (by omega)

theorem readableView_eq_nil {b : Buf} (h : readableBytes b = 0) : readableView b = [] := by
  simp [readableView, h]

/-! ## Retrieval -/

theorem retrieveAll_wf {b : Buf} (hb : WF b) : WF (retrieveAll b) :=
  ⟨Nat.le_refl _, hb.reserve, hb.reserve, hb.bounded⟩

@[simp] theorem readableBytes_retrieveAll (b : Buf) : readableBytes (retrieveAll b) = 0 :=
  (wsub_eq (Nat.le_refl _) (show (8 : Nat) < 2 ^ 64 by omega)).trans (Nat.sub_self _)

@[simp] theorem readableView_retrieveAll (b : Buf) : readableView (retrieveAll b) = [] :=
  readableView_eq_nil (readableBytes_retrieveAll b)

theorem retrieve_wf {b : Buf} (hb : WF b) (len : Nat) : WF (retrieve b len) := by
  have h1 := hb.order
  have h2 := hb.inside
  have h3 := hb.bounded
  unfold retrieve
  split
  · rename_i hl
    rw [readableBytes_eq hb] at hl
    have e : wadd 64 b.readerIndex len = b.readerIndex + len := wadd_eq (by omega)
    exact ⟨by simp only [e]; omega, h2, hb.reserve, h3⟩
  · exact retrieveAll_wf hb

theorem readableView_retrieve {b : Buf} (hb : WF b) (len : Nat) :
    readableView (retrieve b len) = (readableView b).drop len := by
  have h1 := hb.order
  have h2 := hb.inside
  have h3 := hb.bounded
  have hr := readableBytes_eq hb
  by_cases hl : len < readableBytes b
  · have e : wadd 64 b.readerIndex len = b.readerIndex + len := wadd_eq (by omega)
    have hw : readableBytes { b with readerIndex := b.readerIndex + len } = readableBytes b - len := by
      rw [hr]
      refine (wsub_eq ?_ ?_).trans ?_ <;> simp only <;> omega
    unfold retrieve
    rw [if_pos hl, e]
    unfold readableView
    rw [hw, drop_slice]
  · have hd : (readableView b).drop len = [] := List.drop_of_length_le (by rw [length_readableView hb]; omega)
    unfold retrieve
    rw [if_neg hl, readableView_retrieveAll, hd]

theorem le_readerIndex_retrieve {b : Buf} (hb : WF b) (hk : kCheapPrepend ≤ b.readerIndex) (len : Nat) :
    kCheapPrepend ≤ (retrieve b len).readerIndex := by
  have h1 := hb.order
  have h2 := hb.inside
  have h3 := hb.bounded
  unfold retrieve
  split
  · rename_i hl
    rw [readableBytes_eq hb] at hl
    have e : wadd 64 b.readerIndex len = b.readerIndex + len := wadd_eq (by omega)
    simp only [e]; omega
  · exact Nat.le_refl _

/-! ## Making space -/

/-- The subtraction in `makeSpace(len)` does not wrap: the call is not made, the buffer
    is empty, or the storage outside the readable bytes holds the prepend reserve. -/
def RoomOk (b : Buf) (len : Nat) : Prop :=
  writableBytes b < len → readableBytes b ≠ 0 → kCheapPrepend ≤ writableBytes b + prependableBytes b

instance (b : Buf) (len : Nat) : Decidable (RoomOk b len) := inferInstanceAs (Decidable (_ → _ → _))

/-- `makeSpace`'s first statement: an empty buffer starts over behind the reserve. -/
def reset (b : Buf) : Buf := if readableBytes b = 0 then retrieveAll b else b

/-- `makeSpace`'s second exit: the readable bytes move to the front. -/
def compact (b : Buf) : Buf :=
  ⟨blit b.buf kCheapPrepend (readableView b), kCheapPrepend, kCheapPrepend + readableBytes b⟩

/-- `makeSpace`'s third exit: the readable bytes move to new storage. -/
def grow (b : Buf) (newSize : Nat) : Buf :=
  ⟨blit (List.replicate newSize 0) kCheapPrepend (readableView b), kCheapPrepend, kCheapPrepend + readableBytes b⟩

def newSize (b : Buf) (len : Nat) : Nat :=
  max (2 * b.buf.length) (wadd 64 (kCheapPrepend + readableBytes b) len)

theorem reset_wf {b : Buf} (hb : WF b) : WF (reset b) := by
  unfold reset
  split
  · exact retrieveAll_wf hb
  · exact hb

theorem readableBytes_reset (b : Buf) : readableBytes (reset b) = readableBytes b := by
  unfold reset
  split
  · rename_i h; rw [readableBytes_retrieveAll, h]
  · rfl

theorem readableView_reset (b : Buf) : readableView (reset b) = readableView b := by
  unfold reset
  split
  · rename_i h; rw [readableView_retrieveAll, readableView_eq_nil h]
  · rfl

theorem buf_reset (b : Buf) : (reset b).buf = b.buf := by
  unfold reset; split <;> rfl

theorem le_readerIndex_reset {b : Buf} (hk : kCheapPrepend ≤ b.readerIndex) : kCheapPrepend ≤ (reset b).readerIndex := by
  unfold reset; split
  · exact Nat.le_refl _
  · exact hk

/-- What `makeSpace` can do, when its subtraction does not wrap. -/
theorem makeSpace_cases (A : Alloc) {b : Buf} (hb : WF b) (len : Nat)
    (hroom : readableBytes b ≠ 0 → kCheapPrepend ≤ writableBytes b + prependableBytes b) :
    kCheapPrepend + readableBytes b ≤ b.buf.length ∧
    ((readableBytes b = 0 ∧ kCheapPrepend + len ≤ b.buf.length ∧ makeSpace A b len = (.ok (), reset b)) ∨
     (kCheapPrepend + readableBytes b + len ≤ b.buf.length ∧ makeSpace A b len = (.ok (), compact (reset b))) ∨
     (b.buf.length < kCheapPrepend + readableBytes b + len ∧ A.grants (newSize b len) = true ∧
        makeSpace A b len = (.ok (), grow (reset b) (newSize b len))) ∨
     (b.buf.length < kCheapPrepend + readableBytes b + len ∧ A.grants (newSize b len) = false ∧
        makeSpace A b len = (.error .noStorage, reset b))) := by
  have hk := kCheapPrepend_eq
  have h1 := hb.order
  have h2 := hb.inside
  have h3 := hb.reserve
  have h4 := hb.bounded
  have hr := readableBytes_eq hb
  have hw := writableBytes_eq hb
  have hfit : kCheapPrepend + readableBytes b ≤ b.buf.length := by
    by_cases h0 : readableBytes b = 0
    · omega
    · have := hroom h0; simp only [prependableBytes] at this; omega
  -- after the reset the free storage is the size less the readable bytes, in both cases
  have hb' := reset_wf hb
  have hr' := readableBytes_reset b
  have hsz : (reset b).buf.length = b.buf.length := by rw [buf_reset]
  have hw' : writableBytes (reset b) = b.buf.length - (reset b).writerIndex := by rw [writableBytes_eq hb', hsz]
  have hfree : wsub 64 (wadd 64 (writableBytes (reset b)) (prependableBytes (reset b))) kCheapPrepend =
      b.buf.length - readableBytes b - kCheapPrepend := by
    have ha := readableBytes_add hb'
    have hi := hb'.inside
    rw [hr'] at ha
    rw [hsz] at hi
    have e : wadd 64 (writableBytes (reset b)) (prependableBytes (reset b)) = b.buf.length - readableBytes b := by
      rw [hw']
      refine (wadd_eq ?_).trans ?_ <;> simp only [prependableBytes] <;> omega
    rw [e]
    exact wsub_eq (by omega) (by omega)
  have hmul : wmul 64 (reset b).buf.length 2 = 2 * b.buf.length := by
    rw [hsz]; exact (wmul_eq (by omega)).trans (by omega)
  have hadd : wadd 64 kCheapPrepend (readableBytes b) = kCheapPrepend + readableBytes b := wadd_eq (by omega)
  have hview : slice (reset b).buf (reset b).readerIndex (readableBytes b) = readableView (reset b) := by
    unfold readableView; rw [hr']
  refine ⟨hfit, ?_⟩
  have hdef : makeSpace A b len =
      if readableBytes b = 0 ∧ len ≤ writableBytes (reset b) then (.ok (), reset b)
      else if len ≤ b.buf.length - readableBytes b - kCheapPrepend then (.ok (), compact (reset b))
      else if A.grants (newSize b len) then (.ok (), grow (reset b) (newSize b len))
      else (.error .noStorage, reset b) := by
    have hreset : (if readableBytes b = 0 then { b with readerIndex := kCheapPrepend, writerIndex := kCheapPrepend }
        else b) = reset b := rfl
    simp only [makeSpace, hreset, hfree, hmul, hadd, hview, newSize, compact, grow, hr']
  rw [hdef]
  by_cases c1 : readableBytes b = 0 ∧ len ≤ writableBytes (reset b)
  · refine Or.inl ⟨c1.1, ?_, by rw [if_pos c1]⟩
    have : (reset b).writerIndex = kCheapPrepend := by unfold reset; rw [if_pos c1.1]; rfl
    omega
  rw [if_neg c1]
  by_cases c2 : len ≤ b.buf.length - readableBytes b - kCheapPrepend
  · exact Or.inr (Or.inl ⟨by omega, by rw [if_pos c2]⟩)
  rw [if_neg c2]
  by_cases c3 : A.grants (newSize b len) = true
  · exact Or.inr (Or.inr (Or.inl ⟨by omega, c3, by rw [if_pos c3]⟩))
  · exact Or.inr (Or.inr (Or.inr ⟨by omega, by simpa using c3, by rw [if_neg c3]⟩))

theorem readableBytes_at_front {xs : List UInt8} {n : Nat} (h : kCheapPrepend + n < 2 ^ 64) :
    readableBytes ⟨xs, kCheapPrepend, kCheapPrepend + n⟩ = n :=
  (wsub_eq (Nat.le_add_right _ _) h).trans (Nat.add_sub_cancel_left _ _)

/-- Storage that holds the reserve and the readable bytes, with these copied behind the reserve. -/
theorem blit_front {b : Buf} (hb : WF b) (xs : List UInt8) (hx : kCheapPrepend + readableBytes b ≤ xs.length)
    (hs : xs.length < 2 ^ 63) :
    WF ⟨blit xs kCheapPrepend (readableView b), kCheapPrepend, kCheapPrepend + readableBytes b⟩ ∧
    readableView ⟨blit xs kCheapPrepend (readableView b), kCheapPrepend, kCheapPrepend + readableBytes b⟩ =
      readableView b := by
  have hk := kCheapPrepend_eq
  have hl := length_readableView hb
  refine ⟨⟨Nat.le_add_right _ _, by simpa using hx, by simp; omega, by simpa using hs⟩, ?_⟩
  have e := slice_blit_self (show kCheapPrepend + (readableView b).length ≤ xs.length by omega)
  show slice _ _ (readableBytes _) = _
  rw [readableBytes_at_front (by omega), ← hl]
  exact e

theorem compact_spec {b : Buf} (hb : WF b) (h : kCheapPrepend + readableBytes b ≤ b.buf.length) :
    WF (compact b) ∧ readableView (compact b) = readableView b :=
  blit_front hb b.buf h hb.bounded

theorem grow_spec {b : Buf} (hb : WF b) {n : Nat} (h : kCheapPrepend + readableBytes b ≤ n) (hn : n < 2 ^ 63) :
    WF (grow b n) ∧ readableView (grow b n) = readableView b :=
  blit_front hb (List.replicate n 0) (by simpa using h) (by simpa using hn)

/-- `makeSpace` keeps the invariant and the readable bytes, and throws only `noStorage`. -/
theorem makeSpace_spec (A : Alloc) {b : Buf} (hb : WF b) (len : Nat)
    (hroom : readableBytes b ≠ 0 → kCheapPrepend ≤ writableBytes b + prependableBytes b) :
    WF (makeSpace A b len).2 ∧ readableView (makeSpace A b len).2 = readableView b ∧
      (kCheapPrepend ≤ b.readerIndex → kCheapPrepend ≤ (makeSpace A b len).2.readerIndex) ∧
      ((makeSpace A b len).1 = .ok () ∨ (makeSpace A b len).1 = .error .noStorage) := by
  have hbr := reset_wf hb
  have hvr := readableView_reset b
  have hrr := readableBytes_reset b
  obtain ⟨hfit, h | h | h | h⟩ := makeSpace_cases A hb len hroom
  · obtain ⟨_, _, e⟩ := h
    rw [e]
    exact ⟨hbr, hvr, le_readerIndex_reset, Or.inl rfl⟩
  · obtain ⟨_, e⟩ := h
    rw [e]
    obtain ⟨h1, h2⟩ := compact_spec hbr (by rw [hrr, buf_reset]; exact hfit)
    exact ⟨h1, h2.trans hvr, fun _ => Nat.le_refl _, Or.inl rfl⟩
  · obtain ⟨_, hg, e⟩ := h
    have hn := A.max_size _ hg
    have hle : 2 * b.buf.length ≤ newSize b len := Nat.le_max_left _ _
    rw [e]
    obtain ⟨h1, h2⟩ := grow_spec hbr (n := newSize b len) (by rw [hrr]; omega) hn
    exact ⟨h1, h2.trans hvr, fun _ => Nat.le_refl _, Or.inl rfl⟩
  · obtain ⟨_, _, e⟩ := h
    rw [e]
    exact ⟨hbr, hvr, le_readerIndex_reset, Or.inr rfl⟩

/-- A `makeSpace(len)` that returns has made the room, when `kCheapPrepend + readable + len`
    is a `size_t`. -/
theorem makeSpace_room (A : Alloc) {b : Buf} (hb : WF b) {len : Nat}
    (hroom : readableBytes b ≠ 0 → kCheapPrepend ≤ writableBytes b + prependableBytes b)
    (hlen : kCheapPrepend + readableBytes b + len < 2 ^ 64) (hok : (makeSpace A b len).1 = .ok ()) :
    len ≤ writableBytes (makeSpace A b len).2 := by
  have hwf := (makeSpace_spec A hb len hroom).1
  rw [writableBytes_eq hwf]
  have hrr := readableBytes_reset b
  obtain ⟨_, h | h | h | h⟩ := makeSpace_cases A hb len hroom
  · obtain ⟨h0, hl, e⟩ := h
    rw [e]
    have hw : (reset b).writerIndex = kCheapPrepend := by unfold reset; rw [if_pos h0]; rfl
    simp only [hw, buf_reset]; omega
  · obtain ⟨hl, e⟩ := h
    rw [e]
    simp only [compact, length_blit, buf_reset, hrr]; omega
  · obtain ⟨_, _, e⟩ := h
    have hadd : wadd 64 (kCheapPrepend + readableBytes b) len = kCheapPrepend + readableBytes b + len := wadd_eq hlen
    have hle : kCheapPrepend + readableBytes b + len ≤ newSize b len := hadd ▸ Nat.le_max_right _ _
    rw [e]
    simp only [grow, length_blit, List.length_replicate, hrr]; omega
  · obtain ⟨_, _, e⟩ := h
    rw [e] at hok; cases hok

theorem ensureWritableBytes_spec (A : Alloc) {b : Buf} (hb : WF b) {len : Nat} (hroom : RoomOk b len) :
    WF (ensureWritableBytes A b len).2 ∧ readableView (ensureWritableBytes A b len).2 = readableView b ∧
      (kCheapPrepend ≤ b.readerIndex → kCheapPrepend ≤ (ensureWritableBytes A b len).2.readerIndex) ∧
      ((ensureWritableBytes A b len).1 = .ok () ∨ (ensureWritableBytes A b len).1 = .error .noStorage) := by
  unfold ensureWritableBytes
  split
  · rename_i hl; exact makeSpace_spec A hb len (hroom hl)
  · exact ⟨hb, rfl, id, Or.inl rfl⟩

theorem ensureWritableBytes_room (A : Alloc) {b : Buf} (hb : WF b) {len : Nat} (hroom : RoomOk b len)
    (hlen : kCheapPrepend + readableBytes b + len < 2 ^ 64) (hok : (ensureWritableBytes A b len).1 = .ok ()) :
    len ≤ writableBytes (ensureWritableBytes A b len).2 := by
  unfold ensureWritableBytes at hok ⊢
  split at hok
  · rename_i hl
    rw [if_pos hl]
    exact makeSpace_room A hb (hroom hl) hlen hok
  · rename_i hl
    rw [if_neg hl]
    show len ≤ writableBytes b
    omega

/-- A call throws only where the allocator refuses the size it asks for. -/
theorem ensureWritableBytes_ok (A : Alloc) {b : Buf} (hb : WF b) {len : Nat} (hroom : RoomOk b len)
    (hg : b.buf.length < kCheapPrepend + readableBytes b + len → A.grants (newSize b len) = true) :
    (ensureWritableBytes A b len).1 = .ok () := by
  unfold ensureWritableBytes
  split
  · rename_i hl
    obtain ⟨_, h | h | h | h⟩ := makeSpace_cases A hb len (hroom hl)
    · rw [h.2.2]
    · rw [h.2]
    · rw [h.2.2]
    · rw [hg h.1] at h; exact absurd h.2.1 (by simp)
  · rfl

/-- Where the subtraction wraps, the call compacts a storage that cannot hold the reserve and the readable bytes. -/
theorem ensureWritableBytes_compacts (A : Alloc) {b : Buf} (hb : WF b) {len : Nat} (hroom : ¬ RoomOk b len)
    (hlen : kCheapPrepend + len ≤ 2 ^ 64) :
    ensureWritableBytes A b len = (.ok (), compact b) ∧ b.buf.length < kCheapPrepend + readableBytes b := by
  have hk := kCheapPrepend_eq
  have h1 := hb.order
  have h2 := hb.inside
  have h4 := hb.bounded
  have hr := readableBytes_eq hb
  have hw := writableBytes_eq hb
  unfold RoomOk at hroom
  push Not at hroom
  obtain ⟨hl, h0, hlt⟩ := hroom
  have hadd : wadd 64 (writableBytes b) (prependableBytes b) = writableBytes b + prependableBytes b :=
    wadd_eq (by omega)
  have hwrap : wsub 64 (writableBytes b + prependableBytes b) kCheapPrepend =
      writableBytes b + prependableBytes b + 2 ^ 64 - kCheapPrepend := wsub_wrap hlt (by omega)
  have hend : wadd 64 kCheapPrepend (readableBytes b) = kCheapPrepend + readableBytes b := wadd_eq (by omega)
  have hc : len ≤ writableBytes b + prependableBytes b + 2 ^ 64 - kCheapPrepend := by omega
  have e : ensureWritableBytes A b len = (.ok (), compact b) := by
    simp only [ensureWritableBytes, hl, if_true, makeSpace, h0, if_false, false_and, hadd, hwrap, hc, hend]
    rfl
  simp only [prependableBytes] at hlt
  exact ⟨e, by omega⟩

/-- So it returns with `writerIndex` past the storage. -/
theorem ensureWritableBytes_overruns (A : Alloc) {b : Buf} (hb : WF b) {len : Nat} (hroom : ¬ RoomOk b len)
    (hlen : kCheapPrepend + readableBytes b + len < 2 ^ 64) :
    (ensureWritableBytes A b len).1 = .ok () ∧
      (ensureWritableBytes A b len).2.buf.length < (ensureWritableBytes A b len).2.writerIndex := by
  obtain ⟨e, hlt⟩ := ensureWritableBytes_compacts A hb hroom (by omega)
  rw [e]
  refine ⟨rfl, ?_⟩
  simp only [compact, length_blit]
  exact hlt

/-! ## Writing at the tail -/

theorem hasWritten_wf {b : Buf} (hb : WF b) {len : Nat} (h : len ≤ writableBytes b) : WF (hasWritten b len) := by
  have h1 := hb.order
  have h2 := hb.inside
  have h3 := hb.bounded
  rw [writableBytes_eq hb] at h
  have e : wadd 64 b.writerIndex len = b.writerIndex + len := wadd_eq (by omega)
  exact ⟨by simp only [hasWritten, e]; omega, by simp only [hasWritten, e]; omega, hb.reserve, h3⟩

theorem unwrite_wf {b : Buf} (hb : WF b) {len : Nat} (h : len ≤ readableBytes b) : WF (unwrite b len) := by
  have h1 := hb.order
  have h2 := hb.inside
  have h3 := hb.bounded
  rw [readableBytes_eq hb] at h
  have e : wsub 64 b.writerIndex len = b.writerIndex - len := wsub_eq (by omega) (by omega)
  exact ⟨by simp only [unwrite, e]; omega, by simp only [unwrite, e]; omega, hb.reserve, h3⟩

theorem hasWritten_zero {b : Buf} (hb : WF b) : hasWritten b 0 = b := by
  have h2 := hb.inside
  have h3 := hb.bounded
  have e : wadd 64 b.writerIndex 0 = b.writerIndex := wadd_eq (by omega)
  simp only [hasWritten, e]

theorem copyToTail_wf {b : Buf} (hb : WF b) (data : List UInt8) : WF (copyToTail b data) :=
  ⟨hb.order, by simpa [copyToTail] using hb.inside, by simpa [copyToTail] using hb.reserve,
    by simpa [copyToTail] using hb.bounded⟩

@[simp] theorem writableBytes_copyToTail (b : Buf) (data : List UInt8) :
    writableBytes (copyToTail b data) = writableBytes b := by
  simp [writableBytes, copyToTail]

/-- Bytes copied into the tail and accounted for by `hasWritten` follow the readable bytes. -/
theorem hasWritten_copyToTail {b : Buf} (hb : WF b) {data : List UInt8} (h : data.length ≤ writableBytes b) :
    WF (hasWritten (copyToTail b data) data.length) ∧
      readableView (hasWritten (copyToTail b data) data.length) = readableView b ++ data := by
  have hc := copyToTail_wf hb data
  have hwf := hasWritten_wf hc (show data.length ≤ writableBytes (copyToTail b data) by
    rw [writableBytes_copyToTail]; exact h)
  refine ⟨hwf, ?_⟩
  have h1 := readableBytes_add hb
  have h2 := hb.inside
  have h3 := hb.bounded
  rw [writableBytes_eq hb] at h
  have e : wadd 64 b.writerIndex data.length = b.writerIndex + data.length := wadd_eq (by omega)
  have hr : readableBytes (hasWritten (copyToTail b data) data.length) = readableBytes b + data.length := by
    rw [readableBytes_eq hwf]
    simp only [hasWritten, copyToTail, e]
    omega
  have hs := slice_blit_extend (show b.readerIndex + readableBytes b + data.length ≤ b.buf.length by omega)
  show slice (blit b.buf b.writerIndex data) b.readerIndex (readableBytes (hasWritten (copyToTail b data) data.length)) = _
  rw [hr, ← h1]
  exact hs

@[simp] theorem copyToTail_nil (b : Buf) : copyToTail b [] = b := by
  simp [copyToTail, blit]

/-- Where there is room already, an append asks the allocator for nothing. -/
theorem appendBytes_within (A : Alloc) {b : Buf} {data : List UInt8} (h : data.length ≤ writableBytes b) :
    appendBytes A b data = (.ok (), hasWritten (copyToTail b data) data.length) := by
  unfold appendBytes ensureWritableBytes
  rw [if_neg (by omega)]

theorem append_within (A : Alloc) {b : Buf} {data : List UInt8} (hw : b.writerIndex < 2 ^ 64)
    (h : data.length ≤ writableBytes b) :
    append A b data = (.ok (), hasWritten (copyToTail b data) data.length) := by
  unfold append
  split
  · rename_i h0
    rw [List.eq_nil_of_length_eq_zero h0, copyToTail_nil]
    have e : wadd 64 b.writerIndex 0 = b.writerIndex := wadd_eq (by omega)
    simp only [List.length_nil, hasWritten, e]
  · exact appendBytes_within A h

theorem writableBytes_hasWritten {b : Buf} {len : Nat} (h : len ≤ writableBytes b) :
    writableBytes (hasWritten b len) = writableBytes b - len := by
  unfold writableBytes hasWritten wsub wadd at *
  simp only at *
  omega

theorem readableView_unwrite {b : Buf} (hb : WF b) {len : Nat} (h : len ≤ readableBytes b) :
    readableView (unwrite b len) = (readableView b).take ((readableView b).length - len) := by
  have hwf := unwrite_wf hb h
  have h1 := hb.order
  have h2 := hb.inside
  have h3 := hb.bounded
  rw [length_readableView hb]
  have e : wsub 64 b.writerIndex len = b.writerIndex - len := wsub_eq (by rw [readableBytes_eq hb] at h; omega) (by omega)
  have hr : readableBytes (unwrite b len) = readableBytes b - len := by
    rw [readableBytes_eq hwf, readableBytes_eq hb]
    simp only [unwrite, e]
    omega
  show slice b.buf b.readerIndex (readableBytes (unwrite b len)) = _
  rw [hr]
  exact (take_slice b.buf b.readerIndex (Nat.sub_le _ _)).symm

theorem appendBytes_spec (A : Alloc) {b : Buf} (hb : WF b) {data : List UInt8} (hroom : RoomOk b data.length)
    (hlen : kCheapPrepend + readableBytes b + data.length < 2 ^ 64) :
    WF (appendBytes A b data).2 ∧
      (kCheapPrepend ≤ b.readerIndex → kCheapPrepend ≤ (appendBytes A b data).2.readerIndex) ∧
      (((appendBytes A b data).1 = .ok () ∧ readableView (appendBytes A b data).2 = readableView b ++ data) ∨
       ((appendBytes A b data).1 = .error .noStorage ∧ readableView (appendBytes A b data).2 = readableView b)) := by
  obtain ⟨hwf, hview, hk, hret⟩ := ensureWritableBytes_spec A hb hroom
  have hspace := ensureWritableBytes_room A hb hroom hlen
  unfold appendBytes
  rcases he : ensureWritableBytes A b data.length with ⟨r, b'⟩
  rw [he] at hwf hview hk hret hspace
  rcases hret with h | h <;> simp only at h <;> subst h
  · obtain ⟨h1, h2⟩ := hasWritten_copyToTail hwf (hspace rfl)
    exact ⟨h1, hk, Or.inl ⟨rfl, by rw [h2, hview]⟩⟩
  · exact ⟨hwf, hk, Or.inr ⟨rfl, hview⟩⟩

theorem append_spec (A : Alloc) {b : Buf} (hb : WF b) {data : List UInt8} (hroom : RoomOk b data.length)
    (hlen : kCheapPrepend + readableBytes b + data.length < 2 ^ 64) :
    WF (append A b data).2 ∧
      (kCheapPrepend ≤ b.readerIndex → kCheapPrepend ≤ (append A b data).2.readerIndex) ∧
      (((append A b data).1 = .ok () ∧ readableView (append A b data).2 = readableView b ++ data) ∨
       ((append A b data).1 = .error .noStorage ∧ readableView (append A b data).2 = readableView b)) := by
  unfold append
  split
  · rename_i h0
    have : data = [] := List.eq_nil_of_length_eq_zero h0
    subst this
    exact ⟨hb, id, Or.inl ⟨rfl, by simp⟩⟩
  · exact appendBytes_spec A hb hroom hlen

theorem append_ok (A : Alloc) {b : Buf} (hb : WF b) {data : List UInt8} (hroom : RoomOk b data.length)
    (hg : b.buf.length < kCheapPrepend + readableBytes b + data.length → A.grants (newSize b data.length) = true) :
    (append A b data).1 = .ok () := by
  unfold append
  split
  · rfl
  · have h := ensureWritableBytes_ok A hb hroom hg
    unfold appendBytes
    rcases he : ensureWritableBytes A b data.length with ⟨r, b'⟩
    rw [he] at h
    simp only at h
    subst h
    rfl

/-- Behind an untouched prepend reserve the subtraction cannot wrap. -/
theorem roomOk_of_reserve {b : Buf} (h : kCheapPrepend ≤ b.readerIndex) (len : Nat) : RoomOk b len := by
  intro _ _
  simp only [prependableBytes]
  omega

/-! ## Writing in front -/

theorem prependAt_wf {b : Buf} (hb : WF b) (data : List UInt8) {n : Nat} (h : n ≤ prependableBytes b) :
    WF { b with readerIndex := wsub 64 b.readerIndex n, buf := blit b.buf (wsub 64 b.readerIndex n) data } := by
  have h1 := hb.order
  have h2 := hb.inside
  have h3 := hb.bounded
  simp only [prependableBytes] at h
  have e : wsub 64 b.readerIndex n = b.readerIndex - n := wsub_eq (by omega) (by omega)
  exact ⟨by simp only [e]; omega, by simpa using h2, by simpa using hb.reserve, by simpa using h3⟩

theorem prepend_wf {b : Buf} (hb : WF b) (data : List UInt8) : WF (prepend b data).2 := by
  unfold prepend
  split
  · exact hb
  · split
    · exact hb
    · exact prependAt_wf hb data (by omega)

theorem prependInt_wf {b : Buf} (hb : WF b) (t : IntTy) (v : Int) : WF (prependInt t b v).2 := by
  have wide : ∀ t what, WF (prependWide t what b v).2 := by
    intro t what
    unfold prependWide
    split
    · exact hb
    · exact prependAt_wf hb _ (by omega)
  cases t
  · exact prepend_wf hb _
  · exact wide _ _
  · exact wide _ _
  · exact wide _ _
  · exact prepend_wf hb _
  · exact wide _ _
  · exact wide _ _
  · exact wide _ _

/-! ## Integers -/

theorem take_readableView {b : Buf} {n : Nat} (h : n ≤ readableBytes b) :
    (readableView b).take n = slice b.buf b.readerIndex n := take_slice _ _ h

theorem peekInt_short (t : IntTy) {b : Buf} (h : readableBytes b < t.size) :
    ∃ what, peekInt t b = .error (.outOfRange what) := by
  cases t <;> exact ⟨_, if_pos h⟩

/-- `peek` reads the first bytes as a number, most significant first. -/
theorem peekInt_eq {b : Buf} (hb : WF b) {t : IntTy} (h : t.size ≤ readableBytes b) :
    peekInt t b = .ok (ofRaw t (beDecode ((readableView b).take t.size))) := by
  have hl : ((readableView b).take t.size).length = t.size := by
    rw [List.length_take, length_readableView hb]; omega
  have byte : ∀ what, t.size = 1 → peekByte t what b = .ok (ofRaw t (beDecode ((readableView b).take t.size))) := by
    intro what h1
    unfold peekByte
    rw [if_neg (by omega), ← take_readableView h, beDecode_singleton (hl.trans h1)]
    rfl
  have wide : ∀ what, peekWide t what b = .ok (ofRaw t (beDecode ((readableView b).take t.size))) := by
    intro what
    unfold peekWide
    rw [if_neg (by omega), ← take_readableView h, readInteger_eq _ _ _ hl]
  cases t
  · exact byte _ rfl
  · exact wide _
  · exact wide _
  · exact wide _
  · exact byte _ rfl
  · exact wide _
  · exact wide _
  · exact wide _

end Dbase.Net.Buffer
