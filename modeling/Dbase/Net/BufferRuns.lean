/-
  Dbase.Net.BufferRuns — runs of `Buffer` operations over any number of buffers.

  A heap is a list of buffers; an operation is a public member function applied to one
  of them (`Op`), a construction, a `swap` or an `append` of one buffer to another.
  The allocator may answer differently at every step.

  Proved:
  (1) `indices_and_room`: along every run in which no constructor argument wraps
      `kCheapPrepend + initialSize` and no `ensureWritableBytes` call meets the wrapped
      subtraction of `makeSpace`, the indices stay ordered and inside the storage, and
      every call that returns has made its room. Without the condition they do not
      (`prepend_then_append_overruns`).
  (2) `readable_bytes_model`: along every run without `prepend`, the readable bytes are
      those of a plain byte list on which each operation does what it is for (`absOp`).
      The conditions: `kCheapPrepend + size` does not wrap in a constructor (a
      `shrink` calls one), and a `readFdResult` that spills into its stack buffer finds
      the storage it then appends to. A wrapped `shrink` drops everything
      (`shrink_wraps_and_drops`).
-/

import Dbase.Net.BufferProofs

namespace Dbase.Net.Buffer

open Dbase.Lib.Word Dbase.Lib.Bytes Dbase.Net.Endian

inductive Op where
  | append (data : List UInt8)
  | appendInt (t : IntTy) (v : Int)
  | prepend (data : List UInt8)
  | prependInt (t : IntTy) (v : Int)
  | retrieve (len : Nat)
  | retrieveUntil (len : Nat)
  | retrieveAll
  | retrieveAsString (len : Nat)
  | retrieveAllAsString
  | readInt (t : IntTy)
  | ensureWritableBytes (len : Nat)
  /-- The caller fills the writable span with `data`, then `hasWritten(data.size())`. -/
  | hasWritten (data : List UInt8)
  | unwrite (len : Nat)
  | readFdResult (r : SysRead)
  | readFd (r : SysRead)
  | writeFdResult (r : SysWrite)
  | writeFd (r : SysWrite)
  | shrink (reserve : Nat)
  | clear
  deriving DecidableEq, Repr

/-- The exception a call ends with, if any, and the object it leaves. -/
def outcome {α : Type} (r : Ret α) : Option Err × Buf :=
  match r with
  | (.ok _, b) => (none, b)
  | (.error e, b) => (some e, b)

@[simp] theorem outcome_snd {α : Type} (r : Ret α) : (outcome r).2 = r.2 := by
  rcases r with ⟨_ | _, b⟩ <;> rfl

theorem outcome_ok {α : Type} {r : Ret α} {a : α} (h : r.1 = .ok a) : (outcome r).1 = none := by
  rcases r with ⟨_ | _, b⟩ <;> simp_all [outcome]

theorem outcome_error {α : Type} {r : Ret α} {e : Err} (h : r.1 = .error e) : (outcome r).1 = some e := by
  rcases r with ⟨_ | _, b⟩ <;> simp_all [outcome]

def exec (A : Alloc) (b : Buf) : Op → Option Err × Buf
  | .append data => outcome (append A b data)
  | .appendInt t v => outcome (appendInt t A b v)
  | .prepend data => outcome (prepend b data)
  | .prependInt t v => outcome (prependInt t b v)
  | .retrieve len => (none, retrieve b len)
  | .retrieveUntil len => (none, retrieveUntil b len)
  | .retrieveAll => (none, retrieveAll b)
  | .retrieveAsString len => outcome (retrieveAsString b len)
  | .retrieveAllAsString => outcome (retrieveAllAsString b)
  | .readInt t => outcome (readInt t b)
  | .ensureWritableBytes len => outcome (ensureWritableBytes A b len)
  | .hasWritten data => (none, hasWritten (copyToTail b data) data.length)
  | .unwrite len => (none, unwrite b len)
  | .readFdResult r => outcome (readFdResult A b r)
  | .readFd r => outcome (readFd A b r)
  | .writeFdResult r => (none, (writeFdResult b r).2)
  | .writeFd r => (none, (writeFd b r).2)
  | .shrink reserve => outcome (shrink A b reserve)
  | .clear => (none, clear b)

inductive HOp where
  | make (initialSize : Nat)
  | on (i : Nat) (op : Op)
  | swap (i j : Nat)
  | appendBuffer (i j : Nat)
  deriving DecidableEq, Repr

abbrev Heap := List Buf

def execH (A : Alloc) (h : Heap) : HOp → Option Err × Heap
  | .make n =>
    match make A n with
    | .ok b => (none, h ++ [b])
    | .error e => (some e, h)
  | .on i op =>
    match h[i]? with
    | some b => ((exec A b op).1, h.set i (exec A b op).2)
    | none => (none, h)
  | .swap i j =>
    match h[i]?, h[j]? with
    | some a, some b => (none, (h.set i (swap a b).1).set j (swap a b).2)
    | _, _ => (none, h)
  | .appendBuffer i j =>
    match h[i]?, h[j]? with
    | some a, some b => ((outcome (appendBuffer A a b)).1, h.set i (appendBuffer A a b).2)
    | _, _ => (none, h)

/-! ## What the callers promise -/

/-- The bounds the source asserts. -/
def Asserted (b : Buf) : Op → Prop
  | .hasWritten data => data.length ≤ writableBytes b
  | .unwrite len | .retrieveUntil len => len ≤ readableBytes b
  | _ => True

/-- The length an operation asks room for. -/
def lenOf (b : Buf) : Op → Nat
  | .append data => data.length
  | .appendInt t _ => t.size
  | .ensureWritableBytes len => len
  | .readFdResult (.data bytes) | .readFd (.data bytes) => (bytes.take (offered b)).length
  | .shrink reserve => reserve
  | _ => 0

/-- The bounds asserted, and `kCheapPrepend + readable + len` a `size_t`. -/
def Allowed (h : Heap) : HOp → Prop
  | .make _ | .swap _ _ => True
  | .on i op => ∀ b, h[i]? = some b → Asserted b op ∧ kCheapPrepend + readableBytes b + lenOf b op < 2 ^ 64
  | .appendBuffer i j => ∀ a b, h[i]? = some a → h[j]? = some b →
      kCheapPrepend + readableBytes a + (readableView b).length < 2 ^ 64

/-! ## (1) Indices and room -/

/-- The buffer on which `readFdResult` appends the bytes of its stack buffer. -/
def spilled (b : Buf) (bytes : List UInt8) : Buf :=
  hasWritten (copyToTail b ((bytes.take (offered b)).take (writableBytes b))) (writableBytes b)

/-- The `ensureWritableBytes(len)` calls an operation makes, with the object each finds. -/
def ensureCalls (A : Alloc) (b : Buf) : Op → List (Buf × Nat)
  | .append data => if data.length = 0 then [] else [(b, data.length)]
  | .appendInt t _ => [(b, t.size)]
  | .ensureWritableBytes len => [(b, len)]
  | .readFdResult (.data bytes) | .readFd (.data bytes) =>
    if (bytes.take (offered b)).length ≤ writableBytes b then []
    else [(spilled b bytes, (bytes.take (offered b)).length - writableBytes b)]
  | .shrink reserve =>
    match make A (wadd 64 (readableBytes b) reserve) with
    | .ok other => if (readableView b).length = 0 then [] else [(other, (readableView b).length)]
    | .error _ => []
  | _ => []

def ensureCallsH (A : Alloc) (h : Heap) : HOp → List (Buf × Nat)
  | .make _ | .swap _ _ => []
  | .on i op => (h[i]?.map fun b => ensureCalls A b op).getD []
  | .appendBuffer i j =>
    match h[i]?, h[j]? with
    | some a, some b => if (readableView b).length = 0 then [] else [(a, (readableView b).length)]
    | _, _ => []

/-- No `kCheapPrepend + initialSize` wraps, and no `makeSpace` finds fewer than
    `kCheapPrepend` bytes outside the readable ones. -/
def RoomMet (A : Alloc) (h : Heap) (op : HOp) : Prop :=
  (∀ n, op = .make n → kCheapPrepend + n < 2 ^ 64) ∧ ∀ c ∈ ensureCallsH A h op, RoomOk c.1 c.2

/-- The heaps a run reaches when every step meets `C`. -/
inductive Reach (C : Alloc → Heap → HOp → Prop) : Heap → Prop
  | init : Reach C []
  | step {h : Heap} (A : Alloc) (op : HOp) : Reach C h → Allowed h op → C A h op → Reach C (execH A h op).2

def AllWF (h : Heap) : Prop := ∀ b ∈ h, WF b

theorem make_wf {A : Alloc} {n : Nat} {b : Buf} (hn : kCheapPrepend + n < 2 ^ 64) (h : make A n = .ok b) :
    WF b ∧ readableView b = [] ∧ b.readerIndex = kCheapPrepend ∧ b.buf.length = kCheapPrepend + n := by
  have e : wadd 64 kCheapPrepend n = kCheapPrepend + n := wadd_eq hn
  simp only [make, e] at h
  split at h
  · rename_i hg
    injection h with h
    subst h
    have := A.max_size _ hg
    refine ⟨⟨Nat.le_refl _, by simp, by simp, by simpa using this⟩, readableView_eq_nil ?_, rfl, by simp⟩
    exact readableBytes_at_front (n := 0) (by rw [kCheapPrepend_eq]; omega)
  · cases h

theorem spilled_wf {b : Buf} (hb : WF b) (bytes : List UInt8) (h : writableBytes b < (bytes.take (offered b)).length) :
    WF (spilled b bytes) ∧
      readableView (spilled b bytes) = readableView b ++ (bytes.take (offered b)).take (writableBytes b) ∧
      (spilled b bytes).readerIndex = b.readerIndex ∧
      readableBytes (spilled b bytes) = readableBytes b + writableBytes b := by
  have hl : ((bytes.take (offered b)).take (writableBytes b)).length = writableBytes b := by
    rw [List.length_take]; omega
  obtain ⟨h1, h2⟩ := hasWritten_copyToTail hb (Nat.le_of_eq hl)
  rw [hl] at h1 h2
  refine ⟨h1, h2, rfl, ?_⟩
  have := congrArg List.length h2
  rwa [length_readableView h1, List.length_append, length_readableView hb, hl] at this

theorem spilled_eq (b : Buf) (bytes : List UInt8) :
    hasWritten (copyToTail b ((bytes.take (offered b)).take (writableBytes b))) (writableBytes b) = spilled b bytes := rfl

theorem readFdResult_state (A : Alloc) {b : Buf} (hb : WF b) (bytes : List UInt8) :
    (readFdResult A b (.data bytes)).2 =
      if (bytes.take (offered b)).length ≤ writableBytes b then
        hasWritten (copyToTail b (bytes.take (offered b))) (bytes.take (offered b)).length
      else (append A (spilled b bytes) ((bytes.take (offered b)).drop (writableBytes b))).2 := by
  have htake : (bytes.take (offered b)).length ≤ writableBytes b →
      (bytes.take (offered b)).take (writableBytes b) = bytes.take (offered b) := List.take_of_length_le
  unfold readFdResult
  simp only
  by_cases h0 : (bytes.take (offered b)).length = 0
  · rw [if_pos h0, if_pos (by omega), htake (by omega), h0, hasWritten_zero (copyToTail_wf hb _)]
  · rw [if_neg h0]
    split
    · rename_i hle; rw [htake hle]
    · rw [spilled_eq]
      rcases append A (spilled b bytes) ((bytes.take (offered b)).drop (writableBytes b)) with ⟨_ | _, b'⟩ <;> rfl

/-- The exception of a `readFdResult` is that of the append of the spilled bytes. -/
theorem readFdResult_throws (A : Alloc) (b : Buf) (bytes : List UInt8) :
    (outcome (readFdResult A b (.data bytes))).1 =
      if (bytes.take (offered b)).length ≤ writableBytes b then none
      else (outcome (append A (spilled b bytes) ((bytes.take (offered b)).drop (writableBytes b)))).1 := by
  unfold readFdResult
  simp only
  by_cases h0 : (bytes.take (offered b)).length = 0
  · rw [if_pos h0, if_pos (by omega)]; rfl
  · rw [if_neg h0]
    split
    · rfl
    · rw [spilled_eq]
      rcases append A (spilled b bytes) ((bytes.take (offered b)).drop (writableBytes b)) with ⟨_ | _, b'⟩ <;> rfl

/-- `readFdResult` appends what the kernel delivered; only the append of the spilled bytes
    can throw. -/
theorem readFdResult_spec (A : Alloc) {b : Buf} (hb : WF b) (bytes : List UInt8)
    (hroom : writableBytes b < (bytes.take (offered b)).length →
      RoomOk (spilled b bytes) ((bytes.take (offered b)).length - writableBytes b))
    (hlen : kCheapPrepend + readableBytes b + (bytes.take (offered b)).length < 2 ^ 64) :
    WF (readFdResult A b (.data bytes)).2 ∧
      (kCheapPrepend ≤ b.readerIndex → kCheapPrepend ≤ (readFdResult A b (.data bytes)).2.readerIndex) ∧
      (readableView (readFdResult A b (.data bytes)).2 = readableView b ++ bytes.take (offered b) ∨
       (writableBytes b < (bytes.take (offered b)).length ∧
        (append A (spilled b bytes) ((bytes.take (offered b)).drop (writableBytes b))).1 = .error .noStorage)) := by
  rw [readFdResult_state A hb]
  generalize hgot : bytes.take (offered b) = got at *
  split
  · rename_i hle
    obtain ⟨h1, h2⟩ := hasWritten_copyToTail hb hle
    exact ⟨h1, id, Or.inl h2⟩
  · rename_i hgt
    have hgt : writableBytes b < got.length := by omega
    obtain ⟨hs1, hs2, hs3, hs4⟩ := spilled_wf hb bytes (by rw [hgot]; exact hgt)
    rw [hgot] at hs2
    have hd : (got.drop (writableBytes b)).length = got.length - writableBytes b := List.length_drop
    have hr : RoomOk (spilled b bytes) (got.drop (writableBytes b)).length := by rw [hd]; exact hroom hgt
    obtain ⟨h1, h2, h3⟩ := append_spec A hs1 hr (by rw [hd, hs4]; omega)
    refine ⟨h1, fun hk => h2 (by rw [hs3]; exact hk), ?_⟩
    rcases h3 with ⟨_, hv⟩ | ⟨he, _⟩
    · exact Or.inl (by rw [hv, hs2, List.append_assoc, List.take_append_drop])
    · exact Or.inr ⟨hgt, he⟩

theorem readFdResult_fail (A : Alloc) (b : Buf) (err : Nat) : (readFdResult A b (.fail err)).2 = b := by
  unfold readFdResult
  simp only
  split <;> rfl

theorem readFd_state (A : Alloc) (b : Buf) (r : SysRead) : (readFd A b r).2 = (readFdResult A b r).2 := by
  unfold readFd
  rcases readFdResult A b r with ⟨_ | _, b'⟩ <;> rfl

/-- The cast of a `write` result to `int` is exact: one call transfers at most `maxRwCount`. -/
theorem socketWrite_take (n len : Nat) : socketWrite (.take n) len = taken (.take n) len :=
  toSigned_small (by simp only [taken, maxRwCount]; omega)

/-- `writeFdResult` retrieves exactly the bytes the kernel took. -/
theorem writeFdResult_state {b : Buf} (hb : WF b) (r : SysWrite) :
    WF (writeFdResult b r).2 ∧ (kCheapPrepend ≤ b.readerIndex → kCheapPrepend ≤ (writeFdResult b r).2.readerIndex) ∧
      readableView (writeFdResult b r).2 = (readableView b).drop (taken r (readableView b).length) := by
  rw [length_readableView hb]
  unfold writeFdResult
  simp only
  split
  · rename_i h0
    exact ⟨hb, id, by simp [readableView_eq_nil h0]⟩
  · cases r with
    | fail err =>
      have hn : ¬ (0 : Int) < socketWrite (.fail err) (readableBytes b) := by simp [socketWrite]
      have hz : ¬ socketWrite (.fail err) (readableBytes b) = 0 := by simp [socketWrite]
      rw [if_neg hn, if_neg hz]
      split <;> exact ⟨hb, id, by simp [taken]⟩
    | take n =>
      rw [socketWrite_take]
      generalize taken (.take n) (readableBytes b) = k
      by_cases hk : k = 0
      · subst hk
        exact ⟨hb, id, by simp⟩
      · rw [if_pos (by omega)]
        simp only [Int.toNat_natCast]
        exact ⟨retrieve_wf hb k, fun h => le_readerIndex_retrieve hb h k, readableView_retrieve hb k⟩

theorem appendInt_eq (A : Alloc) (b : Buf) (t : IntTy) (v : Int) :
    appendInt t A b v = appendBytes A b (beEncode t.size (raw t v)) := by
  have wide : ∀ t, appendWide t A b v = appendBytes A b (beEncode t.size (raw t v)) := by
    intro t; unfold appendWide; rw [writeInteger_eq]
  have byte : ∀ t : IntTy, t.size = 1 → appendByte t A b v = appendBytes A b (beEncode t.size (raw t v)) := by
    intro t ht
    have e : store native t.size (raw t v) = beEncode t.size (raw t v) := by rw [ht]; rfl
    unfold appendByte append
    rw [e, if_neg (by rw [length_beEncode, ht]; omega)]
  cases t
  · exact byte .int8 rfl
  · exact wide _
  · exact wide _
  · exact wide _
  · exact byte .uint8 rfl
  · exact wide _
  · exact wide _
  · exact wide _

theorem readInt_wf {b : Buf} (hb : WF b) (t : IntTy) : WF (readInt t b).2 := by
  unfold readInt
  split
  · exact hb
  · exact retrieve_wf hb _

theorem retrieveAsString_wf {b : Buf} (hb : WF b) (len : Nat) : WF (retrieveAsString b len).2 := by
  unfold retrieveAsString
  split
  · exact hb
  · exact retrieve_wf hb _

/-- `shrink` leaves the readable bytes in storage of their own size, or throws and changes nothing. -/
theorem shrink_spec (A : Alloc) {b : Buf} (hb : WF b) {reserve : Nat}
    (hn : kCheapPrepend + wadd 64 (readableBytes b) reserve < 2 ^ 64) :
    WF (shrink A b reserve).2 ∧ readableView (shrink A b reserve).2 = readableView b ∧
      (kCheapPrepend ≤ b.readerIndex → kCheapPrepend ≤ (shrink A b reserve).2.readerIndex) ∧
      (outcome (shrink A b reserve)).1 ∈ [none, some .noStorage] := by
  have hk := kCheapPrepend_eq
  have h1 := readableBytes_add hb
  have h2 := hb.inside
  have h3 := hb.bounded
  unfold shrink
  rcases hm : make A (wadd 64 (readableBytes b) reserve) with e | other
  · have he : e = .noStorage := by
      simp only [make] at hm
      split at hm
      · cases hm
      · injection hm with hm; exact hm.symm
    subst he
    exact ⟨hb, rfl, id, by simp [outcome]⟩
  · obtain ⟨hw, hv, hrd, _⟩ := make_wf hn hm
    have h0 : readableBytes other = 0 := by rw [← length_readableView hw, hv]; rfl
    obtain ⟨ha, hka, hc⟩ := append_spec A hw (roomOk_of_reserve (by omega) (readableView b).length)
      (by rw [length_readableView hb]; omega)
    rcases hap : append A other (readableView b) with ⟨r, other'⟩
    rw [hap] at ha hka hc
    rcases hc with ⟨hr, hview⟩ | ⟨hr, _⟩ <;> simp only at hr hap ⊢ <;> subst hr <;> simp only [hap]
    · exact ⟨ha, by simpa [hv, swap] using hview, fun _ => hka (by omega), by simp [outcome]⟩
    · exact ⟨hb, trivial, id, by simp [outcome]⟩

/-- One operation keeps the invariant, when each `ensureWritableBytes` call it makes finds room. -/
theorem exec_wf (A : Alloc) {b : Buf} (hb : WF b) {op : Op} (ha : Asserted b op)
    (hl : kCheapPrepend + readableBytes b + lenOf b op < 2 ^ 64)
    (hroom : ∀ c ∈ ensureCalls A b op, RoomOk c.1 c.2) : WF (exec A b op).2 := by
  have hfd : ∀ r, (∀ c ∈ ensureCalls A b (.readFdResult r), RoomOk c.1 c.2) →
      kCheapPrepend + readableBytes b + lenOf b (.readFdResult r) < 2 ^ 64 → WF (readFdResult A b r).2 := by
    intro r hroom hl
    cases r with
    | fail err => rw [readFdResult_fail]; exact hb
    | data bytes =>
      refine (readFdResult_spec A hb bytes (fun hgt => ?_) hl).1
      exact hroom (spilled b bytes, _) (by simp only [ensureCalls, if_neg (Nat.not_le.mpr hgt), List.mem_singleton])
  cases op with
  | append data =>
    rw [exec, outcome_snd]
    by_cases h0 : data.length = 0
    · rw [append, if_pos h0]; exact hb
    · exact (append_spec A hb (by simpa [ensureCalls, h0] using hroom) hl).1
  | appendInt t v =>
    rw [exec, outcome_snd, appendInt_eq]
    refine (appendBytes_spec A hb ?_ ?_).1
    · rw [length_beEncode]; simpa [ensureCalls] using hroom
    · rw [length_beEncode]; exact hl
  | prepend data => rw [exec, outcome_snd]; exact prepend_wf hb data
  | prependInt t v => rw [exec, outcome_snd]; exact prependInt_wf hb t v
  | retrieve len => exact retrieve_wf hb len
  | retrieveUntil len => exact retrieve_wf hb len
  | retrieveAll => exact retrieveAll_wf hb
  | retrieveAsString len => rw [exec, outcome_snd]; exact retrieveAsString_wf hb len
  | retrieveAllAsString => rw [exec, outcome_snd]; exact retrieveAsString_wf hb _
  | readInt t => rw [exec, outcome_snd]; exact readInt_wf hb t
  | ensureWritableBytes len =>
    rw [exec, outcome_snd]
    exact (ensureWritableBytes_spec A hb (by simpa [ensureCalls] using hroom)).1
  | hasWritten data => exact (hasWritten_copyToTail hb ha).1
  | unwrite len => exact unwrite_wf hb ha
  | readFdResult r => rw [exec, outcome_snd]; exact hfd r hroom hl
  | readFd r =>
    rw [exec, outcome_snd, readFd_state]
    exact hfd r (by cases r <;> exact hroom) (by cases r <;> exact hl)
  | writeFdResult r => exact (writeFdResult_state hb r).1
  | writeFd r => exact (writeFdResult_state hb r).1
  | shrink reserve =>
    rw [exec, outcome_snd]
    have e : wadd 64 (readableBytes b) reserve ≤ readableBytes b + reserve := wadd_le _ _ _
    exact (shrink_spec A hb (by simp only [lenOf] at hl; omega)).1
  | clear => exact retrieveAll_wf hb

/-- The object each call finds is well formed, and its sum is a `size_t`. -/
theorem ensureCalls_wf (A : Alloc) {b : Buf} (hb : WF b) {op : Op}
    (hl : kCheapPrepend + readableBytes b + lenOf b op < 2 ^ 64) :
    ∀ c ∈ ensureCalls A b op, WF c.1 ∧ kCheapPrepend + readableBytes c.1 + c.2 < 2 ^ 64 := by
  have hfd : ∀ bytes : List UInt8, kCheapPrepend + readableBytes b + (bytes.take (offered b)).length < 2 ^ 64 →
      ¬ (bytes.take (offered b)).length ≤ writableBytes b → WF (spilled b bytes) ∧ kCheapPrepend +
        readableBytes (spilled b bytes) + ((bytes.take (offered b)).length - writableBytes b) < 2 ^ 64 := by
    intro bytes hl hgt
    obtain ⟨h1, _, _, h4⟩ := spilled_wf hb bytes (by omega)
    exact ⟨h1, by omega⟩
  intro c hc
  cases op with
  | append data =>
    simp only [ensureCalls] at hc
    split at hc
    · cases hc
    · rw [List.mem_singleton] at hc; subst hc; exact ⟨hb, hl⟩
  | appendInt t v => simp only [ensureCalls, List.mem_singleton] at hc; subst hc; exact ⟨hb, hl⟩
  | ensureWritableBytes len => simp only [ensureCalls, List.mem_singleton] at hc; subst hc; exact ⟨hb, hl⟩
  | readFdResult r =>
    cases r with
    | fail err => cases hc
    | data bytes =>
      simp only [ensureCalls] at hc
      split at hc
      · cases hc
      · rename_i hgt; rw [List.mem_singleton] at hc; subst hc; exact hfd bytes hl hgt
  | readFd r =>
    cases r with
    | fail err => cases hc
    | data bytes =>
      simp only [ensureCalls] at hc
      split at hc
      · cases hc
      · rename_i hgt; rw [List.mem_singleton] at hc; subst hc; exact hfd bytes hl hgt
  | shrink reserve =>
    simp only [ensureCalls] at hc
    split at hc
    · rename_i other hm
      split at hc
      · cases hc
      · rw [List.mem_singleton] at hc
        subst hc
        have e : wadd 64 (readableBytes b) reserve ≤ readableBytes b + reserve := wadd_le _ _ _
        simp only [lenOf] at hl
        obtain ⟨h1, h2, _, _⟩ := make_wf (by omega) hm
        have h0 : readableBytes other = 0 := by rw [← length_readableView h1, h2]; rfl
        exact ⟨h1, by simp only [length_readableView hb, h0]; omega⟩
    · cases hc
  | _ => cases hc

theorem mem_set {α : Type} {h : List α} {i : Nat} {x b : α} (hm : b ∈ h.set i x) : b ∈ h ∨ b = x :=
  List.mem_or_eq_of_mem_set hm

/-- One heap step keeps every buffer well formed. -/
theorem execH_wf (A : Alloc) {h : Heap} (hh : AllWF h) {op : HOp} (ha : Allowed h op) (hc : RoomMet A h op) :
    AllWF (execH A h op).2 := by
  cases op with
  | make n =>
    simp only [execH]
    split
    · rename_i b hm
      intro x hx
      rcases List.mem_append.mp hx with hx | hx
      · exact hh x hx
      · rw [List.mem_singleton] at hx; subst hx; exact (make_wf (hc.1 n rfl) hm).1
    · exact hh
  | on i op =>
    simp only [execH]
    split
    · rename_i b hi
      have hb := hh b (List.mem_of_getElem? hi)
      obtain ⟨h1, h2⟩ := ha b hi
      intro x hx
      rcases mem_set hx with hx | rfl
      · exact hh x hx
      · exact exec_wf A hb h1 h2 (fun c hcm => hc.2 c (by simpa [ensureCallsH, hi] using hcm))
    · exact hh
  | swap i j =>
    simp only [execH]
    split
    · rename_i a b hi hj
      intro x hx
      rcases mem_set hx with hx | rfl
      · rcases mem_set hx with hx | rfl
        · exact hh x hx
        · exact hh _ (List.mem_of_getElem? hj)
      · exact hh _ (List.mem_of_getElem? hi)
    · exact hh
  | appendBuffer i j =>
    simp only [execH]
    split
    · rename_i a b hi hj
      have hwa := hh a (List.mem_of_getElem? hi)
      intro x hx
      rcases mem_set hx with hx | rfl
      · exact hh x hx
      · by_cases h0 : (readableView b).length = 0
        · rw [appendBuffer, append, if_pos h0]; exact hwa
        · have hmem : (a, (readableView b).length) ∈ ensureCallsH A h (.appendBuffer i j) := by
            simp only [ensureCallsH, hi, hj, if_neg h0, List.mem_singleton]
          exact (append_spec A hwa (hc.2 _ hmem) (ha a b hi hj)).1
    · exact hh

theorem reach_wf {h : Heap} (hr : Reach RoomMet h) : AllWF h := by
  induction hr with
  | init => intro b hb; cases hb
  | step A op _ ha hc ih => exact execH_wf A ih ha hc

/-- The object each call of a heap step finds is well formed, and its sum is a `size_t`. -/
theorem ensureCallsH_wf (A : Alloc) {h : Heap} (hh : AllWF h) {op : HOp} (ha : Allowed h op) :
    ∀ c ∈ ensureCallsH A h op, WF c.1 ∧ kCheapPrepend + readableBytes c.1 + c.2 < 2 ^ 64 := by
  intro c hc
  cases op with
  | make n => cases hc
  | swap i j => cases hc
  | on i op =>
    simp only [ensureCallsH] at hc
    rcases hi : h[i]? with _ | b
    · simp [hi] at hc
    · rw [hi] at hc
      exact ensureCalls_wf A (hh b (List.mem_of_getElem? hi)) (ha b hi).2 c hc
  | appendBuffer i j =>
    simp only [ensureCallsH] at hc
    split at hc
    · rename_i a b hi hj
      split at hc
      · cases hc
      · rw [List.mem_singleton] at hc; subst hc
        exact ⟨hh a (List.mem_of_getElem? hi), ha a b hi hj⟩
    · cases hc

/-- (1) Along every run that meets `RoomMet`, the indices are ordered and inside the storage,
    and every `ensureWritableBytes(len)` call that returns leaves `len` writable bytes. -/
theorem indices_and_room {h : Heap} (hr : Reach RoomMet h) :
    (∀ b ∈ h, b.readerIndex ≤ b.writerIndex ∧ b.writerIndex ≤ b.buf.length) ∧
    ∀ A op, Allowed h op → RoomMet A h op → ∀ c ∈ ensureCallsH A h op,
      (ensureWritableBytes A c.1 c.2).1 = .ok () → c.2 ≤ writableBytes (ensureWritableBytes A c.1 c.2).2 := by
  have hh := reach_wf hr
  refine ⟨fun b hb => ⟨(hh b hb).order, (hh b hb).inside⟩, fun A op ha hc c hm hok => ?_⟩
  obtain ⟨hw, hl⟩ := ensureCallsH_wf A hh ha c hm
  exact ensureWritableBytes_room A hw (hc.2 c hm) hl hok

/-- The allocator that refuses only what `max_size()` forbids. -/
def roomy : Alloc := ⟨fun n => decide (n < 2 ^ 63), fun _ h => of_decide_eq_true h⟩

/-- A buffer of 16 bytes, three of them appended. -/
theorem indices_and_room_three :
    let h := (execH roomy (execH roomy [] (.make 16)).2 (.on 0 (.append [1, 2, 3]))).2
    h.length = 1 ∧ ∀ b ∈ h, b.readerIndex ≤ b.writerIndex ∧ b.writerIndex ≤ b.buf.length := by
  intro h
  have h1 : Reach RoomMet (execH roomy [] (.make 16)).2 := by
    refine .step roomy _ .init trivial ⟨fun n hn => ?_, fun c hc => by cases hc⟩
    injection hn with hn; subst hn; decide
  have h2 : Reach RoomMet h := by
    refine .step roomy _ h1 (fun b hb => ?_) ⟨fun n hn => (by cases hn), fun c hc => ?_⟩
    · have e : b = ⟨List.replicate 24 0, 8, 8⟩ := Option.some.inj (hb.symm.trans rfl)
      subst e; exact ⟨trivial, by decide⟩
    · have e : c = (⟨List.replicate 24 0, 8, 8⟩, 3) := List.mem_singleton.mp hc
      subst e; decide
  exact ⟨rfl, (indices_and_room h2).1⟩

/-- Eight bytes prepended to an empty 8-byte storage leave `writable + prependable = 0`;
    the next `ensureWritableBytes(1)` computes `0 - 8`, compacts, and ends with
    `writerIndex = 16` in a storage of 8. -/
theorem prepend_then_append_overruns :
    ∃ h, Reach (fun _ _ _ => True) h ∧ ∃ b ∈ h, ¬ b.writerIndex ≤ b.buf.length := by
  have h1 : Reach (fun _ _ _ => True) (execH roomy [] (.make 0)).2 := .step roomy _ .init trivial trivial
  have h2 := Reach.step roomy (.on 0 (.prepend [1, 2, 3, 4, 5, 6, 7, 8])) h1
    (fun b hb => by
      have e : b = ⟨List.replicate 8 0, 8, 8⟩ := Option.some.inj (hb.symm.trans rfl)
      subst e; exact ⟨trivial, by decide⟩) trivial
  have h3 := Reach.step roomy (.on 0 (.ensureWritableBytes 1)) h2
    (fun b hb => by
      have e : b = ⟨[1, 2, 3, 4, 5, 6, 7, 8], 0, 8⟩ := Option.some.inj (hb.symm.trans (by rfl))
      subst e; exact ⟨trivial, by decide⟩) trivial
  exact ⟨_, h3, ⟨[1, 2, 3, 4, 5, 6, 7, 8], 8, 16⟩, by decide, by decide⟩

/-! ## (2) The readable bytes as a plain byte list -/

/-- What each operation is for, on the readable bytes alone. -/
def absOp (q : List UInt8) : Op → List UInt8
  | .append data | .hasWritten data => q ++ data
  | .appendInt t v => q ++ beEncode t.size (raw t v)
  | .prepend data => data ++ q
  | .prependInt t v => beEncode t.size (raw t v) ++ q
  | .retrieve len | .retrieveUntil len => q.drop len
  | .retrieveAll | .clear | .retrieveAllAsString => []
  | .retrieveAsString len => if len ≤ q.length then q.drop len else q
  | .readInt t => if t.size ≤ q.length then q.drop t.size else q
  | .ensureWritableBytes _ | .shrink _ => q
  | .unwrite len => q.take (q.length - len)
  | .readFdResult (.data bytes) | .readFd (.data bytes) => q ++ bytes
  | .readFdResult (.fail _) | .readFd (.fail _) => q
  | .writeFdResult r | .writeFd r => q.drop (taken r q.length)

def absH (q : List (List UInt8)) : HOp → List (List UInt8)
  | .make _ => q ++ [[]]
  | .on i op =>
    match q[i]? with
    | some x => q.set i (absOp x op)
    | none => q
  | .swap i j =>
    match q[i]?, q[j]? with
    | some x, some y => (q.set i y).set j x
    | _, _ => q
  | .appendBuffer i j =>
    match q[i]?, q[j]? with
    | some x, some y => q.set i (x ++ y)
    | _, _ => q

/-- The operations of a run without `prepend`: bounds asserted, data blocks that exist
    (no object is larger than `PTRDIFF_MAX`), data not aliasing the buffer, and no more
    bytes from the kernel than the vectors offer. -/
def Plain (b : Buf) : Op → Prop
  | .prepend _ | .prependInt _ _ | .hasWritten _ => False
  | .unwrite len | .retrieveUntil len => len ≤ readableBytes b
  | .append data => data.length < 2 ^ 63
  | .readFdResult (.data bytes) | .readFd (.data bytes) => bytes.length ≤ offered b
  | _ => True

def PlainH (h : Heap) : HOp → Prop
  | .make _ | .swap _ _ => True
  | .on i op => ∀ b, h[i]? = some b → Plain b op
  | .appendBuffer i j => i ≠ j

/-- The storage the spilled bytes of a `readFdResult` are appended to can be had. -/
def SpillGranted (A : Alloc) (b : Buf) (bytes : List UInt8) : Prop :=
  writableBytes b < bytes.length →
    (spilled b bytes).buf.length < kCheapPrepend + readableBytes b + bytes.length →
      A.grants (newSize (spilled b bytes) (bytes.length - writableBytes b)) = true

/-- No constructor's `kCheapPrepend + initialSize` wraps, and spilled bytes find storage. -/
def Sized (A : Alloc) (b : Buf) : Op → Prop
  | .shrink reserve => kCheapPrepend + wadd 64 (readableBytes b) reserve < 2 ^ 64
  | .readFdResult (.data bytes) | .readFd (.data bytes) => SpillGranted A b bytes
  | _ => True

def SizedH (A : Alloc) (h : Heap) : HOp → Prop
  | .make n => kCheapPrepend + n < 2 ^ 64
  | .on i op => ∀ b, h[i]? = some b → Sized A b op
  | .swap _ _ | .appendBuffer _ _ => True

/-- The code and the plain model side by side, every step meeting `C`. A step the
    allocator refuses is not taken by the model. -/
inductive Sim (C : Alloc → Heap → HOp → Prop) : Heap → List (List UInt8) → Prop
  | init : Sim C [] []
  | step {h : Heap} {q : List (List UInt8)} (A : Alloc) (op : HOp) : Sim C h q → PlainH h op → C A h op →
      Sim C (execH A h op).2 (if (execH A h op).1 = some .noStorage then q else absH q op)

/-- Well formed, with the prepend reserve in front. -/
def Tidy (b : Buf) : Prop := WF b ∧ kCheapPrepend ≤ b.readerIndex

theorem length_readableView_lt {b : Buf} (hb : Tidy b) : kCheapPrepend + (readableView b).length < 2 ^ 63 := by
  have h1 := readableBytes_add hb.1
  have h2 := hb.1.inside
  have h3 := hb.1.bounded
  have h4 := hb.2
  rw [length_readableView hb.1]
  omega

/-- What a step does to the readable bytes, with the model's answer beside it. -/
def Follows (b : Buf) (r : Option Err × Buf) (x : List UInt8) : Prop :=
  Tidy r.2 ∧ readableView r.2 = if r.1 = some .noStorage then readableView b else x

theorem follows_ok {b b' : Buf} {x : List UInt8} (ht : Tidy b') (h : readableView b' = x) : Follows b (none, b') x :=
  ⟨ht, by simpa using h⟩

/-- An append to a tidy buffer appends, or throws and changes nothing. -/
theorem append_follows (A : Alloc) {b : Buf} (hb : Tidy b) {data : List UInt8} (hd : data.length < 2 ^ 63) :
    Follows b (outcome (append A b data)) (readableView b ++ data) := by
  have hlt := length_readableView_lt hb
  rw [length_readableView hb.1] at hlt
  obtain ⟨h1, h2, h3⟩ := append_spec A hb.1 (roomOk_of_reserve hb.2 data.length) (by omega)
  unfold Follows
  rw [outcome_snd]
  refine ⟨⟨h1, h2 hb.2⟩, ?_⟩
  rcases h3 with ⟨hr, hv⟩ | ⟨hr, hv⟩
  · rw [outcome_ok hr, hv, if_neg (by simp)]
  · rw [outcome_error hr, hv, if_pos rfl]

theorem size_pos (t : IntTy) : 0 < t.size := by cases t <;> decide

theorem appendInt_follows (A : Alloc) {b : Buf} (hb : Tidy b) (t : IntTy) (v : Int) :
    Follows b (outcome (appendInt t A b v)) (readableView b ++ beEncode t.size (raw t v)) := by
  have hs : t.size ≤ 8 := by cases t <;> decide
  have e : appendInt t A b v = append A b (beEncode t.size (raw t v)) := by
    have := size_pos t
    rw [appendInt_eq, append, if_neg (by rw [length_beEncode]; omega)]
  rw [e]
  exact append_follows A hb (by rw [length_beEncode]; omega)

theorem retrieve_tidy {b : Buf} (hb : Tidy b) (len : Nat) : Tidy (retrieve b len) :=
  ⟨retrieve_wf hb.1 len, le_readerIndex_retrieve hb.1 hb.2 len⟩

theorem retrieveAll_tidy {b : Buf} (hb : Tidy b) : Tidy (retrieveAll b) := ⟨retrieveAll_wf hb.1, Nat.le_refl _⟩

theorem retrieveAsString_follows {b : Buf} (hb : Tidy b) (len : Nat) :
    Follows b (outcome (retrieveAsString b len))
      (if len ≤ (readableView b).length then (readableView b).drop len else readableView b) := by
  rw [length_readableView hb.1]
  unfold retrieveAsString
  split
  · rename_i h
    rw [if_neg (by omega)]
    exact ⟨hb, by simp [outcome]⟩
  · rename_i h
    rw [if_pos (by omega)]
    exact follows_ok (retrieve_tidy hb len) (readableView_retrieve hb.1 len)

theorem readInt_follows {b : Buf} (hb : Tidy b) (t : IntTy) :
    Follows b (outcome (readInt t b))
      (if t.size ≤ (readableView b).length then (readableView b).drop t.size else readableView b) := by
  rw [length_readableView hb.1]
  unfold readInt
  by_cases h : t.size ≤ readableBytes b
  · rw [peekInt_eq hb.1 h, if_pos h]
    exact follows_ok (retrieve_tidy hb _) (readableView_retrieve hb.1 _)
  · obtain ⟨what, hp⟩ := peekInt_short t (show readableBytes b < t.size by omega)
    rw [hp, if_neg h]
    exact ⟨hb, by simp [outcome]⟩

theorem readFdResult_follows (A : Alloc) {b : Buf} (hb : Tidy b) {bytes : List UInt8} (hp : bytes.length ≤ offered b)
    (hs : SpillGranted A b bytes) : Follows b (outcome (readFdResult A b (.data bytes))) (readableView b ++ bytes) := by
  have htake : bytes.take (offered b) = bytes := List.take_of_length_le hp
  have hlt := length_readableView_lt hb
  rw [length_readableView hb.1] at hlt
  have hlen : kCheapPrepend + readableBytes b + (bytes.take (offered b)).length < 2 ^ 64 := by
    have h1 := hb.1.bounded
    have h2 := writableBytes_eq hb.1
    have h3 : offered b ≤ writableBytes b + extraBytes := by unfold offered; split <;> omega
    have h4 : extraBytes = 65536 := rfl
    have h5 := readableBytes_add hb.1
    have h6 := hb.1.inside
    have h7 := kCheapPrepend_eq
    rw [htake]
    omega
  -- the spilled bytes find their storage, so their append does not throw
  have hok : writableBytes b < bytes.length → (append A (spilled b bytes) (bytes.drop (writableBytes b))).1 = .ok () := by
    intro hgt
    obtain ⟨s1, _, s3, s4⟩ := spilled_wf hb.1 bytes (by rw [htake]; exact hgt)
    have hd : (bytes.drop (writableBytes b)).length = bytes.length - writableBytes b := List.length_drop
    exact append_ok A s1 (roomOk_of_reserve (by rw [s3]; exact hb.2) _)
      (fun h => by rw [hd] at h ⊢; exact hs hgt (by omega))
  have hnone : (outcome (readFdResult A b (.data bytes))).1 = none := by
    rw [readFdResult_throws, htake]
    split
    · rfl
    · exact outcome_ok (hok (by omega))
  obtain ⟨h1, h2, h3⟩ := readFdResult_spec A hb.1 bytes (fun _ => roomOk_of_reserve (b := spilled b bytes) hb.2 _) hlen
  rw [htake] at h3
  unfold Follows
  rw [outcome_snd, hnone, if_neg (by simp)]
  refine ⟨⟨h1, h2 hb.2⟩, ?_⟩
  rcases h3 with h3 | ⟨hgt, he⟩
  · exact h3
  · rw [hok hgt] at he; cases he

theorem outcome_readFd (A : Alloc) (b : Buf) (r : SysRead) :
    outcome (readFd A b r) = outcome (readFdResult A b r) := by
  unfold readFd
  rcases readFdResult A b r with ⟨_ | _, b'⟩ <;> rfl

theorem readFdResult_fail_follows (A : Alloc) {b : Buf} (hb : Tidy b) (err : Nat) :
    Follows b (outcome (readFdResult A b (.fail err))) (readableView b) := by
  unfold Follows
  rw [outcome_snd, readFdResult_fail]
  exact ⟨hb, by simp⟩

theorem exec_follows (A : Alloc) {b : Buf} (hb : Tidy b) {op : Op} (hp : Plain b op) (hs : Sized A b op) :
    Follows b (exec A b op) (absOp (readableView b) op) := by
  have hwrite : ∀ r, Follows b (none, (writeFdResult b r).2) ((readableView b).drop (taken r (readableView b).length)) := by
    intro r
    obtain ⟨h1, h2, h3⟩ := writeFdResult_state hb.1 r
    exact follows_ok ⟨h1, h2 hb.2⟩ h3
  cases op with
  | append data => exact append_follows A hb hp
  | appendInt t v => exact appendInt_follows A hb t v
  | prepend data => exact hp.elim
  | prependInt t v => exact hp.elim
  | hasWritten data => exact hp.elim
  | retrieve len => exact follows_ok (retrieve_tidy hb len) (readableView_retrieve hb.1 len)
  | retrieveUntil len => exact follows_ok (retrieve_tidy hb len) (readableView_retrieve hb.1 len)
  | retrieveAll => exact follows_ok (retrieveAll_tidy hb) (readableView_retrieveAll b)
  | clear => exact follows_ok (retrieveAll_tidy hb) (readableView_retrieveAll b)
  | retrieveAsString len => exact retrieveAsString_follows hb len
  | retrieveAllAsString =>
    have h := retrieveAsString_follows hb (readableBytes b)
    rw [length_readableView hb.1, if_pos (Nat.le_refl _), ← length_readableView hb.1, List.drop_length,
      length_readableView hb.1] at h
    exact h
  | readInt t => exact readInt_follows hb t
  | ensureWritableBytes len =>
    obtain ⟨h1, h2, h3, _⟩ := ensureWritableBytes_spec A hb.1 (roomOk_of_reserve hb.2 len)
    refine ⟨⟨?_, ?_⟩, ?_⟩
    · rw [exec, outcome_snd]; exact h1
    · rw [exec, outcome_snd]; exact h3 hb.2
    · rw [exec, outcome_snd, h2]; simp [absOp]
  | unwrite len => exact follows_ok ⟨unwrite_wf hb.1 hp, hb.2⟩ (readableView_unwrite hb.1 hp)
  | readFdResult r =>
    cases r with
    | fail err => exact readFdResult_fail_follows A hb err
    | data bytes => exact readFdResult_follows A hb hp hs
  | readFd r =>
    rw [exec, outcome_readFd]
    cases r with
    | fail err => exact readFdResult_fail_follows A hb err
    | data bytes => exact readFdResult_follows A hb hp hs
  | writeFdResult r => exact hwrite r
  | writeFd r => exact hwrite r
  | shrink reserve =>
    obtain ⟨h1, h2, h3, _⟩ := shrink_spec A hb.1 hs
    refine ⟨⟨?_, ?_⟩, ?_⟩
    · rw [exec, outcome_snd]; exact h1
    · rw [exec, outcome_snd]; exact h3 hb.2
    · rw [exec, outcome_snd, h2]; simp [absOp]

def AllTidy (h : Heap) : Prop := ∀ b ∈ h, Tidy b

theorem make_tidy {A : Alloc} {n : Nat} {b : Buf} (hn : kCheapPrepend + n < 2 ^ 64) (h : make A n = .ok b) :
    Tidy b ∧ readableView b = [] := by
  obtain ⟨h1, h2, h3, _⟩ := make_wf hn h
  exact ⟨⟨h1, h3 ▸ Nat.le_refl _⟩, h2⟩

theorem make_error {A : Alloc} {n : Nat} {e : Err} (h : make A n = .error e) : e = .noStorage := by
  unfold make at h
  simp only at h
  split at h
  · cases h
  · injection h with h; exact h.symm

theorem allTidy_set {h : Heap} (hh : AllTidy h) {i : Nat} {b : Buf} (hb : Tidy b) : AllTidy (h.set i b) := by
  intro x hx
  rcases mem_set hx with hx | rfl
  · exact hh x hx
  · exact hb

/-- A step on one buffer of a heap, and the same step of the model. -/
theorem set_follows {h : Heap} (hh : AllTidy h) {i : Nat} {b : Buf} (hi : h[i]? = some b) {r : Option Err × Buf}
    {x : List UInt8} (hf : Follows b r x) :
    AllTidy (h.set i r.2) ∧
      (h.set i r.2).map readableView = if r.1 = some .noStorage then h.map readableView else (h.map readableView).set i x := by
  refine ⟨allTidy_set hh hf.1, ?_⟩
  rw [List.map_set, hf.2]
  split
  · have hget : (h.map readableView)[i]? = some (readableView b) := by simp [hi]
    obtain ⟨hlt, he⟩ := List.getElem?_eq_some_iff.mp hget
    rw [← he]; exact List.set_getElem_self hlt
  · rfl

theorem execH_follows (A : Alloc) {h : Heap} (hh : AllTidy h) {op : HOp} (hp : PlainH h op) (hs : SizedH A h op) :
    AllTidy (execH A h op).2 ∧ (execH A h op).2.map readableView =
      if (execH A h op).1 = some .noStorage then h.map readableView else absH (h.map readableView) op := by
  cases op with
  | make n =>
    rcases hm : make A n with e | b
    · have he := make_error hm
      subst he
      simp only [execH, hm]
      exact ⟨hh, by simp⟩
    · obtain ⟨ht, hv⟩ := make_tidy hs hm
      simp only [execH, hm]
      refine ⟨fun x hx => ?_, by simp [absH, hv]⟩
      rcases List.mem_append.mp hx with hx | hx
      · exact hh x hx
      · rw [List.mem_singleton] at hx; subst hx; exact ht
  | on i op =>
    simp only [execH, absH, List.getElem?_map]
    rcases hi : h[i]? with _ | b
    · exact ⟨hh, by simp⟩
    · exact set_follows hh hi (exec_follows A (hh b (List.mem_of_getElem? hi)) (hp b hi) (hs b hi))
  | swap i j =>
    simp only [execH, absH, List.getElem?_map]
    rcases hi : h[i]? with _ | a
    · exact ⟨hh, by simp⟩
    · rcases hj : h[j]? with _ | b
      · exact ⟨hh, by simp⟩
      · refine ⟨?_, by simp [swap, List.map_set]⟩
        exact allTidy_set (allTidy_set hh (hh b (List.mem_of_getElem? hj))) (hh a (List.mem_of_getElem? hi))
  | appendBuffer i j =>
    simp only [execH, absH, List.getElem?_map]
    rcases hi : h[i]? with _ | a
    · exact ⟨hh, by simp⟩
    · rcases hj : h[j]? with _ | b
      · exact ⟨hh, by simp⟩
      · have hlt := length_readableView_lt (hh b (List.mem_of_getElem? hj))
        have hlen : (readableView b).length < 2 ^ 63 := by omega
        have hf := append_follows A (hh a (List.mem_of_getElem? hi)) hlen
        have := set_follows hh hi hf
        rw [outcome_snd] at this
        exact this

/-- (2) Along every run without `prepend` that meets `SizedH`, the readable bytes of every
    buffer are those of the plain model. -/
theorem readable_bytes_model {h : Heap} {q : List (List UInt8)} (hs : Sim SizedH h q) : h.map readableView = q := by
  suffices AllTidy h ∧ h.map readableView = q from this.2
  induction hs with
  | init => exact ⟨fun b hb => (by cases hb), rfl⟩
  | step A op _ hp hc ih =>
    obtain ⟨ht, hq⟩ := ih
    obtain ⟨h1, h2⟩ := execH_follows A ht hp hc
    rw [hq] at h2
    exact ⟨h1, h2⟩

/-- Two buffers: bytes appended, read as an integer, compacted by `shrink` and swapped. -/
theorem readable_bytes_model_swap :
    let h0 := (execH roomy (execH roomy [] (.make 4)).2 (.make 0)).2
    let h1 := (execH roomy h0 (.on 0 (.append [1, 2, 3]))).2
    let h2 := (execH roomy (execH roomy h1 (.on 0 (.readInt .uint8))).2 (.swap 0 1)).2
    h2.map readableView = [[], [2, 3]] := by
  intro h0 h1 h2
  have s0 : Sim SizedH h0 [[], []] :=
    .step roomy (.make 0) (.step roomy (.make 4) .init trivial (by show (8 : Nat) + 4 < 2 ^ 64; omega)) trivial
      (by show (8 : Nat) + 0 < 2 ^ 64; omega)
  have s1 : Sim SizedH h1 [[1, 2, 3], []] :=
    .step roomy (.on 0 (.append [1, 2, 3])) s0 (fun b _ => by show (3 : Nat) < 2 ^ 63; omega) (fun _ _ => trivial)
  have s2 : Sim SizedH h2 [[], [2, 3]] :=
    .step roomy (.swap 0 1) (.step roomy (.on 0 (.readInt .uint8)) s1 (fun _ _ => trivial) (fun _ _ => trivial))
      trivial trivial
  exact readable_bytes_model s2

/-- `shrink(2^64 - 9)` on a buffer holding one byte asks the constructor for `2^64 - 8`
    bytes, which adds `kCheapPrepend` and gets none; the byte is copied outside. -/
theorem shrink_wraps_and_drops :
    ∃ h q, Sim (fun _ _ _ => True) h q ∧ h.map readableView ≠ q := by
  have s0 : Sim (fun _ _ _ => True) (execH roomy [] (.make 4)).2 [[]] := .step roomy (.make 4) .init trivial trivial
  have s1 : Sim (fun _ _ _ => True) _ [[7]] :=
    .step roomy (.on 0 (.append [7])) s0 (fun b _ => by show (1 : Nat) < 2 ^ 63; omega) trivial
  have s2 : Sim (fun _ _ _ => True) _ [[7]] := .step roomy (.on 0 (.shrink (2 ^ 64 - 9))) s1 (fun _ _ => trivial) trivial
  exact ⟨_, _, s2, by decide⟩

end Dbase.Net.Buffer
