/-
  Dbase.Net.TcpConnectionFlow — write interest and the read pause of a connection.

  Proved (`write_interest_and_pause`): between two handlers, while the connection is not
  `Disconnected`, the output buffer is non-empty exactly when the channel has write interest,
  and `m_readPausedByFlowControl` is set only while it does. The write event that lifts the
  pause is always still subscribed.

  The coupling is not kept at every callback. The high water mark callback runs after the append
  and before `enableWriting()`, so it may see bytes in the buffer and no interest; what it
  does see, and keeps, is `Weak`. `Keeps` is what a callback, and so every call it makes, owes to
  the handler that called it: `Weak` stays, a non-empty buffer stays non-empty, and interest that
  covers the buffer goes on covering it.
-/

import Dbase.Net.TcpConnectionProofs

namespace Dbase.Net.TcpConnection

open Dbase.Net.Buffer (SysWrite taken socketWrite errnoOf isWouldBlockError)

/-! ## The invariant -/

/-- What holds even inside a callback. -/
structure Weak (c : Conn) : Prop where
  busy : c.channel.writing = true → c.outputBuffer ≠ []
  subscribed : c.readPausedByFlowControl = true → c.channel.writing = true
  enabled : c.readPausedByFlowControl = true → c.autoReadFlowControlEnabled = true

/-- Bytes in the buffer have a write event to come. -/
def Covered (c : Conn) : Prop := c.outputBuffer ≠ [] → c.channel.writing = true

/-- What a call owes to whoever made it. -/
def Keeps (c c' : Conn) : Prop :=
  c'.state ≠ .disconnected →
    c.state ≠ .disconnected ∧
      (Weak c → Weak c' ∧ (c.outputBuffer ≠ [] → c'.outputBuffer ≠ []) ∧ (Covered c → Covered c'))

/-- A change that leaves interest and buffer alone, sets no pause and keeps flow control on under one. -/
structure SameFlow (c c' : Conn) : Prop where
  interest : c'.channel.writing = c.channel.writing
  bytes : c'.outputBuffer = c.outputBuffer
  paused : c'.readPausedByFlowControl = true → c.readPausedByFlowControl = true
  enabled : c'.readPausedByFlowControl = true → c.autoReadFlowControlEnabled = true → c'.autoReadFlowControlEnabled = true

theorem Keeps.refl (c : Conn) : Keeps c c := fun h => ⟨h, fun hw => ⟨hw, id, id⟩⟩

theorem Keeps.trans {a b c : Conn} (hab : Keeps a b) (hbc : Keeps b c) : Keeps a c := by
  intro hc
  obtain ⟨hb, h2⟩ := hbc hc
  obtain ⟨ha, h1⟩ := hab hb
  refine ⟨ha, fun hw => ?_⟩
  obtain ⟨hwb, hob, hcb⟩ := h1 hw
  obtain ⟨hwc, hoc, hcc⟩ := h2 hwb
  exact ⟨hwc, fun h => hoc (hob h), fun h => hcc (hcb h)⟩

theorem Keeps.closed {c c' : Conn} (h : c'.state = .disconnected) : Keeps c c' := fun h' => absurd h h'

theorem SameFlow.unpaused {c c' : Conn} (hi : c'.channel.writing = c.channel.writing)
    (ho : c'.outputBuffer = c.outputBuffer) (hp : c'.readPausedByFlowControl = false) : SameFlow c c' where
  interest := hi
  bytes := ho
  paused h := absurd (hp.symm.trans h) Bool.false_ne_true
  enabled h := absurd (hp.symm.trans h) Bool.false_ne_true

theorem SameFlow.weak {c c' : Conn} (h : SameFlow c c') (hw : Weak c) : Weak c' where
  busy := by rw [h.interest, h.bytes]; exact hw.busy
  subscribed hp := by rw [h.interest]; exact hw.subscribed (h.paused hp)
  enabled hp := h.enabled hp (hw.enabled (h.paused hp))

theorem SameFlow.covered {c c' : Conn} (h : SameFlow c c') (hc : Covered c) : Covered c' := by
  unfold Covered
  rw [h.interest, h.bytes]
  exact hc

theorem SameFlow.keeps {c c' : Conn} (h : SameFlow c c') (hs : c'.state ≠ .disconnected → c.state ≠ .disconnected) :
    Keeps c c' := by
  intro hopen
  refine ⟨hs hopen, fun hw => ⟨h.weak hw, ?_, h.covered⟩⟩
  rw [h.bytes]
  exact id

theorem maybePause_weak {c : Conn} (hw : Weak c) (hi : c.channel.writing = true) :
    Weak (maybePauseReadForFlowControl c) := by
  unfold maybePauseReadForFlowControl
  split
  · exact hw
  · rename_i hen
    have hen' : c.autoReadFlowControlEnabled = true := by simpa using hen
    split
    · exact hw
    · split
      · exact hw
      · simp only
        split
        · exact ⟨hw.busy, fun _ => hi, fun _ => hen'⟩
        · exact ⟨hw.busy, fun _ => hi, fun _ => hen'⟩

theorem maybePause_writing (c : Conn) : (maybePauseReadForFlowControl c).channel.writing = c.channel.writing := by
  unfold maybePauseReadForFlowControl
  repeat' split
  all_goals rfl

/-! ## What the members keep, if the callbacks do -/

section
variable {user : User} (hd : StaysClosed user) (hu : ∀ cb c, Keeps c (user cb c))

include hu in
theorem invoke_keeps (b : Bool) (cb : Cb) (c : Conn) : Keeps c (invoke user b cb c) := by
  unfold invoke
  split
  · exact hu cb c
  · exact Keeps.refl c

include hd in
theorem handleClose_keeps (c : Conn) : Keeps c (handleClose user c) := Keeps.closed (handleClose_closed hd c)

include hd hu in
theorem handleErrorAndClose_keeps (err : Int) (c : Conn) : Keeps c (handleErrorAndClose user err c) := by
  unfold handleErrorAndClose
  simp only
  split
  · exact invoke_keeps hu _ _ c
  · exact Keeps.closed (handleClose_closed hd _)

include hd hu in
theorem handleOutputOverflow_keeps (c : Conn) : Keeps c (handleOutputOverflow user c) := by
  unfold handleOutputOverflow
  split
  · exact Keeps.refl c
  · exact Keeps.closed (handleClose_closed hd _)
  · exact invoke_keeps hu _ _ c

/-- The bytes are in the buffer, the callback has run, and now the interest is on. -/
theorem subscribe_keeps {c c1 c2 : Conn} {data : List UInt8} (hdata : data ≠ [])
    (hcb : Keeps { c with outputBuffer := c.outputBuffer ++ data } c1)
    (hs : c2.state = c1.state) (hi : c2.channel.writing = true) (ho : c2.outputBuffer = c1.outputBuffer)
    (hp : c2.readPausedByFlowControl = c1.readPausedByFlowControl)
    (he : c2.autoReadFlowControlEnabled = c1.autoReadFlowControlEnabled) :
    Keeps c (maybePauseReadForFlowControl c2) := by
  intro hopen
  obtain ⟨h1, -, -, h4⟩ := maybePause_fields c2
  rw [h1, hs] at hopen
  obtain ⟨hc, hcb⟩ := hcb hopen
  refine ⟨hc, fun hw => ?_⟩
  have hne : c.outputBuffer ++ data ≠ [] := by simp [hdata]
  obtain ⟨hw1, ho1, -⟩ := hcb ⟨fun _ => hne, hw.subscribed, hw.enabled⟩
  have hne2 : c2.outputBuffer ≠ [] := by rw [ho]; exact ho1 hne
  have hw2 : Weak c2 := ⟨fun _ => hne2, fun _ => hi, fun h => by rw [he]; rw [hp] at h; exact hw1.enabled h⟩
  refine ⟨maybePause_weak hw2 hi, fun _ => ?_, fun _ _ => ?_⟩
  · rw [h4]; exact hne2
  · rw [maybePause_writing]; exact hi

include hd hu in
theorem appendAndSubscribe_keeps {data : List UInt8} (hdata : data ≠ []) (c : Conn) :
    Keeps c (appendAndSubscribe user data c) := by
  unfold appendAndSubscribe
  rcases handleOutputBufferAppend_cases user data c with ⟨-, he⟩ | ⟨b, he⟩
  · rw [he]
    exact handleOutputOverflow_keeps hd hu c
  · rw [he]
    exact subscribe_keeps hdata (invoke_keeps hu b _ _) rfl rfl rfl rfl rfl

include hd hu in
theorem sendInLoop_keeps (E : Env) (data : List UInt8) (c : Conn) : Keeps c (sendInLoop user E data c) := by
  unfold sendInLoop
  split
  · exact Keeps.refl c
  · rename_i hnot
    have hdata : data ≠ [] := fun h => hnot (Or.inr (by rw [h]; rfl))
    by_cases hidle : (!c.channel.writing) = true ∧ c.outputBuffer.length = 0
    · rw [if_pos hidle]
      simp only
      have hsent : ∀ e w, Keeps c { c.note e with writes := c.writes + 1, wire := w } :=
        fun e w => SameFlow.keeps ⟨rfl, rfl, id, fun _ => id⟩ id
      split
      · split
        · rename_i hlt
          refine (hsent _ _).trans (appendAndSubscribe_keeps hd hu ?_ _)
          intro hnil
          rw [List.drop_eq_nil_iff] at hnil
          omega
        · exact (hsent _ _).trans (invoke_keeps hu _ _ _)
      · split
        · exact (hsent _ _).trans (appendAndSubscribe_keeps hd hu hdata _)
        · exact (hsent _ _).trans (handleErrorAndClose_keeps hd hu _ _)
    · rw [if_neg hidle]
      simp only
      have hsent : Keeps c (c.note (.sent data false (.take 0) c.maxOutputBufferBytes c.outputOverflowPolicy)) :=
        SameFlow.keeps ⟨rfl, rfl, id, fun _ => id⟩ id
      refine hsent.trans ?_
      rcases handleOutputBufferAppend_cases user data
        (c.note (.sent data false (.take 0) c.maxOutputBufferBytes c.outputOverflowPolicy)) with ⟨-, he⟩ | ⟨b, he⟩
      · rw [he]
        exact handleOutputOverflow_keeps hd hu _
      · rw [he]
        simp only
        split
        · exact subscribe_keeps hdata (invoke_keeps hu b _ _) rfl rfl rfl rfl rfl
        · rename_i hwr
          refine subscribe_keeps hdata (invoke_keeps hu b _ _) rfl ?_ rfl rfl rfl
          simpa using hwr

theorem shutdownInLoop_keeps (c : Conn) : Keeps c (shutdownInLoop c) := by
  unfold shutdownInLoop
  split
  · exact Keeps.refl c
  · split
    · exact SameFlow.keeps ⟨rfl, rfl, id, fun _ => id⟩ id
    · exact Keeps.refl c

include hd hu in
/-- Every call of the public interface keeps it. -/
theorem api_keeps (E : Env) (c : Conn) (a : Api) : Keeps c (api user E c a) := by
  cases a with
  | send data =>
    simp only [api, send]
    split
    · exact Keeps.refl c
    · exact sendInLoop_keeps hd hu E data c
  | shutdown =>
    simp only [api, shutdown]
    split
    · exact Keeps.refl c
    · rename_i hs
      have hset : Keeps c { c with state := .disconnecting } := by
        refine SameFlow.keeps ⟨rfl, rfl, id, fun _ => id⟩ fun _ => ?_
        rw [not_not.mp hs]
        decide
      exact hset.trans (shutdownInLoop_keeps _)
  | forceClose =>
    simp only [api, forceClose]
    split
    · exact Keeps.refl c
    · exact handleClose_keeps hd c
  | startRead =>
    simp only [api, startRead]
    split <;> exact SameFlow.keeps (SameFlow.unpaused rfl rfl rfl) id
  | stopRead =>
    simp only [api, stopRead]
    split
    · exact SameFlow.keeps ⟨rfl, rfl, id, fun _ => id⟩ id
    · exact Keeps.refl c
  | enableAutoReadFlowControl hi lo =>
    simp only [api, enableAutoReadFlowControl]
    split
    · exact SameFlow.keeps (SameFlow.unpaused rfl rfl rfl) id
    · exact SameFlow.keeps ⟨rfl, rfl, id, fun _ _ => rfl⟩ id
  | disableAutoReadFlowControl => exact SameFlow.keeps (SameFlow.unpaused rfl rfl rfl) id
  | setMaxOutputBufferBytes n => exact SameFlow.keeps ⟨rfl, rfl, id, fun _ => id⟩ id
  | setOutputOverflowPolicy p => exact SameFlow.keeps ⟨rfl, rfl, id, fun _ => id⟩ id

/-! ## Write events -/

/-- Inside the loop of `handleWrite`: interest is on, and a pause that the last write should have
    lifted is lifted. -/
structure Draining (c : Conn) : Prop where
  interest : c.channel.writing = true
  enabled : c.readPausedByFlowControl = true → c.autoReadFlowControlEnabled = true
  paused : c.readPausedByFlowControl = true → c.outputBuffer ≠ []

theorem Draining.unpaused {c : Conn} (hi : c.channel.writing = true) (hp : c.readPausedByFlowControl = false) :
    Draining c where
  interest := hi
  enabled h := absurd (hp.symm.trans h) Bool.false_ne_true
  paused h := absurd (hp.symm.trans h) Bool.false_ne_true

theorem maybeResume_draining {c : Conn} (hi : c.channel.writing = true)
    (he : c.readPausedByFlowControl = true → c.autoReadFlowControlEnabled = true) :
    Draining (maybeResumeReadForFlowControl c) := by
  unfold maybeResumeReadForFlowControl
  split
  · rename_i hen
    have hoff : c.readPausedByFlowControl = false := by
      by_contra hp
      simp [he (by simpa using hp)] at hen
    exact Draining.unpaused hi hoff
  · split
    · rename_i hp
      exact Draining.unpaused hi (by simpa using hp)
    · split
      · rename_i hlen
        refine ⟨hi, he, fun _ hnil => ?_⟩
        rw [hnil] at hlen
        exact absurd hlen (Nat.not_lt_zero _)
      · -- `enableReading` touches the read interest only
        simp only
        split
        · exact Draining.unpaused hi rfl
        · exact Draining.unpaused hi rfl

/-- A write of a non-empty buffer takes some of it, or leaves it as it is and leaves the loop. -/
theorem writeFdResult_cases {out : List UInt8} (hne : out ≠ []) (r : SysWrite) :
    (∃ n, 0 < n ∧ writeFdResult out r = (.ok ⟨n, .ok⟩, out.drop n)) ∨
      writeFdResult out r = (.ok ⟨0, .wouldBlock⟩, out) ∨ writeFdResult out r = (.ok ⟨0, .endOfFile⟩, out) ∨
      ∃ e, writeFdResult out r = (.error e, out) := by
  unfold writeFdResult
  rw [if_neg (fun h => hne (List.eq_nil_of_length_eq_zero h))]
  simp only
  split
  · exact Or.inl ⟨_, by omega, rfl⟩
  · split
    · exact Or.inr (Or.inr (Or.inl rfl))
    · split
      · exact Or.inr (Or.inl rfl)
      · exact Or.inr (Or.inr (Or.inr ⟨_, rfl⟩))

include hd hu in
/-- With a turn for every byte the loop leaves the function, or drains the buffer. -/
theorem writeLoop_flow (E : Env) (k : Nat) {c : Conn} (hk : c.outputBuffer.length ≤ k) (h : Draining c) :
    ((writeLoop user E k c).1 = true → (writeLoop user E k c).2.state ≠ .disconnected →
        Weak (writeLoop user E k c).2 ∧ Covered (writeLoop user E k c).2) ∧
      ((writeLoop user E k c).1 = false →
        Draining (writeLoop user E k c).2 ∧ (writeLoop user E k c).2.outputBuffer = []) := by
  induction k generalizing c with
  | zero => exact ⟨fun h => Bool.noConfusion h, fun _ => ⟨h, List.eq_nil_of_length_eq_zero (Nat.le_zero.mp hk)⟩⟩
  | succ k ih =>
    rw [writeLoop]
    by_cases hnil : c.outputBuffer.length = 0
    · rw [if_pos hnil]
      exact ⟨fun h => Bool.noConfusion h, fun _ => ⟨h, List.eq_nil_of_length_eq_zero hnil⟩⟩
    · rw [if_neg hnil]
      have hne : c.outputBuffer ≠ [] := fun e => hnil (by rw [e]; rfl)
      rcases writeFdResult_cases hne (E.write c.writes) with ⟨n, hn, he⟩ | he | he | ⟨e, he⟩
      · simp only [he]
        refine ih ?_ (maybeResume_draining h.interest h.enabled)
        rw [(maybeResume_fields _).2.2.2, List.length_drop]
        omega
      · simp only [he]
        exact ⟨fun _ _ => ⟨⟨fun _ => hne, fun _ => h.interest, h.enabled⟩, fun _ => h.interest⟩, fun h => Bool.noConfusion h⟩
      · simp only [he]
        exact ⟨fun _ hopen => absurd (handleClose_closed hd _) hopen, fun h => Bool.noConfusion h⟩
      · simp only [he]
        refine ⟨fun _ hopen => ?_, fun h => Bool.noConfusion h⟩
        obtain ⟨-, hkeep⟩ := handleErrorAndClose_keeps hd hu _ _ hopen
        obtain ⟨hw, -, hc⟩ := hkeep ⟨fun _ => hne, fun _ => h.interest, h.enabled⟩
        exact ⟨hw, hc fun _ => h.interest⟩

include hd hu in
theorem writeLoop_closed (E : Env) (k : Nat) {c : Conn} (h : c.state = .disconnected) :
    (writeLoop user E k c).2.state = .disconnected := by
  induction k generalizing c with
  | zero => exact h
  | succ k ih =>
    rw [writeLoop]
    split
    · exact h
    · rename_i hnil
      have hne : c.outputBuffer ≠ [] := fun e => hnil (by rw [e]; rfl)
      rcases writeFdResult_cases hne (E.write c.writes) with ⟨n, -, he⟩ | he | he | ⟨e, he⟩
      · simp only [he]
        exact ih ((maybeResume_fields _).1.trans h)
      · simp only [he]
        exact h
      · simp only [he]
        exact handleClose_closed hd _
      · simp only [he]
        by_contra hopen
        exact (handleErrorAndClose_keeps hd hu _ _ hopen).1 h

/-- What `handleWrite` does once the buffer is drained. -/
def afterDrain (user : User) (c : Conn) : Conn :=
  let c := maybeResumeReadForFlowControl { c with channel := c.channel.disableWriting }
  let c := invoke user c.callbacks.writeComplete .writeComplete c
  if c.state = .disconnecting then shutdownInLoop c else c

theorem maybeResume_sameFlow (c : Conn) : SameFlow c (maybeResumeReadForFlowControl c) := by
  unfold maybeResumeReadForFlowControl
  split
  · exact ⟨rfl, rfl, id, fun _ => id⟩
  · split
    · exact ⟨rfl, rfl, id, fun _ => id⟩
    · split
      · exact ⟨rfl, rfl, id, fun _ => id⟩
      · simp only
        split
        · exact SameFlow.unpaused rfl rfl rfl
        · exact SameFlow.unpaused rfl rfl rfl

include hu in
theorem afterDrain_keeps (c : Conn) :
    Keeps { c with channel := c.channel.disableWriting } (afterDrain user c) := by
  unfold afterDrain
  have hresume : Keeps { c with channel := c.channel.disableWriting }
      (maybeResumeReadForFlowControl { c with channel := c.channel.disableWriting }) := by
    refine (maybeResume_sameFlow _).keeps fun h => ?_
    rwa [(maybeResume_fields _).1] at h
  simp only
  split
  · exact hresume.trans ((invoke_keeps hu _ _ _).trans (shutdownInLoop_keeps _))
  · exact hresume.trans (invoke_keeps hu _ _ _)

include hd hu in
theorem handleWrite_closed (E : Env) {c : Conn} (h : c.state = .disconnected) :
    (handleWrite user E c).state = .disconnected := by
  unfold handleWrite
  split
  · exact h
  · have hl := writeLoop_closed hd hu E c.outputBuffer.length h
    generalize writeLoop user E c.outputBuffer.length c = r at *
    obtain ⟨left, c'⟩ := r
    cases left with
    | true => exact hl
    | false =>
      simp only
      split
      · exact hl
      · by_contra hopen
        exact (afterDrain_keeps hu c' hopen).1 hl

include hd hu in
theorem handleWrite_flow (E : Env) {c : Conn} (hopen : (handleWrite user E c).state ≠ .disconnected)
    (hw : Weak c) (hc : Covered c) : Weak (handleWrite user E c) ∧ Covered (handleWrite user E c) := by
  unfold handleWrite at hopen ⊢
  split at hopen
  · rename_i hoff
    rw [if_pos hoff]
    exact ⟨hw, hc⟩
  · rename_i hon
    rw [if_neg hon]
    have hdr : Draining c := ⟨by simpa using hon, hw.enabled, fun hp => hw.busy (hw.subscribed hp)⟩
    obtain ⟨hleft, hdone⟩ := writeLoop_flow hd hu E c.outputBuffer.length le_rfl hdr
    generalize writeLoop user E c.outputBuffer.length c = r at *
    obtain ⟨left, c'⟩ := r
    cases left with
    | true => exact hleft rfl hopen
    | false =>
      obtain ⟨hdr', hnil⟩ := hdone rfl
      have hlen : ¬ c'.outputBuffer.length > 0 := by rw [hnil]; exact Nat.lt_irrefl 0
      simp only [hlen, if_false] at hopen ⊢
      have hpaused : c'.readPausedByFlowControl ≠ true := fun hp => hdr'.paused hp hnil
      have hoff : ({ c' with channel := c'.channel.disableWriting } : Conn).channel.writing ≠ true := Bool.false_ne_true
      have hkeep : Keeps { c' with channel := c'.channel.disableWriting } (afterDrain user c') := afterDrain_keeps hu c'
      obtain ⟨-, hkeep⟩ := hkeep hopen
      obtain ⟨hw', -, hc'⟩ := hkeep ⟨fun h => absurd h hoff, fun hp => absurd hp hpaused, hdr'.enabled⟩
      exact ⟨hw', hc' fun hne => absurd hnil hne⟩

end

/-! ## Runs -/

/-- Callbacks of any depth keep it. -/
theorem userAt_keeps (E : Env) (depth : Nat) : ∀ cb c, Keeps c (userAt E depth cb c) := by
  apply userAt_rel E (R := Keeps)
  · exact Keeps.refl
  · exact Keeps.trans
  · intro cb c
    exact SameFlow.keeps ⟨rfl, rfl, id, fun _ => id⟩ id
  · intro depth hu c a
    exact api_keeps (userAt_closed E depth) hu E c a

/-- Every operation but the write event keeps it. -/
theorem exec_keeps (E : Env) (depth : Nat) (c : Conn) {op : Op} (hop : op ≠ .handleWrite) :
    Keeps c (exec E depth c op) := by
  have hd := userAt_closed E depth
  have hu := userAt_keeps E depth
  cases op with
  | api a => exact api_keeps hd hu E c a
  | handleWrite => exact absurd rfl hop
  | handleClose => exact handleClose_keeps hd c
  | handleError err =>
    simp only [exec, handleError]
    split
    · exact Keeps.refl c
    · exact handleErrorAndClose_keeps hd hu err c
  | connectEstablished =>
    simp only [exec, connectEstablished]
    split
    · exact Keeps.refl c
    · rename_i hs
      have hset : Keeps c { c with state := .connected, channel := c.channel.enableReading } := by
        refine SameFlow.keeps ⟨rfl, rfl, id, fun _ => id⟩ fun _ => ?_
        rw [not_not.mp hs]
        decide
      exact hset.trans (invoke_keeps hu _ _ _)
  | connectDestroyed => exact Keeps.closed (connectDestroyed_closed hd c)

theorem exec_closed (E : Env) (depth : Nat) {c : Conn} (h : c.state = .disconnected) (op : Op) :
    (exec E depth c op).state = .disconnected := by
  by_cases hop : op = .handleWrite
  · rw [hop]
    exact handleWrite_closed (userAt_closed E depth) (userAt_keeps E depth) E h
  · by_contra hopen
    exact (exec_keeps E depth c hop hopen).1 h

theorem exec_flow (E : Env) (depth : Nat) {c : Conn} (op : Op) (hopen : (exec E depth c op).state ≠ .disconnected)
    (hw : Weak c) (hc : Covered c) : Weak (exec E depth c op) ∧ Covered (exec E depth c op) := by
  by_cases hop : op = .handleWrite
  · subst hop
    exact handleWrite_flow (userAt_closed E depth) (userAt_keeps E depth) E hopen hw hc
  · obtain ⟨hw', -, hc'⟩ := (exec_keeps E depth c hop hopen).2 hw
    exact ⟨hw', hc' hc⟩

theorem Reach.flow {c : Conn} (hr : Reach c) : c.state ≠ .disconnected → Weak c ∧ Covered c := by
  induction hr with
  | init callbacks =>
    have hoff : (make callbacks).channel.writing ≠ true := Bool.false_ne_true
    have hpaused : (make callbacks).readPausedByFlowControl ≠ true := Bool.false_ne_true
    exact fun _ => ⟨⟨fun h => absurd h hoff, fun h => absurd h hpaused, fun h => absurd h hpaused⟩, fun h => absurd rfl h⟩
  | step E depth op _ ih =>
    intro hopen
    obtain ⟨hw, hc⟩ := ih fun h => hopen (exec_closed E depth h op)
    exact exec_flow E depth op hopen hw hc

/-- Between two handlers of an open connection: bytes in the output buffer exactly when write
    interest is on, and a read pause only then. -/
theorem write_interest_and_pause {c : Conn} (hr : Reach c) (hopen : c.state ≠ .disconnected) :
    (c.outputBuffer ≠ [] ↔ c.channel.writing = true) ∧
      (c.readPausedByFlowControl = true → c.outputBuffer ≠ [] ∧ c.channel.writing = true) := by
  obtain ⟨hw, hc⟩ := hr.flow hopen
  refine ⟨⟨hc, hw.busy⟩, fun hp => ?_⟩
  have hi := hw.subscribed hp
  exact ⟨hw.busy hi, hi⟩

/-- A send goes out whole; its write complete callback sends again, and that send pauses reading. -/
def pausedByCallback : Conn :=
  run ⟨fun i => if i = 0 then .take 3 else .take 1, fun i _ => if i = 0 then [.send [4, 5, 6]] else []⟩ 1
    ⟨false, true, false, false, false⟩
    [.connectEstablished, .api (.enableAutoReadFlowControl 2 0), .api (.send [1, 2, 3])]

theorem write_interest_and_pause_callback :
    pausedByCallback.readPausedByFlowControl = true ∧ pausedByCallback.wire = [1, 2, 3, 4] ∧
      pausedByCallback.channel.writing = true :=
  ⟨by decide, by decide, ((write_interest_and_pause (reach_run _ _ _ _) (by decide)).2 (by decide)).2⟩

end Dbase.Net.TcpConnection
