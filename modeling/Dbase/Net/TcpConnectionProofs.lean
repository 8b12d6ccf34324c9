/-
  Dbase.Net.TcpConnectionProofs — runs of a connection on its loop thread, with callbacks that
  call back into it, and the outbound stream.

  Proved (`outbound_stream_whole`): while the connection is not `Disconnected`, the bytes the kernel
  took followed by the output buffer are the data of some of the sends, whole and in order,
  provided no send of the run was cut: a direct write took a part of it and the rest was over the
  limit, with a policy that does not close. The part is then on the wire for good
  (`a_partial_write_over_the_limit_truncates`).

  The invariant is kept by every member under the assumption that the callbacks keep it, and the
  callbacks keep it by induction on their nesting depth.
-/

import Dbase.Net.BufferRuns
import Dbase.Net.TcpConnection

namespace Dbase.Net.TcpConnection

open Dbase.Net.Buffer (SysWrite IoStatus IoResult taken socketWrite errnoOf isWouldBlockError)

/-! ## The kernel's answers -/

theorem taken_le (r : SysWrite) (len : Nat) : taken r len ≤ len := by
  cases r with
  | take n => simp only [taken]; omega
  | fail e => exact Nat.zero_le _

theorem socketWrite_nonneg {r : SysWrite} {len : Nat} (h : 0 ≤ socketWrite r len) :
    (socketWrite r len).toNat = taken r len := by
  cases r with
  | take n => rw [Buffer.socketWrite_take, Int.toNat_natCast]
  | fail e => simp [socketWrite] at h

theorem taken_of_neg {r : SysWrite} {len : Nat} (h : ¬ 0 ≤ socketWrite r len) : taken r len = 0 := by
  cases r with
  | take n =>
    rw [Buffer.socketWrite_take] at h
    omega
  | fail e => rfl

/-- A write event moves bytes from the buffer to the wire. -/
theorem take_append_writeFdResult (out : List UInt8) (r : SysWrite) :
    out.take (taken r out.length) ++ (writeFdResult out r).2 = out := by
  unfold writeFdResult
  split
  · rename_i h
    rw [List.eq_nil_of_length_eq_zero h]
    simp
  · simp only
    split
    · rename_i h
      rw [socketWrite_nonneg (by omega)]
      exact List.take_append_drop _ _
    · rename_i h
      have h0 : taken r out.length = 0 := by
        by_cases hn : 0 ≤ socketWrite r out.length
        · have := socketWrite_nonneg hn
          omega
        · exact taken_of_neg hn
      rw [h0]
      split
      · simp
      · split <;> simp

/-! ## Runs -/

inductive Reach : Conn → Prop
  | init (callbacks : Callbacks) : Reach (make callbacks)
  | step {c : Conn} (E : Env) (depth : Nat) (op : Op) : Reach c → Reach (exec E depth c op)

/-- A run in one environment. -/
def run (E : Env) (depth : Nat) (callbacks : Callbacks) (ops : List Op) : Conn :=
  ops.foldl (exec E depth) (make callbacks)

theorem reach_run (E : Env) (depth : Nat) (callbacks : Callbacks) (ops : List Op) :
    Reach (run E depth callbacks ops) := by
  apply List.foldlRecOn ops _ (.init callbacks)
  intro c h op _
  exact .step E depth op h

/-- What every call of the interface keeps while the callbacks do, callbacks of any depth keep. -/
theorem userAt_rel (E : Env) {R : Conn → Conn → Prop} (hrefl : ∀ c, R c c)
    (htrans : ∀ {a b c}, R a b → R b c → R a c)
    (hcalled : ∀ cb c, R c { c.note (.called cb) with calls := c.calls + 1 })
    (hapi : ∀ depth, (∀ cb c, R c (userAt E depth cb c)) → ∀ c a, R c (api (userAt E depth) E c a)) (depth : Nat) :
    ∀ cb c, R c (userAt E depth cb c) := by
  induction depth with
  | zero =>
    intro cb c
    exact hcalled cb c
  | succ depth ih =>
    intro cb c
    have hacts : ∀ (acts : List Api) (c : Conn), R c (acts.foldl (api (userAt E depth) E) c) := by
      intro acts c
      apply List.foldlRecOn acts _ (hrefl c)
      intro c' h a _
      exact htrans h (hapi depth ih c' a)
    exact htrans (hcalled cb c) (hacts _ _)

/-! ## `Disconnected` is final -/

/-- A callback leaves a closed connection closed. -/
def StaysClosed (user : User) : Prop := ∀ cb c, c.state = .disconnected → (user cb c).state = .disconnected

section
variable {user : User} (hd : StaysClosed user)

include hd in
theorem invoke_closed {b : Bool} {cb : Cb} {c : Conn} (h : c.state = .disconnected) :
    (invoke user b cb c).state = .disconnected := by
  unfold invoke
  split
  · exact hd cb c h
  · exact h

include hd in
theorem handleClose_closed (c : Conn) : (handleClose user c).state = .disconnected := by
  unfold handleClose
  split
  · assumption
  · exact invoke_closed hd (invoke_closed hd rfl)

end

theorem api_closed (user : User) (E : Env) {c : Conn} (h : c.state = .disconnected) (a : Api) :
    (api user E c a).state = .disconnected := by
  cases a with
  | send data => simp only [api, send, h, true_or, if_true]
  | shutdown => simp [api, shutdown, h]
  | forceClose => simp only [api, forceClose, h, if_true]
  | startRead => simp only [api, startRead]; split <;> exact h
  | stopRead => simp only [api, stopRead]; split <;> exact h
  | enableAutoReadFlowControl hi lo => simp only [api, enableAutoReadFlowControl]; split <;> exact h
  | disableAutoReadFlowControl => exact h
  | setMaxOutputBufferBytes n => exact h
  | setOutputOverflowPolicy p => exact h

theorem userAt_closed (E : Env) (depth : Nat) : StaysClosed (userAt E depth) := by
  intro cb c
  apply userAt_rel E (R := fun c c' => c.state = .disconnected → c'.state = .disconnected)
  · intro c h
    exact h
  · intro a b c hab hbc h
    exact hbc (hab h)
  · intro cb c h
    exact h
  · intro depth _ c a h
    exact api_closed _ E h a

/-! ## The outbound stream -/

/-- A send that is not cut by the limit after a part of it went out. -/
def Whole : Event → Prop
  | .sent data direct answer limit policy =>
    ¬ (direct = true ∧ 0 < taken answer data.length ∧ taken answer data.length < data.length ∧
      limit < data.length - taken answer data.length ∧ policy ≠ .closeConnection)
  | .called _ => True
  | .shutdownWrite => True

def sends : List Event → List (List UInt8)
  | [] => []
  | .sent data _ _ _ _ :: es => data :: sends es
  | .called _ :: es => sends es
  | .shutdownWrite :: es => sends es

def AllWhole (log : List Event) : Prop := ∀ e ∈ log, Whole e

/-- What the kernel took and the buffer holds are whole sends, in order. -/
def Framed (c : Conn) : Prop :=
  ∃ sub : List (List UInt8), sub.Sublist (sends c.log) ∧ c.wire ++ c.outputBuffer = sub.flatten

/-- The invariant: the stream is whole, unless the connection is closed or a send was cut. -/
def Streamed (c : Conn) : Prop := c.state = .disconnected ∨ ¬ AllWhole c.log ∨ Framed c

theorem sends_append (a b : List Event) : sends (a ++ b) = sends a ++ sends b := by
  induction a with
  | nil => rfl
  | cons e a ih => cases e <;> simp [sends, ih]

/-- Whatever leaves the stream alone keeps the invariant. -/
theorem Streamed.mono {c c' : Conn} (h : Streamed c) (hs : c.state = .disconnected → c'.state = .disconnected)
    (hw : AllWhole c'.log → AllWhole c.log) (hf : Framed c → Framed c') : Streamed c' := by
  rcases h with h | h | h
  · exact Or.inl (hs h)
  · exact Or.inr (Or.inl fun h' => h (hw h'))
  · exact Or.inr (Or.inr (hf h))

theorem Streamed.congr {c c' : Conn} (h : Streamed c) (hs : c'.state = c.state) (hl : c'.log = c.log)
    (hw : c'.wire = c.wire) (ho : c'.outputBuffer = c.outputBuffer) : Streamed c' := by
  refine h.mono (fun e => hs.trans e) (fun e => by rwa [hl] at e) ?_
  rintro ⟨sub, h1, h2⟩
  exact ⟨sub, by rw [hl]; exact h1, by rw [hw, ho]; exact h2⟩

theorem Streamed.state {c : Conn} (h : Streamed c) {s : State} (hs : c.state = .disconnected → s = .disconnected) :
    Streamed { c with state := s } := h.mono hs id id

/-- An event that is no send. -/
theorem Streamed.note {c : Conn} (h : Streamed c) {e : Event} (he : sends [e] = []) : Streamed (c.note e) := by
  refine h.mono id (fun hw x hx => hw x (List.mem_append_left _ hx)) ?_
  rintro ⟨sub, h1, h2⟩
  refine ⟨sub, ?_, h2⟩
  show sub.Sublist (sends (c.log ++ [e]))
  rw [sends_append, he, List.append_nil]
  exact h1

theorem maybePause_fields (c : Conn) :
    (maybePauseReadForFlowControl c).state = c.state ∧ (maybePauseReadForFlowControl c).log = c.log ∧
      (maybePauseReadForFlowControl c).wire = c.wire ∧
      (maybePauseReadForFlowControl c).outputBuffer = c.outputBuffer := by
  unfold maybePauseReadForFlowControl
  repeat' split
  all_goals exact ⟨rfl, rfl, rfl, rfl⟩

theorem maybeResume_fields (c : Conn) :
    (maybeResumeReadForFlowControl c).state = c.state ∧ (maybeResumeReadForFlowControl c).log = c.log ∧
      (maybeResumeReadForFlowControl c).wire = c.wire ∧
      (maybeResumeReadForFlowControl c).outputBuffer = c.outputBuffer := by
  unfold maybeResumeReadForFlowControl
  repeat' split
  all_goals exact ⟨rfl, rfl, rfl, rfl⟩

theorem Streamed.pause {c : Conn} (h : Streamed c) : Streamed (maybePauseReadForFlowControl c) := by
  obtain ⟨h1, h2, h3, h4⟩ := maybePause_fields c
  exact h.congr h1 h2 h3 h4

theorem Streamed.resume {c : Conn} (h : Streamed c) : Streamed (maybeResumeReadForFlowControl c) := by
  obtain ⟨h1, h2, h3, h4⟩ := maybeResume_fields c
  exact h.congr h1 h2 h3 h4

section
variable {user : User} (hd : StaysClosed user) (hu : ∀ cb c, Streamed c → Streamed (user cb c))

include hu in
theorem invoke_streamed {b : Bool} {cb : Cb} {c : Conn} (h : Streamed c) : Streamed (invoke user b cb c) := by
  unfold invoke
  split
  · exact hu cb c h
  · exact h

include hd in
theorem handleClose_streamed (c : Conn) : Streamed (handleClose user c) := Or.inl (handleClose_closed hd c)

include hd hu in
theorem handleErrorAndClose_streamed {c : Conn} (h : Streamed c) (err : Int) :
    Streamed (handleErrorAndClose user err c) := by
  unfold handleErrorAndClose
  simp only
  split
  · exact invoke_streamed hu h
  · exact handleClose_streamed hd _

include hd hu in
theorem handleOutputOverflow_streamed {c : Conn} (h : c.outputOverflowPolicy ≠ .closeConnection → Streamed c) :
    Streamed (handleOutputOverflow user c) := by
  unfold handleOutputOverflow
  split
  · rename_i hp; exact h (by rw [hp]; decide)
  · exact handleClose_streamed hd _
  · rename_i hp; exact invoke_streamed hu (h (by rw [hp]; decide))

/-- The two ways an append can go, each with what it has to keep. -/
theorem handleOutputBufferAppend_cases (user : User) (data : List UInt8) (c : Conn) :
    (c.maxOutputBufferBytes < c.outputBuffer.length + data.length ∧
      handleOutputBufferAppend user data c = (false, handleOutputOverflow user c)) ∨
    ∃ b, handleOutputBufferAppend user data c =
      (true, invoke user b (.highWaterMark (c.outputBuffer.length + data.length))
        { c with outputBuffer := c.outputBuffer ++ data }) := by
  unfold handleOutputBufferAppend
  by_cases h : c.outputBuffer.length + data.length > c.maxOutputBufferBytes
  · left
    refine ⟨h, ?_⟩
    simp only [h, if_true]
  · right
    simp only [h, if_false]
    split
    · exact ⟨_, rfl⟩
    · exact ⟨false, rfl⟩

include hd hu in
theorem appendAndSubscribe_streamed {data : List UInt8} {c : Conn}
    (hno : c.maxOutputBufferBytes < c.outputBuffer.length + data.length → c.outputOverflowPolicy ≠ .closeConnection →
      Streamed c)
    (hyes : Streamed { c with outputBuffer := c.outputBuffer ++ data }) : Streamed (appendAndSubscribe user data c) := by
  unfold appendAndSubscribe
  rcases handleOutputBufferAppend_cases user data c with ⟨hover, he⟩ | ⟨b, he⟩
  · rw [he]
    exact handleOutputOverflow_streamed hd hu (hno hover)
  · rw [he]
    have h : Streamed (invoke user b (.highWaterMark (c.outputBuffer.length + data.length))
        { c with outputBuffer := c.outputBuffer ++ data }) := invoke_streamed hu hyes
    exact Streamed.pause (h.congr rfl rfl rfl rfl)

/-- A send taken in full, or not at all, keeps the stream whole. -/
theorem framed_send {c c' : Conn} {data : List UInt8} {d : Bool} {r : SysWrite} {l : Nat} {p : OutputOverflowPolicy}
    (h : Framed c) (hl : c'.log = c.log ++ [.sent data d r l p])
    (hw : c'.wire ++ c'.outputBuffer = c.wire ++ c.outputBuffer ++ data ∨
      c'.wire ++ c'.outputBuffer = c.wire ++ c.outputBuffer) : Framed c' := by
  obtain ⟨sub, h1, h2⟩ := h
  have hs : sends c'.log = sends c.log ++ [data] := by rw [hl, sends_append]; rfl
  rcases hw with hw | hw
  · exact ⟨sub ++ [data], by rw [hs]; exact h1.append (List.Sublist.refl _), by rw [hw, h2]; simp⟩
  · exact ⟨sub, by rw [hs]; exact h1.trans (List.sublist_append_left _ _), hw.trans h2⟩

/-- `Streamed` over a send, from what becomes of its bytes. -/
theorem streamed_send {c c' : Conn} {data : List UInt8} {d : Bool} {r : SysWrite} {l : Nat} {p : OutputOverflowPolicy}
    (h : Streamed c) (hs : c'.state = c.state) (hl : c'.log = c.log ++ [.sent data d r l p])
    (hw : c'.wire ++ c'.outputBuffer = c.wire ++ c.outputBuffer ++ data ∨
      c'.wire ++ c'.outputBuffer = c.wire ++ c.outputBuffer) : Streamed c' :=
  h.mono (fun e => hs.trans e) (fun e x hx => e x (by rw [hl]; exact List.mem_append_left _ hx))
    (fun hf => framed_send hf hl hw)

include hd hu in
theorem sendInLoop_streamed (E : Env) {c : Conn} (h : Streamed c) (data : List UInt8) :
    Streamed (sendInLoop user E data c) := by
  unfold sendInLoop
  split
  · exact h
  · by_cases hidle : (!c.channel.writing) = true ∧ c.outputBuffer.length = 0
    · rw [if_pos hidle]
      have hout : c.outputBuffer = [] := List.eq_nil_of_length_eq_zero hidle.2
      simp only
      by_cases hn : 0 ≤ socketWrite (E.write c.writes) data.length
      · rw [if_pos hn, socketWrite_nonneg hn]
        by_cases hlt : taken (E.write c.writes) data.length < data.length
        · rw [if_pos hlt]
          refine appendAndSubscribe_streamed hd hu ?_ ?_
          · -- over the limit: nothing went out, or the send was cut
            intro hover hpol
            by_cases h0 : taken (E.write c.writes) data.length = 0
            · refine streamed_send h rfl rfl (Or.inr ?_)
              simp only [Conn.note, h0, List.take_zero, List.append_nil]
            · refine Or.inr (Or.inl fun hall => ?_)
              refine hall _ (List.mem_append_right _ (List.mem_singleton_self _)) ⟨rfl, by omega, hlt, ?_, hpol⟩
              simp only [Conn.note, hout, List.length_nil, Nat.zero_add, List.length_drop] at hover
              exact hover
          · refine streamed_send h rfl rfl (Or.inl ?_)
            simp only [Conn.note, hout, List.nil_append, List.append_nil, List.append_assoc, List.take_append_drop]
        · rw [if_neg hlt]
          refine invoke_streamed hu (streamed_send h rfl rfl (Or.inl ?_))
          have := taken_le (E.write c.writes) data.length
          simp only [Conn.note, hout, List.append_nil]
          rw [List.take_of_length_le (by omega)]
      · rw [if_neg hn]
        have h0 := taken_of_neg hn
        have hnone : Streamed { c.note (.sent data true (E.write c.writes) c.maxOutputBufferBytes c.outputOverflowPolicy) with
            writes := c.writes + 1, wire := c.wire ++ data.take (taken (E.write c.writes) data.length) } := by
          refine streamed_send h rfl rfl (Or.inr ?_)
          simp only [Conn.note, h0, List.take_zero, List.append_nil]
        split
        · refine appendAndSubscribe_streamed hd hu (fun _ _ => hnone) ?_
          refine streamed_send h rfl rfl (Or.inl ?_)
          simp only [Conn.note, h0, List.take_zero, List.append_nil, List.append_assoc]
        · exact handleErrorAndClose_streamed hd hu hnone _
    · rw [if_neg hidle]
      have hno : Streamed (c.note (.sent data false (.take 0) c.maxOutputBufferBytes c.outputOverflowPolicy)) :=
        streamed_send h rfl rfl (Or.inr rfl)
      simp only
      rcases handleOutputBufferAppend_cases user data
        (c.note (.sent data false (.take 0) c.maxOutputBufferBytes c.outputOverflowPolicy)) with ⟨hover, he⟩ | ⟨b, he⟩
      · rw [he]
        exact handleOutputOverflow_streamed hd hu (fun _ => hno)
      · rw [he]
        have hyes : Streamed { c.note (.sent data false (.take 0) c.maxOutputBufferBytes c.outputOverflowPolicy) with
            outputBuffer := c.outputBuffer ++ data } :=
          streamed_send h rfl rfl (Or.inl (List.append_assoc _ _ _).symm)
        have hi : Streamed (invoke user b (.highWaterMark (c.outputBuffer.length + data.length))
            { c.note (.sent data false (.take 0) c.maxOutputBufferBytes c.outputOverflowPolicy) with
              outputBuffer := c.outputBuffer ++ data }) := invoke_streamed hu hyes
        refine Streamed.pause ?_
        split
        · exact hi.congr rfl rfl rfl rfl
        · exact hi

include hd hu in
theorem writeLoop_streamed (E : Env) (k : Nat) {c : Conn} (h : Streamed c) : Streamed (writeLoop user E k c).2 := by
  induction k generalizing c with
  | zero => exact h
  | succ k ih =>
    rw [writeLoop]
    split
    · exact h
    · simp only
      have hmove : Streamed { c with
          writes := c.writes + 1, outputBuffer := (writeFdResult c.outputBuffer (E.write c.writes)).2,
          wire := c.wire ++ c.outputBuffer.take (taken (E.write c.writes) c.outputBuffer.length) } := by
        refine h.mono id id ?_
        rintro ⟨sub, h1, h2⟩
        refine ⟨sub, h1, ?_⟩
        rw [List.append_assoc, take_append_writeFdResult]
        exact h2
      split
      · exact handleErrorAndClose_streamed hd hu hmove _
      · split
        · exact ih hmove.resume
        · exact hmove
        · exact handleClose_streamed hd _
        · exact hmove

theorem shutdownInLoop_streamed {c : Conn} (h : Streamed c) : Streamed (shutdownInLoop c) := by
  unfold shutdownInLoop
  split
  · exact h
  · split
    · exact h.note rfl
    · exact h

include hd hu in
theorem handleWrite_streamed (E : Env) {c : Conn} (h : Streamed c) : Streamed (handleWrite user E c) := by
  unfold handleWrite
  split
  · exact h
  · have hl := writeLoop_streamed hd hu E c.outputBuffer.length h
    split
    · rename_i c' he
      rwa [he] at hl
    · rename_i c' he
      rw [he] at hl
      split
      · exact hl
      · have hoff : Streamed { c' with channel := c'.channel.disableWriting } := hl.congr rfl rfl rfl rfl
        simp only
        split
        · exact shutdownInLoop_streamed (invoke_streamed hu hoff.resume)
        · exact invoke_streamed hu hoff.resume

include hd hu in
theorem api_streamed (E : Env) {c : Conn} (h : Streamed c) (a : Api) : Streamed (api user E c a) := by
  cases a with
  | send data =>
    simp only [api, send]
    split
    · exact h
    · exact sendInLoop_streamed hd hu E h data
  | shutdown =>
    simp only [api, shutdown]
    split
    · exact h
    · rename_i hs
      refine shutdownInLoop_streamed (h.state fun hdisc => absurd hdisc ?_)
      rw [not_not.mp hs]
      decide
  | forceClose =>
    simp only [api, forceClose]
    split
    · exact h
    · exact handleClose_streamed hd c
  | startRead =>
    simp only [api, startRead]
    split <;> exact h.congr rfl rfl rfl rfl
  | stopRead =>
    simp only [api, stopRead]
    split
    · exact h.congr rfl rfl rfl rfl
    · exact h
  | enableAutoReadFlowControl hi lo =>
    simp only [api, enableAutoReadFlowControl]
    split <;> exact h.congr rfl rfl rfl rfl
  | disableAutoReadFlowControl => exact h.congr rfl rfl rfl rfl
  | setMaxOutputBufferBytes n => exact h.congr rfl rfl rfl rfl
  | setOutputOverflowPolicy p => exact h.congr rfl rfl rfl rfl

include hu in
theorem connectEstablished_streamed {c : Conn} (h : Streamed c) : Streamed (connectEstablished user c) := by
  unfold connectEstablished
  split
  · exact h
  · rename_i hs
    refine invoke_streamed hu (h.mono (fun hdisc => absurd hdisc ?_) id id)
    rw [not_not.mp hs]
    decide

include hd in
theorem connectDestroyed_closed (c : Conn) : (connectDestroyed user c).state = .disconnected := by
  unfold connectDestroyed
  simp only
  split
  · exact invoke_closed hd rfl
  · rename_i h
    exact not_not.mp h

end

/-- Callbacks of any depth keep the stream whole. -/
theorem userAt_streamed (E : Env) (depth : Nat) : ∀ cb c, Streamed c → Streamed (userAt E depth cb c) := by
  apply userAt_rel E (R := fun c c' => Streamed c → Streamed c')
  · intro c h
    exact h
  · intro a b c hab hbc h
    exact hbc (hab h)
  · intro cb c h
    exact (h.note rfl).congr rfl rfl rfl rfl
  · intro depth hu c a h
    exact api_streamed (userAt_closed E depth) hu E h a

theorem exec_streamed (E : Env) (depth : Nat) {c : Conn} (h : Streamed c) (op : Op) : Streamed (exec E depth c op) := by
  have hd := userAt_closed E depth
  have hu := userAt_streamed E depth
  cases op with
  | api a => exact api_streamed hd hu E h a
  | handleWrite => exact handleWrite_streamed hd hu E h
  | handleClose => exact handleClose_streamed hd c
  | handleError err =>
    simp only [exec, handleError]
    split
    · exact h
    · exact handleErrorAndClose_streamed hd hu h err
  | connectEstablished => exact connectEstablished_streamed hu h
  | connectDestroyed => exact Or.inl (connectDestroyed_closed hd c)

theorem Reach.streamed {c : Conn} (hr : Reach c) : Streamed c := by
  induction hr with
  | init callbacks => exact Or.inr (Or.inr ⟨[], List.Sublist.refl _, rfl⟩)
  | step E depth op _ ih => exact exec_streamed E depth ih op

/-- In a run in which no send was cut, the bytes on the wire followed by the output buffer are the
    data of some of the sends, each whole, in the order they were sent. -/
theorem outbound_stream_whole {c : Conn} (hr : Reach c) (hopen : c.state ≠ .disconnected)
    (hcut : ∀ e ∈ c.log, Whole e) :
    ∃ sub : List (List UInt8), sub.Sublist (sends c.log) ∧ c.wire ++ c.outputBuffer = sub.flatten := by
  rcases hr.streamed with h | h | h
  · exact absurd h hopen
  · exact absurd hcut h
  · exact h

/-- A kernel that takes `n` bytes of the first write and has no room after that; no callbacks act. -/
def tookThenFull (n : Nat) : Env := ⟨fun i => if i = 0 then .take n else .fail Buffer.EAGAIN, fun _ _ => []⟩

/-- Two sends, the first of which the kernel takes a part of. -/
def twoSends : Conn :=
  run (tookThenFull 2) 0 ⟨false, false, false, false, false⟩
    [.connectEstablished, .api (.send [1, 2, 3]), .api (.send [4, 5]), .handleWrite]

theorem outbound_stream_whole_two : twoSends.wire = [1, 2] ∧ twoSends.outputBuffer = [3, 4, 5] ∧
    ∃ sub : List (List UInt8), sub.Sublist (sends twoSends.log) ∧
      twoSends.wire ++ twoSends.outputBuffer = sub.flatten := by
  refine ⟨by decide, by decide, outbound_stream_whole (reach_run _ _ _ _) (by decide) ?_⟩
  have hlog : twoSends.log = [.sent [1, 2, 3] true (.take 2) (64 * 1024 * 1024) .closeConnection,
      .sent [4, 5] false (.take 0) (64 * 1024 * 1024) .closeConnection] := by decide
  rw [hlog]
  intro e he
  simp only [List.mem_cons, List.not_mem_nil, or_false] at he
  rcases he with rfl | rfl
  · exact fun h => h.2.2.2.2 rfl
  · exact fun h => h.2.2.2.2 rfl

/-- Under `Ignore` with a limit of one byte: the kernel takes one byte of three, the other two are dropped. -/
def cutSend : Conn :=
  run (tookThenFull 1) 0 ⟨false, false, false, false, false⟩
    [.connectEstablished, .api (.setMaxOutputBufferBytes 1), .api (.setOutputOverflowPolicy .ignore),
      .api (.send [1, 2, 3])]

theorem a_partial_write_over_the_limit_truncates : Reach cutSend ∧ cutSend.state = .connected ∧
    cutSend.wire = [1] ∧ cutSend.outputBuffer = [] ∧
    ¬ ∃ sub : List (List UInt8), sub.Sublist (sends cutSend.log) ∧
      cutSend.wire ++ cutSend.outputBuffer = sub.flatten := by
  refine ⟨reach_run _ _ _ _, by decide, by decide, by decide, ?_⟩
  rintro ⟨sub, hsub, heq⟩
  have hs : sends cutSend.log = [[1, 2, 3]] := by decide
  have hb : cutSend.wire ++ cutSend.outputBuffer = [1] := by decide
  rw [hs, List.sublist_singleton] at hsub
  rw [hb] at heq
  rcases hsub with rfl | rfl <;> simp at heq

end Dbase.Net.TcpConnection
