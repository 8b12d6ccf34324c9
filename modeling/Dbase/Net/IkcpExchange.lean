/-
  Dbase.Net.IkcpExchange — what one flush and one datagram are sure to bring about.

  Elsewhere it is said what a datagram may do at most. Here is what it does at least: an acknowledgement of the first open
  number takes it out of `snd_buf`, data before the end of the window is acknowledged, a question for the window is
  answered. And a flush that is due sends the segment in front again, once its time has come, and everything that it owes.

  Proved:
  (1) `takes_acked`, `takes_acknowledges`, `takes_asked`, `takes_rmtWnd`: the four effects of a datagram.
  (2) `emitted_head`, `emitted_ack`, `emitted_wask`, `emitted_wins`: the four kinds of segments of a flush.
  (3) `exists_due`: from any time on there is one at which a flush is due.
-/

import Dbase.Net.IkcpFlush

namespace Dbase.Net.Ikcp

open Dbase.Lib.Reorder Dbase.Lib.Serial

variable {kcp k : Kcpcb} {seg : Segment} {segs : List Segment} {sn : UInt32}

theorem flag_or (x y f : UInt32) : (x ||| y) &&& f = 0 ↔ x &&& f = 0 ∧ y &&& f = 0 := by
  have h : (x ||| y) &&& f = (x &&& f) ||| (y &&& f) := by
    rw [← UInt32.toBitVec_inj, UInt32.toBitVec_and, UInt32.toBitVec_or, UInt32.toBitVec_or, UInt32.toBitVec_and,
      UInt32.toBitVec_and]
    ext i
    simp [Bool.and_or_distrib_right]
  rw [h, UInt32.or_eq_zero_iff]

/-! ## Acknowledgements take segments out -/

/-- Segments only go out of `snd_buf`. -/
structure Shrinks (k kcp : Kcpcb) : Prop where
  sndBuf : k.sndBuf.Sublist kcp.sndBuf
  sndNxt : k.sndNxt = kcp.sndNxt

theorem Shrinks.of_sendPart (h : k.sendPart = kcp.sendPart) : Shrinks k kcp := by
  have hbuf : k.sndBuf = kcp.sndBuf := congrArg SendPart.sndBuf h
  exact ⟨by rw [hbuf], congrArg SendPart.sndNxt h⟩

theorem Shrinks.trans {k₁ k₂ k₃ : Kcpcb} (h : Shrinks k₁ k₂) (h' : Shrinks k₂ k₃) : Shrinks k₁ k₃ :=
  ⟨h.sndBuf.trans h'.sndBuf, h.sndNxt.trans h'.sndNxt⟩

theorem shrinkBuf_shrinks (kcp : Kcpcb) : Shrinks (ikcpShrinkBuf kcp) kcp := by
  unfold ikcpShrinkBuf
  split
  · exact ⟨List.Sublist.refl _, rfl⟩
  · exact ⟨List.Sublist.refl _, rfl⟩

theorem shrinkBuf_sndBuf (kcp : Kcpcb) : (ikcpShrinkBuf kcp).sndBuf = kcp.sndBuf := by
  unfold ikcpShrinkBuf
  split <;> rfl

theorem shrinkBuf_front {x : Segment} {rest : List Segment} (h : kcp.sndBuf = x :: rest) :
    ikcpShrinkBuf kcp = { kcp with sndUna := x.sn } := by
  unfold ikcpShrinkBuf
  rw [h]

theorem inputUna_shrinks (kcp : Kcpcb) (seg : Segment) : Shrinks (inputUna seg kcp) kcp := by
  obtain ⟨n, -, hdrop, -⟩ := dropUna_spec seg.una kcp.sndBuf
  refine (shrinkBuf_shrinks _).trans ⟨?_, rfl⟩
  show (dropUna seg.una kcp.sndBuf).1.Sublist kcp.sndBuf
  rw [hdrop]
  exact List.drop_sublist n _

theorem parseAck_shrinks (kcp : Kcpcb) (sn : UInt32) : Shrinks (ikcpParseAck sn kcp) kcp := by
  unfold ikcpParseAck
  split
  · exact ⟨List.Sublist.refl _, rfl⟩
  · refine ⟨?_, rfl⟩
    show (dropAcked sn kcp.sndBuf).1.Sublist kcp.sndBuf
    rcases dropAcked_spec sn kcp.sndBuf with e | ⟨xs, x, ys, hbuf, -, e⟩
    · rw [e]
    · rw [e, hbuf]
      exact List.Sublist.append_left (List.sublist_cons_self _ _) _

/-- The estimate of the round trip, where an acknowledgement has one. -/
theorem timed_same (kcp : Kcpcb) (seg : Segment) : SameParts (if itimediff kcp.current seg.ts ≥ 0 then
    ikcpUpdateAck (itimediff kcp.current seg.ts) kcp else kcp) kcp := .ite kcp (updateAck_same kcp _)

theorem inputAck_shrinks (kcp : Kcpcb) (seg : Segment) : Shrinks (inputAck seg kcp) kcp := by
  have hsame := timed_same kcp seg
  unfold inputAck
  dsimp only
  exact (shrinkBuf_shrinks _).trans ((parseAck_shrinks _ _).trans (.of_sendPart hsame.sendPart))

theorem inputSegment_shrinks (kcp : Kcpcb) (seg : Segment) : Shrinks (inputSegment seg kcp) kcp := by
  have huna := inputUna_shrinks kcp seg
  unfold inputSegment
  dsimp only
  split
  · exact (inputAck_shrinks _ seg).trans huna
  split
  · exact (Shrinks.of_sendPart (inputPush_frame _ seg).2).trans huna
  split
  · exact ⟨huna.sndBuf, huna.sndNxt⟩
  · exact huna

/-- The segment in front has this number, which has been given. -/
structure Front (kcp : Kcpcb) (sn : UInt32) : Prop where
  front : ∃ x rest, kcp.sndBuf = x :: rest ∧ x.sn = sn
  given : itimediff sn kcp.sndNxt < 0

theorem Front.congr (h : Front kcp sn) (hbuf : k.sndBuf = kcp.sndBuf) (hnxt : k.sndNxt = kcp.sndNxt) : Front k sn :=
  ⟨hbuf ▸ h.front, hnxt ▸ h.given⟩

/-- An acknowledgement of the first open number takes it out. -/
theorem parseAck_front (h : Front kcp sn) (huna : kcp.sndUna = sn) :
    (ikcpParseAck sn kcp).sndBuf.length < kcp.sndBuf.length := by
  obtain ⟨x, rest, hbuf, hsn⟩ := h.front
  have hself : itimediff sn sn = 0 := by
    rw [itimediff, diff, UInt32.sub_self]
    rfl
  have hgiven := h.given
  rw [ikcpParseAck, huna, hself, if_neg (by omega)]
  show (dropAcked sn kcp.sndBuf).1.length < kcp.sndBuf.length
  rw [hbuf, dropAcked, if_pos hsn.symm, List.length_cons]
  exact Nat.lt_succ_self _

theorem inputSegment_acked (h : Front kcp seg.sn) (hc : seg.cmd = IKCP_CMD_ACK) :
    (inputSegment seg kcp).sndBuf.length < kcp.sndBuf.length := by
  have huna := inputUna_shrinks kcp seg
  have hle := huna.sndBuf.length_le
  have hle' := (inputAck_shrinks (inputUna seg kcp) seg).sndBuf.length_le
  unfold inputSegment
  dsimp only
  rw [if_pos hc]
  by_cases hsame : (inputUna seg kcp).sndBuf = kcp.sndBuf
  · -- it is still in front, so this acknowledgement takes it out
    obtain ⟨x, rest, hbuf, hsn⟩ := h.front
    have hfirst : (inputUna seg kcp).sndUna = seg.sn := by
      have hdropped : (ikcpParseUna seg.una { kcp with rmtWnd := seg.wnd }).sndBuf = x :: rest := by
        rw [← shrinkBuf_sndBuf, ← hbuf]
        exact hsame
      unfold inputUna
      rw [shrinkBuf_front hdropped]
      exact hsn
    have hfront : Front (inputUna seg kcp) seg.sn := h.congr hsame huna.sndNxt
    have hkeeps := timed_same (inputUna seg kcp) seg
    unfold inputAck
    dsimp only
    rw [shrinkBuf_sndBuf, ← hsame]
    revert hkeeps
    generalize (if itimediff (inputUna seg kcp).current seg.ts ≥ 0 then
      ikcpUpdateAck (itimediff (inputUna seg kcp).current seg.ts) (inputUna seg kcp) else inputUna seg kcp) = k
    intro hkeeps
    have hbuf' : k.sndBuf = (inputUna seg kcp).sndBuf := congrArg SendPart.sndBuf hkeeps.sendPart
    have hnxt' : k.sndNxt = (inputUna seg kcp).sndNxt := congrArg SendPart.sndNxt hkeeps.sendPart
    have huna' : k.sndUna = (inputUna seg kcp).sndUna := congrArg SendPart.sndUna hkeeps.sendPart
    rw [← hbuf']
    exact parseAck_front (hfront.congr hbuf' hnxt') (huna'.trans hfirst)
  · have hne : (inputUna seg kcp).sndBuf.length ≠ kcp.sndBuf.length := fun e => hsame (huna.sndBuf.eq_of_length e)
    omega

theorem inputAll_shrinks (segs : List Segment) (kcp : Kcpcb) : Shrinks (inputAll segs kcp) kcp := by
  induction segs generalizing kcp with
  | nil => exact .of_sendPart rfl
  | cons seg segs ih => exact (ih (inputSegment seg kcp)).trans (inputSegment_shrinks kcp seg)

theorem inputAll_acked (h : Front kcp sn) (hseg : ∃ seg ∈ segs, seg.cmd = IKCP_CMD_ACK ∧ seg.sn = sn) :
    (inputAll segs kcp).sndBuf.length < kcp.sndBuf.length := by
  induction segs generalizing kcp with
  | nil =>
    obtain ⟨seg, hmem, -⟩ := hseg
    cases hmem
  | cons s segs ih =>
    have hstep := inputSegment_shrinks kcp s
    have hrest := (inputAll_shrinks segs (inputSegment s kcp)).sndBuf.length_le
    show (inputAll segs (inputSegment s kcp)).sndBuf.length < _
    by_cases hsame : (inputSegment s kcp).sndBuf = kcp.sndBuf
    · obtain ⟨seg, hmem, hc, hsn⟩ := hseg
      rcases List.mem_cons.mp hmem with rfl | hmem
      · have hless := inputSegment_acked (hsn.symm ▸ h) hc
        rw [hsame] at hless
        exact absurd hless (Nat.lt_irrefl _)
      · rw [← hsame]
        exact ih (h.congr hsame hstep.sndNxt) ⟨seg, hmem, hc, hsn⟩
    · have hne : (inputSegment s kcp).sndBuf.length ≠ kcp.sndBuf.length := fun e => hsame (hstep.sndBuf.eq_of_length e)
      have := hstep.sndBuf.length_le
      omega

/-! ## Data is acknowledged -/

/-- What is to be acknowledged and to be told is left alone. -/
theorem moveAvailable_owes (n : Nat) (kcp : Kcpcb) :
    (moveAvailable n kcp).acklist = kcp.acklist ∧ (moveAvailable n kcp).probe = kcp.probe := by
  induction n generalizing kcp with
  | zero => exact ⟨rfl, rfl⟩
  | succ n ih =>
    unfold moveAvailable
    split
    · exact ⟨rfl, rfl⟩
    · split
      · exact ih _
      · exact ⟨rfl, rfl⟩

theorem parseData_owes (kcp : Kcpcb) (newseg : Segment) :
    (ikcpParseData newseg kcp).acklist = kcp.acklist ∧ (ikcpParseData newseg kcp).probe = kcp.probe := by
  have hinsert : (insertData newseg kcp).acklist = kcp.acklist ∧ (insertData newseg kcp).probe = kcp.probe := by
    unfold insertData
    split <;> exact ⟨rfl, rfl⟩
  unfold ikcpParseData
  split
  · exact ⟨rfl, rfl⟩
  · obtain ⟨hacks, hprobe⟩ := moveAvailable_owes (insertData newseg kcp).rcvBuf.length (insertData newseg kcp)
    exact ⟨hacks.trans hinsert.1, hprobe.trans hinsert.2⟩

/-- Data before the end of the window is acknowledged, whether it is new or not. -/
theorem inputPush_acklist (kcp : Kcpcb) (seg : Segment) : (inputPush seg kcp).acklist =
    if itimediff seg.sn (kcp.rcvNxt + kcp.rcvWnd) < 0 then kcp.acklist ++ [(seg.sn, seg.ts)] else kcp.acklist := by
  unfold inputPush
  split
  · dsimp only
    split
    · exact (parseData_owes _ seg).1
    · rfl
  · rfl

theorem inputSegment_acklist (kcp : Kcpcb) (seg : Segment) : (inputSegment seg kcp).acklist =
    if seg.cmd = IKCP_CMD_PUSH ∧ itimediff seg.sn (kcp.rcvNxt + kcp.rcvWnd) < 0 then kcp.acklist ++ [(seg.sn, seg.ts)]
    else kcp.acklist := by
  obtain ⟨hfix, hrecv⟩ := inputUna_frame kcp seg
  have hacks : (inputUna seg kcp).acklist = kcp.acklist := congrArg RecvPart.acklist hrecv
  have hnxt : (inputUna seg kcp).rcvNxt = kcp.rcvNxt := congrArg RecvPart.rcvNxt hrecv
  have hwnd : (inputUna seg kcp).rcvWnd = kcp.rcvWnd := congrArg Fixed.rcvWnd hfix
  unfold inputSegment
  dsimp only
  by_cases hack : seg.cmd = IKCP_CMD_ACK
  · have hpush : seg.cmd ≠ IKCP_CMD_PUSH := by
      rw [hack]
      decide
    rw [if_pos hack, if_neg fun h => hpush h.1]
    exact (congrArg RecvPart.acklist (inputAck_frame _ seg).2).trans hacks
  rw [if_neg hack]
  by_cases hpush : seg.cmd = IKCP_CMD_PUSH
  · rw [if_pos hpush, inputPush_acklist, hacks, hnxt, hwnd]
    simp only [hpush, true_and]
  · have hno : ¬ (seg.cmd = IKCP_CMD_PUSH ∧ itimediff seg.sn (kcp.rcvNxt + kcp.rcvWnd) < 0) := fun h => hpush h.1
    rw [if_neg hpush, if_neg hno]
    split
    · exact hacks
    · exact hacks

theorem inputAll_acklist (segs : List Segment) (kcp : Kcpcb) : kcp.acklist <+: (inputAll segs kcp).acklist := by
  induction segs generalizing kcp with
  | nil => exact List.prefix_refl _
  | cons seg segs ih =>
    refine List.IsPrefix.trans ?_ (ih (inputSegment seg kcp))
    rw [inputSegment_acklist]
    split
    · exact List.prefix_append _ _
    · exact List.prefix_refl _

/-- `rcv_nxt` goes on by what goes to `rcv_queue`, which takes no more than the window. -/
structure Pulls (kcp k : Kcpcb) : Prop where
  rcvWnd : k.rcvWnd = kcp.rcvWnd
  rcvNxt : kcp.nrcvQue ≤ kcp.rcvWnd →
    ∃ m : Nat, k.rcvNxt = kcp.rcvNxt + UInt32.ofNat m ∧ k.nrcvQue.toNat = kcp.nrcvQue.toNat + m ∧ k.nrcvQue ≤ kcp.rcvWnd

theorem Pulls.of_same (hwnd : k.rcvWnd = kcp.rcvWnd) (hnxt : k.rcvNxt = kcp.rcvNxt) (hque : k.nrcvQue = kcp.nrcvQue) :
    Pulls kcp k :=
  ⟨hwnd, fun hle => ⟨0, hnxt.trans (UInt32.add_zero _).symm, congrArg UInt32.toNat hque, hque.symm ▸ hle⟩⟩

theorem Pulls.trans {k₁ k₂ k₃ : Kcpcb} (h : Pulls k₁ k₂) (h' : Pulls k₂ k₃) : Pulls k₁ k₃ := by
  refine ⟨h'.rcvWnd.trans h.rcvWnd, fun hle => ?_⟩
  obtain ⟨m, hnxt, hque, hroom⟩ := h.rcvNxt hle
  obtain ⟨m', hnxt', hque', hroom'⟩ := h'.rcvNxt (h.rcvWnd.symm ▸ hroom)
  refine ⟨m + m', ?_, by omega, h.rcvWnd ▸ hroom'⟩
  rw [hnxt', hnxt, UInt32.ofNat_add, UInt32.add_assoc]

theorem moveAvailable_pulls (n : Nat) (kcp : Kcpcb) : Pulls kcp (moveAvailable n kcp) := by
  induction n generalizing kcp with
  | zero => exact .of_same rfl rfl rfl
  | succ n ih =>
    unfold moveAvailable
    split
    · exact .of_same rfl rfl rfl
    rename_i seg rest hbuf
    split
    · rename_i hmove
      have hlt := UInt32.lt_iff_toNat_lt.mp hmove.2
      have hwnd := kcp.rcvWnd.toNat_lt
      have hone : (kcp.nrcvQue + 1).toNat = kcp.nrcvQue.toNat + 1 := by
        rw [UInt32.toNat_add, Nat.mod_eq_of_lt (show kcp.nrcvQue.toNat + (1 : UInt32).toNat < 2 ^ 32 by
          have : (1 : UInt32).toNat = 1 := rfl
          omega)]
        rfl
      have hroom : kcp.nrcvQue + 1 ≤ kcp.rcvWnd := UInt32.le_iff_toNat_le.mpr (by omega)
      have hfirst : Pulls kcp { kcp with
          rcvBuf := rest, nrcvBuf := kcp.nrcvBuf - 1, rcvQueue := kcp.rcvQueue ++ [seg], nrcvQue := kcp.nrcvQue + 1,
          rcvNxt := kcp.rcvNxt + 1 } := ⟨rfl, fun _ => ⟨1, rfl, hone, hroom⟩⟩
      exact hfirst.trans (ih _)
    · exact .of_same rfl rfl rfl

theorem inputPush_pulls (kcp : Kcpcb) (seg : Segment) : Pulls kcp (inputPush seg kcp) := by
  have hinsert : ∀ k, Pulls k (insertData seg k) := by
    intro k
    unfold insertData
    split
    · exact .of_same rfl rfl rfl
    · exact .of_same rfl rfl rfl
  have hparse : ∀ k, Pulls k (ikcpParseData seg k) := by
    intro k
    unfold ikcpParseData
    split
    · exact .of_same rfl rfl rfl
    · exact (hinsert k).trans (moveAvailable_pulls _ _)
  have hack : Pulls kcp (ikcpAckPush seg.sn seg.ts kcp) := .of_same rfl rfl rfl
  unfold inputPush
  split
  · dsimp only
    split
    · exact hack.trans (hparse _)
    · exact hack
  · exact .of_same rfl rfl rfl

theorem Pulls.of_frame (hf : k.fixed = kcp.fixed) (hr : k.recvPart = kcp.recvPart) : Pulls kcp k :=
  .of_same (congrArg Fixed.rcvWnd hf) (congrArg RecvPart.rcvNxt hr) (congrArg RecvPart.nrcvQue hr)

theorem inputSegment_pulls (kcp : Kcpcb) (seg : Segment) : Pulls kcp (inputSegment seg kcp) := by
  obtain ⟨hf, hr⟩ := inputUna_frame kcp seg
  have huna : Pulls kcp (inputUna seg kcp) := .of_frame hf hr
  unfold inputSegment
  dsimp only
  split
  · obtain ⟨hf', hr'⟩ := inputAck_frame (inputUna seg kcp) seg
    exact huna.trans (.of_frame hf' hr')
  split
  · exact huna.trans (inputPush_pulls _ seg)
  split
  · exact huna.trans (.of_same rfl rfl rfl)
  · exact huna

theorem inputAll_pulls (segs : List Segment) (kcp : Kcpcb) : Pulls kcp (inputAll segs kcp) := by
  induction segs generalizing kcp with
  | nil => exact .of_same rfl rfl rfl
  | cons seg segs ih => exact (inputSegment_pulls kcp seg).trans (ih (inputSegment seg kcp))

/-- Data that is before the end of the window, wherever `rcv_nxt` goes meanwhile, is acknowledged. -/
theorem inputAll_acknowledges (hseg : seg ∈ segs) (hc : seg.cmd = IKCP_CMD_PUSH) (hroom : kcp.nrcvQue ≤ kcp.rcvWnd)
    (hwin : ∀ m ≤ kcp.rcvWnd.toNat, itimediff seg.sn (kcp.rcvNxt + UInt32.ofNat m + kcp.rcvWnd) < 0) :
    (seg.sn, seg.ts) ∈ (inputAll segs kcp).acklist := by
  obtain ⟨xs, ys, rfl⟩ := List.append_of_mem hseg
  have hsplit : inputAll (xs ++ seg :: ys) kcp = inputAll ys (inputSegment seg (inputAll xs kcp)) := by
    rw [inputAll, List.foldl_append]
    rfl
  have hpulls := inputAll_pulls xs kcp
  obtain ⟨m, hnxt, hque, hle⟩ := hpulls.rcvNxt hroom
  have hlt := UInt32.le_iff_toNat_le.mp hle
  have hin : (seg.sn, seg.ts) ∈ (inputSegment seg (inputAll xs kcp)).acklist := by
    have hbefore : itimediff seg.sn ((inputAll xs kcp).rcvNxt + (inputAll xs kcp).rcvWnd) < 0 := by
      rw [hnxt, hpulls.rcvWnd]
      exact hwin m (by omega)
    rw [inputSegment_acklist, if_pos ⟨hc, hbefore⟩]
    exact List.mem_append_right _ (List.mem_singleton_self _)
  rw [hsplit]
  exact (inputAll_acklist ys _).subset hin

/-! ## A question is noted, and the window is told -/

/-- The user's data and what is to be told are left alone but by a question. -/
structure Asks (seg : Segment) (k kcp : Kcpcb) : Prop where
  probe : k.probe = if seg.cmd = IKCP_CMD_WASK then kcp.probe ||| IKCP_ASK_TELL else kcp.probe
  rmtWnd : k.rmtWnd = seg.wnd

theorem inputPush_probe (kcp : Kcpcb) (seg : Segment) : (inputPush seg kcp).probe = kcp.probe := by
  unfold inputPush
  split
  · dsimp only
    split
    · exact (parseData_owes (ikcpAckPush seg.sn seg.ts kcp) seg).2
    · rfl
  · rfl

theorem inputAck_quiet (kcp : Kcpcb) (seg : Segment) :
    (inputAck seg kcp).probe = kcp.probe ∧ (inputAck seg kcp).rmtWnd = kcp.rmtWnd := by
  have hshrink : ∀ k, (ikcpShrinkBuf k).probe = k.probe ∧ (ikcpShrinkBuf k).rmtWnd = k.rmtWnd := by
    intro k
    unfold ikcpShrinkBuf
    split <;> exact ⟨rfl, rfl⟩
  have hparse : ∀ k, (ikcpParseAck seg.sn k).probe = k.probe ∧ (ikcpParseAck seg.sn k).rmtWnd = k.rmtWnd := by
    intro k
    unfold ikcpParseAck
    split <;> exact ⟨rfl, rfl⟩
  have htimed : ∀ rtt, (ikcpUpdateAck rtt kcp).probe = kcp.probe ∧ (ikcpUpdateAck rtt kcp).rmtWnd = kcp.rmtWnd := by
    intro rtt
    unfold ikcpUpdateAck
    split <;> exact ⟨rfl, rfl⟩
  have hchoice : ∀ k, (k = ikcpUpdateAck (itimediff kcp.current seg.ts) kcp ∨ k = kcp) →
      (ikcpShrinkBuf (ikcpParseAck seg.sn k)).probe = kcp.probe ∧
        (ikcpShrinkBuf (ikcpParseAck seg.sn k)).rmtWnd = kcp.rmtWnd := by
    intro k hk
    obtain ⟨h1, h2⟩ := hshrink (ikcpParseAck seg.sn k)
    obtain ⟨h3, h4⟩ := hparse k
    rw [h1, h2, h3, h4]
    rcases hk with rfl | rfl
    · exact htimed _
    · exact ⟨rfl, rfl⟩
  unfold inputAck
  dsimp only
  split
  · exact hchoice _ (.inl rfl)
  · exact hchoice _ (.inr rfl)

theorem inputSegment_asks (kcp : Kcpcb) (seg : Segment) : Asks seg (inputSegment seg kcp) kcp := by
  have huna : (inputUna seg kcp).probe = kcp.probe ∧ (inputUna seg kcp).rmtWnd = seg.wnd := by
    unfold inputUna ikcpShrinkBuf
    split <;> exact ⟨rfl, rfl⟩
  unfold inputSegment
  dsimp only
  by_cases hack : seg.cmd = IKCP_CMD_ACK
  · have hask : seg.cmd ≠ IKCP_CMD_WASK := by
      rw [hack]
      decide
    obtain ⟨h1, h2⟩ := inputAck_quiet (inputUna seg kcp) seg
    rw [if_pos hack]
    exact ⟨by rw [if_neg hask, h1, huna.1], h2.trans huna.2⟩
  rw [if_neg hack]
  by_cases hpush : seg.cmd = IKCP_CMD_PUSH
  · have hask : seg.cmd ≠ IKCP_CMD_WASK := by
      rw [hpush]
      decide
    rw [if_pos hpush]
    refine ⟨by rw [if_neg hask, inputPush_probe, huna.1], ?_⟩
    exact (congrArg SendPart.rmtWnd (inputPush_frame (inputUna seg kcp) seg).2).trans huna.2
  rw [if_neg hpush]
  by_cases hask : seg.cmd = IKCP_CMD_WASK
  · rw [if_pos hask]
    exact ⟨by rw [if_pos hask, ← huna.1]; rfl, huna.2⟩
  · rw [if_neg hask]
    exact ⟨by rw [if_neg hask, huna.1], huna.2⟩

/-- This end has to tell its window. -/
def MustTell (kcp : Kcpcb) : Prop := kcp.probe &&& IKCP_ASK_TELL ≠ 0

theorem Asks.mustTell (h : Asks seg k kcp) (hk : MustTell kcp ∨ seg.cmd = IKCP_CMD_WASK) : MustTell k := by
  unfold MustTell
  rw [h.probe]
  by_cases hask : seg.cmd = IKCP_CMD_WASK
  · rw [if_pos hask]
    intro hzero
    exact absurd ((flag_or _ _ _).mp hzero).2 (by decide)
  · rw [if_neg hask]
    exact hk.resolve_right hask

theorem inputAll_asked (hk : MustTell kcp ∨ ∃ seg ∈ segs, seg.cmd = IKCP_CMD_WASK) : MustTell (inputAll segs kcp) := by
  induction segs generalizing kcp with
  | nil =>
    rcases hk with hk | ⟨seg, hmem, -⟩
    · exact hk
    · cases hmem
  | cons s segs ih =>
    have hstep := inputSegment_asks kcp s
    show MustTell (inputAll segs (inputSegment s kcp))
    refine ih ?_
    rcases hk with hk | ⟨seg, hmem, hc⟩
    · exact .inl (hstep.mustTell (.inl hk))
    · rcases List.mem_cons.mp hmem with rfl | hmem
      · exact .inl (hstep.mustTell (.inr hc))
      · exact .inr ⟨seg, hmem, hc⟩

theorem inputAll_rmtWnd {wnd : UInt32} (hne : segs ≠ []) (hwnd : ∀ seg ∈ segs, seg.wnd = wnd) :
    (inputAll segs kcp).rmtWnd = wnd := by
  obtain ⟨front, s, rfl⟩ : ∃ front s, segs = front ++ [s] := ⟨_, _, (List.dropLast_append_getLast hne).symm⟩
  have hsplit : inputAll (front ++ [s]) kcp = inputSegment s (inputAll front kcp) := by
    rw [inputAll, List.foldl_append]
    rfl
  rw [hsplit, (inputSegment_asks (inputAll front kcp) s).rmtWnd]
  exact hwnd s (by simp)

/-! ## A whole datagram -/

/-- What `ikcp_input` leaves when it takes a datagram of these segments. -/
def takes (segs : List Segment) (kcp : Kcpcb) : Kcpcb :=
  growCwnd kcp.sndUna (skipped (ackFold (segs.map received) none)
    (inputAll (segs.map received) (countRx (wire segs).length kcp)))

/-- The end of `ikcp_input` counts what an acknowledgement has skipped, and touches the congestion window. -/
structure Counted (k kcp : Kcpcb) : Prop where
  sndBuf : k.sndBuf.length = kcp.sndBuf.length
  acklist : k.acklist = kcp.acklist
  probe : k.probe = kcp.probe
  rmtWnd : k.rmtWnd = kcp.rmtWnd
  sndQueue : k.sndQueue = kcp.sndQueue

theorem takes_counted (segs : List Segment) (kcp : Kcpcb) :
    Counted (takes segs kcp) (inputAll (segs.map received) (countRx (wire segs).length kcp)) := by
  have hskipped : ∀ maxack k, Counted (skipped maxack k) k := by
    intro maxack k
    cases maxack with
    | none => exact ⟨rfl, rfl, rfl, rfl, rfl⟩
    | some sn =>
      unfold skipped ikcpParseFastack
      dsimp only
      split
      · exact ⟨rfl, rfl, rfl, rfl, rfl⟩
      · exact ⟨(markSkipped_alike sn k.sndBuf).length_eq.symm, rfl, rfl, rfl, rfl⟩
  have hprobe : ∀ prevUna k, (growCwnd prevUna k).probe = k.probe := by
    have henlarge : ∀ k, (enlargeCwnd k).probe = k.probe := by
      intro k
      unfold enlargeCwnd
      dsimp only
      split <;> rfl
    have hbound : ∀ k, (boundCwnd k).probe = k.probe := by
      intro k
      unfold boundCwnd
      split <;> rfl
    intro prevUna k
    unfold growCwnd
    split
    · exact (hbound _).trans (henlarge k)
    · rfl
  have hgrow : ∀ prevUna k, Counted (growCwnd prevUna k) k := by
    intro prevUna k
    have hsame := growCwnd_same k prevUna
    exact ⟨congrArg (fun part => part.sndBuf.length) hsame.sendPart, hsame.acklist, hprobe prevUna k,
      congrArg SendPart.rmtWnd hsame.sendPart, hsame.sndQueue⟩
  have h := hskipped (ackFold (segs.map received) none) (inputAll (segs.map received) (countRx (wire segs).length kcp))
  unfold takes
  generalize skipped (ackFold (segs.map received) none)
    (inputAll (segs.map received) (countRx (wire segs).length kcp)) = k at h ⊢
  have h' := hgrow kcp.sndUna k
  exact ⟨h'.sndBuf.trans h.sndBuf, h'.acklist.trans h.acklist, h'.probe.trans h.probe, h'.rmtWnd.trans h.rmtWnd,
    h'.sndQueue.trans h.sndQueue⟩

theorem takes_length (segs : List Segment) (kcp : Kcpcb) : (takes segs kcp).sndBuf.length ≤ kcp.sndBuf.length := by
  rw [(takes_counted segs kcp).sndBuf]
  exact (inputAll_shrinks (segs.map received) (countRx (wire segs).length kcp)).sndBuf.length_le

theorem takes_sndQueue (segs : List Segment) (kcp : Kcpcb) : (takes segs kcp).sndQueue = kcp.sndQueue := by
  have hall : ∀ (segs : List Segment) k, (inputAll segs k).sndQueue = k.sndQueue := by
    intro segs
    induction segs with
    | nil => exact fun _ => rfl
    | cons seg segs ih => exact fun k => (ih (inputSegment seg k)).trans (inputSegment_sndQueue k seg)
  exact (takes_counted segs kcp).sndQueue.trans (hall _ _)

/-- The first open number is acknowledged. -/
theorem takes_acked (h : Front kcp sn) (hseg : ∃ seg ∈ segs, seg.cmd = IKCP_CMD_ACK ∧ seg.sn = sn) :
    (takes segs kcp).sndBuf.length < kcp.sndBuf.length := by
  obtain ⟨seg, hmem, hc, hsn⟩ := hseg
  have hfront : Front (countRx (wire segs).length kcp) sn := h.congr rfl rfl
  rw [(takes_counted segs kcp).sndBuf]
  exact inputAll_acked hfront ⟨received seg, List.mem_map_of_mem hmem, (received_cmd (.inr (.inl hc))).trans hc, hsn⟩

theorem takes_acknowledges (hseg : seg ∈ segs) (hc : seg.cmd = IKCP_CMD_PUSH) (hroom : kcp.nrcvQue ≤ kcp.rcvWnd)
    (hwin : ∀ m ≤ kcp.rcvWnd.toNat, itimediff seg.sn (kcp.rcvNxt + UInt32.ofNat m + kcp.rcvWnd) < 0) :
    (seg.sn, seg.ts) ∈ (takes segs kcp).acklist := by
  rw [(takes_counted segs kcp).acklist]
  have hmem : received seg ∈ segs.map received := List.mem_map_of_mem hseg
  have hcmd : (received seg).cmd = IKCP_CMD_PUSH := (received_cmd (.inl hc)).trans hc
  have hcount : (countRx (wire segs).length kcp).nrcvQue ≤ (countRx (wire segs).length kcp).rcvWnd := hroom
  have hack : ((received seg).sn, (received seg).ts) ∈
      (inputAll (segs.map received) (countRx (wire segs).length kcp)).acklist := inputAll_acknowledges hmem hcmd hcount hwin
  exact hack

/-- A question for the window is noted. -/
theorem takes_asked (h : MustTell kcp ∨ ∃ seg ∈ segs, seg.cmd = IKCP_CMD_WASK) : MustTell (takes segs kcp) := by
  unfold MustTell
  rw [(takes_counted segs kcp).probe]
  refine inputAll_asked (Or.imp_right ?_ (show MustTell (countRx (wire segs).length kcp) ∨ _ from h))
  intro hask
  obtain ⟨seg, hmem, hc⟩ := hask
  exact ⟨received seg, List.mem_map_of_mem hmem, (received_cmd (.inr (.inr (.inl hc)))).trans hc⟩

/-- The window is the one that was told. -/
theorem takes_rmtWnd {wnd : UInt32} (hne : segs ≠ []) (hwnd : ∀ seg ∈ segs, seg.wnd = wnd) :
    (takes segs kcp).rmtWnd = wnd.toUInt16.toUInt32 := by
  rw [(takes_counted segs kcp).rmtWnd]
  refine inputAll_rmtWnd (by simpa using hne) fun s hs => ?_
  obtain ⟨seg, hmem, rfl⟩ := List.mem_map.mp hs
  show seg.wnd.toUInt16.toUInt32 = _
  rw [hwnd seg hmem]

/-! ## What a flush leaves -/

/-- `moveToBuf` appends to `snd_buf` what it takes from `snd_queue`. -/
structure Moves (kcp k : Kcpcb) : Prop where
  sndBuf : ∃ more, k.sndBuf = kcp.sndBuf ++ more ∧ more.length + k.sndQueue.length = kcp.sndQueue.length
  current : k.current = kcp.current
  rmtWnd : k.rmtWnd = kcp.rmtWnd
  probeWait : k.probeWait = kcp.probeWait

theorem moveToBuf_moves (cwnd wnd : UInt32) (n : Nat) (kcp : Kcpcb) : Moves kcp (moveToBuf cwnd wnd n kcp) := by
  induction n generalizing kcp with
  | zero => exact ⟨⟨[], by simp [moveToBuf]⟩, rfl, rfl, rfl⟩
  | succ n ih =>
    have hstay : Moves kcp kcp := ⟨⟨[], by simp⟩, rfl, rfl, rfl⟩
    unfold moveToBuf
    split
    · split
      · exact hstay
      · rename_i newseg rest hqueue
        obtain ⟨⟨more, hbuf, hlen⟩, hcurrent, hrmt, hwait⟩ := ih { kcp with
          sndQueue := rest, sndBuf := kcp.sndBuf ++ [numbered kcp wnd newseg], nsndQue := kcp.nsndQue - 1,
          nsndBuf := kcp.nsndBuf + 1, sndNxt := kcp.sndNxt + 1 }
        refine ⟨⟨numbered kcp wnd newseg :: more, ?_, ?_⟩, hcurrent, hrmt, hwait⟩
        · rw [hbuf]
          simp
        · rw [hqueue, List.length_cons, List.length_cons]
          simp only at hlen
          omega
    · exact hstay

/-- A window that is open lets the first segment through. -/
theorem moveToBuf_opens {cwnd wnd : UInt32} {n : Nat} (hn : 0 < n) (hqueue : kcp.sndQueue ≠ [])
    (hroom : itimediff kcp.sndNxt (kcp.sndUna + cwnd) < 0) : (moveToBuf cwnd wnd n kcp).sndBuf ≠ [] := by
  obtain ⟨m, rfl⟩ := Nat.exists_eq_succ_of_ne_zero (Nat.ne_of_gt hn)
  obtain ⟨newseg, rest, hcons⟩ := List.exists_cons_of_ne_nil hqueue
  unfold moveToBuf
  rw [if_pos hroom]
  split
  · rename_i hnil
    exact absurd hnil hqueue
  · rename_i newseg rest _
    obtain ⟨⟨more, hbuf, -⟩, -⟩ := moveToBuf_moves cwnd wnd m { kcp with
      sndQueue := rest, sndBuf := kcp.sndBuf ++ [numbered kcp wnd newseg], nsndQue := kcp.nsndQue - 1,
      nsndBuf := kcp.nsndBuf + 1, sndNxt := kcp.sndNxt + 1 }
    rw [hbuf]
    simp

/-- The clock and the congestion window do not depend on a probe, which can only be added to what is to be sent. -/
structure Probes (k kcp : Kcpcb) : Prop where
  current : k.current = kcp.current
  cwnd : k.cwnd = kcp.cwnd
  probe : k.probe = kcp.probe ∨ k.probe = kcp.probe ||| IKCP_ASK_SEND

theorem probeWindow_asks (kcp : Kcpcb) : Probes (probeWindow kcp) kcp := by
  unfold probeWindow
  split
  · exact ⟨rfl, rfl, .inl rfl⟩
  split
  · exact ⟨rfl, rfl, .inl rfl⟩
  split
  · exact ⟨rfl, rfl, .inr rfl⟩
  · exact ⟨rfl, rfl, .inl rfl⟩

theorem numbering_moves (kcp : Kcpcb) : Moves (probing kcp) (numbering kcp) := by
  obtain ⟨hbuf, hcurrent, hrmt, hwait⟩ := moveToBuf_moves (sendWindow { probing kcp with probe := 0 })
    (ikcpWndUnused kcp) (probing kcp).sndQueue.length { probing kcp with probe := 0 }
  exact ⟨hbuf, hcurrent, hrmt, hwait⟩

/-- What goes out of `snd_queue` comes behind `snd_buf`. -/
theorem numbering_appends (kcp : Kcpcb) : ∃ more, (numbering kcp).sndBuf = kcp.sndBuf ++ more ∧
    more.length + (numbering kcp).sndQueue.length = kcp.sndQueue.length := by
  have hp := probing_same kcp
  have hbuf : (probing kcp).sndBuf = kcp.sndBuf := congrArg SendPart.sndBuf hp.sendPart
  obtain ⟨more, hmore, hlen⟩ := (numbering_moves kcp).sndBuf
  exact ⟨more, hbuf ▸ hmore, hp.sndQueue ▸ hlen⟩

/-- What a flush leaves of the lists and of the timers for the window. -/
structure Leaves (kcp k : Kcpcb) : Prop where
  sndBuf : k.sndBuf.length = (numbering kcp).sndBuf.length
  sndQueue : k.sndQueue = (numbering kcp).sndQueue
  rmtWnd : k.rmtWnd = kcp.rmtWnd
  probeWait : k.probeWait = (probing kcp).probeWait
  cwnd : k.cwnd ≠ 0

theorem updateSsthresh_leaves (cwnd resent : UInt32) (change : Nat) (lost : Bool) (kcp : Kcpcb) :
    (updateSsthresh cwnd resent change lost kcp).probeWait = kcp.probeWait ∧
      (updateSsthresh cwnd resent change lost kcp).cwnd ≠ 0 := by
  have hone : ∀ k, (atLeastOne k).probeWait = k.probeWait ∧ (atLeastOne k).cwnd ≠ 0 := by
    intro k
    unfold atLeastOne
    by_cases hsmall : k.cwnd < 1
    · rw [if_pos hsmall]
      exact ⟨rfl, (by decide : (1 : UInt32) ≠ 0)⟩
    · rw [if_neg hsmall]
      refine ⟨rfl, fun hzero => hsmall ?_⟩
      rw [hzero]
      decide
  have hfast : (if change ≠ 0 then afterFast resent kcp else kcp).probeWait = kcp.probeWait := by
    split <;> rfl
  have hloss : ∀ k, (if lost then afterLoss cwnd k else k).probeWait = k.probeWait := by
    intro k
    split <;> rfl
  unfold updateSsthresh
  exact ⟨(hone _).1.trans ((hloss _).trans hfast), (hone _).2⟩

theorem flushData_length (wnd resent rtomin : UInt32) (buf : List Segment) (f : Flushed) :
    (flushData kcp wnd resent rtomin buf f).sndBuf.length = f.sndBuf.length + buf.length := by
  have hone : ∀ seg f, (flushSegment kcp wnd resent rtomin seg f).sndBuf.length = f.sndBuf.length + 1 := by
    intro seg f
    unfold flushSegment
    dsimp only
    split
    · exact List.length_append
    · exact List.length_append
  induction buf generalizing f with
  | nil => rfl
  | cons seg buf ih =>
    rw [flushData, ih, hone, List.length_cons]
    omega

theorem flush_leaves (hup : kcp.updated ≠ 0) : Leaves kcp (ikcpFlush kcp).1 := by
  have hwait := (numbering_moves kcp).probeWait
  have hrmt : (numbering kcp).rmtWnd = kcp.rmtWnd :=
    (numbering_moves kcp).rmtWnd.trans (congrArg SendPart.rmtWnd (probing_same kcp).sendPart)
  generalize hres : ikcpFlush kcp = res
  rw [ikcpFlush, if_neg hup] at hres
  extract_lets wnd seg acks k0 probed k1 cwnd k2 resent rtomin f out3 k3 at hres
  have hk3 : k3.probeWait = (probing kcp).probeWait ∧ k3.rmtWnd = kcp.rmtWnd ∧
      k3.sndQueue = (numbering kcp).sndQueue := ⟨hwait, hrmt, rfl⟩
  have hbuf : k3.sndBuf.length = (numbering kcp).sndBuf.length := by
    show f.sndBuf.length = _
    rw [show f.sndBuf.length = 0 + k2.sndBuf.length from flushData_length wnd resent rtomin k2.sndBuf _, Nat.zero_add]
    rfl
  clear_value k3
  subst hres
  obtain ⟨hpw, hcwnd⟩ := updateSsthresh_leaves cwnd resent f.change f.lost k3
  have hsame : SameParts (updateSsthresh cwnd resent f.change f.lost k3) k3 := updateSsthresh_same k3 _ _ _ _
  have hlists : (updateSsthresh cwnd resent f.change f.lost k3).sndBuf = k3.sndBuf := congrArg SendPart.sndBuf hsame.sendPart
  exact ⟨(congrArg List.length hlists).trans hbuf, hsame.sndQueue.trans hk3.2.2,
    (congrArg SendPart.rmtWnd hsame.sendPart).trans hk3.2.1, hpw.trans hk3.1, hcwnd⟩

/-- With nothing on its way, an open window gives the first number. -/
theorem numbering_opens {A : Nat → Prop} {log : List Fragment} (h : Sending A log [] kcp) (hqueue : kcp.sndQueue ≠ [])
    (hrmt : kcp.rmtWnd ≠ 0) (hsnd : kcp.sndWnd ≠ 0) (hcwnd : kcp.cwnd ≠ 0) : (numbering kcp).sndBuf ≠ [] := by
  have hp := probing_same kcp
  have hprobed : (probing kcp).cwnd = kcp.cwnd := (probeWindow_asks { kcp with acklist := [] }).cwnd
  have hqueue' : (probing kcp).sndQueue = kcp.sndQueue := hp.sndQueue
  have hnxt : (probing kcp).sndNxt = UInt32.ofNat log.length := (congrArg SendPart.sndNxt hp.sendPart).trans h.nxt
  have huna : (probing kcp).sndUna = UInt32.ofNat log.length := (congrArg SendPart.sndUna hp.sendPart).trans h.una
  have hrmt' : (probing kcp).rmtWnd = kcp.rmtWnd := congrArg SendPart.rmtWnd hp.sendPart
  have hsnd' : (probing kcp).sndWnd = kcp.sndWnd := congrArg Fixed.sndWnd hp.fixed
  have hmin : ∀ a b : UInt32, a ≠ 0 → b ≠ 0 → imin a b ≠ 0 := by
    intro a b ha hb
    unfold imin
    split
    · exact ha
    · exact hb
  have hwindow : sendWindow { probing kcp with probe := 0 } ≠ 0 := by
    show (if (probing kcp).nocwnd = 0 then imin (probing kcp).cwnd (imin (probing kcp).sndWnd (probing kcp).rmtWnd)
      else imin (probing kcp).sndWnd (probing kcp).rmtWnd) ≠ 0
    rw [hprobed, hrmt', hsnd']
    split
    · exact hmin _ _ hcwnd (hmin _ _ hsnd hrmt)
    · exact hmin _ _ hsnd hrmt
  have hle : (sendWindow { probing kcp with probe := 0 }).toNat ≤ maxWnd :=
    sendWindow_le (show (probing kcp).rmtWnd.toNat ≤ maxWnd from hrmt'.symm ▸ h.rmtWnd)
  unfold numbering
  generalize sendWindow { probing kcp with probe := 0 } = cwnd at hwindow hle
  have hpos : 0 < cwnd.toNat := Nat.pos_of_ne_zero fun e => hwindow (UInt32.toNat_inj.mp e)
  refine moveToBuf_opens (List.length_pos_iff.mpr (hqueue'.symm ▸ hqueue)) (hqueue'.symm ▸ hqueue) ?_
  show itimediff (probing kcp).sndNxt ((probing kcp).sndUna + cwnd) < 0
  rw [hnxt, huna, ofNat_add_toNat, itimediff,
    diff_ofNat (by unfold maxWnd at *; omega) (by unfold maxWnd at *; omega)]
  omega

/-! ## What a flush is sure to send -/

theorem emitted_ack {ack : UInt32 × UInt32} (h : ack ∈ kcp.acklist) :
    ∃ seg ∈ emitted kcp, seg.cmd = IKCP_CMD_ACK ∧ seg.sn = ack.1 :=
  ⟨_, List.mem_append_left _ (List.mem_map_of_mem h), rfl, rfl⟩

/-- The segment in front, once it is time to send it again. -/
theorem emitted_head {x : Segment} {rest : List Segment} (hbuf : kcp.sndBuf = x :: rest)
    (hdue : 0 ≤ itimediff kcp.current x.resendts) : ∃ seg ∈ emitted kcp, seg.cmd = x.cmd ∧ seg.sn = x.sn := by
  obtain ⟨more, hmore, -⟩ := numbering_appends kcp
  have hcurrent : (numbering kcp).current = kcp.current :=
    (numbering_moves kcp).current.trans (probeWindow_asks { kcp with acklist := [] }).current
  have hx : x ∈ (numbering kcp).sndBuf := by
    rw [hmore, hbuf]
    exact List.mem_cons_self
  have hsend : ∀ resent, needsend (numbering kcp) resent x ≠ .no := by
    intro resent
    unfold needsend
    by_cases hnew : x.xmit = 0
    · rw [if_pos hnew]
      decide
    · rw [if_neg hnew, if_pos (hcurrent.symm ▸ hdue)]
      decide
  refine ⟨resend (numbering kcp) (ikcpWndUnused kcp)
    (if (numbering kcp).fastresend > 0 then toUnsigned (numbering kcp).fastresend else 0xffffffff)
    (if (numbering kcp).nodelay = 0 then toUnsigned ((numbering kcp).rxRto >>> 3) else 0) x, ?_, ?_, ?_⟩
  · refine List.mem_append_right _ (List.mem_append_right _ (List.mem_map_of_mem (List.mem_filter.mpr ⟨hx, ?_⟩)))
    exact decide_eq_true (hsend _)
  · exact (resend_alike _ _ _).cmd
  · exact (resend_alike _ _ _).sn

theorem emitted_wask (h : (probing kcp).probe &&& IKCP_ASK_SEND ≠ 0) : ∃ seg ∈ emitted kcp, seg.cmd = IKCP_CMD_WASK := by
  refine ⟨{ lastHeader (ackHeader kcp) kcp.acklist with cmd := IKCP_CMD_WASK }, ?_, rfl⟩
  refine List.mem_append_right _ (List.mem_append_left _ (List.mem_append_left _ ?_))
  rw [probeSegments, if_pos h]
  exact List.mem_singleton_self _

theorem emitted_wins (h : MustTell kcp) : ∃ seg ∈ emitted kcp, seg.cmd = IKCP_CMD_WINS := by
  have hprobing : MustTell (probing kcp) := by
    unfold MustTell probing
    rcases (probeWindow_asks { kcp with acklist := [] }).probe with e | e
    · rw [e]
      exact h
    · rw [e]
      exact fun hzero => h ((flag_or _ _ _).mp hzero).1
  refine ⟨{ lastHeader (ackHeader kcp) kcp.acklist with cmd := IKCP_CMD_WINS }, ?_, rfl⟩
  refine List.mem_append_right _ (List.mem_append_left _ (List.mem_append_right _ ?_))
  rw [probeSegments, if_pos (show (probing kcp).probe &&& IKCP_ASK_TELL ≠ 0 from hprobing)]
  exact List.mem_singleton_self _

/-- All segments of a flush tell the same window. -/
theorem emitted_wnd : ∀ seg ∈ emitted kcp, seg.wnd = ikcpWndUnused kcp := by
  obtain ⟨sn, ts, hlast⟩ := lastHeader_eq (ackHeader kcp) kcp.acklist
  intro seg hseg
  unfold emitted probes at hseg
  rw [hlast] at hseg
  simp only [List.mem_append] at hseg
  rcases hseg with hack | (hask | htell) | hdata
  · obtain ⟨ack, -, rfl⟩ := List.mem_map.mp hack
    rfl
  · unfold probeSegments at hask
    split at hask
    · obtain rfl := List.mem_singleton.mp hask
      rfl
    · exact absurd hask List.not_mem_nil
  · unfold probeSegments at htell
    split at htell
    · obtain rfl := List.mem_singleton.mp htell
      rfl
    · exact absurd htell List.not_mem_nil
  · obtain ⟨s, hs, rfl⟩ := List.mem_map.mp hdata
    have hno := (List.mem_filter.mp hs).2
    rw [resend, if_neg (of_decide_eq_true hno)]
    rfl

/-- A probe is due. -/
theorem probing_asks (hrmt : kcp.rmtWnd = 0) (hwait : kcp.probeWait ≠ 0) (hdue : 0 ≤ itimediff kcp.current kcp.tsProbe) :
    (probing kcp).probe &&& IKCP_ASK_SEND ≠ 0 := by
  have hprobe : (probing kcp).probe = kcp.probe ||| IKCP_ASK_SEND := by
    rw [probing, probeWindow, if_neg (not_not_intro hrmt), if_neg hwait, if_pos hdue]
  rw [hprobe]
  exact fun hzero => absurd ((flag_or _ _ _).mp hzero).2 (by decide)

/-! ## The time of a flush -/

theorem flushDue_of {now : UInt32}
    (h : kcp.updated ≠ 0 → -10000 ≤ itimediff now kcp.tsFlush → 0 ≤ itimediff now kcp.tsFlush) :
    flushDue (resync (startClock now kcp)) = true := by
  have hself : itimediff now now = 0 := by
    rw [itimediff, diff, UInt32.sub_self]
    rfl
  have hnow : ∀ k : Kcpcb, k.current = now → (k.tsFlush = now ∨ 0 ≤ itimediff now k.tsFlush ∨
      itimediff now k.tsFlush < -10000) → flushDue (resync k) = true := by
    intro k hcurrent hk
    unfold flushDue resync
    dsimp only
    by_cases hfar : itimediff k.current k.tsFlush ≥ 10000 ∨ itimediff k.current k.tsFlush < -10000
    · rw [if_pos hfar]
      refine decide_eq_true ?_
      show itimediff k.current k.current ≥ 0
      rw [hcurrent, hself]
    · rw [if_neg hfar]
      refine decide_eq_true ?_
      rw [hcurrent] at hfar ⊢
      rcases hk with hk | hk | hk
      · rw [hk, hself]
      · exact hk
      · exact absurd (.inr hk) hfar
  unfold startClock
  by_cases hup : kcp.updated = 0
  · rw [if_pos hup]
    exact hnow _ rfl (.inl rfl)
  · rw [if_neg hup]
    refine hnow _ rfl (.inr ?_)
    show 0 ≤ itimediff now kcp.tsFlush ∨ itimediff now kcp.tsFlush < -10000
    by_cases hclose : -10000 ≤ itimediff now kcp.tsFlush
    · exact .inl (h hup hclose)
    · exact .inr (not_le.mp hclose)

/-- At any time or 20 s later a flush is due: the next one is never more than 10 s away. -/
theorem exists_due (kcp : Kcpcb) (x : UInt32) :
    ∃ now, 0 ≤ itimediff now x ∧ flushDue (resync (startClock now kcp)) = true := by
  have hself : itimediff x x = 0 := by
    rw [itimediff, diff, UInt32.sub_self]
    rfl
  by_cases hclose : -10000 ≤ itimediff x kcp.tsFlush ∧ itimediff x kcp.tsFlush < 0
  · have hback : itimediff kcp.tsFlush x = -itimediff x kcp.tsFlush := diff_swap (Int.lt_of_lt_of_le (by decide) hclose.1)
    have hx : itimediff x (x + UInt32.ofNat 20000) = itimediff x x - (20000 : Nat) :=
      diff_later (by unfold itimediff at *; omega)
    have hflush : itimediff kcp.tsFlush (x + UInt32.ofNat 20000) = itimediff kcp.tsFlush x - (20000 : Nat) :=
      diff_later (by unfold itimediff at *; omega)
    have hx' : itimediff (x + UInt32.ofNat 20000) x = -itimediff x (x + UInt32.ofNat 20000) :=
      diff_swap (by unfold itimediff at *; omega)
    have hflush' : itimediff (x + UInt32.ofNat 20000) kcp.tsFlush = -itimediff kcp.tsFlush (x + UInt32.ofNat 20000) :=
      diff_swap (by unfold itimediff at *; omega)
    exact ⟨x + UInt32.ofNat 20000, by omega, flushDue_of fun _ _ => by omega⟩
  · exact ⟨x, by omega, flushDue_of fun _ hle => by omega⟩

theorem update_due {now : UInt32} (h : flushDue (resync (startClock now kcp)) = true) : ikcpUpdate now kcp =
    (ikcpUpdatePktloss (ikcpUpdateBandwidth (ikcpFlush (ticked now kcp)).1), (ikcpFlush (ticked now kcp)).2) := by
  have htick : nextFlush (resync (startClock now kcp)) = ticked now kcp := rfl
  rw [ikcpUpdate]
  dsimp only
  rw [if_pos h, htick]

/-- The clock has started, and the timers for the window are as they were. -/
structure Started (now : UInt32) (k kcp : Kcpcb) : Prop where
  current : k.current = now
  updated : k.updated ≠ 0
  probe : k.probe = kcp.probe
  probeWait : k.probeWait = kcp.probeWait
  tsProbe : k.tsProbe = kcp.tsProbe
  cwnd : k.cwnd = kcp.cwnd

theorem ticked_started (now : UInt32) (kcp : Kcpcb) : Started now (ticked now kcp) kcp := by
  have hstart : Started now (startClock now kcp) kcp := by
    unfold startClock
    by_cases hup : kcp.updated = 0
    · rw [if_pos hup]
      exact ⟨rfl, (by decide : (1 : UInt32) ≠ 0), rfl, rfl, rfl, rfl⟩
    · rw [if_neg hup]
      exact ⟨rfl, hup, rfl, rfl, rfl, rfl⟩
  have hresync : ∀ k, Started now k kcp → Started now (resync k) kcp := by
    intro k hk
    unfold resync
    dsimp only
    split
    · exact ⟨hk.current, hk.updated, hk.probe, hk.probeWait, hk.tsProbe, hk.cwnd⟩
    · exact hk
  have hnext : ∀ k, Started now k kcp → Started now (nextFlush k) kcp := by
    intro k hk
    exact ⟨hk.current, hk.updated, hk.probe, hk.probeWait, hk.tsProbe, hk.cwnd⟩
  exact hnext _ (hresync _ hstart)

/-- What an update leaves when a flush was due. -/
structure Refreshed (kcp k : Kcpcb) : Prop where
  total : k.sndBuf.length + k.sndQueue.length = kcp.sndBuf.length + kcp.sndQueue.length
  sndBuf : kcp.sndBuf.length ≤ k.sndBuf.length
  rmtWnd : k.rmtWnd = kcp.rmtWnd
  waits : kcp.rmtWnd = 0 → kcp.probeWait = 0 → k.probeWait ≠ 0
  cwnd : k.cwnd ≠ 0

theorem statistics_timers (k : Kcpcb) : (ikcpUpdatePktloss (ikcpUpdateBandwidth k)).cwnd = k.cwnd ∧
    (ikcpUpdatePktloss (ikcpUpdateBandwidth k)).probeWait = k.probeWait := by
  have hbandwidth : (ikcpUpdateBandwidth k).cwnd = k.cwnd ∧ (ikcpUpdateBandwidth k).probeWait = k.probeWait := by
    unfold ikcpUpdateBandwidth
    dsimp only
    split
    · exact ⟨rfl, rfl⟩
    · split <;> exact ⟨rfl, rfl⟩
  have hpktloss : ∀ k, (ikcpUpdatePktloss k).cwnd = k.cwnd ∧ (ikcpUpdatePktloss k).probeWait = k.probeWait := by
    intro k
    unfold ikcpUpdatePktloss
    dsimp only
    split
    · exact ⟨rfl, rfl⟩
    · split <;> exact ⟨rfl, rfl⟩
  exact ⟨(hpktloss _).1.trans hbandwidth.1, (hpktloss _).2.trans hbandwidth.2⟩

theorem update_refreshed {now : UInt32} (h : flushDue (resync (startClock now kcp)) = true) :
    Refreshed kcp (ikcpUpdate now kcp).1 ∧ (ikcpUpdate now kcp).1.sndBuf.length = (numbering (ticked now kcp)).sndBuf.length := by
  have hstart := ticked_started now kcp
  have hsame := ticked_same now kcp
  have hleaves := flush_leaves hstart.updated
  obtain ⟨more, hmore, hlen⟩ := numbering_appends (ticked now kcp)
  have hbuf : (ticked now kcp).sndBuf = kcp.sndBuf := congrArg SendPart.sndBuf hsame.sendPart
  have hrmt : (ticked now kcp).rmtWnd = kcp.rmtWnd := congrArg SendPart.rmtWnd hsame.sendPart
  rw [hsame.sndQueue] at hlen
  rw [hbuf] at hmore
  have hcount := congrArg List.length hmore
  rw [List.length_append] at hcount
  have hwaits : kcp.rmtWnd = 0 → kcp.probeWait = 0 → (probing (ticked now kcp)).probeWait ≠ 0 := by
    intro hzero hnone
    rw [probing, probeWindow, if_neg (not_not_intro (hrmt.trans hzero)), if_pos (hstart.probeWait.trans hnone)]
    exact (by decide : IKCP_PROBE_INIT ≠ 0)
  rw [update_due h]
  generalize (ikcpFlush (ticked now kcp)).1 = k at hleaves
  have hstat := statistics_same k
  have htimers := statistics_timers k
  have hlists : (ikcpUpdatePktloss (ikcpUpdateBandwidth k)).sndBuf = k.sndBuf := congrArg SendPart.sndBuf hstat.sendPart
  have hbufs : (ikcpUpdatePktloss (ikcpUpdateBandwidth k)).sndBuf.length = (numbering (ticked now kcp)).sndBuf.length :=
    (congrArg List.length hlists).trans hleaves.sndBuf
  have hqueue : (ikcpUpdatePktloss (ikcpUpdateBandwidth k)).sndQueue = (numbering (ticked now kcp)).sndQueue :=
    hstat.sndQueue.trans hleaves.sndQueue
  refine ⟨⟨?_, ?_, ?_, ?_, ?_⟩, hbufs⟩
  · rw [hbufs, hqueue]
    omega
  · rw [hbufs]
    omega
  · exact (congrArg SendPart.rmtWnd hstat.sendPart).trans (hleaves.rmtWnd.trans hrmt)
  · intro hzero hnone
    rw [htimers.2, hleaves.probeWait]
    exact hwaits hzero hnone
  · rw [htimers.1]
    exact hleaves.cwnd

end Dbase.Net.Ikcp
