/-
  Dbase.Net.IkcpParts — a control block in parts: what the settings fix, what sending and what receiving rest on.

  Most functions of ikcp change one part; here is what each leaves alone. The clock, the timers, the congestion window and
  the statistics belong to no part: nothing that is sent or received depends on them but its time.
-/

import Dbase.Net.Ikcp

namespace Dbase.Net.Ikcp

structure Fixed where
  conv : UInt32
  token : UInt32
  mtu : UInt32
  mss : UInt32
  capacity : UInt32
  sndWnd : UInt32
  rcvWnd : UInt32
  stream : Int

structure SendPart where
  sndUna : UInt32
  sndNxt : UInt32
  sndQueue : List Segment
  sndBuf : List Segment
  nsndQue : UInt32
  nsndBuf : UInt32
  rmtWnd : UInt32

structure RecvPart where
  rcvNxt : UInt32
  rcvQueue : List Segment
  rcvBuf : List Segment
  nrcvQue : UInt32
  nrcvBuf : UInt32
  acklist : List (UInt32 × UInt32)

variable (kcp : Kcpcb)

abbrev Kcpcb.fixed : Fixed :=
  ⟨kcp.conv, kcp.token, kcp.mtu, kcp.mss, kcp.capacity, kcp.sndWnd, kcp.rcvWnd, kcp.stream⟩

abbrev Kcpcb.sendPart : SendPart :=
  ⟨kcp.sndUna, kcp.sndNxt, kcp.sndQueue, kcp.sndBuf, kcp.nsndQue, kcp.nsndBuf, kcp.rmtWnd⟩

abbrev Kcpcb.recvPart : RecvPart := ⟨kcp.rcvNxt, kcp.rcvQueue, kcp.rcvBuf, kcp.nrcvQue, kcp.nrcvBuf, kcp.acklist⟩

/-- The same parts: at most the clock, the timers, the windows of the congestion control and the statistics differ. -/
structure SameParts (k kcp : Kcpcb) : Prop where
  fixed : k.fixed = kcp.fixed
  sendPart : k.sendPart = kcp.sendPart
  recvPart : k.recvPart = kcp.recvPart

theorem SameParts.refl : SameParts kcp kcp := ⟨rfl, rfl, rfl⟩

theorem SameParts.trans {k₁ k₂ k₃ : Kcpcb} (h : SameParts k₁ k₂) (h' : SameParts k₂ k₃) : SameParts k₁ k₃ :=
  ⟨h.fixed.trans h'.fixed, h.sendPart.trans h'.sendPart, h.recvPart.trans h'.recvPart⟩

theorem SameParts.sndQueue {k : Kcpcb} (h : SameParts k kcp) : k.sndQueue = kcp.sndQueue :=
  congrArg SendPart.sndQueue h.sendPart

theorem SameParts.rcvWnd {k : Kcpcb} (h : SameParts k kcp) : k.rcvWnd = kcp.rcvWnd := congrArg Fixed.rcvWnd h.fixed

theorem SameParts.acklist {k : Kcpcb} (h : SameParts k kcp) : k.acklist = kcp.acklist :=
  congrArg RecvPart.acklist h.recvPart

theorem SameParts.ite {c : Prop} [Decidable c] {k : Kcpcb} (h : SameParts k kcp) :
    SameParts (if c then k else kcp) kcp := by
  split
  · exact h
  · exact .refl kcp

/-! ## Settings -/

theorem nodelay_same (nodelay interval resend nc : Int) : SameParts (ikcpNodelay nodelay interval resend nc kcp) kcp := by
  unfold ikcpNodelay
  dsimp only
  split <;> split <;> split <;> split <;> exact ⟨rfl, rfl, rfl⟩

/-- The receive window that `ikcp_wndsize` leaves. -/
def rcvWindow (rcvwnd : Int) (wnd : UInt32) : UInt32 := if rcvwnd > 0 then imax (toUnsigned rcvwnd) IKCP_WND_RCV else wnd

/-- The send window that it leaves. -/
def sndWindow (sndwnd : Int) (wnd : UInt32) : UInt32 := if sndwnd > 0 then toUnsigned sndwnd else wnd

theorem wndsize_frame (sndwnd rcvwnd : Int) :
    (ikcpWndsize sndwnd rcvwnd kcp).fixed =
      { kcp.fixed with sndWnd := sndWindow sndwnd kcp.sndWnd, rcvWnd := rcvWindow rcvwnd kcp.rcvWnd } ∧
      (ikcpWndsize sndwnd rcvwnd kcp).sendPart = kcp.sendPart ∧ (ikcpWndsize sndwnd rcvwnd kcp).recvPart = kcp.recvPart := by
  unfold ikcpWndsize sndWindow rcvWindow
  dsimp only
  split <;> split <;> exact ⟨rfl, rfl, rfl⟩

/-! ## Receiving -/

theorem moveAvailable_frame (n : Nat) :
    (moveAvailable n kcp).fixed = kcp.fixed ∧ (moveAvailable n kcp).sendPart = kcp.sendPart := by
  induction n generalizing kcp with
  | zero => exact ⟨rfl, rfl⟩
  | succ n ih =>
    unfold moveAvailable
    split
    · exact ⟨rfl, rfl⟩
    · split
      · exact ih _
      · exact ⟨rfl, rfl⟩

theorem parseData_frame (seg : Segment) :
    (ikcpParseData seg kcp).fixed = kcp.fixed ∧ (ikcpParseData seg kcp).sendPart = kcp.sendPart := by
  have hinsert : (insertData seg kcp).fixed = kcp.fixed ∧ (insertData seg kcp).sendPart = kcp.sendPart := by
    unfold insertData
    split
    · exact ⟨rfl, rfl⟩
    · exact ⟨rfl, rfl⟩
  unfold ikcpParseData
  split
  · exact ⟨rfl, rfl⟩
  · obtain ⟨hf, hs⟩ := moveAvailable_frame (insertData seg kcp) (insertData seg kcp).rcvBuf.length
    exact ⟨hf.trans hinsert.1, hs.trans hinsert.2⟩

theorem mergeFragment_frame (ispeek : Bool) : (mergeFragment ispeek kcp).2.fixed = kcp.fixed ∧
    (mergeFragment ispeek kcp).2.sendPart = kcp.sendPart := by
  cases ispeek <;> exact ⟨rfl, rfl⟩

theorem recv_frame (len : Int) :
    (ikcpRecv len kcp).2.2.fixed = kcp.fixed ∧ (ikcpRecv len kcp).2.2.sendPart = kcp.sendPart := by
  unfold ikcpRecv
  split
  · exact ⟨rfl, rfl⟩
  split
  · exact ⟨rfl, rfl⟩
  split
  · exact ⟨rfl, rfl⟩
  obtain ⟨hf, hs⟩ := mergeFragment_frame kcp (decide (len < 0))
  rw [← hf, ← hs]
  dsimp only
  split
  · exact moveAvailable_frame _ _
  · exact moveAvailable_frame _ _

/-! ## Acknowledgements -/

theorem updateAck_same (rtt : Int) : SameParts (ikcpUpdateAck rtt kcp) kcp := by
  unfold ikcpUpdateAck
  split
  · exact ⟨rfl, rfl, rfl⟩
  · exact ⟨rfl, rfl, rfl⟩

theorem shrinkBuf_frame :
    (ikcpShrinkBuf kcp).fixed = kcp.fixed ∧ (ikcpShrinkBuf kcp).recvPart = kcp.recvPart := by
  unfold ikcpShrinkBuf
  split
  · exact ⟨rfl, rfl⟩
  · exact ⟨rfl, rfl⟩

theorem parseAck_frame (sn : UInt32) :
    (ikcpParseAck sn kcp).fixed = kcp.fixed ∧ (ikcpParseAck sn kcp).recvPart = kcp.recvPart := by
  unfold ikcpParseAck
  split
  · exact ⟨rfl, rfl⟩
  · exact ⟨rfl, rfl⟩

theorem parseFastack_frame (sn : UInt32) :
    (ikcpParseFastack sn kcp).fixed = kcp.fixed ∧ (ikcpParseFastack sn kcp).recvPart = kcp.recvPart := by
  unfold ikcpParseFastack
  split
  · exact ⟨rfl, rfl⟩
  · exact ⟨rfl, rfl⟩

theorem growCwnd_same (prevUna : UInt32) : SameParts (growCwnd prevUna kcp) kcp := by
  have henlarge : SameParts (enlargeCwnd kcp) kcp := by
    unfold enlargeCwnd
    dsimp only
    split
    · exact ⟨rfl, rfl, rfl⟩
    · exact ⟨rfl, rfl, rfl⟩
  have hbound : ∀ k, SameParts (boundCwnd k) k := fun k => .ite k ⟨rfl, rfl, rfl⟩
  exact .ite kcp ((hbound _).trans henlarge)

/-! ## Input -/

theorem inputUna_frame (seg : Segment) :
    (inputUna seg kcp).fixed = kcp.fixed ∧ (inputUna seg kcp).recvPart = kcp.recvPart :=
  shrinkBuf_frame (ikcpParseUna seg.una { kcp with rmtWnd := seg.wnd })

theorem inputAck_frame (seg : Segment) :
    (inputAck seg kcp).fixed = kcp.fixed ∧ (inputAck seg kcp).recvPart = kcp.recvPart := by
  have h : SameParts (if itimediff kcp.current seg.ts ≥ 0 then ikcpUpdateAck (itimediff kcp.current seg.ts) kcp else kcp)
      kcp := .ite kcp (updateAck_same kcp _)
  unfold inputAck
  dsimp only
  obtain ⟨hf, hr⟩ := shrinkBuf_frame (ikcpParseAck seg.sn
    (if itimediff kcp.current seg.ts ≥ 0 then ikcpUpdateAck (itimediff kcp.current seg.ts) kcp else kcp))
  obtain ⟨hf', hr'⟩ := parseAck_frame
    (if itimediff kcp.current seg.ts ≥ 0 then ikcpUpdateAck (itimediff kcp.current seg.ts) kcp else kcp) seg.sn
  exact ⟨hf.trans (hf'.trans h.fixed), hr.trans (hr'.trans h.recvPart)⟩

theorem inputPush_frame (seg : Segment) :
    (inputPush seg kcp).fixed = kcp.fixed ∧ (inputPush seg kcp).sendPart = kcp.sendPart := by
  unfold inputPush
  split
  · dsimp only
    split
    · exact parseData_frame (ikcpAckPush seg.sn seg.ts kcp) seg
    · exact ⟨rfl, rfl⟩
  · exact ⟨rfl, rfl⟩

theorem inputSegment_fixed (seg : Segment) : (inputSegment seg kcp).fixed = kcp.fixed := by
  have h := (inputUna_frame kcp seg).1
  unfold inputSegment
  dsimp only
  split
  · exact (inputAck_frame _ seg).1.trans h
  split
  · exact (inputPush_frame _ seg).1.trans h
  split
  · exact h
  · exact h

/-- What arrives leaves the queue of the user's data alone. -/
theorem inputSegment_sndQueue (seg : Segment) : (inputSegment seg kcp).sndQueue = kcp.sndQueue := by
  have hshrink : ∀ k, (ikcpShrinkBuf k).sndQueue = k.sndQueue := by
    intro k
    unfold ikcpShrinkBuf
    split <;> rfl
  have hparse : ∀ k, (ikcpParseAck seg.sn k).sndQueue = k.sndQueue := by
    intro k
    unfold ikcpParseAck
    split <;> rfl
  have hack : ∀ k, (inputAck seg k).sndQueue = k.sndQueue := by
    intro k
    have h : SameParts (if itimediff k.current seg.ts ≥ 0 then ikcpUpdateAck (itimediff k.current seg.ts) k else k) k :=
      .ite k (updateAck_same k _)
    unfold inputAck
    dsimp only
    rw [hshrink, hparse]
    exact h.sndQueue
  have huna : (inputUna seg kcp).sndQueue = kcp.sndQueue := hshrink _
  unfold inputSegment
  dsimp only
  split
  · exact (hack _).trans huna
  split
  · exact (congrArg SendPart.sndQueue (inputPush_frame _ seg).2).trans huna
  split
  · exact huna
  · exact huna

theorem skipped_frame (maxack : MaxAck) : (skipped maxack kcp).fixed = kcp.fixed ∧
    (skipped maxack kcp).recvPart = kcp.recvPart ∧ (skipped maxack kcp).sndQueue = kcp.sndQueue := by
  cases maxack with
  | none => exact ⟨rfl, rfl, rfl⟩
  | some sn =>
    obtain ⟨hf, hr⟩ := parseFastack_frame kcp sn
    refine ⟨hf, hr, ?_⟩
    unfold skipped ikcpParseFastack
    dsimp only
    split <;> rfl

/-! ## Flushing -/

theorem probeWindow_same : SameParts (probeWindow kcp) kcp := by
  unfold probeWindow
  split
  · exact ⟨rfl, rfl, rfl⟩
  split
  · exact ⟨rfl, rfl, rfl⟩
  split
  · exact ⟨rfl, rfl, rfl⟩
  · exact .refl kcp

theorem moveToBuf_frame (cwnd wnd : UInt32) (n : Nat) :
    (moveToBuf cwnd wnd n kcp).fixed = kcp.fixed ∧ (moveToBuf cwnd wnd n kcp).recvPart = kcp.recvPart := by
  induction n generalizing kcp with
  | zero => exact ⟨rfl, rfl⟩
  | succ n ih =>
    unfold moveToBuf
    split
    · split
      · exact ⟨rfl, rfl⟩
      · exact ih _
    · exact ⟨rfl, rfl⟩

theorem updateSsthresh_same (cwnd resent : UInt32) (change : Nat) (lost : Bool) :
    SameParts (updateSsthresh cwnd resent change lost kcp) kcp := by
  have hfast : SameParts (if change ≠ 0 then afterFast resent kcp else kcp) kcp := .ite kcp ⟨rfl, rfl, rfl⟩
  have hloss : ∀ k, SameParts (if lost then afterLoss cwnd k else k) k := fun k => .ite k ⟨rfl, rfl, rfl⟩
  have hone : ∀ k, SameParts (atLeastOne k) k := fun k => .ite k ⟨rfl, rfl, rfl⟩
  exact (hone _).trans ((hloss _).trans hfast)

/-! ## The clock -/

theorem startClock_same (current : UInt32) : SameParts (startClock current kcp) kcp := by
  unfold startClock
  split
  · exact ⟨rfl, rfl, rfl⟩
  · exact ⟨rfl, rfl, rfl⟩

theorem resync_same : SameParts (resync kcp) kcp := by
  unfold resync
  exact .ite kcp ⟨rfl, rfl, rfl⟩

theorem nextFlush_same : SameParts (nextFlush kcp) kcp := by
  unfold nextFlush
  dsimp only
  exact ⟨rfl, rfl, rfl⟩

theorem statistics_same : SameParts (ikcpUpdatePktloss (ikcpUpdateBandwidth kcp)) kcp := by
  have hbandwidth : SameParts (ikcpUpdateBandwidth kcp) kcp := by
    unfold ikcpUpdateBandwidth
    dsimp only
    split
    · exact ⟨rfl, rfl, rfl⟩
    · exact .ite kcp ⟨rfl, rfl, rfl⟩
  have hpktloss : ∀ k, SameParts (ikcpUpdatePktloss k) k := by
    intro k
    unfold ikcpUpdatePktloss
    dsimp only
    split
    · exact ⟨rfl, rfl, rfl⟩
    · exact .ite k ⟨rfl, rfl, rfl⟩
  exact (hpktloss _).trans hbandwidth

end Dbase.Net.Ikcp
