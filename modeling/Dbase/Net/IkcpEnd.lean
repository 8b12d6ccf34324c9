/-
  Dbase.Net.IkcpEnd — one end under whatever arrives: any datagrams, any clock, any calls of the user.

  Nothing is known of the other end here, so an acknowledgement may be of anything and a fragment may be anything; `Whole` is
  what is left of the windows. `Sound` says the same in the words of the control block.

  Proved:
  (1) `alone_sound`: in every state that is reached, both windows and all counters are sound.
  (2) `alone_sent`: every datagram fits the MTU, and nothing is written behind the block.
-/

import Dbase.Net.IkcpNetProofs

namespace Dbase.Net.Ikcp

open Dbase.Lib.Reorder Dbase.Lib.Serial
open Dbase.Net.KcpSession (Options)

inductive Call where
  | send (buffer : List UInt8)
  | recv (len : Int)
  | input (data : List UInt8)
  | update (current : UInt32)
  | flush
  deriving DecidableEq, Repr

/-- A control block, with the datagrams it has sent so far. -/
structure Alone where
  kcp : Kcpcb
  sent : List (List UInt8)
  overrun : Bool
  deriving DecidableEq, Repr

def Alone.flushed (s : Alone) (result : Kcpcb × List (List UInt8) × Bool) : Alone :=
  ⟨result.1, s.sent ++ result.2.1, s.overrun || result.2.2⟩

def perform (s : Alone) : Call → Alone
  | .send buffer => { s with kcp := (ikcpSend buffer s.kcp).2 }
  | .recv len => { s with kcp := (ikcpRecv len s.kcp).2.2 }
  | .input data => { s with kcp := (ikcpInput data s.kcp).2 }
  | .update current => s.flushed (ikcpUpdate current s.kcp)
  | .flush => s.flushed (ikcpFlush s.kcp)

/-- An end whose calls come in any order. -/
def alone (kcp : Kcpcb) : Lib.Machine Alone Call := ⟨⟨kcp, [], false⟩, fun s a => some (perform s a)⟩

/-! ## The windows -/

def Whole (kcp : Kcpcb) : Prop :=
  (∃ log js, Sending (fun _ => True) log js kcp) ∧ (∃ C r is, Receiving (fun _ _ => True) C r is kcp) ∧ Settled kcp

variable {kcp k : Kcpcb} {seg : Segment}

/-- Only the sending side is touched. -/
theorem Whole.sends (h : Whole kcp) {log : List Fragment} {js : List Nat} (hs : Sending (fun _ => True) log js k)
    (hf : k.fixed = kcp.fixed) (hr : k.recvPart = { kcp.recvPart with acklist := k.acklist }) : Whole k := by
  obtain ⟨-, ⟨C, r, is, hrec⟩, hsettled⟩ := h
  have hwnd : k.rcvWnd = kcp.rcvWnd := congrArg Fixed.rcvWnd hf
  exact ⟨⟨log, js, hs⟩, ⟨C, r, is, hrec.congr hwnd hr⟩, hsettled.same hwnd hr⟩

theorem recvPart_self (h : k.recvPart = kcp.recvPart) : k.recvPart = { kcp.recvPart with acklist := k.acklist } := by
  rw [h, show k.acklist = kcp.acklist from congrArg RecvPart.acklist h]

theorem Whole.same (h : Whole kcp) (hk : SameParts k kcp) : Whole k := by
  obtain ⟨log, js, hs⟩ := h.1
  exact h.sends (hs.congr hk.fixed hk.sendPart) hk.fixed (recvPart_self hk.recvPart)

theorem inputSegment_whole (h : Whole kcp) (hwnd : kcp.rcvWnd.toNat < 2 ^ 31) (hseg : seg.wnd.toNat ≤ maxWnd) :
    Whole (inputSegment seg kcp) := by
  obtain ⟨log, js, hs⟩ := h.1
  obtain ⟨js', hs', -⟩ := inputUna_sending hs hseg fun _ _ _ => trivial
  obtain ⟨hfix, hrecv⟩ := inputUna_frame kcp seg
  have huna : Whole (inputUna seg kcp) := h.sends hs' hfix (recvPart_self hrecv)
  have hwnd' : (inputUna seg kcp).rcvWnd = kcp.rcvWnd := congrArg Fixed.rcvWnd hfix
  unfold inputSegment
  dsimp only
  split
  · obtain ⟨js'', hs'', -⟩ := inputAck_sending hs' (fun _ _ _ => trivial : ∀ j ∈ js', seg.sn = UInt32.ofNat j → True)
    obtain ⟨hfix', hrecv'⟩ := inputAck_frame (inputUna seg kcp) seg
    exact huna.sends hs'' hfix' (recvPart_self hrecv')
  split
  · obtain ⟨-, ⟨C, r, is, hrec⟩, hsettled⟩ := huna
    obtain ⟨r', is', hrec', -⟩ := inputPush_receiving hrec (hwnd'.symm ▸ hwnd)
      (fun _ _ _ _ => trivial : ∀ i, r ≤ i → i < r + (inputUna seg kcp).rcvWnd.toNat → seg.sn = UInt32.ofNat i → True)
    obtain ⟨hfix', hsend'⟩ := inputPush_frame (inputUna seg kcp) seg
    exact ⟨⟨log, js', hs'.congr hfix' hsend'⟩, ⟨C, r', is', hrec'⟩, inputPush_settled hsettled⟩
  split
  · exact huna.same ⟨rfl, rfl, rfl⟩
  · exact huna

theorem decodeSeg_wnd (data : List UInt8) : (decodeSeg data).wnd.toNat ≤ maxWnd := by
  have := (ikcpDecode16u (data.drop 10)).toNat_lt
  show (ikcpDecode16u (data.drop 10)).toUInt32.toNat ≤ 65535
  rw [UInt16.toNat_toUInt32]
  omega

theorem inputLoop_whole (n : Nat) (data : List UInt8) (maxack : MaxAck) (h : Whole kcp)
    (hwnd : kcp.rcvWnd.toNat < 2 ^ 31) :
    Whole (inputLoop n data maxack kcp).2.2 ∧ (inputLoop n data maxack kcp).2.2.fixed = kcp.fixed := by
  induction n generalizing data maxack kcp with
  | zero => exact ⟨h, rfl⟩
  | succ n ih =>
    unfold inputLoop
    dsimp only
    split
    · exact ⟨h, rfl⟩
    split
    · exact ⟨h, rfl⟩
    split
    · exact ⟨h, rfl⟩
    split
    · exact ⟨h, rfl⟩
    split
    · exact ⟨h, rfl⟩
    · have hfix := inputSegment_fixed kcp (decodeSeg data)
      have hwnd' : (inputSegment (decodeSeg data) kcp).rcvWnd = kcp.rcvWnd := congrArg Fixed.rcvWnd hfix
      obtain ⟨hw, hf⟩ := ih _ _ (inputSegment_whole h hwnd (decodeSeg_wnd data)) (hwnd'.symm ▸ hwnd)
      exact ⟨hw, hf.trans hfix⟩

theorem skipped_whole (h : Whole kcp) (maxack : MaxAck) : Whole (skipped maxack kcp) := by
  obtain ⟨log, js, hs⟩ := h.1
  obtain ⟨hfix, hrecv, -⟩ := skipped_frame kcp maxack
  have hs' : Sending (fun _ => True) log js (skipped maxack kcp) := by
    cases maxack with
    | none => exact hs
    | some sn => exact parseFastack_sending hs sn
  exact h.sends hs' hfix (recvPart_self hrecv)

theorem input_whole (h : Whole kcp) (hwnd : kcp.rcvWnd.toNat < 2 ^ 31) (data : List UInt8) :
    Whole (ikcpInput data kcp).2 ∧ (ikcpInput data kcp).2.fixed = kcp.fixed := by
  have hrx : SameParts (countRx data.length kcp) kcp := ⟨rfl, rfl, rfl⟩
  obtain ⟨hw, hf⟩ := inputLoop_whole data.length data none (h.same hrx) hwnd
  by_cases hshort : wrap data.length < IKCP_OVERHEAD
  · rw [ikcpInput, if_pos hshort]
    exact ⟨h.same hrx, rfl⟩
  rw [ikcpInput, if_neg hshort]
  generalize inputLoop data.length data none (countRx data.length kcp) = result at hw hf
  obtain ⟨code, maxack, k⟩ := result
  dsimp only
  by_cases hcode : code ≠ 0
  · rw [if_pos hcode]
    exact ⟨hw, hf⟩
  · rw [if_neg hcode]
    have hgrow := growCwnd_same (skipped maxack k) kcp.sndUna
    exact ⟨(skipped_whole hw maxack).same hgrow, hgrow.fixed.trans ((skipped_frame k maxack).1.trans hf)⟩

theorem extendLast_keeps {A : Nat → Prop} {log : List Fragment} {js : List Nat} (h : Sending A log js kcp)
    (buffer : List UInt8) : Sending A log js (extendLast buffer kcp).2 ∧ (extendLast buffer kcp).2.fixed = kcp.fixed ∧
      (extendLast buffer kcp).2.recvPart = kcp.recvPart := by
  unfold extendLast
  split
  · rename_i old hold
    split
    · rename_i hroom
      have hne : kcp.sndQueue ≠ [] := by
        intro hempty
        rw [hempty] at hold
        cases hold
      refine ⟨{ h with own := fun seg hs => (h.own seg hs).congr rfl, queue := fun seg hs => ?_, nsndQue := ?_ }, rfl, rfl⟩
      · rcases List.mem_append.mp hs with hs | hs
        · exact h.queue seg (List.dropLast_subset _ hs)
        · obtain rfl := List.mem_singleton.mp hs
          show (old.data ++ buffer.take _).length ≤ kcp.mss.toNat
          rw [List.length_append, List.length_take]
          omega
      · have hpos := List.length_pos_iff.mpr hne
        show kcp.nsndQue = UInt32.ofNat (kcp.sndQueue.dropLast ++ [_]).length
        rw [h.nsndQue, List.length_append, List.length_dropLast, List.length_singleton, Nat.sub_add_cancel hpos]
    · exact ⟨h, rfl, rfl⟩
  · exact ⟨h, rfl, rfl⟩

theorem sendFragments_keeps {A : Nat → Prop} {log : List Fragment} {js : List Nat} (h : Sending A log js kcp)
    (buffer : List UInt8) : Sending A log js (sendFragments buffer kcp).2 ∧
      (sendFragments buffer kcp).2.fixed = kcp.fixed ∧ (sendFragments buffer kcp).2.recvPart = kcp.recvPart := by
  obtain ⟨hlen, hsize⟩ := fragment_size kcp.mss.toNat kcp.stream (fragments kcp.mss.toNat buffer.length) buffer
  unfold sendFragments
  dsimp only
  split
  · exact ⟨h, rfl, rfl⟩
  · refine ⟨{ h with own := fun seg hs => (h.own seg hs).congr rfl, queue := fun seg hs => ?_, nsndQue := ?_ }, rfl, rfl⟩
    · rcases List.mem_append.mp hs with hs | hs
      · exact h.queue seg hs
      · exact hsize seg hs
    · show kcp.nsndQue + UInt32.ofNat (fragments kcp.mss.toNat buffer.length) = _
      rw [h.nsndQue, ← UInt32.ofNat_add, List.length_append, hlen]

/-- `ikcp_send` in either mode. -/
theorem send_keeps {A : Nat → Prop} {log : List Fragment} {js : List Nat} (h : Sending A log js kcp)
    (buffer : List UInt8) : Sending A log js (ikcpSend buffer kcp).2 ∧ (ikcpSend buffer kcp).2.fixed = kcp.fixed ∧
      (ikcpSend buffer kcp).2.recvPart = kcp.recvPart := by
  unfold ikcpSend
  split
  · obtain ⟨hs, hf, hr⟩ := extendLast_keeps h buffer
    dsimp only
    split
    · exact ⟨hs, hf, hr⟩
    · obtain ⟨hs', hf', hr'⟩ := sendFragments_keeps hs (extendLast buffer kcp).1
      exact ⟨hs', hf'.trans hf, hr'.trans hr⟩
  · exact sendFragments_keeps h buffer

theorem send_whole (h : Whole kcp) (buffer : List UInt8) : Whole (ikcpSend buffer kcp).2 := by
  obtain ⟨log, js, hs⟩ := h.1
  obtain ⟨hs', hf, hr⟩ := send_keeps hs buffer
  exact h.sends hs' hf (recvPart_self hr)

theorem recv_whole (h : Whole kcp) (len : Int) : Whole (ikcpRecv len kcp).2.2 := by
  obtain ⟨⟨log, js, hs⟩, ⟨C, r, is, hrec⟩, hsettled⟩ := h
  obtain ⟨hf, hsend⟩ := recv_frame kcp len
  refine ⟨⟨log, js, hs.congr hf hsend⟩, ?_, recv_settled hsettled len⟩
  rcases recv_receiving hrec len with ⟨code, -, e⟩ | ⟨-, -, r', is', hrec', -⟩
  · exact ⟨C, r, is, by rw [e]; exact hrec⟩
  · exact ⟨_, r', is', hrec'⟩

theorem flushes_whole {log : List Fragment} {js js' : List Nat} {result : Kcpcb × List (List UInt8) × Bool}
    {moved : List Segment} {sent : List (List Segment)} (h : Whole kcp)
    (hflush : Flushes (fun _ => True) log js kcp result moved js' sent) : Whole result.1 := by
  refine h.sends hflush.sending hflush.fixed ?_
  rcases hflush.recv with ⟨hr, -⟩ | hr
  · exact recvPart_self hr
  · rw [hr, show result.1.acklist = [] from congrArg RecvPart.acklist hr]

/-! ## Runs -/

/-- What holds of an end between calls; `f` is what its settings fix. -/
structure Alone.Good (f : Fixed) (s : Alone) : Prop where
  fixed : s.kcp.fixed = f
  whole : Whole s.kcp
  inside : s.overrun = false
  sent : ∀ d ∈ s.sent, d.length ≤ f.mtu.toNat

theorem Alone.Good.moved {f : Fixed} {s : Alone} (h : s.Good f) (hf : k.fixed = s.kcp.fixed) (hw : Whole k) :
    Alone.Good f { s with kcp := k } :=
  ⟨hf.trans h.fixed, hw, h.inside, h.sent⟩

theorem flushed_good {f : Fixed} {s : Alone} (h : s.Good f) {log : List Fragment} {js js' : List Nat}
    {result : Kcpcb × List (List UInt8) × Bool} {moved : List Segment} {sent : List (List Segment)}
    (hflush : Flushes (fun _ => True) log js s.kcp result moved js' sent) : (s.flushed result).Good f := by
  have hmtu : s.kcp.mtu = f.mtu := congrArg Fixed.mtu h.fixed
  refine ⟨hflush.fixed.trans h.fixed, flushes_whole h.whole hflush, ?_, fun d hd => ?_⟩
  · show (s.overrun || result.2.2) = false
    rw [h.inside, hflush.inside]
    rfl
  · rcases List.mem_append.mp hd with hd | hd
    · exact h.sent d hd
    · rw [hflush.datagrams] at hd
      obtain ⟨segs, hsegs, rfl⟩ := List.mem_map.mp hd
      exact hmtu ▸ (hflush.sent segs hsegs).2.1

theorem perform_good {f : Fixed} {s : Alone} (h : s.Good f) (hs : Sized s.kcp) (hwnd : f.rcvWnd.toNat < 2 ^ 31) (a : Call) :
    (perform s a).Good f := by
  have hrcv : s.kcp.rcvWnd = f.rcvWnd := congrArg Fixed.rcvWnd h.fixed
  obtain ⟨log, js, hsend⟩ := h.whole.1
  cases a with
  | send buffer => exact h.moved (send_keeps hsend buffer).2.1 (send_whole h.whole buffer)
  | recv len => exact h.moved (recv_frame s.kcp len).1 (recv_whole h.whole len)
  | input data =>
    obtain ⟨hw, hf⟩ := input_whole h.whole (hrcv.symm ▸ hwnd) data
    exact h.moved hf hw
  | update current =>
    obtain ⟨moved, js', sent, hflush⟩ := update_spec hsend hs current
    exact flushed_good h hflush
  | flush =>
    obtain ⟨moved, js', sent, hflush, -⟩ := flush_spec hsend hs
    exact flushed_good h hflush

/-- The windows and the counters, in the words of the control block. -/
structure Sound (kcp : Kcpcb) : Prop where
  inflight : (kcp.sndNxt - kcp.sndUna).toNat ≤ maxWnd
  una : kcp.sndUna = (kcp.sndBuf.head?.map Segment.sn).getD kcp.sndNxt
  sndBuf : kcp.sndBuf.Pairwise fun a b => itimediff a.sn b.sn < 0
  unacknowledged : ∀ seg ∈ kcp.sndBuf, 0 ≤ itimediff seg.sn kcp.sndUna ∧ itimediff seg.sn kcp.sndNxt < 0
  rcvBuf : kcp.rcvBuf.Pairwise fun a b => itimediff a.sn b.sn < 0
  ahead : ∀ seg ∈ kcp.rcvBuf, 0 ≤ itimediff seg.sn kcp.rcvNxt ∧ itimediff seg.sn kcp.rcvNxt < kcp.rcvWnd.toNat
  settled : Settled kcp
  rcvQueue : kcp.rcvQueue.length ≤ kcp.rcvWnd.toNat
  nsndBuf : kcp.nsndBuf.toNat = kcp.sndBuf.length
  nsndQue : kcp.nsndQue = UInt32.ofNat kcp.sndQueue.length
  nrcvBuf : kcp.nrcvBuf.toNat = kcp.rcvBuf.length
  nrcvQue : kcp.nrcvQue.toNat = kcp.rcvQueue.length

theorem toNat_ofNat_of_lt {n : Nat} (h : n < 2 ^ 32) : (UInt32.ofNat n).toNat = n := by
  rw [UInt32.toNat_ofNat', Nat.mod_eq_of_lt h]

theorem Whole.sound (h : Whole kcp) (hwnd : kcp.rcvWnd.toNat < 2 ^ 31) : Sound kcp := by
  obtain ⟨⟨log, js, hs⟩, ⟨C, r, is, hr⟩, hsettled⟩ := h
  have hfirst := hs.firstOpen_le_length
  have hwin := hs.window
  have hopen := hs.open_le
  have hstored := hr.cells.length_le fun i hi => hr.ahead i hi
  have hroom := hr.room
  unfold maxWnd at hwin hopen
  refine ⟨?_, ?_, ?_, fun seg hseg => ?_, ?_, fun seg hseg => ?_, hsettled, hr.room, ?_, hs.nsndQue, ?_, ?_⟩
  · rw [hs.nxt, hs.una, ofNat_sub hfirst, toNat_ofNat_of_lt (by omega)]
    unfold maxWnd
    omega
  · rw [hs.una, hs.nxt]
    have hcells := hs.cells.cells
    cases hbuf : kcp.sndBuf with
    | nil =>
      rw [hbuf, List.forall₂_nil_left_iff] at hcells
      rw [hcells]
      rfl
    | cons seg segs =>
      rw [hbuf] at hcells
      obtain ⟨j, js', hj, -, rfl⟩ := List.forall₂_cons_left_iff.mp hcells
      exact hj.1.symm
  · refine hs.cells.pairwise fun x y i j hi hj hx hy hij => ?_
    have := hs.firstOpen_le hi
    have := hs.lt_length hj
    rw [hx.1, hy.1, itimediff, diff_ofNat (by omega) (by omega)]
    omega
  · obtain ⟨j, hj, hc⟩ := hs.cells.exists_mark hseg
    have := hs.firstOpen_le hj
    have := hs.lt_length hj
    rw [hc.1, hs.una, hs.nxt, itimediff, itimediff, diff_ofNat (by omega) (by omega), diff_ofNat (by omega) (by omega)]
    omega
  · refine hr.cells.pairwise fun x y i j hi hj hx hy hij => ?_
    have := hr.ahead i hi
    have := hr.ahead j hj
    rw [hx.1, hy.1, itimediff, diff_ofNat (by omega) (by omega)]
    omega
  · obtain ⟨i, hi, hc⟩ := hr.cells.exists_mark hseg
    have := hr.ahead i hi
    rw [hc.1, hr.nxt, itimediff, diff_ofNat (by omega) (by omega)]
    omega
  · rw [hs.nsndBuf, toNat_ofNat_of_lt (by omega)]
  · rw [hr.nrcvBuf, toNat_ofNat_of_lt (by omega)]
  · rw [hr.nrcvQue, toNat_ofNat_of_lt (by omega)]

variable {o : Options} {memory : UInt32}

theorem construct_whole (h : construct o memory = some kcp) : Whole kcp := by
  have hlive := construct_live h
  exact ⟨⟨[], [], hlive.sending.mono fun _ _ _ => trivial⟩, ⟨[], 0, [], hlive.receiving.mono fun _ _ _ => trivial⟩,
    hlive.settled⟩

theorem construct_rcvWnd (h : construct o memory = some kcp) (hwnd : o.rcvWnd < 2 ^ 31) : kcp.rcvWnd.toNat < 2 ^ 31 := by
  obtain ⟨-, -, -, -, hr, -⟩ := construct_spec h
  have hrange : 256 ≤ (rcvWindow o.rcvWnd IKCP_WND_RCV).toNat ∧ (rcvWindow o.rcvWnd IKCP_WND_RCV).toNat ≤ 2 ^ 31 - 1 :=
    rcvWindow_range (by omega) (by decide)
  show kcp.fixed.rcvWnd.toNat < 2 ^ 31
  rw [hr]
  omega

theorem alone_good (h : construct o memory = some kcp) (hmtu : o.mtu < 2 ^ 30) (hwnd : o.rcvWnd < 2 ^ 31) {s : Alone}
    (hr : (alone kcp).Reach (fun _ _ => True) s) : s.Good kcp.fixed := by
  refine hr.inv ⟨rfl, construct_whole h, rfl, fun d hd => absurd hd List.not_mem_nil⟩ fun t a t' ht _ hstep => ?_
  obtain rfl := Option.some.inj hstep
  exact perform_good ht ((construct_sized h hmtu).1.congr ht.fixed) (construct_rcvWnd h hwnd) a

/-- Whatever arrives, both windows and all counters stay sound. -/
theorem alone_sound (h : construct o memory = some kcp) (hmtu : o.mtu < 2 ^ 30) (hwnd : o.rcvWnd < 2 ^ 31) {s : Alone}
    (hr : (alone kcp).Reach (fun _ _ => True) s) : Sound s.kcp := by
  have hgood := alone_good h hmtu hwnd hr
  have hrcv : s.kcp.rcvWnd = kcp.rcvWnd := congrArg Fixed.rcvWnd hgood.fixed
  exact hgood.whole.sound (hrcv.symm ▸ construct_rcvWnd h hwnd)

/-- Whatever arrives, nothing too long is sent and nothing is written behind the block. -/
theorem alone_sent (h : construct o memory = some kcp) (hmtu : o.mtu < 2 ^ 30) (hwnd : o.rcvWnd < 2 ^ 31) {s : Alone}
    (hr : (alone kcp).Reach (fun _ _ => True) s) : s.overrun = false ∧ ∀ d ∈ s.sent, (d.length : Int) ≤ o.mtu := by
  have hgood := alone_good h hmtu hwnd hr
  have hm := (construct_sized h hmtu).2
  exact ⟨hgood.inside, fun d hd => hm ▸ Int.ofNat_le.mpr (hgood.sent d hd)⟩

/-! A run: a message is sent in stream mode, and what comes back acknowledges a number that was not given. -/

def forged : List UInt8 :=
  wire [{ conv := 7, token := 9, cmd := IKCP_CMD_ACK, wnd := 0, sn := 5, una := 0xffff0000 },
    { conv := 7, token := 9, cmd := IKCP_CMD_PUSH, sn := 300, una := 1 }]

theorem forged_run : ∃ s, (alone smallBlock).Reach (fun _ _ => True) s ∧
    decide (s.kcp.sndBuf.length = 1 ∧ s.kcp.rcvBuf = [] ∧ 2 ≤ s.sent.length) = true :=
  Lib.Machine.Reach.of_run (alone smallBlock) (fun _ _ => True)
    (fun s => decide (s.kcp.sndBuf.length = 1 ∧ s.kcp.rcvBuf = [] ∧ 2 ≤ s.sent.length))
    [.send fortyBytes, .update 100, .input forged, .update 320] (by decide +kernel)

theorem alone_sound_forged : ∃ s, (alone smallBlock).Reach (fun _ _ => True) s ∧ s.kcp.sndBuf.length = 1 ∧ Sound s.kcp := by
  obtain ⟨s, hs, hp⟩ := forged_run
  exact ⟨s, hs, (of_decide_eq_true hp).1, alone_sound smallBlock_made (by decide) (by decide) hs⟩

theorem alone_sent_forged : ∃ s, (alone smallBlock).Reach (fun _ _ => True) s ∧ 2 ≤ s.sent.length ∧ s.overrun = false ∧
    ∀ d ∈ s.sent, (d.length : Int) ≤ 60 := by
  obtain ⟨s, hs, hp⟩ := forged_run
  exact ⟨s, hs, (of_decide_eq_true hp).2.2, alone_sent smallBlock_made (by decide) (by decide) hs⟩

end Dbase.Net.Ikcp
