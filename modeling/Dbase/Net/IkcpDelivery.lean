/-
  Dbase.Net.IkcpDelivery — what `ikcp_waitsnd` says about the other end.

  `KcpSession` calls its write-complete callback, and lets a shutdown close, when `ikcp_waitsnd` is 0: nothing is queued and
  nothing is unacknowledged. `drain` is the loop of `drainRecvQueue` at the other end.

  Proved:
  (1) `drain_all`: when every number of the sender's has arrived, no fragment is out of reach: either `rcv_queue` goes up to
      the last, or it is full, and then a whole message is in front. So a drain hands over all messages.
  (2) `waitsnd_zero`: so it does when the sender's `ikcp_waitsnd` is 0.
-/

import Dbase.Net.IkcpNetProofs

namespace Dbase.Net.Ikcp

open Dbase.Lib
open Dbase.Lib.Serial

/-- `drainRecvQueue`, for so many turns; a message above the limit closes the session. -/
def End.drain (maxMessageBytes : Int) : Nat → End → End
  | 0, e => e
  | n + 1, e =>
    if ikcpPeeksize e.kcp < 0 then e
    else if ikcpPeeksize e.kcp > maxMessageBytes then e
    else (e.recv (ikcpPeeksize e.kcp)).drain maxMessageBytes n

variable {f g : Fixed} {e p : End} {v w : View} {kcp : Kcpcb}

/-- A read with room for the message in front hands it over. -/
theorem recv_delivered (hpeek : 0 ≤ ikcpPeeksize e.kcp) :
    (e.recv (ikcpPeeksize e.kcp)).delivered = e.delivered ++ [(splitMessage e.kcp.rcvQueue).1.flatMap (·.data)] := by
  have hne : e.kcp.rcvQueue ≠ [] := by
    intro hempty
    rw [ikcpPeeksize, hempty] at hpeek
    have hnone : ¬ (0 : Int) ≤ -1 := by decide
    exact hnone hpeek
  have hres : (ikcpRecv (ikcpPeeksize e.kcp) e.kcp).1 = ((splitMessage e.kcp.rcvQueue).1.flatMap (·.data)).length ∧
      (ikcpRecv (ikcpPeeksize e.kcp) e.kcp).2.1 = (splitMessage e.kcp.rcvQueue).1.flatMap (·.data) := by
    unfold ikcpRecv
    rw [if_neg hne, if_neg (not_lt.mpr hpeek), if_neg (by rw [abs_of_nonneg hpeek]; omega)]
    exact ⟨rfl, rfl⟩
  unfold End.recv
  dsimp only
  rw [hres.1, hres.2, if_pos ⟨Int.natCast_nonneg _, hpeek⟩]

/-- While there is room in `rcv_queue`, `rcv_nxt` is a number that has not arrived. -/
theorem Live.nxt_missing (h : Live w v kcp) (hroom : ¬ kcp.rcvWnd ≤ kcp.nrcvQue) : ¬ v.has v.r := by
  intro hhas
  have hmem : v.r ∈ v.is := hhas.resolve_left (Nat.lt_irrefl _)
  have hcells := h.receiving.cells
  obtain ⟨i, is, his⟩ := List.exists_cons_of_ne_nil (List.ne_nil_of_mem hmem)
  rw [his] at hcells hmem
  have hfirst : i = v.r := by
    have hri := (h.receiving.ahead i (his ▸ List.mem_cons_self)).1
    rcases List.mem_cons.mp hmem with heq | hmem
    · exact heq.symm
    · have := hcells.head_lt v.r hmem
      omega
  obtain ⟨seg, segs, hseg, -, hbuf⟩ := List.forall₂_cons_right_iff.mp hcells.cells
  refine hroom (h.settled seg (by rw [hbuf]; rfl) ?_)
  rw [hseg.1, hfirst, h.receiving.nxt]

/-- When all has arrived, the message in front is whole. -/
theorem whole_in_front (h : Live w v kcp) (hwnd : 256 ≤ kcp.rcvWnd.toNat) (hall : ∀ j < w.log.length, v.has j)
    {mss : Nat} {message : List UInt8} (hshort : Short mss message) {rest : List Fragment}
    (hlog : w.log = v.taken ++ (cut mss message ++ rest)) :
    ∃ more, kcp.rcvQueue.map Segment.frag = cut mss message ++ more := by
  have hpre := h.receiving.prefix
  have htaken := h.receiving.taken
  have hroom := h.receiving.room
  have hlen := congrArg List.length hlog
  rw [List.length_append, List.length_append, length_cut] at hlen
  have henough : fragments mss message.length ≤ kcp.rcvQueue.length := by
    unfold Short at hshort
    by_cases hfull : kcp.rcvWnd ≤ kcp.nrcvQue
    · have hle := UInt32.le_iff_toNat_le.mp hfull
      rw [h.receiving.nrcvQue, UInt32.toNat_ofNat', Nat.mod_eq_of_lt (Nat.lt_of_le_of_lt hroom kcp.rcvWnd.toNat_lt)] at hle
      omega
    · -- `rcv_nxt` has not arrived, so nothing is missing before it
      have hend : w.log.length ≤ v.r := by
        by_contra hlt
        exact h.nxt_missing hfull (hall v.r (not_le.mp hlt))
      omega
  rw [hlog, List.prefix_append_right_inj] at hpre
  obtain ⟨more, hmore⟩ : cut mss message <+: kcp.rcvQueue.map Segment.frag :=
    List.prefix_of_prefix_length_le (List.prefix_append _ _) hpre (by rw [length_cut, List.length_map]; exact henough)
  exact ⟨more, hmore.symm⟩

/-- The loop reads one message in every turn. -/
theorem drain_all (h : Half f g e v p w) (hp : Half g f p w e v) (hf : Sane f) (hg : Sane g)
    (hqueue : p.kcp.sndQueue = []) (hall : ∀ j < w.log.length, v.has j) {limit : Int} (n : Nat)
    {rest : List (List UInt8)} (hrest : p.accepted = e.delivered ++ rest) (hn : rest.length ≤ n)
    (hlimit : ∀ m ∈ rest, (m.length : Int) ≤ limit) : (e.drain limit n).delivered = p.accepted := by
  induction n generalizing e v rest with
  | zero =>
    obtain rfl := List.eq_nil_of_length_eq_zero (Nat.le_zero.mp hn)
    rw [hrest, List.append_nil]
    rfl
  | succ n ih =>
    have hlog : w.log = v.taken ++ rest.flatMap (cut g.mss.toNat) := by
      rw [h.messages, ← List.flatMap_append, ← hrest, ← hp.queued, hqueue, List.map_nil, List.append_nil]
    have hlen : e.kcp.rcvQueue.length < 2 ^ 32 := Nat.lt_of_le_of_lt h.live.receiving.room e.kcp.rcvWnd.toNat_lt
    cases rest with
    | nil =>
      have hempty : e.kcp.rcvQueue = [] := by
        have hpre := h.live.receiving.prefix
        rw [hlog, List.flatMap_nil, List.prefix_append_right_inj, List.prefix_nil, List.map_eq_nil_iff] at hpre
        exact hpre
      have hnone : ikcpPeeksize e.kcp = -1 := by rw [ikcpPeeksize, hempty]
      rw [End.drain, if_pos (by rw [hnone]; decide), hrest, List.append_nil]
    | cons message rest =>
      have hshort : Short g.mss.toNat message := hp.short message (by rw [hrest]; simp)
      have hwnd : e.kcp.rcvWnd = f.rcvWnd := congrArg Fixed.rcvWnd h.fixed
      obtain ⟨more, hmore⟩ := whole_in_front h.live (hwnd ▸ hf.rcvWnd.1) hall hshort hlog
      have hpeek := peeksize_message hg.mss_pos hshort h.live.receiving.nrcvQue hlen hmore
      have hdata := message_data hg.mss_pos (splitMessage_cut hg.mss_pos hshort hmore).1
      have hle := hlimit message List.mem_cons_self
      have hdel := recv_delivered (e := e) (by rw [hpeek]; exact Int.natCast_nonneg _)
      obtain ⟨v', h', hv'⟩ := recv_half h hp hg (ikcpPeeksize e.kcp)
      rw [End.drain, if_neg (by omega), if_neg (by omega)]
      refine ih h' (hp.mono hv' (List.prefix_refl _)) (fun j hj => hv'.has j (hall j hj)) ?_
        (Nat.le_of_succ_le_succ hn) fun m hm => hlimit m (List.mem_cons_of_mem _ hm)
      rw [hrest, hdel, hdata, List.append_assoc]
      rfl

/-- Nothing is queued or open. -/
theorem waitsnd_empty (h : Live w v kcp) (hsize : kcp.sndQueue.length < 2 ^ 31) (hw : ikcpWaitsnd kcp = 0) :
    kcp.sndQueue = [] ∧ v.js = [] := by
  have hbuf := h.sending.cells.length_eq
  have hbound := h.sending.open_le
  have hzero := eq_zero_of_toInt hw
  rw [h.sending.nsndBuf, h.sending.nsndQue, ← UInt32.ofNat_add] at hzero
  have hsum := ofNat_inj (b := 0) (by omega) (by unfold maxWnd at hbound; omega) hzero
  exact ⟨List.eq_nil_of_length_eq_zero (by omega), List.eq_nil_of_length_eq_zero (by omega)⟩

theorem waitsnd_zero (p : Pairing) {s : Ends} (h : (net p).Reach Fresh s) (b : Bool)
    (hsize : (s b).kcp.sndQueue.length < 2 ^ 31) (hw : ikcpWaitsnd (s b).kcp = 0) {limit : Int}
    (hlimit : ∀ m ∈ (s b).accepted, (m.length : Int) ≤ limit) :
    ((s !b).drain limit (s b).accepted.length).delivered = (s b).accepted := by
  obtain ⟨v, hv⟩ := reach_both p h
  have hpeer := hv !b
  rw [Bool.not_not] at hpeer
  obtain ⟨hqueue, hjs⟩ := waitsnd_empty (hv b).live hsize hw
  obtain ⟨rest, hrest⟩ := hpeer.delivered
  refine drain_all hpeer (hv b) (p.sane !b) (p.sane b) hqueue (fun j hj => ?_) _ hrest.symm ?_ fun m hm => hlimit m ?_
  · exact ((hv b).live.sending.acked j hj (by rw [hjs]; exact List.not_mem_nil)).1
  · rw [← hrest, List.length_append]
    exact Nat.le_add_left _ _
  · rw [← hrest]
    exact List.mem_append_right _ hm

/-- All datagrams of a message have arrived and are acknowledged, but it was not yet read. -/
theorem acknowledged_run : ∃ s, (net smallPair).Reach Fresh s ∧
    decide ((s true).delivered = [] ∧ (s false).accepted = [fortyBytes] ∧ (s false).kcp.sndQueue = [] ∧
      ikcpWaitsnd (s false).kcp = 0) = true :=
  Machine.Reach.of_run (net smallPair) Fresh
    (fun s => decide ((s true).delivered = [] ∧ (s false).accepted = [fortyBytes] ∧ (s false).kcp.sndQueue = [] ∧
      ikcpWaitsnd (s false).kcp = 0))
    [.send false fortyBytes, .update false 100, .update true 100, .deliver true 1, .deliver true 0, .update true 330,
      .deliver false 0] (by decide +kernel)

theorem waitsnd_zero_acknowledged : ∃ s, (net smallPair).Reach Fresh s ∧ (s true).delivered = [] ∧
    (s false).accepted = [fortyBytes] ∧ ((s true).drain 40 (s false).accepted.length).delivered = (s false).accepted := by
  obtain ⟨s, hs, hp⟩ := acknowledged_run
  obtain ⟨hnone, hacc, hqueue, hw⟩ := of_decide_eq_true hp
  refine ⟨s, hs, hnone, hacc, waitsnd_zero smallPair hs false (by rw [hqueue]; decide) hw fun m hm => ?_⟩
  rw [hacc, List.mem_singleton] at hm
  rw [hm]
  decide

end Dbase.Net.Ikcp
