/-
  Dbase.Net.IkcpMessages — messages as fragments: what `ikcp_send` cuts, `ikcp_recv` puts together again.

  `cut mss message` is what `ikcp_send` puts behind `snd_queue`. The fragments of a message count down to 0, so the first of
  them says how many there are, and the last where the message ends.

  Proved: `cut_data`, and `first_message`: when `rcv_queue` holds the beginning of some messages' fragments and
  `ikcp_peeksize` does not refuse, the message in front is there, whole, and is what `ikcp_recv` takes out.
-/

import Dbase.Net.IkcpWindows

namespace Dbase.Net.Ikcp

open Dbase.Lib.Serial

def cut (mss : Nat) (message : List UInt8) : List Fragment :=
  (fragment mss 0 (fragments mss message.length) message).map Segment.frag

/-- `ikcp_send` takes a message of fewer fragments than a receive window has at least. -/
def Short (mss : Nat) (message : List UInt8) : Prop := fragments mss message.length < 256

variable {mss : Nat} {message : List UInt8} {kcp : Kcpcb}

theorem fragments_pos (hmss : 0 < mss) (len : Nat) : 0 < fragments mss len := by
  unfold fragments
  split
  · exact Nat.one_pos
  · exact Nat.div_pos (by omega) hmss

/-- The fragments are enough for all bytes. -/
theorem le_fragments_mul (hmss : 0 < mss) (len : Nat) : len ≤ fragments mss len * mss := by
  unfold fragments
  split
  · omega
  · have hmod := Nat.mod_lt (len + mss - 1) hmss
    have hdiv := Nat.div_add_mod' (len + mss - 1) mss
    omega

theorem length_cut : (cut mss message).length = fragments mss message.length := by
  unfold cut
  rw [List.length_map, (fragment_size mss 0 _ message).1]

theorem fragment_data (stream : Int) (count : Nat) (buffer : List UInt8) :
    (fragment mss stream count buffer).flatMap (·.data) = buffer.take (count * mss) := by
  induction count generalizing buffer with
  | zero => simp [fragment]
  | succ count ih =>
    rw [fragment, List.flatMap_cons, ih, Nat.succ_mul, Nat.add_comm, List.take_add]

/-- The bytes of the fragments are the message. -/
theorem cut_data (hmss : 0 < mss) : (cut mss message).flatMap (·.2) = message := by
  unfold cut
  rw [List.flatMap_map]
  have h : (fragment mss 0 (fragments mss message.length) message).flatMap (·.data) = _ := fragment_data 0 _ message
  rw [List.take_of_length_le (le_fragments_mul hmss _)] at h
  exact h

theorem fragment_frg (stream : Int) {count : Nat} (hcount : count ≤ 256) (buffer : List UInt8) :
    ∀ seg ∈ fragment mss stream count buffer, seg.frg.toNat < 256 := by
  induction count generalizing buffer with
  | zero => exact fun seg hs => absurd hs List.not_mem_nil
  | succ count ih =>
    intro seg hs
    rcases List.mem_cons.mp hs with rfl | hs
    · dsimp only
      split
      · rw [UInt32.toNat_ofNat']
        omega
      · decide
    · exact ih (by omega) (buffer.drop mss) seg hs

theorem cut_frg (h : Short mss message) : ∀ x ∈ cut mss message, x.1.toNat < 256 := by
  intro x hx
  obtain ⟨seg, hs, rfl⟩ := List.mem_map.mp hx
  exact fragment_frg 0 (Nat.le_of_lt h) message seg hs

/-- `splitMessage` takes as many segments as the first announces. -/
theorem splitMessage_fragment {count : Nat} (hcount : count < 2 ^ 32) {buffer : List UInt8} {segs : List Segment}
    {rest : List Fragment}
    (h : segs.map Segment.frag = (fragment mss 0 (count + 1) buffer).map Segment.frag ++ rest) :
    (splitMessage segs).1.map Segment.frag = (fragment mss 0 (count + 1) buffer).map Segment.frag ∧
      (splitMessage segs).2.map Segment.frag = rest := by
  induction count generalizing buffer segs with
  | zero =>
    obtain ⟨seg, segs, rfl, hseg, hrest⟩ := List.map_eq_cons_iff.mp h
    have hfrg : seg.frg = 0 := congrArg Prod.fst hseg
    rw [splitMessage, if_pos hfrg]
    exact ⟨congrArg (fun f => [f]) hseg, hrest⟩
  | succ count ih =>
    obtain ⟨seg, segs, rfl, hseg, hrest⟩ := List.map_eq_cons_iff.mp h
    have hfrg : seg.frg = UInt32.ofNat (count + 1) := congrArg Prod.fst hseg
    have hne : seg.frg ≠ 0 := by
      intro hzero
      have hnat := ofNat_inj (a := count + 1) (b := 0) (by omega) (by omega) (hfrg.symm.trans hzero)
      omega
    rw [splitMessage, if_neg hne]
    obtain ⟨hfirst, hsecond⟩ := ih (by omega) hrest
    exact ⟨congrArg₂ List.cons hseg hfirst, hsecond⟩

theorem splitMessage_cut (hmss : 0 < mss) (hshort : Short mss message) {segs : List Segment} {rest : List Fragment}
    (h : segs.map Segment.frag = cut mss message ++ rest) :
    (splitMessage segs).1.map Segment.frag = cut mss message ∧ (splitMessage segs).2.map Segment.frag = rest := by
  have hpos := fragments_pos hmss message.length
  unfold Short at hshort
  unfold cut at h ⊢
  obtain ⟨count, hc⟩ := Nat.exists_eq_succ_of_ne_zero (Nat.ne_of_gt hpos)
  rw [hc] at h ⊢
  exact splitMessage_fragment (by omega) h

/-- The first fragment says how many follow. -/
theorem head_cut (message : List UInt8) (hmss : 0 < mss) : ∃ data rest, cut mss message =
    (UInt32.ofNat (fragments mss message.length - 1), data) :: rest := by
  obtain ⟨count, hc⟩ := Nat.exists_eq_succ_of_ne_zero (Nat.ne_of_gt (fragments_pos hmss message.length))
  unfold cut
  rw [hc]
  exact ⟨_, _, rfl⟩

/-- A message that `ikcp_peeksize` measures has arrived whole. -/
theorem peeksize_whole (hmss : 0 < mss) (hshort : Short mss message) {rest : List Fragment}
    (hqueue : kcp.nrcvQue = UInt32.ofNat kcp.rcvQueue.length) (hlen : kcp.rcvQueue.length < 2 ^ 32)
    (hpre : kcp.rcvQueue.map Segment.frag <+: cut mss message ++ rest) (hpeek : 0 ≤ ikcpPeeksize kcp) :
    fragments mss message.length ≤ kcp.rcvQueue.length := by
  obtain ⟨data, tail, hcut⟩ := head_cut message hmss
  unfold Short at hshort
  unfold ikcpPeeksize at hpeek
  split at hpeek
  · exact absurd hpeek (by decide)
  rename_i seg segs hsegs
  rw [hsegs, hcut, List.map_cons, List.cons_append] at hpre
  have hfrg : seg.frg = UInt32.ofNat (fragments mss message.length - 1) :=
    congrArg Prod.fst (List.cons_prefix_cons.mp hpre).1
  rw [hsegs] at hqueue hlen ⊢
  by_cases hone : seg.frg = 0
  · have hnat := ofNat_inj (a := fragments mss message.length - 1) (b := 0) (by omega) (by omega)
      (hfrg.symm.trans hone)
    rw [List.length_cons]
    omega
  · rw [if_neg hone] at hpeek
    by_cases hfew : kcp.nrcvQue < seg.frg + 1
    · rw [if_pos hfew] at hpeek
      exact absurd hpeek (by decide)
    · rw [hqueue, hfrg, ofNat_succ, UInt32.lt_iff_toNat_lt, UInt32.toNat_ofNat', UInt32.toNat_ofNat',
        Nat.mod_eq_of_lt hlen, Nat.mod_eq_of_lt (by omega)] at hfew
      omega

theorem message_data (hmss : 0 < mss) {segs : List Segment} (h : segs.map Segment.frag = cut mss message) :
    segs.flatMap (·.data) = message := by
  have hdata : segs.flatMap (·.data) = (segs.map Segment.frag).flatMap (·.2) := by
    rw [List.flatMap_map]
    rfl
  rw [hdata, h, cut_data hmss]

/-- The message in front, when the queue holds the beginning of the fragments of some messages. -/
theorem first_message (hmss : 0 < mss) {messages : List (List UInt8)} (hshort : ∀ m ∈ messages, Short mss m)
    (hqueue : kcp.nrcvQue = UInt32.ofNat kcp.rcvQueue.length) (hlen : kcp.rcvQueue.length < 2 ^ 32)
    (hpre : kcp.rcvQueue.map Segment.frag <+: messages.flatMap (cut mss)) (hpeek : 0 ≤ ikcpPeeksize kcp) :
    ∃ message rest, messages = message :: rest ∧ (splitMessage kcp.rcvQueue).1.map Segment.frag = cut mss message ∧
      (splitMessage kcp.rcvQueue).1.flatMap (·.data) = message := by
  cases messages with
  | nil =>
    have hempty : kcp.rcvQueue = [] := List.map_eq_nil_iff.mp (List.prefix_nil.mp hpre)
    have hnone : ikcpPeeksize kcp = -1 := by rw [ikcpPeeksize, hempty]
    omega
  | cons message rest =>
    have hsm := hshort message List.mem_cons_self
    rw [List.flatMap_cons] at hpre
    have hwhole := peeksize_whole hmss hsm hqueue hlen hpre hpeek
    obtain ⟨more, hmore⟩ : cut mss message <+: kcp.rcvQueue.map Segment.frag :=
      List.prefix_of_prefix_length_le (List.prefix_append _ _) hpre (by rw [length_cut, List.length_map]; exact hwhole)
    have hfirst := (splitMessage_cut hmss hsm hmore.symm).1
    exact ⟨message, rest, rfl, hfirst, message_data hmss hfirst⟩

/-- `ikcp_peeksize` measures a message that is there. -/
theorem peeksize_message (hmss : 0 < mss) (hshort : Short mss message) {rest : List Fragment}
    (hqueue : kcp.nrcvQue = UInt32.ofNat kcp.rcvQueue.length) (hlen : kcp.rcvQueue.length < 2 ^ 32)
    (h : kcp.rcvQueue.map Segment.frag = cut mss message ++ rest) : ikcpPeeksize kcp = message.length := by
  have hfirst := (splitMessage_cut hmss hshort h).1
  have hdata := message_data hmss hfirst
  have hpos := fragments_pos hmss message.length
  have hcount : fragments mss message.length ≤ kcp.rcvQueue.length := by
    have hlong := congrArg List.length h
    rw [List.length_map, List.length_append, length_cut] at hlong
    exact hlong ▸ Nat.le_add_right _ _
  obtain ⟨data, tail, hcut⟩ := head_cut message hmss
  unfold Short at hshort
  unfold ikcpPeeksize
  split
  · rename_i hempty
    rw [hempty] at hcount
    exact absurd hcount (by rw [List.length_nil]; omega)
  rename_i seg segs hsegs
  have hfrg : seg.frg = UInt32.ofNat (fragments mss message.length - 1) := by
    rw [hsegs, hcut, List.map_cons, List.cons_append] at h
    exact congrArg Prod.fst (List.cons.inj h).1
  by_cases hone : seg.frg = 0
  · rw [if_pos hone]
    rw [hsegs, splitMessage, if_pos hone, List.flatMap_singleton] at hdata
    rw [hdata]
  · have henough : ¬ kcp.nrcvQue < seg.frg + 1 := by
      rw [hqueue, hfrg, ofNat_succ, UInt32.lt_iff_toNat_lt, UInt32.toNat_ofNat', UInt32.toNat_ofNat',
        Nat.mod_eq_of_lt hlen, Nat.mod_eq_of_lt (by omega)]
      omega
    rw [if_neg hone, if_neg henough, hdata]

end Dbase.Net.Ikcp
