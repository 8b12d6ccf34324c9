/-
  Dbase.Net.IkcpWindows — the two windows of one end: what its lists of segments stand for.

  The numbers of segments are counted without a bound here; a sequence number is such a count in 32 bits. `Sending` says
  that `snd_buf` holds, in order, the fragments of `log` (everything that was ever given a number) that are not yet
  acknowledged, `Receiving` that `rcv_buf` holds what has arrived ahead of `rcv_nxt`, and that `rcv_queue` goes on where
  the user has stopped reading. What an acknowledged number or an arrived fragment means is left open (`A`, `P`): nothing,
  when the datagrams are arbitrary bytes, and the truth about the other end, when they are its own.

  Proved: `Sending` and `Receiving` are kept by acknowledgements, by data, by `ikcp_send`, by `ikcp_recv` and by the
  numbering of a flush, and none of them takes a number back.
-/

import Dbase.Lib.Reorder
import Dbase.Net.IkcpParts

namespace Dbase.Net.Ikcp

open Dbase.Lib.Reorder Dbase.Lib.Serial

abbrev Fragment := UInt32 × List UInt8

def Segment.frag (seg : Segment) : Fragment := (seg.frg, seg.data)

/-- A segment with this number, and a fragment that may stand there. -/
def Carries (P : Nat → Fragment → Prop) (seg : Segment) (i : Nat) : Prop := seg.sn = UInt32.ofNat i ∧ P i seg.frag

/-- The largest window that a header can announce. -/
def maxWnd : Nat := 65535

/-- The first number that is not yet acknowledged. -/
def firstOpen (js : List Nat) (log : List Fragment) : Nat := js.headD log.length

/-- A segment as `flush` has stamped it. -/
structure Own (kcp : Kcpcb) (seg : Segment) : Prop where
  conv : seg.conv = kcp.conv
  token : seg.token = kcp.token
  cmd : seg.cmd = IKCP_CMD_PUSH
  size : seg.data.length ≤ kcp.mss.toNat

/-- `A j`: the number `j` may count as acknowledged. -/
structure Sending (A : Nat → Prop) (log : List Fragment) (js : List Nat) (kcp : Kcpcb) : Prop where
  nxt : kcp.sndNxt = UInt32.ofNat log.length
  una : kcp.sndUna = UInt32.ofNat (firstOpen js log)
  cells : Marks (Carries fun j f => log[j]? = some f) kcp.sndBuf js
  own : ∀ seg ∈ kcp.sndBuf, Own kcp seg
  queue : ∀ seg ∈ kcp.sndQueue, seg.data.length ≤ kcp.mss.toNat
  acked : ∀ j < log.length, j ∉ js → A j
  window : log.length ≤ firstOpen js log + maxWnd
  rmtWnd : kcp.rmtWnd.toNat ≤ maxWnd
  nsndBuf : kcp.nsndBuf = UInt32.ofNat kcp.sndBuf.length
  nsndQue : kcp.nsndQue = UInt32.ofNat kcp.sndQueue.length

variable {A B : Nat → Prop} {log : List Fragment} {js : List Nat} {kcp k : Kcpcb} {seg : Segment}

theorem Own.congr (h : Own kcp seg) (hf : k.fixed = kcp.fixed) : Own k seg :=
  ⟨h.conv.trans (congrArg Fixed.conv hf).symm, h.token.trans (congrArg Fixed.token hf).symm, h.cmd,
    Nat.le_trans h.size (Nat.le_of_eq (congrArg (·.mss.toNat) hf).symm)⟩

namespace Sending

theorem mono (h : Sending A log js kcp) (hAB : ∀ j < log.length, A j → B j) : Sending B log js kcp :=
  { h with acked := fun j hj hn => hAB j hj (h.acked j hj hn) }

theorem congr (h : Sending A log js kcp) (hf : k.fixed = kcp.fixed) (hs : k.sendPart = kcp.sendPart) :
    Sending A log js k := by
  simp only [Kcpcb.sendPart, SendPart.mk.injEq] at hs
  obtain ⟨huna, hnxt, hqueue, hbuf, hnq, hnb, hwnd⟩ := hs
  have hmss : k.mss = kcp.mss := congrArg Fixed.mss hf
  exact
    { nxt := hnxt.trans h.nxt
      una := huna.trans h.una
      cells := hbuf ▸ h.cells
      own := fun seg hs => (h.own seg (hbuf ▸ hs)).congr hf
      queue := fun seg hs => hmss ▸ h.queue seg (hqueue ▸ hs)
      acked := h.acked
      window := h.window
      rmtWnd := hwnd ▸ h.rmtWnd
      nsndBuf := by rw [hnb, hbuf, h.nsndBuf]
      nsndQue := by rw [hnq, hqueue, h.nsndQue] }

theorem lt_length (h : Sending A log js kcp) {j : Nat} (hj : j ∈ js) : j < log.length := by
  obtain ⟨i, hi, rfl⟩ := List.mem_iff_getElem.mp hj
  have hx : i < kcp.sndBuf.length := h.cells.length_eq ▸ hi
  have hc := (List.forall₂_iff_get.mp h.cells.cells).2 i hx hi
  exact (List.getElem?_eq_some_iff.mp hc.2).1

theorem firstOpen_le_length (h : Sending A log js kcp) : firstOpen js log ≤ log.length := by
  cases js with
  | nil => exact Nat.le_refl _
  | cons j js => exact Nat.le_of_lt (h.lt_length List.mem_cons_self)

theorem firstOpen_le (h : Sending A log js kcp) {j : Nat} (hj : j ∈ js) : firstOpen js log ≤ j := by
  cases js with
  | nil => cases hj
  | cons i is =>
    rcases List.mem_cons.mp hj with rfl | hj
    · exact Nat.le_refl _
    · exact Nat.le_of_lt (h.cells.head_lt j hj)

/-- Everything before the first open number is acknowledged. -/
theorem acked_below (h : Sending A log js kcp) {j : Nat} (hj : j < firstOpen js log) : A j := by
  refine h.acked j (Nat.lt_of_lt_of_le hj h.firstOpen_le_length) fun hmem => ?_
  have := h.firstOpen_le hmem
  omega

/-- No more is open than the window takes. -/
theorem open_le (h : Sending A log js kcp) : kcp.sndBuf.length ≤ maxWnd := by
  have hle := h.cells.length_le fun j hj => ⟨h.firstOpen_le hj, h.lt_length hj⟩
  have := h.window
  omega

theorem firstOpen_mono (h : Sending A log js kcp) {js' : List Nat} (hsub : js'.Sublist js) :
    firstOpen js log ≤ firstOpen js' log := by
  cases js' with
  | nil => exact h.firstOpen_le_length
  | cons j js' => exact h.firstOpen_le (hsub.subset List.mem_cons_self)

end Sending

/-! ## Acknowledgements -/

theorem shrinkBuf_una (hnxt : kcp.sndNxt = UInt32.ofNat log.length)
    (hcells : Marks (Carries fun j f => log[j]? = some f) kcp.sndBuf js) :
    ikcpShrinkBuf kcp = { kcp with sndUna := UInt32.ofNat (firstOpen js log) } := by
  have hc := hcells.cells
  unfold ikcpShrinkBuf
  split
  · rename_i seg rest hbuf
    rw [hbuf] at hc
    obtain ⟨j, js', hj, -, rfl⟩ := List.forall₂_cons_left_iff.mp hc
    rw [hj.1]
    rfl
  · rename_i hbuf
    rw [hbuf, List.forall₂_nil_left_iff] at hc
    subst hc
    rw [hnxt]
    rfl

/-- Segments are taken out of `snd_buf`, and `snd_una` goes on to the first that is left. -/
theorem Sending.shrink (h : Sending A log js kcp) {js' : List Nat} (buf : List Segment) (wnd : UInt32)
    (hf : k.fixed = kcp.fixed) (hk : k.sendPart =
      { kcp.sendPart with sndBuf := buf, nsndBuf := UInt32.ofNat buf.length, rmtWnd := wnd })
    (hwnd : wnd.toNat ≤ maxWnd) (hcells : Marks (Carries fun j f => log[j]? = some f) buf js')
    (hin : ∀ seg ∈ buf, seg ∈ kcp.sndBuf) (hsub : js'.Sublist js) (hA : ∀ j ∈ js, j ∉ js' → A j) :
    Sending A log js' (ikcpShrinkBuf k) := by
  simp only [Kcpcb.sendPart, SendPart.mk.injEq] at hk
  obtain ⟨-, hnxt, hqueue, hbuf, hnq, hnb, hw⟩ := hk
  have hmss : k.mss = kcp.mss := congrArg Fixed.mss hf
  have hn := hnxt.trans h.nxt
  rw [shrinkBuf_una hn (hbuf ▸ hcells)]
  refine ⟨hn, rfl, hbuf ▸ hcells, fun seg hs => (h.own seg (hin seg (hbuf ▸ hs))).congr hf,
    fun seg hs => hmss ▸ h.queue seg (hqueue ▸ hs), fun j hj hnot => ?_, ?_, hw ▸ hwnd, ?_, ?_⟩
  · by_cases hmem : j ∈ js
    · exact hA j hmem hnot
    · exact h.acked j hj hmem
  · have := h.firstOpen_mono hsub
    have := h.window
    omega
  · exact hnb.trans (congrArg (UInt32.ofNat ·.length) hbuf.symm)
  · exact hnq.trans (h.nsndQue.trans (congrArg (UInt32.ofNat ·.length) hqueue.symm))

theorem dropUna_spec (una : UInt32) (segs : List Segment) : ∃ n ≤ segs.length, dropUna una segs = (segs.drop n, n) ∧
    ∀ i (hi : i < segs.length), i < n → 0 < itimediff una segs[i].sn := by
  induction segs with
  | nil => exact ⟨0, Nat.le_refl _, rfl, fun i hi => absurd hi (Nat.not_lt_zero i)⟩
  | cons seg segs ih =>
    obtain ⟨n, hn, e, hlt⟩ := ih
    by_cases hseg : itimediff una seg.sn > 0
    · refine ⟨n + 1, Nat.succ_le_succ hn, by rw [dropUna, if_pos hseg, e]; rfl, fun i hi hin => ?_⟩
      cases i with
      | zero => exact hseg
      | succ i => exact hlt i (Nat.lt_of_succ_lt_succ hi) (Nat.lt_of_succ_lt_succ hin)
    · exact ⟨0, Nat.zero_le _, by rw [dropUna, if_neg hseg]; rfl, fun i _ hi => absurd hi (Nat.not_lt_zero i)⟩

/-- `una` acknowledges what it is ahead of. -/
theorem inputUna_sending (h : Sending A log js kcp) (hwnd : seg.wnd.toNat ≤ maxWnd)
    (hA : ∀ j ∈ js, 0 < itimediff seg.una (UInt32.ofNat j) → A j) :
    ∃ js', Sending A log js' (inputUna seg kcp) ∧ js'.Sublist js := by
  obtain ⟨n, hn, e, hlt⟩ := dropUna_spec seg.una kcp.sndBuf
  have hsub := List.drop_sublist n js
  refine ⟨js.drop n, h.shrink (kcp.sndBuf.drop n) seg.wnd rfl ?_ hwnd (h.cells.drop n)
    (fun seg hs => List.mem_of_mem_drop hs) hsub ?_, hsub⟩
  · have hcount : kcp.nsndBuf - UInt32.ofNat n = UInt32.ofNat (kcp.sndBuf.drop n).length := by
      rw [h.nsndBuf, ofNat_sub hn, List.length_drop]
    simp only [ikcpParseUna, Kcpcb.sendPart, e, hcount]
  · intro j hj hnot
    obtain ⟨i, hi, rfl⟩ := List.mem_iff_getElem.mp hj
    have hx : i < kcp.sndBuf.length := h.cells.length_eq ▸ hi
    have hin : i < n := by
      by_contra hge
      exact hnot (List.mem_drop_iff_getElem.mpr ⟨i - n, by omega, by congr 1; omega⟩)
    have hc := (List.forall₂_iff_get.mp h.cells.cells).2 i hx hi
    have hd := hlt i hx hin
    rw [show kcp.sndBuf[i].sn = UInt32.ofNat js[i] from hc.1] at hd
    exact hA _ hj hd

theorem dropAcked_spec (sn : UInt32) (segs : List Segment) : dropAcked sn segs = (segs, 0) ∨
    ∃ xs seg ys, segs = xs ++ seg :: ys ∧ sn = seg.sn ∧ dropAcked sn segs = (xs ++ ys, 1) := by
  induction segs with
  | nil => exact .inl rfl
  | cons seg segs ih =>
    by_cases hseg : sn = seg.sn
    · exact .inr ⟨[], seg, segs, rfl, hseg, by rw [dropAcked, if_pos hseg]; rfl⟩
    by_cases hlt : itimediff sn seg.sn < 0
    · exact .inl (by rw [dropAcked, if_neg hseg, if_pos hlt])
    · rw [dropAcked, if_neg hseg, if_neg hlt]
      rcases ih with e | ⟨xs, seg', ys, rfl, hsn, e⟩
      · exact .inl (by rw [e])
      · exact .inr ⟨seg :: xs, seg', ys, rfl, hsn, by rw [e]; rfl⟩

/-- An acknowledgement takes out the segment with its number, if there is one. -/
theorem inputAck_sending (h : Sending A log js kcp) (hA : ∀ j ∈ js, seg.sn = UInt32.ofNat j → A j) :
    ∃ js', Sending A log js' (inputAck seg kcp) ∧ js'.Sublist js := by
  have hsame : SameParts (if itimediff kcp.current seg.ts ≥ 0 then ikcpUpdateAck (itimediff kcp.current seg.ts) kcp
      else kcp) kcp := .ite kcp (updateAck_same kcp _)
  unfold inputAck
  dsimp only
  revert hsame
  generalize (if itimediff kcp.current seg.ts ≥ 0 then ikcpUpdateAck (itimediff kcp.current seg.ts) kcp else kcp) = k
  intro hsame
  have h' : Sending A log js k := h.congr hsame.fixed hsame.sendPart
  have hself : ∀ {m : Kcpcb}, m.fixed = k.fixed → m.sendPart = k.sendPart →
      ∃ js', Sending A log js' (ikcpShrinkBuf m) ∧ js'.Sublist js := by
    intro m hf hm
    refine ⟨js, h'.shrink k.sndBuf k.rmtWnd hf ?_ h'.rmtWnd h'.cells (fun _ hs => hs) (List.Sublist.refl _)
      (fun j hj hn => absurd hj hn), List.Sublist.refl _⟩
    rw [hm, ← h'.nsndBuf]
  unfold ikcpParseAck
  split
  · exact hself rfl rfl
  rcases dropAcked_spec seg.sn k.sndBuf with e | ⟨xs, x, ys, ebuf, hsn, e⟩
  · refine hself rfl ?_
    simp only [Kcpcb.sendPart, e, h'.nsndBuf]
    congr 1
    exact ofNat_sub (Nat.zero_le _)
  · have hcells := h'.cells
    rw [ebuf] at hcells
    obtain ⟨as, j, bs, rfl, hj, hrest⟩ := hcells.split
    have hsub : (as ++ bs).Sublist (as ++ j :: bs) := List.Sublist.append_left (List.sublist_cons_self _ _) _
    refine ⟨as ++ bs, h'.shrink (xs ++ ys) k.rmtWnd rfl ?_ h'.rmtWnd hrest ?_ hsub ?_, hsub⟩
    · have hcount : k.nsndBuf - UInt32.ofNat 1 = UInt32.ofNat (xs ++ ys).length := by
        rw [h'.nsndBuf, ofNat_sub (by rw [ebuf, List.length_append, List.length_cons]; omega), ebuf]
        congr 1
        simp
      simp only [Kcpcb.sendPart, e, hcount]
    · intro s hs
      rw [ebuf]
      rcases List.mem_append.mp hs with hs | hs
      · exact List.mem_append_left _ hs
      · exact List.mem_append_right _ (List.mem_cons_of_mem _ hs)
    · intro i hi hni
      have : i = j := by
        simp only [List.mem_append, List.mem_cons] at hi hni
        tauto
      subst this
      exact hA i hi (hsn.trans hj.1)

/-- Another stamp on the same segment. -/
structure Alike (seg seg' : Segment) : Prop where
  sn : seg'.sn = seg.sn
  frag : seg'.frag = seg.frag
  conv : seg'.conv = seg.conv
  token : seg'.token = seg.token
  cmd : seg'.cmd = seg.cmd

theorem Alike.refl (seg : Segment) : Alike seg seg := ⟨rfl, rfl, rfl, rfl, rfl⟩

theorem Alike.data {seg seg' : Segment} (h : Alike seg seg') : seg'.data = seg.data := congrArg Prod.snd h.frag

theorem Alike.own {seg seg' : Segment} (h : Alike seg seg') (ho : Own kcp seg) : Own kcp seg' :=
  ⟨h.conv.trans ho.conv, h.token.trans ho.token, h.cmd.trans ho.cmd, h.data ▸ ho.size⟩

theorem Sending.restamp (h : Sending A log js kcp) {buf : List Segment} (hbuf : List.Forall₂ Alike kcp.sndBuf buf)
    (hf : k.fixed = kcp.fixed) (hk : k.sendPart = { kcp.sendPart with sndBuf := buf }) : Sending A log js k := by
  have hcells := h.cells.replace hbuf (S := Carries fun j f => log[j]? = some f)
    fun x y i hxy hx => ⟨hxy.sn.trans hx.1, hxy.frag ▸ hx.2⟩
  have hown : ∀ seg ∈ buf, Own kcp seg := by
    intro seg hs
    obtain ⟨i, hi, rfl⟩ := List.mem_iff_getElem.mp hs
    have hx : i < kcp.sndBuf.length := hbuf.length_eq ▸ hi
    exact ((List.forall₂_iff_get.mp hbuf).2 i hx hi).own (h.own _ (List.getElem_mem hx))
  have hself : Sending A log js { kcp with sndBuf := buf } :=
    { h with
      cells := hcells
      own := fun seg hs => (hown seg hs).congr rfl
      nsndBuf := h.nsndBuf.trans (congrArg UInt32.ofNat hbuf.length_eq) }
  exact hself.congr hf hk

theorem markSkipped_alike (sn : UInt32) (segs : List Segment) : List.Forall₂ Alike segs (markSkipped sn segs) := by
  induction segs with
  | nil => exact .nil
  | cons seg segs ih =>
    unfold markSkipped
    split
    · exact List.forall₂_same.mpr fun seg _ => .refl seg
    · refine .cons ?_ ih
      split
      · exact ⟨rfl, rfl, rfl, rfl, rfl⟩
      · exact .refl seg

theorem parseFastack_sending (h : Sending A log js kcp) (sn : UInt32) : Sending A log js (ikcpParseFastack sn kcp) := by
  unfold ikcpParseFastack
  split
  · exact h
  · exact h.restamp (markSkipped_alike sn kcp.sndBuf) rfl rfl

/-! ## Sending -/

/-- The window that a flush may fill is not wider than a header can announce. -/
theorem sendWindow_le (h : kcp.rmtWnd.toNat ≤ maxWnd) : (sendWindow kcp).toNat ≤ maxWnd := by
  have hmin : ∀ a b : UInt32, (imin a b).toNat ≤ b.toNat := by
    intro a b
    unfold imin
    split
    · rename_i hab
      exact UInt32.le_iff_toNat_le.mp hab
    · exact Nat.le_refl _
  unfold sendWindow
  dsimp only
  split
  · exact Nat.le_trans (hmin _ _) (Nat.le_trans (hmin _ _) h)
  · exact Nat.le_trans (hmin _ _) h

/-- The next number goes to the segment in front of `snd_queue`. -/
theorem Sending.number (h : Sending A log js kcp) {newseg : Segment} {rest : List Segment}
    (hqueue : kcp.sndQueue = newseg :: rest) (hroom : log.length < firstOpen js log + maxWnd)
    (hown : Own kcp seg) (hsn : seg.sn = kcp.sndNxt) (hfrag : seg.frag = newseg.frag) :
    Sending A (log ++ [newseg.frag]) (js ++ [log.length]) { kcp with
      sndQueue := rest, sndBuf := kcp.sndBuf ++ [seg], nsndQue := kcp.nsndQue - 1, nsndBuf := kcp.nsndBuf + 1,
      sndNxt := kcp.sndNxt + 1 } ∧
      firstOpen (js ++ [log.length]) (log ++ [newseg.frag]) = firstOpen js log := by
  have hfirst : firstOpen (js ++ [log.length]) (log ++ [newseg.frag]) = firstOpen js log := by
    cases js <;> rfl
  have hold : ∀ {j : Nat} {f : Fragment}, log[j]? = some f → (log ++ [newseg.frag])[j]? = some f := by
    intro j f hf
    rw [List.getElem?_append_left (List.getElem?_eq_some_iff.mp hf).1]
    exact hf
  refine ⟨⟨?_, ?_, ?_, ?_, ?_, ?_, ?_, h.rmtWnd, ?_, ?_⟩, hfirst⟩
  · rw [h.nxt, ofNat_succ, List.length_append, List.length_singleton]
  · rw [hfirst]
    exact h.una
  · refine (h.cells.mono fun x j _ hx => ⟨hx.1, hold hx.2⟩).snoc (fun j hj => h.lt_length hj) ⟨hsn.trans h.nxt, ?_⟩
    rw [hfrag]
    exact List.getElem?_concat_length
  · intro s hs
    rcases List.mem_append.mp hs with hs | hs
    · exact (h.own s hs).congr rfl
    · obtain rfl := List.mem_singleton.mp hs
      exact hown.congr rfl
  · exact fun s hs => h.queue s (hqueue ▸ List.mem_cons_of_mem _ hs)
  · intro j hj hn
    rw [List.length_append, List.length_singleton] at hj
    simp only [List.mem_append, List.mem_singleton, not_or] at hn
    exact h.acked j (by omega) hn.1
  · rw [hfirst, List.length_append, List.length_singleton]
    exact hroom
  · rw [h.nsndBuf, ofNat_succ, List.length_append, List.length_singleton]
  · rw [h.nsndQue, hqueue]
    exact ofNat_sub (b := 1) (by simp)

/-- `moveToBuf` gives numbers to the first of `snd_queue`, as far as the window goes. -/
theorem moveToBuf_sending {cwnd wnd : UInt32} (hcwnd : cwnd.toNat ≤ maxWnd) (n : Nat) (h : Sending A log js kcp) :
    ∃ moved js', kcp.sndQueue = moved ++ (moveToBuf cwnd wnd n kcp).sndQueue ∧
      Sending A (log ++ moved.map Segment.frag) js' (moveToBuf cwnd wnd n kcp) ∧
      firstOpen js' (log ++ moved.map Segment.frag) = firstOpen js log := by
  induction n generalizing kcp log js with
  | zero => exact ⟨[], js, rfl, by simpa [moveToBuf] using h, by simp⟩
  | succ n ih =>
    have hstay : ∃ moved js', kcp.sndQueue = moved ++ kcp.sndQueue ∧
        Sending A (log ++ moved.map Segment.frag) js' kcp ∧
        firstOpen js' (log ++ moved.map Segment.frag) = firstOpen js log := ⟨[], js, rfl, by simpa using h, by simp⟩
    unfold moveToBuf
    split
    · rename_i hdiff
      split
      · exact hstay
      · rename_i newseg rest hqueue
        have hle := h.firstOpen_le_length
        have hwin := h.window
        have hroom : log.length < firstOpen js log + maxWnd := by
          rw [h.nxt, h.una, ofNat_add_toNat, itimediff,
            diff_ofNat (by unfold maxWnd at *; omega) (by unfold maxWnd at *; omega)] at hdiff
          omega
        have hown : Own kcp (numbered kcp wnd newseg) := ⟨rfl, rfl, rfl, h.queue newseg (hqueue ▸ List.mem_cons_self)⟩
        obtain ⟨hnew, hfirst⟩ := h.number hqueue hroom hown rfl rfl
        obtain ⟨moved, js', hq, hs, hf⟩ := ih hnew
        refine ⟨newseg :: moved, js', ?_, ?_, ?_⟩
        · rw [hqueue]
          exact congrArg (newseg :: ·) hq
        · simpa using hs
        · rw [← hfirst, ← hf]
          simp
    · exact hstay

/-! ## Receiving -/

/-- `C`: the fragments that the user has taken; `r` is the next number to go to `rcv_queue`. -/
structure Receiving (P : Nat → Fragment → Prop) (C : List Fragment) (r : Nat) (is : List Nat) (kcp : Kcpcb) : Prop where
  nxt : kcp.rcvNxt = UInt32.ofNat r
  cells : Marks (Carries P) kcp.rcvBuf is
  ahead : ∀ i ∈ is, r ≤ i ∧ i < r + kcp.rcvWnd.toNat
  taken : C.length + kcp.rcvQueue.length = r
  good : ∀ i f, (C ++ kcp.rcvQueue.map Segment.frag)[i]? = some f → P i f
  room : kcp.rcvQueue.length ≤ kcp.rcvWnd.toNat
  nrcvBuf : kcp.nrcvBuf = UInt32.ofNat kcp.rcvBuf.length
  nrcvQue : kcp.nrcvQue = UInt32.ofNat kcp.rcvQueue.length

/-- The number `i` has arrived. -/
def Arrived (r : Nat) (is : List Nat) (i : Nat) : Prop := i < r ∨ i ∈ is

variable {P Q : Nat → Fragment → Prop} {C : List Fragment} {r : Nat} {is : List Nat}

namespace Receiving

theorem mono (h : Receiving P C r is kcp) (hPQ : ∀ i f, P i f → Q i f) : Receiving Q C r is kcp :=
  { h with
    cells := h.cells.mono fun _ _ _ hx => ⟨hx.1, hPQ _ _ hx.2⟩
    good := fun i f hf => hPQ i f (h.good i f hf) }

theorem congr (h : Receiving P C r is kcp) (hf : k.rcvWnd = kcp.rcvWnd)
    (hr : k.recvPart = { kcp.recvPart with acklist := k.acklist }) : Receiving P C r is k := by
  simp only [Kcpcb.recvPart, RecvPart.mk.injEq] at hr
  obtain ⟨hnxt, hqueue, hbuf, hnq, hnb, -⟩ := hr
  exact
    { nxt := hnxt.trans h.nxt
      cells := hbuf ▸ h.cells
      ahead := hf ▸ h.ahead
      taken := hqueue ▸ h.taken
      good := hqueue ▸ h.good
      room := hqueue ▸ hf ▸ h.room
      nrcvBuf := by rw [hnb, hbuf, h.nrcvBuf]
      nrcvQue := by rw [hnq, hqueue, h.nrcvQue] }

theorem same (h : Receiving P C r is kcp) (hf : k.rcvWnd = kcp.rcvWnd) (hr : k.recvPart = kcp.recvPart) :
    Receiving P C r is k := by
  refine h.congr hf (hr.trans ?_)
  rw [show k.acklist = kcp.acklist from congrArg RecvPart.acklist hr]

theorem arrived_lt (h : Receiving P C r is kcp) {i : Nat} (hi : Arrived r is i) : i < r + kcp.rcvWnd.toNat ∨ i < r := by
  rcases hi with hi | hi
  · exact .inr hi
  · exact .inl (h.ahead i hi).2

/-- The segment in front of `rcv_buf` goes to `rcv_queue`. -/
theorem take {rest : List Segment} {is' : List Nat} (h : Receiving P C r (r :: is') kcp) (hbuf : kcp.rcvBuf = seg :: rest)
    (hcells : Marks (Carries P) (seg :: rest) (r :: is')) (hroom : kcp.nrcvQue < kcp.rcvWnd) :
    Receiving P C (r + 1) is' { kcp with
      rcvBuf := rest, nrcvBuf := kcp.nrcvBuf - 1, rcvQueue := kcp.rcvQueue ++ [seg], nrcvQue := kcp.nrcvQue + 1,
      rcvNxt := kcp.rcvNxt + 1 } := by
  have hlen : kcp.rcvQueue.length < kcp.rcvWnd.toNat := by
    have := UInt32.lt_iff_toNat_lt.mp hroom
    have := h.room
    have := kcp.rcvWnd.toNat_lt
    rw [h.nrcvQue, UInt32.toNat_ofNat', Nat.mod_eq_of_lt (by omega)] at *
    assumption
  have hseg : Carries P seg r := by
    obtain ⟨i, is, hc, -, e⟩ := List.forall₂_cons_left_iff.mp hcells.cells
    obtain ⟨rfl, rfl⟩ := List.cons.inj e
    exact hc
  refine ⟨?_, hcells.tail, fun i hi => ?_, ?_, fun i f hf => ?_, ?_, ?_, ?_⟩
  · rw [h.nxt, ofNat_succ]
  · have := hcells.head_lt i hi
    have := (h.ahead i (List.mem_cons_of_mem _ hi)).2
    exact ⟨by omega, by show i < r + 1 + kcp.rcvWnd.toNat; omega⟩
  · have := h.taken
    rw [List.length_append, List.length_singleton]
    omega
  · rw [List.map_append, ← List.append_assoc] at hf
    by_cases hi : i < (C ++ kcp.rcvQueue.map Segment.frag).length
    · rw [List.getElem?_append_left hi] at hf
      exact h.good i f hf
    · have hr : (C ++ kcp.rcvQueue.map Segment.frag).length = r := by
        rw [List.length_append, List.length_map, h.taken]
      rw [List.getElem?_append_right (by omega), hr] at hf
      obtain ⟨hlt, hget⟩ := List.getElem?_eq_some_iff.mp hf
      have hi' : i = r := by simp at hlt; omega
      subst hi'
      simp only [Nat.sub_self, List.map_cons, List.map_nil, List.getElem_cons_zero] at hget
      exact hget ▸ hseg.2
  · rw [List.length_append, List.length_singleton]
    exact hlen
  · rw [h.nrcvBuf, hbuf]
    exact ofNat_sub (b := 1) (by simp)
  · rw [h.nrcvQue, ofNat_succ, List.length_append, List.length_singleton]

end Receiving

/-- `moveAvailable` goes on with `rcv_nxt` over what has arrived, while `rcv_queue` has room. -/
theorem moveAvailable_receiving (n : Nat) (h : Receiving P C r is kcp) :
    ∃ r' is', Receiving P C r' is' (moveAvailable n kcp) ∧ r ≤ r' ∧ (∀ i, Arrived r is i ↔ Arrived r' is' i) ∧
      (moveAvailable n kcp).acklist = kcp.acklist := by
  induction n generalizing kcp r is with
  | zero => exact ⟨r, is, h, Nat.le_refl _, fun _ => Iff.rfl, rfl⟩
  | succ n ih =>
    have hstay : ∃ r' is', Receiving P C r' is' kcp ∧ r ≤ r' ∧ (∀ i, Arrived r is i ↔ Arrived r' is' i) ∧
        kcp.acklist = kcp.acklist := ⟨r, is, h, Nat.le_refl _, fun _ => Iff.rfl, rfl⟩
    unfold moveAvailable
    split
    · exact hstay
    · rename_i seg rest hbuf
      split
      · rename_i hnext
        obtain ⟨hsn, hroom⟩ := hnext
        have hcells := h.cells
        rw [hbuf] at hcells
        obtain ⟨i, is', hseg, -, rfl⟩ := List.forall₂_cons_left_iff.mp hcells.cells
        obtain ⟨hri, hiw⟩ := h.ahead i List.mem_cons_self
        have hw := kcp.rcvWnd.toNat_lt
        obtain rfl : i = r := by
          refine ofNat_inj (by omega) (by omega) ?_
          rw [← hseg.1, hsn, h.nxt]
        obtain ⟨r', is'', hr', hle, harr, hacks⟩ := ih (h.take hbuf hcells hroom)
        refine ⟨r', is'', hr', Nat.le_of_succ_le hle, fun j => ?_, hacks⟩
        rw [← harr]
        simp only [Arrived, List.mem_cons, Nat.lt_succ_iff_lt_or_eq]
        tauto
      · exact hstay

/-- The segment in front of `rcv_buf` is not the next one, unless `rcv_queue` is full. -/
def Settled (kcp : Kcpcb) : Prop := ∀ seg ∈ kcp.rcvBuf.head?, seg.sn = kcp.rcvNxt → kcp.rcvWnd ≤ kcp.nrcvQue

theorem Settled.same (h : Settled kcp) (hf : k.rcvWnd = kcp.rcvWnd)
    (hr : k.recvPart = { kcp.recvPart with acklist := k.acklist }) : Settled k := by
  simp only [Kcpcb.recvPart, RecvPart.mk.injEq] at hr
  obtain ⟨hnxt, -, hbuf, hnq, -, -⟩ := hr
  unfold Settled
  rw [hbuf, hnxt, hf, hnq]
  exact h

theorem moveAvailable_settled {n : Nat} (hn : kcp.rcvBuf.length ≤ n) : Settled (moveAvailable n kcp) := by
  induction n generalizing kcp with
  | zero =>
    have hempty : kcp.rcvBuf = [] := List.eq_nil_of_length_eq_zero (Nat.le_zero.mp hn)
    intro seg hseg
    rw [moveAvailable, hempty] at hseg
    cases hseg
  | succ n ih =>
    unfold moveAvailable
    split
    · rename_i hempty
      intro seg hseg
      rw [hempty] at hseg
      cases hseg
    · rename_i seg rest hbuf
      rw [hbuf] at hn
      split
      · exact ih (Nat.le_of_succ_le_succ hn)
      · rename_i hstay
        intro seg' hseg' hsn
        rw [hbuf] at hseg'
        obtain rfl := Option.some.inj hseg'
        exact UInt32.not_lt.mp fun hlt => hstay ⟨hsn, hlt⟩

/-- The search from the back finds the place of a number, or the number. -/
theorem insertFromBack_spec {i : Nat} (hsn : seg.sn = UInt32.ofNat i) (hP : P i seg.frag) {rev : List Segment}
    {is : List Nat} (h : Marks (Carries P) rev.reverse is) (hnear : ∀ j ∈ is, j < i + 2 ^ 31 ∧ i < j + 2 ^ 31) :
    (i ∈ is ∧ insertFromBack seg rev = none) ∨ (∃ rev' is', insertFromBack seg rev = some rev' ∧
      rev'.length = rev.length + 1 ∧ Marks (Carries P) rev'.reverse is' ∧ ∀ j, j ∈ is' ↔ j = i ∨ j ∈ is) := by
  induction rev generalizing is with
  | nil =>
    obtain rfl := List.forall₂_nil_left_iff.mp h.cells
    exact .inr ⟨[seg], [i], rfl, rfl, Marks.nil.snoc (fun j hj => absurd hj List.not_mem_nil) ⟨hsn, hP⟩, by simp⟩
  | cons x rev ih =>
    rw [List.reverse_cons] at h
    obtain ⟨is, j, rfl, hrest, hx, hlt⟩ := h.unsnoc
    obtain ⟨hj1, hj2⟩ := hnear j (by simp)
    have hdiff : itimediff seg.sn x.sn = (i : Int) - j := by
      rw [hsn, hx.1, itimediff, diff_ofNat (by omega) (by omega)]
    by_cases hsame : x.sn = seg.sn
    · have hij : j = i := ofNat_inj (by omega) (by omega) (by rw [← hx.1, hsame, hsn])
      exact .inl ⟨by simp [hij], by rw [insertFromBack, if_pos hsame]⟩
    have hne : i ≠ j := fun e => hsame (by rw [hx.1, hsn, e])
    rw [insertFromBack, if_neg hsame, hdiff]
    by_cases hgt : (i : Int) - j > 0
    · rw [if_pos hgt]
      refine .inr ⟨_, is ++ [j] ++ [i], rfl, rfl, ?_, fun k => by simp; tauto⟩
      rw [List.reverse_cons, List.reverse_cons]
      refine h.snoc (fun k hk => ?_) ⟨hsn, hP⟩
      rcases List.mem_append.mp hk with hk | hk
      · have := hlt k hk
        omega
      · obtain rfl := List.mem_singleton.mp hk
        omega
    · rw [if_neg hgt]
      rcases ih hrest (fun k hk => hnear k (by simp [hk])) with ⟨hmem, e⟩ | ⟨rev', is', e, hlen, hmarks, hiff⟩
      · exact .inl ⟨by simp [hmem], by rw [e]; rfl⟩
      · refine .inr ⟨x :: rev', is' ++ [j], by rw [e]; rfl, congrArg (· + 1) hlen, ?_, fun k => ?_⟩
        · rw [List.reverse_cons]
          refine hmarks.snoc (fun k hk => ?_) hx
          rcases (hiff k).mp hk with rfl | hk
          · omega
          · exact hlt k hk
        · simp only [List.mem_append, List.mem_singleton, hiff]
          tauto

/-- A fragment that arrives ahead of `rcv_nxt` and inside the window is kept, unless its number has arrived before. -/
theorem parseData_receiving (h : Receiving P C r is kcp) (hwnd : kcp.rcvWnd.toNat < 2 ^ 31)
    (hP : ∀ i, r ≤ i → i < r + kcp.rcvWnd.toNat → seg.sn = UInt32.ofNat i → P i seg.frag) :
    ∃ r' is', Receiving P C r' is' (ikcpParseData seg kcp) ∧ r ≤ r' ∧ (∀ i, Arrived r is i → Arrived r' is' i) ∧
      (∀ i, r ≤ i → i < r + kcp.rcvWnd.toNat → seg.sn = UInt32.ofNat i → Arrived r' is' i) ∧
      (ikcpParseData seg kcp).acklist = kcp.acklist := by
  have hnear : ∀ i, r ≤ i → i < r + kcp.rcvWnd.toNat → seg.sn = UInt32.ofNat i →
      itimediff seg.sn kcp.rcvNxt = (i : Int) - r ∧
        itimediff seg.sn (kcp.rcvNxt + kcp.rcvWnd) = (i : Int) - (r + kcp.rcvWnd.toNat : Nat) := by
    intro i hi hiw hsn
    rw [hsn, h.nxt, ofNat_add_toNat]
    exact ⟨diff_ofNat (by omega) (by omega), diff_ofNat (by omega) (by omega)⟩
  unfold ikcpParseData
  by_cases hout : itimediff seg.sn (kcp.rcvNxt + kcp.rcvWnd) ≥ 0 ∨ itimediff seg.sn kcp.rcvNxt < 0
  · rw [if_pos hout]
    refine ⟨r, is, h, Nat.le_refl _, fun _ hi => hi, fun i hi hiw hsn => ?_, rfl⟩
    obtain ⟨h1, h2⟩ := hnear i hi hiw hsn
    omega
  · rw [if_neg hout]
    -- the number of the segment, counted from `rcv_nxt`
    obtain ⟨i, hri, hiw, hsn⟩ : ∃ i, r ≤ i ∧ i < r + kcp.rcvWnd.toNat ∧ seg.sn = UInt32.ofNat i := by
      simp only [not_or, not_le, not_lt] at hout
      have hlt := diff_lt seg.sn kcp.rcvNxt
      have e : seg.sn = UInt32.ofNat (r + (diff seg.sn (UInt32.ofNat r)).toNat) :=
        eq_ofNat_add_diff (h.nxt ▸ hout.2)
      refine ⟨_, Nat.le_add_right _ _, ?_, e⟩
      have hend := hout.1
      rw [e, h.nxt, ofNat_add_toNat, itimediff, diff_ofNat (by omega) (by rw [h.nxt] at hlt; omega)] at hend
      omega
    have honly : ∀ j, r ≤ j → j < r + kcp.rcvWnd.toNat → seg.sn = UInt32.ofNat j → j = i :=
      fun j hj hjw hsj => ofNat_inj (by omega) (by omega) (hsj.symm.trans hsn)
    have hcells : Marks (Carries P) kcp.rcvBuf.reverse.reverse is := by
      rw [List.reverse_reverse]
      exact h.cells
    have hclose : ∀ j ∈ is, j < i + 2 ^ 31 ∧ i < j + 2 ^ 31 := by
      intro j hj
      have := h.ahead j hj
      omega
    rcases insertFromBack_spec hsn (hP i hri hiw hsn) hcells hclose with
      ⟨hmem, e⟩ | ⟨rev', is', e, hlen, hmarks, hiff⟩
    · have hsame : insertData seg kcp = kcp := by rw [insertData, e]
      dsimp only
      rw [hsame]
      obtain ⟨r', is', hr', hle, harr, hacks⟩ := moveAvailable_receiving kcp.rcvBuf.length h
      refine ⟨r', is', hr', hle, fun j hj => (harr j).mp hj, fun j hj hjw hsj => ?_, hacks⟩
      rw [honly j hj hjw hsj]
      exact (harr i).mp (.inr hmem)
    · have hin : insertData seg kcp = { kcp with rcvBuf := rev'.reverse, nrcvBuf := kcp.nrcvBuf + 1 } := by
        rw [insertData, e]
      dsimp only
      rw [hin]
      have hnew : Receiving P C r is' { kcp with rcvBuf := rev'.reverse, nrcvBuf := kcp.nrcvBuf + 1 } := by
        refine { h with cells := hmarks, ahead := fun j hj => ?_, nrcvBuf := ?_ }
        · rcases (hiff j).mp hj with rfl | hj
          · exact ⟨hri, hiw⟩
          · exact h.ahead j hj
        · rw [h.nrcvBuf, ofNat_succ, List.length_reverse, hlen, List.length_reverse]
      obtain ⟨r', is'', hr', hle, harr, hacks⟩ := moveAvailable_receiving rev'.reverse.length hnew
      have hold : ∀ j, Arrived r is j → Arrived r is' j := fun j hj => hj.imp_right fun hj => (hiff j).mpr (.inr hj)
      refine ⟨r', is'', hr', hle, fun j hj => (harr j).mp (hold j hj), fun j hj hjw hsj => ?_, hacks⟩
      rw [honly j hj hjw hsj]
      exact (harr i).mp (.inr ((hiff i).mpr (.inl rfl)))

/-- What an arriving segment with data changes: its fragment is kept, its number goes to the acknowledgements. -/
theorem inputPush_receiving (h : Receiving P C r is kcp) (hwnd : kcp.rcvWnd.toNat < 2 ^ 31)
    (hP : ∀ i, r ≤ i → i < r + kcp.rcvWnd.toNat → seg.sn = UInt32.ofNat i → P i seg.frag) :
    ∃ r' is', Receiving P C r' is' (inputPush seg kcp) ∧ r ≤ r' ∧ (∀ i, Arrived r is i → Arrived r' is' i) ∧
      (∀ i, r ≤ i → i < r + kcp.rcvWnd.toNat → seg.sn = UInt32.ofNat i → Arrived r' is' i) ∧
      ((inputPush seg kcp).acklist = kcp.acklist ∨
        itimediff seg.sn (kcp.rcvNxt + kcp.rcvWnd) < 0 ∧
          (inputPush seg kcp).acklist = kcp.acklist ++ [(seg.sn, seg.ts)]) := by
  -- inside the window both tests pass
  have hinside : ∀ i, r ≤ i → i < r + kcp.rcvWnd.toNat → seg.sn = UInt32.ofNat i →
      itimediff seg.sn (kcp.rcvNxt + kcp.rcvWnd) < 0 ∧ 0 ≤ itimediff seg.sn kcp.rcvNxt := by
    intro i hi hiw hsn
    rw [hsn, h.nxt, ofNat_add_toNat, itimediff, itimediff, diff_ofNat (by omega) (by omega),
      diff_ofNat (by omega) (by omega)]
    omega
  have hpush : Receiving P C r is (ikcpAckPush seg.sn seg.ts kcp) := h.congr rfl rfl
  unfold inputPush
  by_cases hend : itimediff seg.sn (kcp.rcvNxt + kcp.rcvWnd) < 0
  · rw [if_pos hend]
    by_cases hahead : itimediff seg.sn kcp.rcvNxt ≥ 0
    · obtain ⟨r', is', hr', hle, harr, hnew, hacks⟩ := parseData_receiving hpush hwnd hP
      dsimp only
      rw [if_pos (by exact hahead)]
      exact ⟨r', is', hr', hle, harr, hnew, .inr ⟨hend, hacks⟩⟩
    · dsimp only
      rw [if_neg (by exact hahead)]
      exact ⟨r, is, hpush, Nat.le_refl _, fun _ hi => hi, fun i hi hiw hsn => absurd (hinside i hi hiw hsn).2 hahead,
        .inr ⟨hend, rfl⟩⟩
  · rw [if_neg hend]
    exact ⟨r, is, h, Nat.le_refl _, fun _ hi => hi, fun i hi hiw hsn => absurd (hinside i hi hiw hsn).1 hend, .inl rfl⟩

theorem inputPush_settled (h : Settled kcp) : Settled (inputPush seg kcp) := by
  have hpush : Settled (ikcpAckPush seg.sn seg.ts kcp) := h.same rfl rfl
  unfold inputPush
  split
  · dsimp only
    split
    · unfold ikcpParseData
      split
      · exact hpush
      · exact moveAvailable_settled (Nat.le_refl _)
    · exact hpush
  · exact h

/-! ## The user's calls -/

theorem recv_settled (h : Settled kcp) (len : Int) : Settled (ikcpRecv len kcp).2.2 := by
  unfold ikcpRecv
  split
  · exact h
  split
  · exact h
  split
  · exact h
  dsimp only
  split
  · exact (moveAvailable_settled (Nat.le_refl _)).same rfl rfl
  · exact moveAvailable_settled (Nat.le_refl _)

theorem splitMessage_append (segs : List Segment) : (splitMessage segs).1 ++ (splitMessage segs).2 = segs := by
  induction segs with
  | nil => rfl
  | cons seg segs ih =>
    unfold splitMessage
    split
    · rfl
    · exact congrArg (seg :: ·) ih

/-- The message in front is deleted. -/
theorem mergeFragment_receiving (h : Receiving P C r is kcp) :
    Receiving P (C ++ (splitMessage kcp.rcvQueue).1.map Segment.frag) r is (mergeFragment false kcp).2 := by
  have happ := splitMessage_append kcp.rcvQueue
  have hlen : (splitMessage kcp.rcvQueue).1.length + (splitMessage kcp.rcvQueue).2.length = kcp.rcvQueue.length := by
    rw [← List.length_append, happ]
  have htaken := h.taken
  have hroom := h.room
  refine { h with taken := ?_, good := ?_, room := ?_, nrcvQue := ?_ }
  · show (C ++ (splitMessage kcp.rcvQueue).1.map Segment.frag).length + (splitMessage kcp.rcvQueue).2.length = r
    rw [List.length_append, List.length_map]
    omega
  · intro i f hf
    refine h.good i f ?_
    rw [← happ, List.map_append, ← List.append_assoc]
    exact hf
  · show (splitMessage kcp.rcvQueue).2.length ≤ kcp.rcvWnd.toNat
    omega
  · show kcp.nrcvQue - UInt32.ofNat (splitMessage kcp.rcvQueue).1.length =
      UInt32.ofNat (splitMessage kcp.rcvQueue).2.length
    rw [h.nrcvQue, ofNat_sub (by omega)]
    congr 1
    omega

/-- The result of `ikcp_recv` is negative, with everything as it was; or it is the length of the message in front, which
    is copied and, if this was not a peek, gone. -/
theorem recv_receiving (h : Receiving P C r is kcp) (len : Int) :
    (∃ code, code < 0 ∧ ikcpRecv len kcp = (code, [], kcp)) ∨
      (0 ≤ ikcpPeeksize kcp ∧
        ikcpRecv len kcp = ((((splitMessage kcp.rcvQueue).1.flatMap (·.data)).length : Int),
          (splitMessage kcp.rcvQueue).1.flatMap (·.data), (ikcpRecv len kcp).2.2) ∧
        ∃ r' is', Receiving P (if len < 0 then C else C ++ (splitMessage kcp.rcvQueue).1.map Segment.frag) r' is'
            (ikcpRecv len kcp).2.2 ∧ r ≤ r' ∧ (∀ i, Arrived r is i → Arrived r' is' i) ∧
          (ikcpRecv len kcp).2.2.acklist = kcp.acklist) := by
  unfold ikcpRecv
  by_cases hempty : kcp.rcvQueue = []
  · exact .inl ⟨-1, by decide, by rw [if_pos hempty]⟩
  rw [if_neg hempty]
  by_cases hpeek : ikcpPeeksize kcp < 0
  · exact .inl ⟨-2, by decide, by rw [if_pos hpeek]⟩
  rw [if_neg hpeek]
  by_cases hsmall : ikcpPeeksize kcp > |len|
  · exact .inl ⟨-3, by decide, by rw [if_pos hsmall]⟩
  rw [if_neg hsmall]
  refine .inr ⟨not_lt.mp hpeek, rfl, ?_⟩
  have hmerged : Receiving P (if len < 0 then C else C ++ (splitMessage kcp.rcvQueue).1.map Segment.frag) r is
      (mergeFragment (decide (len < 0)) kcp).2 := by
    by_cases hlen : len < 0
    · rw [if_pos hlen, decide_eq_true hlen]
      exact h.congr rfl rfl
    · rw [if_neg hlen, decide_eq_false hlen]
      exact mergeFragment_receiving h
  have hacks : (mergeFragment (decide (len < 0)) kcp).2.acklist = kcp.acklist := by
    unfold mergeFragment
    dsimp only
    split <;> rfl
  obtain ⟨r', is', hr', hle, harr, hacks'⟩ :=
    moveAvailable_receiving (mergeFragment (decide (len < 0)) kcp).2.rcvBuf.length hmerged
  have hrecover : ∀ (k : Kcpcb) (c : Prop) [Decidable c], (if c then askTell k else k).recvPart = k.recvPart ∧
      (if c then askTell k else k).rcvWnd = k.rcvWnd := by
    intro k c _
    split <;> exact ⟨rfl, rfl⟩
  dsimp only
  generalize moveAvailable (mergeFragment (decide (len < 0)) kcp).2.rcvBuf.length
    (mergeFragment (decide (len < 0)) kcp).2 = m at hr' hacks' ⊢
  obtain ⟨hparts, hwnd⟩ := hrecover m (m.nrcvQue < m.rcvWnd ∧ kcp.nrcvQue ≥ kcp.rcvWnd)
  exact ⟨r', is', hr'.same hwnd hparts, hle, fun i hi => (harr i).mp hi,
    (congrArg RecvPart.acklist hparts).trans (hacks'.trans hacks)⟩

theorem fragment_size (mss : Nat) (stream : Int) (count : Nat) (buffer : List UInt8) :
    (fragment mss stream count buffer).length = count ∧ ∀ seg ∈ fragment mss stream count buffer, seg.data.length ≤ mss := by
  induction count generalizing buffer with
  | zero => exact ⟨rfl, fun seg hs => absurd hs List.not_mem_nil⟩
  | succ count ih =>
    obtain ⟨hlen, hsize⟩ := ih (buffer.drop mss)
    refine ⟨congrArg (· + 1) hlen, fun seg hs => ?_⟩
    rcases List.mem_cons.mp hs with rfl | hs
    · simp
    · exact hsize seg hs

/-- `ikcp_send` of whole messages refuses the data, or appends its fragments. -/
theorem send_sending (h : Sending A log js kcp) (hstream : kcp.stream = 0) (buffer : List UInt8) :
    (256 ≤ fragments kcp.mss.toNat buffer.length ∧ ikcpSend buffer kcp = (-2, kcp)) ∨
      (fragments kcp.mss.toNat buffer.length < 256 ∧ (ikcpSend buffer kcp).1 = 0 ∧
        Sending A log js (ikcpSend buffer kcp).2 ∧ (ikcpSend buffer kcp).2.fixed = kcp.fixed ∧
        (ikcpSend buffer kcp).2.recvPart = kcp.recvPart ∧ (ikcpSend buffer kcp).2.sndQueue =
          kcp.sndQueue ++ fragment kcp.mss.toNat 0 (fragments kcp.mss.toNat buffer.length) buffer) := by
  obtain ⟨hlen, hsize⟩ := fragment_size kcp.mss.toNat kcp.stream (fragments kcp.mss.toNat buffer.length) buffer
  rw [ikcpSend, if_neg (not_not_intro hstream), sendFragments]
  by_cases hbig : fragments kcp.mss.toNat buffer.length ≥ IKCP_WND_RCV.toNat
  · exact .inl ⟨hbig, if_pos hbig⟩
  · rw [if_neg hbig]
    refine .inr ⟨not_le.mp hbig, rfl, ?_, rfl, rfl, by rw [hstream]⟩
    refine { h with own := fun seg hs => (h.own seg hs).congr rfl, queue := fun seg hs => ?_, nsndQue := ?_ }
    · rcases List.mem_append.mp hs with hs | hs
      · exact h.queue seg hs
      · exact hsize seg hs
    · show kcp.nsndQue + UInt32.ofNat (fragments kcp.mss.toNat buffer.length) = _
      rw [h.nsndQue, ← UInt32.ofNat_add, List.length_append, hlen]

end Dbase.Net.Ikcp
