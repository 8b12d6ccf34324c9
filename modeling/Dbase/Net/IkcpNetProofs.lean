/-
  Dbase.Net.IkcpNetProofs — reliable delivery over a network that loses, repeats and reorders.

  A `View` counts what one end has done without a bound: `log` are the fragments it has numbered, `js` the numbers in
  `snd_buf`; `taken`, `r` and `is` are what its user has read, `rcv_nxt` and the numbers in `rcv_buf`. Below `told` lie all
  numbers that it can have acknowledged so far. `Live` says that a control block is as its view and the other's have it,
  `Intact` what is true of a segment on its way, `Half` both of one end and all that it ever sent.

  Proved: every step keeps `Half` at both ends (`half_step`), from which
  (1) `delivered_prefix`: what one user reads is a prefix of what the other sent: nothing is lost in between, repeated,
      reordered or changed.
  (2) `datagrams_taken`: no datagram is longer than the MTU, none is written behind its block, and each is taken whole by
      the other end, whenever it arrives.
-/

import Dbase.Net.IkcpFlush
import Dbase.Net.IkcpMessages
import Dbase.Net.IkcpNet

namespace Dbase.Net.Ikcp

open Dbase.Lib.Serial
open Dbase.Net.KcpSession (Options)

structure View where
  log : List Fragment
  js : List Nat
  taken : List Fragment
  r : Nat
  is : List Nat
  told : Nat

def View.has (v : View) (i : Nat) : Prop := Arrived v.r v.is i

structure Live (w v : View) (kcp : Kcpcb) : Prop where
  sending : Sending (fun j => w.has j ∧ j < w.told) v.log v.js kcp
  receiving : Receiving (fun i f => w.log[i]? = some f) v.taken v.r v.is kcp
  told : v.told ≤ w.log.length
  acks : ∀ ack ∈ kcp.acklist, ∃ j, ack.1 = UInt32.ofNat j ∧ v.has j ∧ j < w.log.length ∧
    v.told ≤ j + lifetime + maxWnd
  settled : Settled kcp

/-- A segment that an end with this view has sent, when the two ends had numbered `own` and `other` segments. -/
structure Intact (f : Fixed) (v : View) (own other : Nat) (seg : Segment) : Prop where
  conv : seg.conv = f.conv
  token : seg.token = f.token
  size : seg.data.length ≤ f.mss.toNat
  una : ∃ q, seg.una = UInt32.ofNat q ∧ (∀ i < q, v.has i) ∧ q ≤ v.told ∧ other ≤ q + 2 ^ 29 + maxWnd
  kind : (seg.cmd = IKCP_CMD_ACK ∧ ∃ j, seg.sn = UInt32.ofNat j ∧ v.has j ∧ j < v.told ∧
      other ≤ j + lifetime + 2 * maxWnd) ∨
    (seg.cmd = IKCP_CMD_WASK ∨ seg.cmd = IKCP_CMD_WINS) ∨
    (seg.cmd = IKCP_CMD_PUSH ∧ ∃ j, Carries (fun j f => v.log[j]? = some f) seg j ∧ own ≤ j + maxWnd)

/-- What a view keeps as time goes on. -/
structure Grows (v v' : View) : Prop where
  log : v.log <+: v'.log
  has : ∀ i, v.has i → v'.has i
  told : v.told ≤ v'.told

structure Half (f g : Fixed) (e : End) (v : View) (p : End) (w : View) : Prop where
  fixed : e.kcp.fixed = f
  live : Live w v e.kcp
  numbered : e.numbered = v.log.length
  queued : v.log ++ e.kcp.sndQueue.map Segment.frag = e.accepted.flatMap (cut f.mss.toNat)
  short : ∀ m ∈ e.accepted, Short f.mss.toNat m
  messages : v.taken = e.delivered.flatMap (cut g.mss.toNat)
  delivered : e.delivered <+: p.accepted
  sent : ∀ d ∈ e.sent, ∃ segs, segs ≠ [] ∧ d.bytes = wire segs ∧ d.bytes.length ≤ f.mtu.toNat ∧
    ∀ seg ∈ segs, Intact f v d.own d.other seg
  inside : e.overrun = false

variable {f g : Fixed} {e e' p p' : End} {v v' w w' : View} {kcp k : Kcpcb} {seg : Segment} {own other : Nat}

theorem Grows.refl (v : View) : Grows v v := ⟨List.prefix_refl _, fun _ h => h, Nat.le_refl _⟩

theorem Grows.get (h : Grows v v') {i : Nat} {x : Fragment} (hx : v.log[i]? = some x) : v'.log[i]? = some x := by
  obtain ⟨more, hmore⟩ := h.log
  rw [← hmore, List.getElem?_append_left (List.getElem?_eq_some_iff.mp hx).1]
  exact hx

theorem Intact.mono (h : Intact f v own other seg) (hv : Grows v v') : Intact f v' own other seg := by
  obtain ⟨q, hq, hhas, htold, hother⟩ := h.una
  refine ⟨h.conv, h.token, h.size, ⟨q, hq, fun i hi => hv.has i (hhas i hi), Nat.le_trans htold hv.told, hother⟩, ?_⟩
  rcases h.kind with ⟨hc, j, hj, hhas, htold, hother⟩ | hc | ⟨hc, j, hj, hown⟩
  · exact .inl ⟨hc, j, hj, hv.has j hhas, Nat.lt_of_lt_of_le htold hv.told, hother⟩
  · exact .inr (.inl hc)
  · exact .inr (.inr ⟨hc, j, ⟨hj.1, hv.get hj.2⟩, hown⟩)

theorem Live.mono (h : Live w v kcp) (hw : Grows w w') : Live w' v kcp := by
  refine ⟨h.sending.mono fun j _ hj => ⟨hw.has j hj.1, Nat.lt_of_lt_of_le hj.2 hw.told⟩,
    h.receiving.mono fun i x hx => hw.get hx, Nat.le_trans h.told hw.log.length_le, fun ack hack => ?_, h.settled⟩
  obtain ⟨j, hj, hhas, hlt, htold⟩ := h.acks ack hack
  exact ⟨j, hj, hhas, Nat.lt_of_lt_of_le hlt hw.log.length_le, htold⟩

/-- A step of the other end. -/
theorem Half.mono (h : Half f g e v p w) (hw : Grows w w') (hp : p.accepted <+: p'.accepted) : Half f g e v p' w' :=
  { h with live := h.live.mono hw, delivered := h.delivered.trans hp }

/-! ## How far the two ends are apart -/

/-- Only the sending side is touched. -/
theorem Live.sends (h : Live w v kcp) {log : List Fragment} {js : List Nat}
    (hs : Sending (fun j => w.has j ∧ j < w.told) log js k) (hf : k.fixed = kcp.fixed) (hr : k.recvPart = kcp.recvPart) :
    Live w { v with log, js } k := by
  have hwnd : k.rcvWnd = kcp.rcvWnd := congrArg Fixed.rcvWnd hf
  have hacks : k.acklist = kcp.acklist := congrArg RecvPart.acklist hr
  exact ⟨hs, h.receiving.same hwnd hr, h.told, hacks ▸ h.acks, h.settled.same hwnd (hacks ▸ hr)⟩

theorem Live.same (h : Live w v kcp) (hk : SameParts k kcp) : Live w v k :=
  h.sends (h.sending.congr hk.fixed hk.sendPart) hk.fixed hk.recvPart

/-- Nothing arrives that was not sent. -/
theorem Live.nxt_le (h : Live w v kcp) : v.r ≤ w.log.length := by
  by_contra hlt
  rw [not_le] at hlt
  have hlen : (v.taken ++ kcp.rcvQueue.map Segment.frag).length = v.r := by
    rw [List.length_append, List.length_map, h.receiving.taken]
  have hin : w.log.length < (v.taken ++ kcp.rcvQueue.map Segment.frag).length := hlen ▸ hlt
  have hget := h.receiving.good _ _ (List.getElem?_eq_getElem hin)
  rw [List.getElem?_eq_none (Nat.le_refl _)] at hget
  cases hget

/-- The first open number has not been acknowledged by the other end, which has told of all before it. -/
theorem Live.firstOpen_le_told (h : Live w v kcp) : firstOpen v.js v.log ≤ w.told := by
  by_contra hlt
  have := (h.sending.acked_below (not_le.mp hlt)).2
  omega

theorem Live.length_le_told (h : Live w v kcp) : v.log.length ≤ w.told + maxWnd := by
  have := h.firstOpen_le_told
  have := h.sending.window
  omega

/-- What is numbered is not far ahead of what has arrived: `kcp` is the receiver's. -/
theorem Live.near (h : Live w v kcp) (hp : Live v w k) : v.log.length ≤ w.r + k.rcvWnd.toNat + maxWnd := by
  have hwin := h.sending.window
  have hfirst : firstOpen v.js v.log ≤ w.r + k.rcvWnd.toNat := by
    by_contra hlt
    have := hp.receiving.arrived_lt (h.sending.acked_below (not_le.mp hlt)).1
    omega
  omega

/-! ## A segment arrives -/

theorem received_wnd (seg : Segment) : (received seg).wnd.toNat ≤ maxWnd := by
  have := seg.wnd.toUInt16.toNat_lt
  show seg.wnd.toUInt16.toUInt32.toNat ≤ 65535
  rw [UInt16.toNat_toUInt32]
  omega

theorem received_frag (h : seg.frg.toNat < 256) : (received seg).frag = seg.frag := by
  refine Prod.ext ?_ rfl
  show seg.frg.toUInt8.toUInt32 = seg.frg
  refine UInt32.toNat_inj.mp ?_
  rw [UInt8.toNat_toUInt32, UInt32.toNat_toUInt8, Nat.mod_eq_of_lt h]

/-- The times on their way are not too long for 32 bits. -/
structure Near (w v : View) (kcp : Kcpcb) (own other : Nat) : Prop where
  rcvWnd : kcp.rcvWnd.toNat ≤ 2 ^ 29
  log : w.log.length ≤ v.r + kcp.rcvWnd.toNat + maxWnd
  told : w.told ≤ v.log.length
  own : w.log.length ≤ own + lifetime
  other : v.log.length ≤ other + lifetime
  frg : ∀ x ∈ w.log, x.1.toNat < 256

theorem inputUna_live (h : Live w v kcp) (hn : Near w v kcp own other) (hseg : Intact g w own other seg) :
    ∃ js', Live w { v with js := js' } (inputUna (received seg) kcp) := by
  obtain ⟨q, hq, hhas, htold, hother⟩ := hseg.una
  have hwin := h.sending.window
  obtain ⟨js', hs, -⟩ := inputUna_sending h.sending (received_wnd seg) fun j hj hdiff => by
    have hjl := h.sending.lt_length hj
    have hjf := h.sending.firstOpen_le hj
    have := hn.told
    have := hn.other
    rw [show (received seg).una = UInt32.ofNat q from hq, itimediff,
      diff_ofNat (by unfold lifetime maxWnd at *; omega) (by unfold maxWnd at *; omega)] at hdiff
    have hlt : j < q := by omega
    exact ⟨hhas j hlt, Nat.lt_of_lt_of_le hlt htold⟩
  obtain ⟨hfix, hrecv⟩ := inputUna_frame kcp (received seg)
  exact ⟨js', h.sends hs hfix hrecv⟩

theorem inputAck_live (h : Live w v kcp) (hn : Near w v kcp own other) {j : Nat} (hsn : seg.sn = UInt32.ofNat j)
    (hhas : w.has j) (hj : j < w.told) (hother : other ≤ j + lifetime + 2 * maxWnd) :
    ∃ js', Live w { v with js := js' } (inputAck seg kcp) := by
  have hwin := h.sending.window
  obtain ⟨js', hs, -⟩ := inputAck_sending h.sending fun i hi (hsi : seg.sn = UInt32.ofNat i) => by
    have hil := h.sending.lt_length hi
    have hif := h.sending.firstOpen_le hi
    have := hn.told
    have := hn.other
    obtain rfl : i = j :=
      ofNat_inj (by unfold maxWnd at *; omega) (by unfold lifetime maxWnd at *; omega) (hsi.symm.trans hsn)
    exact ⟨hhas, hj⟩
  obtain ⟨hfix, hrecv⟩ := inputAck_frame kcp seg
  exact ⟨js', h.sends hs hfix hrecv⟩

theorem inputPush_live (h : Live w v kcp) (hn : Near w v kcp own other) {j : Nat}
    (hseg : Carries (fun j f => w.log[j]? = some f) seg j) (hown : own ≤ j + maxWnd) :
    ∃ r' is', Live w { v with r := r', is := is' } (inputPush seg kcp) ∧ v.r ≤ r' ∧
      ∀ i, v.has i → Arrived r' is' i := by
  have hjl : j < w.log.length := (List.getElem?_eq_some_iff.mp hseg.2).1
  have hr := h.nxt_le
  have hW := hn.rcvWnd
  have hlog := hn.log
  have hlife := hn.own
  obtain ⟨r', is', hrec, hle, harr, hnew, hacks⟩ := inputPush_receiving h.receiving (by omega)
    fun i hi hiw (hsi : seg.sn = UInt32.ofNat i) => by
    obtain rfl : i = j := ofNat_inj (by unfold maxWnd at *; omega) (by unfold lifetime maxWnd at *; omega)
      (hsi.symm.trans hseg.1)
    exact hseg.2
  obtain ⟨hfix, hsend⟩ := inputPush_frame kcp seg
  refine ⟨r', is', ⟨h.sending.congr hfix hsend, hrec, h.told, fun ack hack => ?_, inputPush_settled h.settled⟩, hle, harr⟩
  have hold : ∀ ack ∈ kcp.acklist, ∃ j, ack.1 = UInt32.ofNat j ∧ Arrived r' is' j ∧ j < w.log.length ∧
      v.told ≤ j + lifetime + maxWnd := by
    intro ack hack
    obtain ⟨i, hi, hhas, hlt, htold⟩ := h.acks ack hack
    exact ⟨i, hi, harr i hhas, hlt, htold⟩
  rcases hacks with hsame | ⟨hend, hadd⟩
  · exact hold ack (hsame ▸ hack)
  · rw [hadd] at hack
    rcases List.mem_append.mp hack with hack | hack
    · exact hold ack hack
    · obtain rfl := List.mem_singleton.mp hack
      have htold := h.told
      refine ⟨j, hseg.1, ?_, hjl, show v.told ≤ j + lifetime + maxWnd by omega⟩
      -- behind the window nothing is acknowledged, before `rcv_nxt` all has arrived
      rw [hseg.1, h.receiving.nxt, ofNat_add_toNat, itimediff,
        diff_ofNat (by unfold lifetime maxWnd at *; omega) (by unfold maxWnd at *; omega)] at hend
      by_cases hold : j < v.r
      · exact harr j (.inl hold)
      · exact hnew j (by omega) (by omega) hseg.1

/-- What one segment does, when it is one of the other end's. -/
theorem inputSegment_live (h : Live w v kcp) (hn : Near w v kcp own other) (hseg : Intact g w own other seg) :
    ∃ js' r' is', Live w { v with js := js', r := r', is := is' } (inputSegment (received seg) kcp) ∧ v.r ≤ r' ∧
      ∀ i, v.has i → Arrived r' is' i := by
  obtain ⟨js', huna⟩ := inputUna_live h hn hseg
  have hfix := (inputUna_frame kcp (received seg)).1
  have hwnd : (inputUna (received seg) kcp).rcvWnd = kcp.rcvWnd := congrArg Fixed.rcvWnd hfix
  have hn' : Near w { v with js := js' } (inputUna (received seg) kcp) own other :=
    ⟨hwnd ▸ hn.rcvWnd, hwnd ▸ hn.log, hn.told, hn.own, hn.other, hn.frg⟩
  unfold inputSegment
  dsimp only
  rcases hseg.kind with ⟨hc, j, hj, hhas, htold, hother⟩ | hc | ⟨hc, j, hj, hown⟩
  · rw [received_cmd (.inr (.inl hc)), if_pos hc]
    obtain ⟨js'', hack⟩ := inputAck_live huna hn' (show (received seg).sn = UInt32.ofNat j from hj) hhas htold hother
    exact ⟨js'', v.r, v.is, hack, Nat.le_refl _, fun _ hi => hi⟩
  · have hcmd : (received seg).cmd = seg.cmd := received_cmd (.inr (.inr hc))
    refine ⟨js', v.r, v.is, ?_, Nat.le_refl _, fun _ hi => hi⟩
    have hack : seg.cmd ≠ IKCP_CMD_ACK := by rcases hc with hc | hc <;> rw [hc] <;> decide
    have hpush : seg.cmd ≠ IKCP_CMD_PUSH := by rcases hc with hc | hc <;> rw [hc] <;> decide
    rw [hcmd, if_neg hack, if_neg hpush]
    split
    · exact huna.same ⟨rfl, rfl, rfl⟩
    · exact huna
  · have hack : seg.cmd ≠ IKCP_CMD_ACK := by rw [hc]; decide
    rw [received_cmd (.inl hc), if_neg hack, if_pos hc]
    have hcarries : Carries (fun j f => w.log[j]? = some f) (received seg) j :=
      ⟨hj.1, (received_frag (hn.frg _ (List.mem_of_getElem? hj.2))).symm ▸ hj.2⟩
    obtain ⟨r', is', hpush, hle, harr⟩ := inputPush_live huna hn' hcarries hown
    exact ⟨js', r', is', hpush, hle, harr⟩

theorem inputAll_live (segs : List Segment) (h : Live w v kcp) (hn : Near w v kcp own other)
    (hsegs : ∀ seg ∈ segs, Intact g w own other seg) : ∃ js' r' is',
      Live w { v with js := js', r := r', is := is' } (inputAll (segs.map received) kcp) ∧
        (∀ i, v.has i → Arrived r' is' i) ∧ (inputAll (segs.map received) kcp).fixed = kcp.fixed ∧
        (inputAll (segs.map received) kcp).sndQueue = kcp.sndQueue := by
  induction segs generalizing v kcp with
  | nil => exact ⟨v.js, v.r, v.is, h, fun _ hi => hi, rfl, rfl⟩
  | cons seg segs ih =>
    obtain ⟨js₁, r₁, is₁, h₁, hle, harr⟩ := inputSegment_live h hn (hsegs seg List.mem_cons_self)
    have hfix := inputSegment_fixed kcp (received seg)
    have hwnd : (inputSegment (received seg) kcp).rcvWnd = kcp.rcvWnd := congrArg Fixed.rcvWnd hfix
    have hlog := hn.log
    obtain ⟨js', r', is', h', harr', hfix', hqueue'⟩ := ih h₁
      ⟨hwnd ▸ hn.rcvWnd, by rw [hwnd]; show w.log.length ≤ r₁ + kcp.rcvWnd.toNat + maxWnd; omega, hn.told, hn.own, hn.other,
        hn.frg⟩
      fun s hs => hsegs s (List.mem_cons_of_mem _ hs)
    exact ⟨js', r', is', h', fun i hi => harr' i (harr i hi), hfix'.trans hfix,
      hqueue'.trans (inputSegment_sndQueue kcp (received seg))⟩

/-! ## The settings -/

structure Sane (f : Fixed) : Prop where
  mss : f.mss.toNat + IKCP_OVERHEAD = f.mtu.toNat
  mtu : 50 ≤ f.mtu.toNat ∧ f.mtu.toNat < 2 ^ 30
  block : f.mtu.toNat ≤ f.capacity.toNat
  stream : f.stream = 0
  rcvWnd : 256 ≤ f.rcvWnd.toNat ∧ f.rcvWnd.toNat ≤ 2 ^ 29

theorem Sane.sized (h : Sane f) (hk : kcp.fixed = f) : Sized kcp := by
  subst hk
  exact ⟨h.mss, h.block⟩

theorem Sane.mss_pos (h : Sane f) : 0 < f.mss.toNat := by
  have := h.mss
  have := h.mtu
  unfold IKCP_OVERHEAD at *
  omega

/-! ## The steps -/

/-- Only few fragments, so that each number of them fits its byte. -/
theorem Half.frg (h : Half f g e v p w) : ∀ x ∈ v.log, x.1.toNat < 256 := by
  intro x hx
  have hmem : x ∈ e.accepted.flatMap (cut f.mss.toNat) := h.queued ▸ List.mem_append_left _ hx
  obtain ⟨m, hm, hxm⟩ := List.mem_flatMap.mp hmem
  exact cut_frg (h.short m hm) x hxm

theorem Intact.accepted (h : Intact f v own other seg) (hf : Sane f) (hconv : kcp.conv = f.conv)
    (htoken : kcp.token = f.token) : Accepted kcp seg := by
  have := h.size
  have := hf.mss
  have := hf.mtu
  refine ⟨h.conv.trans hconv.symm, h.token.trans htoken.symm, ?_, by omega⟩
  rcases h.kind with ⟨hc, -⟩ | hc | ⟨hc, -⟩
  · exact .inr (.inl hc)
  · exact .inr (.inr hc)
  · exact .inl hc

theorem Half.sent_mono (h : Half f g e v p w) (hv : Grows v v') : ∀ d ∈ e.sent, ∃ segs, segs ≠ [] ∧ d.bytes = wire segs ∧
    d.bytes.length ≤ f.mtu.toNat ∧ ∀ seg ∈ segs, Intact f v' d.own d.other seg := by
  intro d hd
  obtain ⟨segs, hne, hbytes, hsize, hall⟩ := h.sent d hd
  exact ⟨segs, hne, hbytes, hsize, fun seg hs => (hall seg hs).mono hv⟩

theorem skipped_live (h : Live w v kcp) (maxack : MaxAck) : Live w v (skipped maxack kcp) := by
  obtain ⟨hfix, hrecv, -⟩ := skipped_frame kcp maxack
  refine h.sends ?_ hfix hrecv
  cases maxack with
  | none => exact h.sending
  | some sn => exact parseFastack_sending h.sending sn

/-- A datagram of the other end arrives. -/
theorem input_half (h : Half f g e v p w) (hp : Half g f p w e v) (hf : Sane f) (hg : Sane g) (hconv : f.conv = g.conv)
    (htoken : f.token = g.token) {d : Packet} (hd : d ∈ p.sent) (hown : p.numbered ≤ d.own + lifetime)
    (hother : e.numbered ≤ d.other + lifetime) :
    ∃ k v', ikcpInput d.bytes e.kcp = (0, k) ∧ Half f g { e with kcp := k } v' p w ∧ Grows v v' := by
  obtain ⟨segs, hne, hbytes, hsize, hsegs⟩ := hp.sent d hd
  have hmtu := hg.mtu
  have hk := h.fixed
  have haccepted : ∀ seg ∈ segs, Accepted e.kcp seg := fun seg hs => (hsegs seg hs).accepted hg
    ((congrArg Fixed.conv hk).trans hconv) ((congrArg Fixed.token hk).trans htoken)
  have hinput := ikcpInput_wire hne (by rw [← hbytes]; omega) haccepted
  rw [← hbytes] at hinput
  have hwnd : e.kcp.rcvWnd = f.rcvWnd := congrArg Fixed.rcvWnd hk
  have hrx : Live w v (countRx d.bytes.length e.kcp) := h.live.same ⟨rfl, rfl, rfl⟩
  have hnear : Near w v (countRx d.bytes.length e.kcp) d.own d.other :=
    ⟨show e.kcp.rcvWnd.toNat ≤ 2 ^ 29 from hwnd ▸ hf.rcvWnd.2, hp.live.near hrx, hp.live.told, hp.numbered ▸ hown,
      h.numbered ▸ hother, hp.frg⟩
  obtain ⟨js', r', is', hlive, harr, hfix, hqueue⟩ := inputAll_live segs hrx hnear hsegs
  -- the end of `ikcp_input` touches timers and the congestion window only
  obtain ⟨hfix', hrecv', hqueue'⟩ := skipped_frame (inputAll (segs.map received) (countRx d.bytes.length e.kcp))
    (ackFold (segs.map received) none)
  have hskipped := skipped_live hlive (ackFold (segs.map received) none)
  generalize skipped (ackFold (segs.map received) none)
    (inputAll (segs.map received) (countRx d.bytes.length e.kcp)) = k at hinput hfix' hrecv' hqueue' hskipped
  have hgrow := growCwnd_same k e.kcp.sndUna
  have hgrows : Grows v { v with js := js', r := r', is := is' } := ⟨List.prefix_refl _, harr, Nat.le_refl _⟩
  refine ⟨_, { v with js := js', r := r', is := is' }, hinput, ?_, hgrows⟩
  exact
    { fixed := hgrow.fixed.trans (hfix'.trans (hfix.trans hk))
      live := hskipped.same hgrow
      numbered := h.numbered
      queued := by
        rw [hgrow.sndQueue, hqueue', hqueue]
        exact h.queued
      short := h.short
      messages := h.messages
      delivered := h.delivered
      sent := h.sent_mono hgrows
      inside := h.inside }

/-- Nothing that counts is touched. -/
theorem Half.quiet (h : Half f g e v p w) (hk : SameParts k e.kcp) : Half f g { e with kcp := k } v p w :=
  { h with
    fixed := hk.fixed.trans h.fixed
    live := h.live.same hk
    queued := by
      rw [hk.sndQueue]
      exact h.queued }

/-- What a flush sends is intact, and acknowledges only what has arrived. -/
theorem emitted_intact {log : List Fragment} {js' : List Nat} (h : Half f g e v p w) (hp : Half g f p w e v) (hf : Sane f)
    (hsend : Sending (fun j => w.has j ∧ j < w.told) log js' k) (hseg : Emitted e.kcp log js' seg) :
    Intact f { v with log, js := js', told := w.log.length } log.length w.log.length seg := by
  have hk := h.fixed
  have hmss : e.kcp.mss = f.mss := congrArg Fixed.mss hk
  have hrcv : e.kcp.rcvWnd = f.rcvWnd := congrArg Fixed.rcvWnd hk
  have hwnd : e.kcp.rcvWnd.toNat ≤ 2 ^ 29 := hrcv ▸ hf.rcvWnd.2
  have hnear := hp.live.near h.live
  refine ⟨hseg.conv.trans (congrArg Fixed.conv hk), hseg.token.trans (congrArg Fixed.token hk), hmss ▸ hseg.size,
    ⟨v.r, hseg.una.trans h.live.receiving.nxt, fun i hi => .inl hi, h.live.nxt_le, by omega⟩, ?_⟩
  rcases hseg.kind with ⟨hc, ts, hack⟩ | hc | ⟨hc, j, hj, hcarries⟩
  · obtain ⟨j, hsn, hhas, hlt, htold⟩ := h.live.acks _ hack
    have hpeer := hp.live.length_le_told
    exact .inl ⟨hc, j, hsn, hhas, hlt, by omega⟩
  · exact .inr (.inl hc)
  · have hfirst := hsend.firstOpen_le hj
    have hwin := hsend.window
    exact .inr (.inr ⟨hc, j, hcarries, by omega⟩)

/-- The view after a flush that gave numbers to `moved`. -/
def View.flushed (v : View) (moved : List Segment) (js' : List Nat) (told : Nat) : View :=
  { v with log := v.log ++ moved.map Segment.frag, js := js', told }

/-- `ikcp_update` and `ikcp_flush`. -/
theorem flushed_half {moved : List Segment} {js' : List Nat} {sent : List (List Segment)}
    {result : Kcpcb × List (List UInt8) × Bool} (h : Half f g e v p w) (hp : Half g f p w e v) (hf : Sane f)
    (hflush : Flushes (fun j => w.has j ∧ j < w.told) v.log v.js e.kcp result moved js' sent) :
    ∃ told, Half f g (e.flushed p.numbered result) (v.flushed moved js' told) p w ∧ Grows v (v.flushed moved js' told) := by
  have hk := h.fixed
  have hwnd : result.1.rcvWnd = e.kcp.rcvWnd := congrArg Fixed.rcvWnd hflush.fixed
  have hmoved : e.kcp.sndQueue.length - result.1.sndQueue.length = moved.length := by
    rw [hflush.queue, List.length_append]
    exact Nat.add_sub_cancel _ _
  have hnumbered : (e.flushed p.numbered result).numbered = (v.log ++ moved.map Segment.frag).length := by
    show e.numbered + (e.kcp.sndQueue.length - result.1.sndQueue.length) = _
    rw [hmoved, h.numbered, List.length_append, List.length_map]
  have hrest : ∀ told, v.told ≤ told → told ≤ w.log.length →
      (∀ ack ∈ result.1.acklist, ∃ j, ack.1 = UInt32.ofNat j ∧ v.has j ∧ j < w.log.length ∧
        told ≤ j + lifetime + maxWnd) →
      (∀ d ∈ sent, ∀ seg ∈ d, Intact f (v.flushed moved js' told) (v.log ++ moved.map Segment.frag).length
        w.log.length seg) →
      ∃ told, Half f g (e.flushed p.numbered result) (v.flushed moved js' told) p w ∧
        Grows v (v.flushed moved js' told) := by
    intro told htold htold' hacks hsent
    have hgrows : Grows v (v.flushed moved js' told) := ⟨List.prefix_append _ _, fun _ hi => hi, htold⟩
    have hrecv : result.1.recvPart = { e.kcp.recvPart with acklist := result.1.acklist } := by
      rcases hflush.recv with ⟨hsame, -⟩ | hclear
      · rw [hsame, show result.1.acklist = e.kcp.acklist from congrArg RecvPart.acklist hsame]
      · rw [hclear, show result.1.acklist = [] from congrArg RecvPart.acklist hclear]
    refine ⟨told, ?_, hgrows⟩
    exact
      { fixed := hflush.fixed.trans hk
        live := ⟨hflush.sending, h.live.receiving.congr hwnd hrecv, htold', hacks, h.live.settled.same hwnd hrecv⟩
        numbered := hnumbered
        queued := by
          show v.log ++ moved.map Segment.frag ++ result.1.sndQueue.map Segment.frag = _
          rw [List.append_assoc, ← List.map_append, ← hflush.queue]
          exact h.queued
        short := h.short
        messages := h.messages
        delivered := h.delivered
        sent := by
          intro d hd
          rcases List.mem_append.mp hd with hd | hd
          · exact h.sent_mono hgrows d hd
          · rw [hflush.datagrams, List.map_map] at hd
            obtain ⟨segs, hsegs, rfl⟩ := List.mem_map.mp hd
            obtain ⟨hne, hsize, -⟩ := hflush.sent segs hsegs
            have hmtu : e.kcp.mtu = f.mtu := congrArg Fixed.mtu hk
            refine ⟨segs, hne, rfl, hmtu ▸ hsize, fun seg hseg => ?_⟩
            have hintact := hsent segs hsegs seg hseg
            rw [← hnumbered, ← hp.numbered] at hintact
            exact hintact
        inside := by
          show (e.overrun || result.2.2) = false
          rw [h.inside, hflush.inside]
          rfl }
  rcases hflush.recv with ⟨hsame, hnone⟩ | hclear
  · -- a flush before the first update, or an update that is too early
    have hacks : result.1.acklist = e.kcp.acklist := congrArg RecvPart.acklist hsame
    refine hrest v.told (Nat.le_refl _) h.live.told (hacks ▸ h.live.acks) fun d hd => ?_
    rw [hnone] at hd
    cases hd
  · have hacks : result.1.acklist = [] := congrArg RecvPart.acklist hclear
    refine hrest w.log.length h.live.told (Nat.le_refl _) (fun ack hack => ?_) fun d hd seg hseg => ?_
    · rw [hacks] at hack
      cases hack
    · exact emitted_intact h hp hf hflush.sending ((hflush.sent d hd).2.2 seg hseg)

theorem send_half (h : Half f g e v p w) (hf : Sane f) {message : List UInt8} {e' : End}
    (hs : e.send message = some e') : Half f g e' v p w ∧ e.accepted <+: e'.accepted := by
  have hk := h.fixed
  have hmss : e.kcp.mss = f.mss := congrArg Fixed.mss hk
  have hstream : e.kcp.stream = 0 := (congrArg Fixed.stream hk).trans hf.stream
  unfold End.send at hs
  split at hs
  · simp only [Option.some.injEq] at hs
    subst hs
    rcases send_sending h.live.sending hstream message with ⟨-, hres⟩ | ⟨hshort, hcode, hsend, hfix, hrecv, hqueue⟩
    · rw [hres]
      exact ⟨{ h with }, List.prefix_refl _⟩
    · dsimp only
      rw [if_pos hcode]
      refine ⟨?_, List.prefix_append _ _⟩
      exact
        { h with
          fixed := hfix.trans hk
          live := h.live.sends hsend hfix hrecv
          queued := by
            rw [hqueue, List.map_append, ← List.append_assoc, h.queued, List.flatMap_append, hmss]
            simp [cut]
          short := fun m hm => by
            rcases List.mem_append.mp hm with hm | hm
            · exact h.short m hm
            · obtain rfl := List.mem_singleton.mp hm
              exact hmss ▸ hshort }
  · cases hs

/-- What has arrived is the beginning of what was numbered. -/
theorem Receiving.prefix {log C : List Fragment} {r : Nat} {is : List Nat}
    (h : Receiving (fun i x => log[i]? = some x) C r is kcp) : C ++ kcp.rcvQueue.map Segment.frag <+: log := by
  refine List.prefix_iff_getElem?.mpr fun i hi => ?_
  exact h.good i _ (List.getElem?_eq_getElem hi)

theorem recv_half (h : Half f g e v p w) (hp : Half g f p w e v) (hg : Sane g) (len : Int) :
    ∃ v', Half f g (e.recv len) v' p w ∧ Grows v v' := by
  have hk := h.fixed
  have hsend := recv_frame e.kcp len
  rcases recv_receiving h.live.receiving len with ⟨code, hneg, hres⟩ | ⟨hpeek, hres, r', is', hrec, -, harr, hacks⟩
  · have hsame : e.recv len = e := by
      unfold End.recv
      rw [hres]
      dsimp only
      rw [if_neg (by omega)]
    rw [hsame]
    exact ⟨v, h, .refl v⟩
  · -- the queue goes on where the messages that were read end
    obtain ⟨rest, hrest⟩ := h.delivered
    have hpre : v.taken ++ e.kcp.rcvQueue.map Segment.frag <+: p.accepted.flatMap (cut g.mss.toNat) :=
      h.live.receiving.prefix.trans (hp.queued ▸ List.prefix_append _ _)
    rw [← hrest, List.flatMap_append, ← h.messages, List.prefix_append_right_inj] at hpre
    have hwnd : e.kcp.rcvQueue.length < 2 ^ 32 := Nat.lt_of_le_of_lt h.live.receiving.room e.kcp.rcvWnd.toNat_lt
    have hshort : ∀ m ∈ rest, Short g.mss.toNat m := fun m hm => hp.short m (hrest ▸ List.mem_append_right _ hm)
    obtain ⟨message, rest', hmessage, hfrags, hdata⟩ :=
      first_message hg.mss_pos hshort h.live.receiving.nrcvQue hwnd hpre hpeek
    rw [hfrags] at hrec
    obtain ⟨hfix, hsame⟩ := hsend
    have hsettled := recv_settled h.live.settled len
    generalize (ikcpRecv len e.kcp).2.2 = k at hres hrec hacks hfix hsame hsettled
    have hqueue : k.sndQueue = e.kcp.sndQueue := congrArg SendPart.sndQueue hsame
    have hgrows : Grows v { v with
        taken := if len < 0 then v.taken else v.taken ++ cut g.mss.toNat message, r := r', is := is' } :=
      ⟨List.prefix_refl _, harr, Nat.le_refl _⟩
    refine ⟨_, ?_, hgrows⟩
    have hdel : (e.recv len).delivered = if len < 0 then e.delivered else e.delivered ++ [message] := by
      unfold End.recv
      rw [hres, hdata]
      dsimp only
      by_cases hlen : len < 0
      · rw [if_neg (by omega), if_pos hlen]
      · rw [if_pos ⟨Int.natCast_nonneg _, not_lt.mp hlen⟩, if_neg hlen]
    have hkcp : (e.recv len).kcp = k := by
      unfold End.recv
      rw [hres]
    exact
      { fixed := by rw [hkcp]; exact hfix.trans hk
        live := by
          rw [hkcp]
          refine ⟨h.live.sending.congr hfix hsame, hrec, h.live.told, fun ack hack => ?_, hsettled⟩
          obtain ⟨j, hj, hhas, hlt, htold⟩ := h.live.acks ack (hacks ▸ hack)
          exact ⟨j, hj, harr j hhas, hlt, htold⟩
        numbered := h.numbered
        queued := by rw [hkcp, hqueue]; exact h.queued
        short := h.short
        messages := by
          rw [hdel]
          dsimp only
          split
          · exact h.messages
          · rw [h.messages, List.flatMap_append, List.flatMap_singleton]
        delivered := by
          rw [hdel, ← hrest, hmessage]
          split
          · exact List.prefix_append _ _
          · exact ⟨rest', by simp⟩
        sent := h.sent_mono hgrows
        inside := h.inside }

/-! ## Two new sessions -/

theorem toNat_toUnsigned {x : Int} (h0 : 0 ≤ x) (h : x < 2 ^ 32) : ((toUnsigned x).toNat : Int) = x := by
  unfold toUnsigned
  rw [UInt32.toNat_ofNat', Int.emod_eq_of_lt h0 h]
  omega

theorem rcvWindow_range {rcvwnd : Int} {n : Nat} (h : rcvwnd ≤ n) (hn : 256 ≤ n ∧ n < 2 ^ 32) :
    256 ≤ (rcvWindow rcvwnd IKCP_WND_RCV).toNat ∧ (rcvWindow rcvwnd IKCP_WND_RCV).toNat ≤ n := by
  unfold rcvWindow imax
  split
  · have hnat := toNat_toUnsigned (x := rcvwnd) (by omega) (by omega)
    split
    · rename_i hlarge
      have hle : IKCP_WND_RCV.toNat ≤ (toUnsigned rcvwnd).toNat := UInt32.le_iff_toNat_le.mp hlarge
      have hmin : IKCP_WND_RCV.toNat = 256 := rfl
      omega
    · exact ⟨le_refl _, hn.1⟩
  · exact ⟨le_refl _, hn.1⟩

theorem newBlock_parts (o : Options) (memory : UInt32) :
    (newBlock o memory).rcvWnd = IKCP_WND_RCV ∧ (newBlock o memory).stream = 0 ∧
      (newBlock o memory).sendPart = ⟨0, 0, [], [], 0, 0, IKCP_WND_RCV⟩ ∧
      (newBlock o memory).recvPart = ⟨0, [], [], 0, 0, []⟩ := by
  unfold newBlock
  split <;> exact ⟨rfl, rfl, rfl, rfl⟩

/-- What the constructor leaves. -/
theorem construct_spec {o : Options} {memory : UInt32} (h : construct o memory = some kcp) :
    50 ≤ o.mtu ∧ kcp.fixed.mtu = toUnsigned o.mtu ∧ kcp.fixed.mss = toUnsigned o.mtu - UInt32.ofNat IKCP_OVERHEAD ∧
      kcp.fixed.capacity = (toUnsigned o.mtu + UInt32.ofNat IKCP_OVERHEAD) * 3 ∧
      kcp.fixed.rcvWnd = rcvWindow o.rcvWnd IKCP_WND_RCV ∧ kcp.fixed.stream = 0 ∧
      kcp.sendPart = ⟨0, 0, [], [], 0, 0, IKCP_WND_RCV⟩ ∧ kcp.recvPart = ⟨0, [], [], 0, 0, []⟩ := by
  obtain ⟨hwnd, hstream, hsend, hrecv⟩ := newBlock_parts o memory
  unfold construct at h
  generalize newBlock o memory = k at *
  split at h
  · cases h
  split at h
  · cases h
  rename_i hmtu
  have hlarge : ¬ (o.mtu < 50 ∨ o.mtu < IKCP_OVERHEAD) := by
    intro hbad
    rw [ikcpSetmtu, if_pos hbad] at hmtu
    have hcode : (-1 : Int) ≠ 0 := by decide
    exact hmtu hcode
  simp only [Option.some.injEq] at h
  subst h
  have hnodelay := nodelay_same (ikcpWndsize o.sndWnd o.rcvWnd (ikcpSetmtu o.mtu k).2) o.nodelay o.interval o.resend o.nc
  obtain ⟨hfix, hsend', hrecv'⟩ := wndsize_frame (ikcpSetmtu o.mtu k).2 o.sndWnd o.rcvWnd
  rw [hnodelay.fixed, hnodelay.sendPart, hnodelay.recvPart, hfix, hsend', hrecv', ikcpSetmtu, if_neg hlarge]
  exact ⟨by omega, rfl, rfl, rfl, congrArg (rcvWindow o.rcvWnd) hwnd, hstream, hsend, hrecv⟩

theorem construct_sized {o : Options} {memory : UInt32} (h : construct o memory = some kcp) (hmtu : o.mtu < 2 ^ 30) :
    Sized kcp ∧ (kcp.mtu.toNat : Int) = o.mtu := by
  obtain ⟨hlarge, hm, hs, hc, -⟩ := construct_spec h
  have hnat := toNat_toUnsigned (x := o.mtu) (by omega) (by omega)
  have hoverhead : (UInt32.ofNat IKCP_OVERHEAD).toNat = 28 := rfl
  have hthree : (3 : UInt32).toNat = 3 := rfl
  refine ⟨⟨?_, ?_⟩, ?_⟩
  · show kcp.fixed.mss.toNat + IKCP_OVERHEAD = kcp.fixed.mtu.toNat
    rw [hs, hm, UInt32.toNat_sub, hoverhead]
    unfold IKCP_OVERHEAD
    omega
  · show kcp.fixed.mtu.toNat ≤ kcp.fixed.capacity.toNat
    rw [hm, hc, UInt32.toNat_mul, UInt32.toNat_add, hoverhead, hthree, Nat.mod_eq_of_lt (b := 2 ^ 32) (by omega),
      Nat.mod_eq_of_lt (by omega)]
    omega
  · show (kcp.fixed.mtu.toNat : Int) = o.mtu
    rw [hm]
    exact hnat

theorem construct_sane {o : Options} {memory : UInt32} (h : construct o memory = some kcp) (hmtu : o.mtu < 2 ^ 30)
    (hwnd : o.rcvWnd ≤ 2 ^ 29) : Sane kcp.fixed := by
  obtain ⟨hlarge, -, -, -, hr, hstream, -, -⟩ := construct_spec h
  obtain ⟨hsized, hm⟩ := construct_sized h hmtu
  refine ⟨hsized.mss, ?_, hsized.block, hstream, ?_⟩
  · show 50 ≤ kcp.mtu.toNat ∧ kcp.mtu.toNat < 2 ^ 30
    omega
  · rw [hr]
    exact rcvWindow_range (n := 2 ^ 29) (by exact_mod_cast hwnd) (by decide)

theorem construct_live {o : Options} {memory : UInt32} (h : construct o memory = some kcp) :
    Live ⟨[], [], [], 0, [], 0⟩ ⟨[], [], [], 0, [], 0⟩ kcp := by
  obtain ⟨-, -, -, -, -, -, hsend, hrecv⟩ := construct_spec h
  simp only [Kcpcb.sendPart, SendPart.mk.injEq] at hsend
  simp only [Kcpcb.recvPart, RecvPart.mk.injEq] at hrecv
  obtain ⟨huna, hnxt, hqueue, hbuf, hnq, hnb, hrmt⟩ := hsend
  obtain ⟨hrnxt, hrqueue, hrbuf, hnrq, hnrb, hacks⟩ := hrecv
  refine ⟨⟨hnxt, huna, hbuf ▸ .nil, ?_, ?_, ?_, Nat.zero_le _, ?_, ?_, ?_⟩, ⟨hrnxt, hrbuf ▸ .nil, ?_, ?_, ?_, ?_, ?_, ?_⟩,
    Nat.le_refl _, ?_, ?_⟩
  · rw [hbuf]
    exact fun s hs => absurd hs List.not_mem_nil
  · rw [hqueue]
    exact fun s hs => absurd hs List.not_mem_nil
  · exact fun j hj => absurd hj (Nat.not_lt_zero j)
  · rw [hrmt]
    decide
  · rw [hnb, hbuf]
    rfl
  · rw [hnq, hqueue]
    rfl
  · exact fun i hi => absurd hi List.not_mem_nil
  · rw [hrqueue]
    rfl
  · rw [hrqueue]
    exact fun i x hx => by cases hx
  · rw [hrqueue]
    exact Nat.zero_le _
  · rw [hnrb, hrbuf]
    rfl
  · rw [hnrq, hrqueue]
    rfl
  · rw [hacks]
    exact fun ack hack => absurd hack List.not_mem_nil
  · intro seg hseg
    rw [hrbuf] at hseg
    cases hseg

theorem construct_half {o : Options} {memory : UInt32} (h : construct o memory = some kcp) (p : End) :
    Half kcp.fixed g ⟨kcp, [], [], 0, [], false⟩ ⟨[], [], [], 0, [], 0⟩ p ⟨[], [], [], 0, [], 0⟩ := by
  obtain ⟨-, -, -, -, -, -, hsend, -⟩ := construct_spec h
  have hqueue : kcp.sndQueue = [] := congrArg SendPart.sndQueue hsend
  exact
    { fixed := rfl
      live := construct_live h
      numbered := rfl
      queued := by rw [hqueue]; rfl
      short := fun m hm => absurd hm List.not_mem_nil
      messages := rfl
      delivered := List.nil_prefix
      sent := fun d hd => absurd hd List.not_mem_nil
      inside := rfl }

theorem End.flushed_accepted (other : Nat) (result : Kcpcb × List (List UInt8) × Bool) (e : End) :
    e.accepted <+: (e.flushed other result).accepted := List.prefix_refl _

theorem End.input_eq {data : List UInt8} {code : Int} (h : ikcpInput data e.kcp = (code, k)) :
    e.input data = { e with kcp := k } := by
  unfold End.input
  rw [h]

/-! ## Runs -/

/-- Every end is as its view and the other's have it. -/
def Both (p : Pairing) (s : Ends) : Prop :=
  ∃ v : Bool → View, ∀ b, Half (p.kcp b).fixed (p.kcp !b).fixed (s b) (v b) (s !b) (v !b)

theorem Pairing.sane (p : Pairing) (b : Bool) : Sane (p.kcp b).fixed := construct_sane (p.made b) (p.mtu b) (p.rcvWnd b)

/-- One end has moved. -/
theorem Both.moved {p : Pairing} {s : Ends} {v : Bool → View}
    (h : ∀ b, Half (p.kcp b).fixed (p.kcp !b).fixed (s b) (v b) (s !b) (v !b)) {b : Bool} {e : End} {u : View}
    (he : Half (p.kcp b).fixed (p.kcp !b).fixed e u (s !b) (v !b)) (hu : Grows (v b) u)
    (hacc : (s b).accepted <+: e.accepted) : Both p (Function.update s b e) := by
  refine ⟨Function.update v b u, fun c => ?_⟩
  by_cases hc : c = b
  · subst hc
    have hne : (!c) ≠ c := by cases c <;> decide
    rw [Function.update_self, Function.update_self, Function.update_of_ne hne, Function.update_of_ne hne]
    exact he
  · obtain rfl : b = !c := by cases b <;> cases c <;> simp_all
    rw [Function.update_self, Function.update_self, Function.update_of_ne hc, Function.update_of_ne hc]
    rw [Bool.not_not] at *
    exact (h c).mono hu hacc

theorem step_both {p : Pairing} {s s' : Ends} {a : Label} (h : Both p s) (hfresh : Fresh s a) (hstep : step s a = some s') :
    Both p s' := by
  obtain ⟨v, h⟩ := h
  have hpeer : ∀ b, Half (p.kcp !b).fixed (p.kcp b).fixed (s !b) (v !b) (s b) (v b) := by
    intro b
    have := h !b
    rw [Bool.not_not] at this
    exact this
  cases a with
  | send b message =>
    obtain ⟨e, he, rfl⟩ := Option.map_eq_some_iff.mp hstep
    obtain ⟨hhalf, hacc⟩ := send_half (h b) (p.sane b) he
    exact Both.moved h hhalf (.refl _) hacc
  | recv b len =>
    simp only [step, Option.some.injEq] at hstep
    subst hstep
    obtain ⟨u, hhalf, hu⟩ := recv_half (h b) (hpeer b) (p.sane !b) len
    exact Both.moved h hhalf hu (List.prefix_refl _)
  | update b current =>
    simp only [step, Option.some.injEq] at hstep
    subst hstep
    obtain ⟨moved, js', sent, hflush⟩ := update_spec (h b).live.sending ((p.sane b).sized (h b).fixed) current
    obtain ⟨told, hhalf, hu⟩ := flushed_half (h b) (hpeer b) (p.sane b) hflush
    exact Both.moved h hhalf hu (End.flushed_accepted _ _ _)
  | flush b =>
    simp only [step, Option.some.injEq] at hstep
    subst hstep
    obtain ⟨moved, js', sent, hflush, -⟩ := flush_spec (h b).live.sending ((p.sane b).sized (h b).fixed)
    obtain ⟨told, hhalf, hu⟩ := flushed_half (h b) (hpeer b) (p.sane b) hflush
    exact Both.moved h hhalf hu (End.flushed_accepted _ _ _)
  | deliver b k =>
    obtain ⟨d, hd, rfl⟩ := Option.map_eq_some_iff.mp hstep
    obtain ⟨hown, hother⟩ := hfresh d hd
    obtain ⟨kcp, u, hinput, hhalf, hu⟩ := input_half (h b) (hpeer b) (p.sane b) (p.sane !b) (p.conv b) (p.token b)
      (List.mem_of_getElem? hd) hown hother
    rw [End.input_eq hinput]
    exact Both.moved h hhalf hu (List.prefix_refl _)
  | stray b data =>
    simp only [step, Option.ite_none_right_eq_some, Option.some.injEq] at hstep
    obtain ⟨⟨hforeign, hsize⟩, rfl⟩ := hstep
    obtain ⟨code, -, hinput⟩ := ikcpInput_foreign hforeign hsize
    rw [End.input_eq hinput]
    exact Both.moved h ((h b).quiet ⟨rfl, rfl, rfl⟩) (.refl _) (List.prefix_refl _)

theorem reach_both (p : Pairing) {s : Ends} (h : (net p).Reach Fresh s) : Both p s :=
  h.inv ⟨fun _ => ⟨[], [], [], 0, [], 0⟩, fun b => construct_half (p.made b) _⟩ fun _ _ _ hs hok hstep => step_both hs hok hstep

/-- What is read at one end is a prefix of what was sent at the other. -/
theorem delivered_prefix (p : Pairing) {s : Ends} (h : (net p).Reach Fresh s) (b : Bool) :
    (s !b).delivered <+: (s b).accepted := by
  obtain ⟨v, hv⟩ := reach_both p h
  have hhalf := (hv !b).delivered
  rw [Bool.not_not] at hhalf
  exact hhalf

/-- The block is not overrun, and every datagram fits the MTU and is taken by the other end, at any time. -/
theorem datagrams_taken (p : Pairing) {s : Ends} (h : (net p).Reach Fresh s) (b : Bool) :
    (s b).overrun = false ∧
      ∀ d ∈ (s b).sent, (d.bytes.length : Int) ≤ (p.options b).mtu ∧ (ikcpInput d.bytes (s !b).kcp).1 = 0 := by
  obtain ⟨v, hv⟩ := reach_both p h
  obtain ⟨hlarge, hmtu, -⟩ := construct_spec (p.made b)
  have hsmall := p.mtu b
  have hnat := toNat_toUnsigned (x := (p.options b).mtu) (by omega) (by omega)
  have hother : (s !b).kcp.fixed = (p.kcp !b).fixed := (hv !b).fixed
  refine ⟨(hv b).inside, fun d hd => ?_⟩
  obtain ⟨segs, hne, hbytes, hsize, hall⟩ := (hv b).sent d hd
  rw [hmtu] at hsize
  refine ⟨by omega, ?_⟩
  have haccepted : ∀ seg ∈ segs, Accepted (s !b).kcp seg := fun seg hseg => (hall seg hseg).accepted (p.sane b)
    ((congrArg Fixed.conv hother).trans (p.conv b).symm) ((congrArg Fixed.token hother).trans (p.token b).symm)
  rw [hbytes, ikcpInput_wire hne (by rw [← hbytes]; omega) haccepted]

/-! A run: both datagrams of a message are lost and sent again, and arrive with the other order and an old copy. -/

def smallOptions : Options := { conv := 7, token := 9, mtu := 60 }

def smallBlock : Kcpcb := ikcpNodelay 1 20 2 1 (ikcpWndsize 128 128 (ikcpSetmtu 60 (newBlock smallOptions 0)).2)

theorem smallBlock_made : construct smallOptions 0 = some smallBlock := by decide +kernel

def smallPair : Pairing where
  options _ := smallOptions
  memory _ := 0
  kcp _ := smallBlock
  made _ := smallBlock_made
  conv _ := rfl
  token _ := rfl
  mtu _ := by decide
  rcvWnd _ := by decide

def fortyBytes : List UInt8 := List.replicate 40 5

theorem resent_run : ∃ s, (net smallPair).Reach Fresh s ∧
    decide ((s true).delivered = [fortyBytes] ∧ 4 ≤ (s false).sent.length ∧ ikcpWaitsnd (s false).kcp = 0) = true :=
  Lib.Machine.Reach.of_run (net smallPair) Fresh
    (fun s => decide ((s true).delivered = [fortyBytes] ∧ 4 ≤ (s false).sent.length ∧ ikcpWaitsnd (s false).kcp = 0))
    [.send false fortyBytes, .update false 100, .update true 100, .update false 320, .deliver true 3, .deliver true 2,
      .deliver true 0, .recv true 100, .update true 330, .deliver false 0] (by decide +kernel)

theorem delivered_prefix_resent : ∃ s, (net smallPair).Reach Fresh s ∧ (s true).delivered = [fortyBytes] ∧
    (s true).delivered <+: (s false).accepted := by
  obtain ⟨s, hs, hp⟩ := resent_run
  exact ⟨s, hs, (of_decide_eq_true hp).1, delivered_prefix smallPair hs false⟩

theorem datagrams_taken_resent : ∃ s, (net smallPair).Reach Fresh s ∧ 4 ≤ (s false).sent.length ∧
    (s false).overrun = false ∧
      ∀ d ∈ (s false).sent, (d.bytes.length : Int) ≤ 60 ∧ (ikcpInput d.bytes (s true).kcp).1 = 0 := by
  obtain ⟨s, hs, hp⟩ := resent_run
  exact ⟨s, hs, (of_decide_eq_true hp).2.1, datagrams_taken smallPair hs false⟩

end Dbase.Net.Ikcp
