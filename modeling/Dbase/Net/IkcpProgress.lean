/-
  Dbase.Net.IkcpProgress — two ends never get stuck.

  From any state that is reached the two ends can go on by themselves (`Resumes`): their users read and update them, and the
  network brings datagrams that they send from then on; all that was on its way is lost. Nobody has to send anything more, and
  no datagram has to be forged.

  The receive window must fit a header (`Announced`): one of 65536 is told as 0 when it is empty.

  Proved:
  (1) `carry`: any segment that a due flush owes can be brought to the other end.
  (2) `drained`, `window_opens`, `sending_starts`: the user reads what is whole, a closed window is asked for and opens, and
      the first number is given.
  (3) `advance`: so the segment in front is acknowledged, and less is left.
  (4) `all_delivered`: so all that was accepted at either end can be read at the other.
-/

import Dbase.Net.IkcpDelivery
import Dbase.Net.IkcpExchange

namespace Dbase.Net.Ikcp

open Dbase.Lib Dbase.Lib.Serial
open Dbase.Net.KcpSession (Options)

/-- Reads, updates, and the arrival of a datagram behind the first `n` of its sender. -/
def Resumes (n : Bool → Nat) (s : Ends) : Label → Prop
  | .recv _ _ => True
  | .update _ _ => True
  | .deliver b k => n (!b) ≤ k ∧ Fresh s (.deliver b k)
  | _ => False

variable {p : Pairing} {n : Bool → Nat} {s t u : Ends} {a : Label}

theorem Resumes.fresh (h : Resumes n s a) : Fresh s a := by
  cases a with
  | send b message => cases h
  | recv b len => trivial
  | update b current => trivial
  | flush b => cases h
  | deliver b k => exact h.2
  | stray b data => cases h

/-- `t` comes after `s`. -/
structure Onward (p : Pairing) (n : Bool → Nat) (s t : Ends) : Prop where
  later : (net p).Later (Resumes n) s t
  accepted : ∀ b, (t b).accepted = (s b).accepted
  delivered : ∀ b, (s b).delivered <+: (t b).delivered
  sent : ∀ b, (s b).sent.length ≤ (t b).sent.length

theorem Onward.refl (s : Ends) : Onward p n s s :=
  ⟨.refl, fun _ => rfl, fun _ => List.prefix_refl _, fun _ => Nat.le_refl _⟩

theorem Onward.trans (h : Onward p n s t) (h' : Onward p n t u) : Onward p n s u :=
  ⟨h.later.trans h'.later, fun b => (h'.accepted b).trans (h.accepted b), fun b => (h.delivered b).trans (h'.delivered b),
    fun b => Nat.le_trans (h.sent b) (h'.sent b)⟩

/-- A step of one end. -/
theorem Onward.of_step {b : Bool} {e : End} (hok : Resumes n s a) (hstep : step s a = some (Function.update s b e))
    (hacc : e.accepted = (s b).accepted) (hdel : (s b).delivered <+: e.delivered)
    (hsent : (s b).sent.length ≤ e.sent.length) : Onward p n s (Function.update s b e) := by
  refine ⟨Machine.Later.refl.step hok hstep, fun c => ?_, fun c => ?_, fun c => ?_⟩
  · by_cases hc : c = b
    · subst hc
      rw [Function.update_self]
      exact hacc
    · rw [Function.update_of_ne hc]
  · by_cases hc : c = b
    · subst hc
      rw [Function.update_self]
      exact hdel
    · rw [Function.update_of_ne hc]
  · by_cases hc : c = b
    · subst hc
      rw [Function.update_self]
      exact hsent
    · rw [Function.update_of_ne hc]

/-- A state to go on from; `n` datagrams of each end are lost. -/
structure Going (p : Pairing) (n : Bool → Nat) (s : Ends) : Prop where
  reach : (net p).Reach Fresh s
  sent : ∀ b, n b ≤ (s b).sent.length

theorem Going.onward (h : Going p n s) (ho : Onward p n s t) : Going p n t := by
  refine ⟨?_, fun b => Nat.le_trans (h.sent b) (ho.sent b)⟩
  refine ho.later.inv (I := fun t => (net p).Reach Fresh t) (fun t a t' hr hok hstep => ?_) h.reach
  exact hr.step hok.fresh hstep

theorem Going.both (h : Going p n s) : ∃ v : Bool → View, ∀ b,
    Half (p.kcp b).fixed (p.kcp !b).fixed (s b) (v b) (s !b) (v !b) ∧
      Half (p.kcp !b).fixed (p.kcp b).fixed (s !b) (v !b) (s b) (v b) := by
  obtain ⟨v, hv⟩ := reach_both p h.reach
  refine ⟨v, fun b => ⟨hv b, ?_⟩⟩
  have hpeer := hv !b
  rw [Bool.not_not] at hpeer
  exact hpeer

theorem not_ne (b : Bool) : (!b) ≠ b := by
  cases b <;> decide

/-! ## A segment is brought over -/

/-- An update, whatever it comes to. -/
theorem update_onward (s : Ends) (b : Bool) {now : UInt32} {result : Kcpcb × List (List UInt8) × Bool}
    (hres : ikcpUpdate now (s b).kcp = result) :
    ∃ t, Onward p n s t ∧ t b = (s b).flushed (s !b).numbered result ∧ t (!b) = s (!b) := by
  have hstep : step s (.update b now) = some (Function.update s b ((s b).flushed (s !b).numbered result)) := by
    rw [step, hres]
  have hsent : (s b).sent.length ≤ ((s b).flushed (s !b).numbered result).sent.length :=
    (List.prefix_append _ _).length_le
  exact ⟨_, .of_step (a := .update b now) trivial hstep rfl (List.prefix_refl _) hsent, Function.update_self _ _ _,
    Function.update_of_ne (not_ne b) _ _⟩

theorem updated (s : Ends) (b : Bool) (now : UInt32) :
    ∃ t, Onward p n s t ∧ (t b).kcp = (ikcpUpdate now (s b).kcp).1 := by
  generalize hres : ikcpUpdate now (s b).kcp = result
  obtain ⟨t, ho, hself, -⟩ := update_onward (p := p) (n := n) s b hres
  exact ⟨t, ho, by rw [hself]; rfl⟩

/-- The other end takes what a flush sends. -/
theorem sent_taken (p : Pairing) (b : Bool) {A : Nat → Prop} {log : List Fragment} {js js' : List Nat} {kcp k : Kcpcb}
    {result : Kcpcb × List (List UInt8) × Bool} {moved : List Segment} {sent : List (List Segment)}
    (hkcp : kcp.fixed = (p.kcp b).fixed) (hk : k.fixed = (p.kcp !b).fixed)
    (hflush : Flushes A log js kcp result moved js' sent) {d : List Segment} (hd : d ∈ sent) :
    ikcpInput (wire d) k = (0, takes d k) := by
  obtain ⟨hne, hlen, hkinds⟩ := hflush.sent d hd
  have hconv : kcp.conv = k.conv := (congrArg Fixed.conv hkcp).trans ((p.conv b).trans (congrArg Fixed.conv hk).symm)
  have htoken : kcp.token = k.token := (congrArg Fixed.token hkcp).trans ((p.token b).trans (congrArg Fixed.token hk).symm)
  have hmss : kcp.mss = (p.kcp b).fixed.mss := congrArg Fixed.mss hkcp
  have hmtu : kcp.mtu = (p.kcp b).fixed.mtu := congrArg Fixed.mtu hkcp
  have hbound := (p.sane b).mtu
  have hsize := (p.sane b).mss
  have haccepted : ∀ x ∈ d, Accepted k x := by
    intro x hx
    have hkind := hkinds x hx
    have hsmall := hkind.size
    rw [hmss] at hsmall
    refine ⟨hkind.conv.trans hconv, hkind.token.trans htoken, ?_, by omega⟩
    rcases hkind.kind with ⟨hc, -⟩ | hc | ⟨hc, -⟩
    · exact .inr (.inl hc)
    · exact .inr (.inr hc)
    · exact .inl hc
  rw [hmtu] at hlen
  exact ikcpInput_wire hne (by omega) haccepted

/-- Any segment of a flush that is due can be brought to the other end, with those of its datagram. -/
theorem carry (h : Going p n s) (b : Bool) {now : UInt32} (hdue : flushDue (resync (startClock now (s b).kcp)) = true)
    {seg : Segment} (hseg : seg ∈ emitted (ticked now (s b).kcp)) :
    ∃ d t, seg ∈ d ∧ (∀ x ∈ d, x ∈ emitted (ticked now (s b).kcp)) ∧ Onward p n s t ∧
      (t b).kcp = (ikcpUpdate now (s b).kcp).1 ∧ (t !b).kcp = takes d (s !b).kcp := by
  obtain ⟨v, hv⟩ := h.both
  obtain ⟨hhalf, hpeer⟩ := hv b
  have hsame := ticked_same now (s b).kcp
  obtain ⟨moved, js', sent, hflush, hall⟩ := flush_spec (hhalf.live.sending.congr hsame.fixed hsame.sendPart)
    (((p.sane b).sized hhalf.fixed).congr hsame.fixed)
  have hall := hall (ticked_started now (s b).kcp).updated
  obtain ⟨d, hd, hin⟩ := List.mem_flatten.mp (hall.symm ▸ hseg)
  have hemitted : ∀ x ∈ d, x ∈ emitted (ticked now (s b).kcp) := fun x hx => hall ▸ List.mem_flatten_of_mem hd hx
  have hinput : ikcpInput (wire d) (s !b).kcp = (0, takes d (s !b).kcp) :=
    sent_taken p b (hsame.fixed.trans hhalf.fixed) hpeer.fixed hflush hd
  -- the update, and the arrival of the datagram
  have hdatagrams : (ikcpUpdate now (s b).kcp).2.1 = sent.map wire := by
    rw [update_due hdue]
    exact hflush.datagrams
  generalize hres : ikcpUpdate now (s b).kcp = result at hdatagrams ⊢
  obtain ⟨t, hupdate, hself, hother⟩ := update_onward (p := p) (n := n) s b hres
  obtain ⟨i, hi, hget⟩ := List.mem_iff_getElem.mp hd
  have hpacket : ((s b).flushed (s !b).numbered result).sent[(s b).sent.length + i]? =
      some ⟨wire d, ((s b).flushed (s !b).numbered result).numbered, (s !b).numbered⟩ := by
    show ((s b).sent ++ result.2.1.map _)[(s b).sent.length + i]? = _
    rw [List.getElem?_append_right (Nat.le_add_right _ _), Nat.add_sub_cancel_left, hdatagrams, List.getElem?_map,
      List.getElem?_map, List.getElem?_eq_getElem hi, hget]
    rfl
  have harrive : step t (.deliver (!b) ((s b).sent.length + i)) =
      some (Function.update t (!b) { t (!b) with kcp := takes d (s !b).kcp }) := by
    have hinput' : (t !b).input (wire d) = { t (!b) with kcp := takes d (s !b).kcp } := by
      rw [hother]
      exact End.input_eq hinput
    rw [step, Bool.not_not, hself, hpacket, ← hinput']
    rfl
  have hfresh : Resumes n t (.deliver (!b) ((s b).sent.length + i)) := by
    refine ⟨?_, fun q hq => ?_⟩
    · rw [Bool.not_not]
      exact Nat.le_trans (h.sent b) (Nat.le_add_right _ _)
    · rw [Bool.not_not] at hq ⊢
      rw [hself, hpacket] at hq
      obtain rfl := Option.some.inj hq
      rw [hself, hother]
      exact ⟨Nat.le_add_right _ _, Nat.le_add_right _ _⟩
  refine ⟨d, _, hin, hemitted, hupdate.trans (.of_step hfresh harrive rfl (List.prefix_refl _) (Nat.le_refl _)), ?_, ?_⟩
  · rw [Function.update_of_ne (not_ne b).symm, hself]
    rfl
  · rw [Function.update_self]

/-! ## The user reads -/

theorem recv_mustTell {kcp : Kcpcb} (h : MustTell kcp) (len : Int) : MustTell (ikcpRecv len kcp).2.2 := by
  have hmerge : ∀ ispeek, (mergeFragment ispeek kcp).2.probe = kcp.probe := by
    intro ispeek
    cases ispeek <;> rfl
  have hmoved : ∀ n ispeek, MustTell (moveAvailable n (mergeFragment ispeek kcp).2) := by
    intro n ispeek
    unfold MustTell
    rw [(moveAvailable_owes n (mergeFragment ispeek kcp).2).2, hmerge]
    exact h
  unfold ikcpRecv
  split
  · exact h
  split
  · exact h
  split
  · exact h
  dsimp only
  split
  · exact fun hzero => absurd ((flag_or _ _ _).mp hzero).2 (by decide)
  · exact hmoved _ _

/-- Where no message in front is whole, only few fragments wait. -/
theorem peek_short {f g : Fixed} {e q : End} {v w : View} (h : Half f g e v q w) (hq : Half g f q w e v) (hg : Sane g)
    (hpeek : ikcpPeeksize e.kcp < 0) : e.kcp.rcvQueue.length < 256 := by
  obtain ⟨rest, hrest⟩ := h.delivered
  have hpre : v.taken ++ e.kcp.rcvQueue.map Segment.frag <+: q.accepted.flatMap (cut g.mss.toNat) :=
    h.live.receiving.prefix.trans (hq.queued ▸ List.prefix_append _ _)
  rw [← hrest, List.flatMap_append, ← h.messages, List.prefix_append_right_inj] at hpre
  cases rest with
  | nil =>
    rw [List.flatMap_nil, List.prefix_nil, List.map_eq_nil_iff] at hpre
    rw [hpre]
    decide
  | cons message rest =>
    have hshort : Short g.mss.toNat message := hq.short message (by rw [← hrest]; simp)
    have hcut : (cut g.mss.toNat message).length < 256 := by
      rw [length_cut]
      exact hshort
    have hlen : e.kcp.rcvQueue.length < 2 ^ 32 := Nat.lt_of_le_of_lt h.live.receiving.room e.kcp.rcvWnd.toNat_lt
    by_contra hmany
    rw [List.flatMap_cons] at hpre
    obtain ⟨more, hmore⟩ : cut g.mss.toNat message <+: e.kcp.rcvQueue.map Segment.frag :=
      List.prefix_of_prefix_length_le (List.prefix_append _ _) hpre (by rw [List.length_map]; omega)
    have hwhole := peeksize_message hg.mss_pos hshort h.live.receiving.nrcvQue hlen hmore.symm
    omega

/-- The message in front is read. -/
theorem read_one (h : Going p n s) (b : Bool) (hpeek : ¬ ikcpPeeksize (s b).kcp < 0) : ∃ t, Onward p n s t ∧
    t (!b) = s (!b) ∧ (t b).delivered.length = (s b).delivered.length + 1 ∧
    (s b).delivered.length + 1 ≤ (s !b).accepted.length ∧ (MustTell (s b).kcp → MustTell (t b).kcp) := by
  have hdel := recv_delivered (e := s b) (not_lt.mp hpeek)
  have htell : MustTell (s b).kcp → MustTell ((s b).recv (ikcpPeeksize (s b).kcp)).kcp :=
    fun hk => recv_mustTell hk (ikcpPeeksize (s b).kcp)
  have ho : Onward p n s (Function.update s b ((s b).recv (ikcpPeeksize (s b).kcp))) :=
    .of_step (a := .recv b (ikcpPeeksize (s b).kcp)) trivial rfl rfl (hdel ▸ List.prefix_append _ _) (Nat.le_refl _)
  have hother : Function.update s b ((s b).recv (ikcpPeeksize (s b).kcp)) (!b) = s (!b) :=
    Function.update_of_ne (not_ne b) _ _
  have hself : Function.update s b ((s b).recv (ikcpPeeksize (s b).kcp)) b = (s b).recv (ikcpPeeksize (s b).kcp) :=
    Function.update_self _ _ _
  generalize Function.update s b ((s b).recv (ikcpPeeksize (s b).kcp)) = t at ho hother hself
  have hlen : (t b).delivered.length = (s b).delivered.length + 1 := by
    rw [hself, hdel, List.length_append, List.length_singleton]
  have hprefix := delivered_prefix p (h.onward ho).reach (!b)
  have hle := hprefix.length_le
  rw [Bool.not_not, hlen, hother] at hle
  exact ⟨t, ho, hother, hlen, hle, fun hk => hself ▸ htell hk⟩

/-- The user reads until no message is whole. -/
theorem drained (h : Going p n s) (b : Bool) : ∃ t, Onward p n s t ∧ t (!b) = s (!b) ∧ ikcpPeeksize (t b).kcp < 0 ∧
    (MustTell (s b).kcp → MustTell (t b).kcp) := by
  induction hm : (s !b).accepted.length - (s b).delivered.length generalizing s with
  | zero =>
    refine ⟨s, .refl s, rfl, ?_, id⟩
    by_contra hpeek
    obtain ⟨t, -, -, -, hle, -⟩ := read_one h b hpeek
    omega
  | succ m ih =>
    by_cases hpeek : ikcpPeeksize (s b).kcp < 0
    · exact ⟨s, .refl s, rfl, hpeek, id⟩
    obtain ⟨t, ho, hother, hlen, hle, htell⟩ := read_one h b hpeek
    obtain ⟨t', ho', hother', hpeek', htell'⟩ := ih (h.onward ho) (by rw [hother, hlen]; omega)
    exact ⟨t', ho.trans ho', hother'.trans hother, hpeek', fun hk => htell' (htell hk)⟩

/-! ## The window opens -/

/-- The send window is not empty, and the receive window fits a header. -/
structure Announced (p : Pairing) : Prop where
  sndWnd : ∀ b, (p.kcp b).sndWnd ≠ 0
  rcvWnd : ∀ b, (p.kcp b).rcvWnd.toNat ≤ maxWnd

/-- What is still to be acknowledged. -/
def pending (kcp : Kcpcb) : Nat := kcp.sndBuf.length + kcp.sndQueue.length

theorem takes_pending (segs : List Segment) (kcp : Kcpcb) : pending (takes segs kcp) ≤ pending kcp := by
  have hlen := takes_length segs kcp
  unfold pending
  rw [takes_sndQueue]
  omega

/-- Where the user has read, there is room, and the header tells it. -/
theorem room_told (hp : Announced p) (h : Going p n s) (b : Bool) (hpeek : ikcpPeeksize (s b).kcp < 0) :
    (s b).kcp.nrcvQue < (s b).kcp.rcvWnd ∧ (ikcpWndUnused (s b).kcp).toUInt16.toUInt32 ≠ 0 := by
  obtain ⟨v, hv⟩ := h.both
  obtain ⟨hhalf, hpeer⟩ := hv b
  have hshort := peek_short hhalf hpeer (p.sane !b) hpeek
  have hwnd : (s b).kcp.rcvWnd = (p.kcp b).fixed.rcvWnd := congrArg Fixed.rcvWnd hhalf.fixed
  have hlow := (p.sane b).rcvWnd.1
  have hhigh : (p.kcp b).fixed.rcvWnd.toNat ≤ maxWnd := hp.rcvWnd b
  unfold maxWnd at hhigh
  have hque : (s b).kcp.nrcvQue.toNat = (s b).kcp.rcvQueue.length := by
    rw [hhalf.live.receiving.nrcvQue, UInt32.toNat_ofNat', Nat.mod_eq_of_lt (by omega)]
  have hlt : (s b).kcp.nrcvQue < (s b).kcp.rcvWnd := UInt32.lt_iff_toNat_lt.mpr (by rw [hwnd, hque]; omega)
  refine ⟨hlt, fun hzero => ?_⟩
  have htold := congrArg UInt32.toNat hzero
  rw [ikcpWndUnused, if_pos hlt, UInt16.toNat_toUInt32, UInt32.toNat_toUInt16,
    UInt32.toNat_sub_of_le _ _ (UInt32.le_of_lt hlt), hque, hwnd, Nat.mod_eq_of_lt (by omega)] at htold
  have hnone : (0 : UInt32).toNat = 0 := rfl
  omega

theorem refreshed (s : Ends) (b : Bool) : ∃ t, Onward p n s t ∧ Refreshed (s b).kcp (t b).kcp := by
  obtain ⟨now, -, hdue⟩ := exists_due (s b).kcp 0
  obtain ⟨hr, -⟩ := update_refreshed hdue
  obtain ⟨t, ho, hmoved⟩ := updated (p := p) (n := n) s b now
  exact ⟨t, ho, by rw [hmoved]; exact hr⟩

/-- The timer for probes is set, when the window is closed. -/
theorem probe_armed (s : Ends) (b : Bool) (hzero : (s b).kcp.rmtWnd = 0) : ∃ t, Onward p n s t ∧
    pending (t b).kcp ≤ pending (s b).kcp ∧ (t b).kcp.rmtWnd = 0 ∧ (t b).kcp.probeWait ≠ 0 := by
  by_cases hwait : (s b).kcp.probeWait = 0
  · obtain ⟨t, ho, hr⟩ := refreshed (p := p) (n := n) s b
    exact ⟨t, ho, Nat.le_of_eq hr.total, hr.rmtWnd.trans hzero, hr.waits hzero hwait⟩
  · exact ⟨s, .refl s, Nat.le_refl _, hzero, hwait⟩

/-- When its time has come, the other end is asked. -/
theorem window_asked (h : Going p n s) (b : Bool) (hzero : (s b).kcp.rmtWnd = 0) (hwait : (s b).kcp.probeWait ≠ 0) :
    ∃ t, Onward p n s t ∧ pending (t b).kcp ≤ pending (s b).kcp ∧ MustTell (t !b).kcp := by
  obtain ⟨now, htime, hdue⟩ := exists_due (s b).kcp (s b).kcp.tsProbe
  have hstart := ticked_started now (s b).kcp
  have hsame := ticked_same now (s b).kcp
  obtain ⟨ask, hask, hcask⟩ := emitted_wask (probing_asks ((congrArg SendPart.rmtWnd hsame.sendPart).trans hzero)
    (by rw [hstart.probeWait]; exact hwait) (by rw [hstart.current, hstart.tsProbe]; exact htime))
  obtain ⟨d, t, hin, -, ho, hkcp, hpeer⟩ := carry h b hdue hask
  have htotal := (update_refreshed hdue).1.total
  refine ⟨t, ho, ?_, ?_⟩
  · rw [hkcp]
    exact Nat.le_of_eq htotal
  · rw [hpeer]
    exact takes_asked (.inr ⟨ask, hin, hcask⟩)

/-- The user reads there, and the answer comes back. -/
theorem window_told (hp : Announced p) (h : Going p n s) (b : Bool) (htell : MustTell (s !b).kcp) :
    ∃ t, Onward p n s t ∧ pending (t b).kcp ≤ pending (s b).kcp ∧ (t b).kcp.rmtWnd ≠ 0 := by
  obtain ⟨t, ho, hkeep, hpeek, htold⟩ := drained h (!b)
  rw [Bool.not_not] at hkeep
  have ht := h.onward ho
  obtain ⟨now, -, hdue⟩ := exists_due (t !b).kcp 0
  have hstill : MustTell (ticked now (t !b).kcp) := by
    unfold MustTell
    rw [(ticked_started now (t !b).kcp).probe]
    exact htold htell
  obtain ⟨wins, hwins, -⟩ := emitted_wins hstill
  obtain ⟨d, u, hin, hall, ho', -, hpeer⟩ := carry ht (!b) hdue hwins
  rw [Bool.not_not, hkeep] at hpeer
  have hsame := ticked_same now (t !b).kcp
  have hunused : ikcpWndUnused (ticked now (t !b).kcp) = ikcpWndUnused (t !b).kcp := by
    unfold ikcpWndUnused
    rw [hsame.rcvWnd, show (ticked now (t !b).kcp).nrcvQue = (t !b).kcp.nrcvQue from
      congrArg RecvPart.nrcvQue hsame.recvPart]
  refine ⟨u, ho.trans ho', ?_, ?_⟩
  · rw [hpeer]
    exact takes_pending d (s b).kcp
  · rw [hpeer, takes_rmtWnd (List.ne_nil_of_mem hin) fun x hx => emitted_wnd x (hall x hx), hunused]
    exact (room_told hp ht (!b) hpeek).2

/-- A window that is closed is asked for, and opens. -/
theorem window_opens (hp : Announced p) (h : Going p n s) (b : Bool) :
    ∃ t, Onward p n s t ∧ pending (t b).kcp ≤ pending (s b).kcp ∧ (t b).kcp.rmtWnd ≠ 0 := by
  by_cases hopen : (s b).kcp.rmtWnd ≠ 0
  · exact ⟨s, .refl s, Nat.le_refl _, hopen⟩
  obtain ⟨t₁, ho₁, hle₁, hzero, hwait⟩ := probe_armed (p := p) (n := n) s b (not_not.mp hopen)
  have h₁ := h.onward ho₁
  obtain ⟨t₂, ho₂, hle₂, htell⟩ := window_asked h₁ b hzero hwait
  obtain ⟨t₃, ho₃, hle₃, hopens⟩ := window_told hp (h₁.onward ho₂) b htell
  exact ⟨t₃, ho₁.trans (ho₂.trans ho₃), Nat.le_trans hle₃ (Nat.le_trans hle₂ hle₁), hopens⟩

/-- With both windows open and nothing on its way, an update gives a number. -/
theorem first_number (hp : Announced p) (h : Going p n s) (b : Bool) (hrmt : (s b).kcp.rmtWnd ≠ 0)
    (hcwnd : (s b).kcp.cwnd ≠ 0) (hnone : (s b).kcp.sndBuf = []) (hqueue : (s b).kcp.sndQueue ≠ []) :
    ∃ t, Onward p n s t ∧ pending (t b).kcp ≤ pending (s b).kcp ∧ (t b).kcp.sndBuf ≠ [] := by
  obtain ⟨v, hv⟩ := h.both
  obtain ⟨hhalf, -⟩ := hv b
  have hsend := hhalf.live.sending
  have hjs : (v b).js = [] := by
    have hlen := hsend.cells.length_eq
    rw [hnone] at hlen
    exact List.eq_nil_of_length_eq_zero hlen.symm
  rw [hjs] at hsend
  obtain ⟨now, -, hdue⟩ := exists_due (s b).kcp 0
  have hstart := ticked_started now (s b).kcp
  have hsame := ticked_same now (s b).kcp
  have hrmt' : (ticked now (s b).kcp).rmtWnd = (s b).kcp.rmtWnd := congrArg SendPart.rmtWnd hsame.sendPart
  have hsnd : (ticked now (s b).kcp).sndWnd = (p.kcp b).sndWnd := congrArg Fixed.sndWnd (hsame.fixed.trans hhalf.fixed)
  have hopens := numbering_opens (hsend.congr hsame.fixed hsame.sendPart) (by rw [hsame.sndQueue]; exact hqueue)
    (by rw [hrmt']; exact hrmt) (by rw [hsnd]; exact hp.sndWnd b) (by rw [hstart.cwnd]; exact hcwnd)
  obtain ⟨hr, hlen⟩ := update_refreshed hdue
  have htotal := hr.total
  obtain ⟨t, ho, hmoved⟩ := updated (p := p) (n := n) s b now
  rw [← hmoved] at hlen htotal
  refine ⟨t, ho, Nat.le_of_eq htotal, fun hempty => hopens ?_⟩
  rw [hempty, List.length_nil] at hlen
  exact List.eq_nil_of_length_eq_zero hlen.symm

/-- Something is in `snd_buf`, or nothing is left. -/
theorem sending_starts (hp : Announced p) (h : Going p n s) (b : Bool) : ∃ t, Onward p n s t ∧
    pending (t b).kcp ≤ pending (s b).kcp ∧ (pending (t b).kcp = 0 ∨ (t b).kcp.sndBuf ≠ []) := by
  obtain ⟨t₁, ho₁, hle₁, hopen⟩ := window_opens hp h b
  -- behind the first update the congestion window is open
  obtain ⟨t₂, ho₂, hr⟩ := refreshed (p := p) (n := n) t₁ b
  have ho := ho₁.trans ho₂
  have hle₂ : pending (t₂ b).kcp ≤ pending (t₁ b).kcp := Nat.le_of_eq hr.total
  have hle := Nat.le_trans hle₂ hle₁
  by_cases hbuf : (t₂ b).kcp.sndBuf = []
  · by_cases hqueue : (t₂ b).kcp.sndQueue = []
    · exact ⟨t₂, ho, hle, .inl (by rw [pending, hbuf, hqueue]; rfl)⟩
    · obtain ⟨t₃, ho₃, hle₃, hbuf₃⟩ := first_number hp (h.onward ho) b (hr.rmtWnd.symm ▸ hopen) hr.cwnd hbuf hqueue
      exact ⟨t₃, ho.trans ho₃, Nat.le_trans hle₃ hle, .inr hbuf₃⟩
  · exact ⟨t₂, ho, hle, .inr hbuf⟩

/-! ## The segment in front is acknowledged -/

/-- The first open number stands in front. -/
theorem sending_front {A : Nat → Prop} {log : List Fragment} {js : List Nat} {kcp : Kcpcb} (h : Sending A log js kcp)
    (hne : kcp.sndBuf ≠ []) : ∃ x rest, kcp.sndBuf = x :: rest ∧ x.sn = UInt32.ofNat (firstOpen js log) := by
  obtain ⟨x, rest, hbuf⟩ := List.exists_cons_of_ne_nil hne
  have hcells := h.cells.cells
  rw [hbuf] at hcells
  obtain ⟨j, js', hj, -, rfl⟩ := List.forall₂_cons_left_iff.mp hcells
  exact ⟨x, rest, hbuf, hj.1⟩

theorem front_of {A : Nat → Prop} {log : List Fragment} {js : List Nat} {kcp : Kcpcb} (h : Sending A log js kcp)
    (hne : kcp.sndBuf ≠ []) : Front kcp (UInt32.ofNat (firstOpen js log)) := by
  refine ⟨sending_front h hne, ?_⟩
  have hlt : firstOpen js log < log.length := by
    have hlen := h.cells.length_eq
    cases js with
    | nil => exact absurd (List.eq_nil_of_length_eq_zero hlen) hne
    | cons j js => exact h.lt_length List.mem_cons_self
  have hwin := h.window
  unfold maxWnd at hwin
  rw [h.nxt, itimediff, diff_ofNat (by omega) (by omega)]
  omega

/-- Where there is room, the first open number is inside the window, and stays so while `rcv_nxt` goes on. -/
theorem first_inside (hp : Announced p) (h : Going p n s) (b : Bool) (hpeek : ikcpPeeksize (s !b).kcp < 0)
    {sn : UInt32} (hfront : Front (s b).kcp sn) : ∀ m ≤ (s !b).kcp.rcvWnd.toNat,
      itimediff sn ((s !b).kcp.rcvNxt + UInt32.ofNat m + (s !b).kcp.rcvWnd) < 0 := by
  obtain ⟨v, hv⟩ := h.both
  obtain ⟨hhalf, hpeer⟩ := hv b
  obtain ⟨hlt, -⟩ := room_told hp h (!b) hpeek
  obtain ⟨x, rest, hbuf, hx⟩ := hfront.front
  obtain ⟨x', rest', hbuf', hx'⟩ := sending_front hhalf.live.sending (by rw [hbuf]; exact List.cons_ne_nil _ _)
  obtain ⟨rfl, rfl⟩ := List.cons.inj (hbuf.symm.trans hbuf')
  have hfirst : firstOpen (v b).js (v b).log ≤ (v !b).r := by
    by_contra hgt
    exact hpeer.live.nxt_missing (UInt32.not_le.mpr hlt) (hhalf.live.sending.acked_below (not_le.mp hgt)).1
  have hle := hpeer.live.nxt_le
  have hwin := hhalf.live.sending.window
  have hwnd : (s !b).kcp.rcvWnd = (p.kcp !b).fixed.rcvWnd := congrArg Fixed.rcvWnd hpeer.fixed
  have hlow := (p.sane !b).rcvWnd.1
  have hhigh : (p.kcp !b).fixed.rcvWnd.toNat ≤ maxWnd := hp.rcvWnd (!b)
  rw [← hwnd] at hlow hhigh
  unfold maxWnd at hwin hhigh
  intro m hm
  rw [← hx, hx', hpeer.live.receiving.nxt, ← UInt32.ofNat_add, ofNat_add_toNat, itimediff,
    diff_ofNat (by omega) (by omega)]
  omega

/-- The segment in front is sent again, acknowledged and taken out. -/
theorem advance (hp : Announced p) (h : Going p n s) (b : Bool) (hbuf : (s b).kcp.sndBuf ≠ []) :
    ∃ t, Onward p n s t ∧ pending (t b).kcp < pending (s b).kcp := by
  -- there is room at the other end
  obtain ⟨t₁, ho₁, hkeep₁, hpeek₁, -⟩ := drained h (!b)
  rw [Bool.not_not] at hkeep₁
  have h₁ := h.onward ho₁
  rw [← hkeep₁] at hbuf ⊢
  obtain ⟨v, hv⟩ := h₁.both
  obtain ⟨hhalf, -⟩ := hv b
  have hfront := front_of hhalf.live.sending hbuf
  obtain ⟨x, rest, hcons, hsn⟩ := hfront.front
  -- the segment goes over
  obtain ⟨now, htime, hdue⟩ := exists_due (t₁ b).kcp x.resendts
  have hsame := ticked_same now (t₁ b).kcp
  have hticked : (ticked now (t₁ b).kcp).sndBuf = x :: rest := (congrArg SendPart.sndBuf hsame.sendPart).trans hcons
  obtain ⟨seg, hseg, hc, hseq⟩ := emitted_head hticked (by rw [(ticked_started now (t₁ b).kcp).current]; exact htime)
  have hpush : seg.cmd = IKCP_CMD_PUSH := hc.trans (hhalf.live.sending.own x (hcons ▸ List.mem_cons_self)).cmd
  obtain ⟨d, t₂, hin, -, ho₂, hkcp₂, hpeer₂⟩ := carry h₁ b hdue hseg
  have h₂ := h₁.onward ho₂
  have hacks : (seg.sn, seg.ts) ∈ (t₂ !b).kcp.acklist := by
    rw [hpeer₂]
    refine takes_acknowledges hin hpush (UInt32.le_of_lt (room_told hp h₁ (!b) hpeek₁).1) ?_
    rw [hseq, hsn]
    exact first_inside hp h₁ b hpeek₁ hfront
  -- it is still in front, behind the update
  obtain ⟨hr, -⟩ := update_refreshed hdue
  obtain ⟨moved, js', sent, hflush⟩ := update_spec hhalf.live.sending ((p.sane b).sized hhalf.fixed) now
  have hfront₂ : Front (t₂ b).kcp (UInt32.ofNat (firstOpen (v b).js (v b).log)) := by
    rw [hkcp₂, ← hflush.first]
    refine front_of hflush.sending fun hempty => ?_
    have hlen := hr.sndBuf
    rw [hempty, hcons] at hlen
    exact absurd hlen (Nat.not_succ_le_zero _)
  -- the acknowledgement comes back
  obtain ⟨now', -, hdue'⟩ := exists_due (t₂ !b).kcp 0
  have hlist : (ticked now' (t₂ !b).kcp).acklist = (t₂ !b).kcp.acklist := (ticked_same now' (t₂ !b).kcp).acklist
  obtain ⟨ack, hack, hcack, hsnack⟩ := emitted_ack (hlist.symm ▸ hacks)
  obtain ⟨d', t₃, hin', -, ho₃, -, hpeer₃⟩ := carry h₂ (!b) hdue' hack
  rw [Bool.not_not] at hpeer₃
  refine ⟨t₃, ho₁.trans (ho₂.trans ho₃), ?_⟩
  have hless := takes_acked hfront₂ ⟨ack, hin', hcack, hsnack.trans (hseq.trans hsn)⟩
  have htotal := hr.total
  rw [hkcp₂] at hless hpeer₃
  rw [hpeer₃]
  unfold pending
  rw [takes_sndQueue]
  omega

/-- `pending` goes down to 0. -/
theorem all_acknowledged (hp : Announced p) (h : Going p n s) (b : Bool) :
    ∃ t, Onward p n s t ∧ pending (t b).kcp = 0 := by
  induction hm : pending (s b).kcp using Nat.strong_induction_on generalizing s with
  | _ m ih =>
    by_cases hzero : pending (s b).kcp = 0
    · exact ⟨s, .refl s, hzero⟩
    obtain ⟨t, ho, hless⟩ : ∃ t, Onward p n s t ∧ pending (t b).kcp < pending (s b).kcp := by
      obtain ⟨t, ho, hle, hnone | hbuf⟩ := sending_starts hp h b
      · exact ⟨t, ho, by omega⟩
      · obtain ⟨t', ho', hless⟩ := advance hp (h.onward ho) b hbuf
        exact ⟨t', ho.trans ho', Nat.lt_of_lt_of_le hless hle⟩
    obtain ⟨t', ho', hnone⟩ := ih _ (hm ▸ hless) (h.onward ho) rfl
    exact ⟨t', ho.trans ho', hnone⟩

/-! ## All is delivered -/

/-- Where nothing is pending and the user has read all that is whole, he has read everything. -/
theorem all_read (h : Going p n s) (b : Bool) (hnone : pending (s b).kcp = 0) (hpeek : ikcpPeeksize (s !b).kcp < 0) :
    (s !b).delivered = (s b).accepted := by
  obtain ⟨v, hv⟩ := h.both
  obtain ⟨hhalf, hpeer⟩ := hv b
  obtain ⟨hbuf, hqueue⟩ := Nat.add_eq_zero_iff.mp hnone
  have hempty : (s b).kcp.sndQueue = [] := List.eq_nil_of_length_eq_zero hqueue
  have hjs : (v b).js = [] := List.eq_nil_of_length_eq_zero (hhalf.live.sending.cells.length_eq.symm.trans hbuf)
  obtain ⟨rest, hrest⟩ := hpeer.delivered
  cases rest with
  | nil => rw [← hrest, List.append_nil]
  | cons message rest =>
    have hshort : Short (p.kcp b).fixed.mss.toNat message := hhalf.short message (by rw [← hrest]; simp)
    have hlog : (v b).log =
        (v !b).taken ++ (cut (p.kcp b).fixed.mss.toNat message ++ rest.flatMap (cut (p.kcp b).fixed.mss.toNat)) := by
      rw [hpeer.messages, ← List.flatMap_cons, ← List.flatMap_append, hrest, ← hhalf.queued, hempty, List.map_nil,
        List.append_nil]
    have hwnd : (s !b).kcp.rcvWnd = (p.kcp !b).fixed.rcvWnd := congrArg Fixed.rcvWnd hpeer.fixed
    have hlen : (s !b).kcp.rcvQueue.length < 2 ^ 32 :=
      Nat.lt_of_le_of_lt hpeer.live.receiving.room (s !b).kcp.rcvWnd.toNat_lt
    obtain ⟨more, hmore⟩ := whole_in_front hpeer.live (hwnd ▸ (p.sane !b).rcvWnd.1)
      (fun j hj => (hhalf.live.sending.acked j hj (by rw [hjs]; exact List.not_mem_nil)).1) hshort hlog
    have hwhole := peeksize_message (p.sane b).mss_pos hshort hpeer.live.receiving.nrcvQue hlen hmore
    omega

theorem one_way (hp : Announced p) (h : Going p n s) (b : Bool) :
    ∃ t, Onward p n s t ∧ (t !b).delivered = (t b).accepted := by
  obtain ⟨t₁, ho₁, hnone⟩ := all_acknowledged hp h b
  obtain ⟨t₂, ho₂, hkeep, hpeek, -⟩ := drained (h.onward ho₁) (!b)
  rw [Bool.not_not] at hkeep
  have ho := ho₁.trans ho₂
  exact ⟨t₂, ho, all_read (h.onward ho) b (by rw [hkeep]; exact hnone) hpeek⟩

/-- What is delivered stays delivered. -/
theorem Onward.keeps (ho : Onward p n s t) (h : Going p n t) {b : Bool} (hall : (s !b).delivered = (s b).accepted) :
    (t !b).delivered = (t b).accepted := by
  have hmore := ho.delivered !b
  rw [hall, ← ho.accepted b] at hmore
  have hprefix := delivered_prefix p h.reach b
  exact hprefix.eq_of_length_le hmore.length_le

theorem construct_sndWnd {o : Options} {memory : UInt32} {kcp : Kcpcb} (h : construct o memory = some kcp) :
    kcp.fixed.sndWnd = sndWindow o.sndWnd IKCP_WND_SND := by
  have hnew : (newBlock o memory).sndWnd = IKCP_WND_SND := by
    unfold newBlock
    split <;> rfl
  have hmtu : ∀ k, (ikcpSetmtu o.mtu k).2.sndWnd = k.sndWnd := by
    intro k
    unfold ikcpSetmtu
    split <;> rfl
  unfold construct at h
  generalize newBlock o memory = k at *
  split at h
  · cases h
  split at h
  · cases h
  simp only [Option.some.injEq] at h
  subst h
  rw [(nodelay_same (ikcpWndsize o.sndWnd o.rcvWnd (ikcpSetmtu o.mtu k).2) o.nodelay o.interval o.resend o.nc).fixed,
    (wndsize_frame (ikcpSetmtu o.mtu k).2 o.sndWnd o.rcvWnd).1]
  show sndWindow o.sndWnd (ikcpSetmtu o.mtu k).2.sndWnd = _
  rw [hmtu, hnew]

theorem announced (p : Pairing) (hsnd : ∀ b, (p.options b).sndWnd < 2 ^ 32) (hrcv : ∀ b, (p.options b).rcvWnd < 2 ^ 16) :
    Announced p := by
  refine ⟨fun b => ?_, fun b => ?_⟩
  · have hmade : (p.kcp b).sndWnd = sndWindow (p.options b).sndWnd IKCP_WND_SND := construct_sndWnd (p.made b)
    have hsmall := hsnd b
    rw [hmade]
    unfold sndWindow
    split
    · have hnat := toNat_toUnsigned (x := (p.options b).sndWnd) (by omega) hsmall
      intro hzero
      rw [hzero] at hnat
      have hnone : (0 : UInt32).toNat = 0 := rfl
      omega
    · decide
  · obtain ⟨-, -, -, -, hr, -⟩ := construct_spec (p.made b)
    have hsmall := hrcv b
    have hrange : 256 ≤ (rcvWindow (p.options b).rcvWnd IKCP_WND_RCV).toNat ∧
        (rcvWindow (p.options b).rcvWnd IKCP_WND_RCV).toNat ≤ maxWnd :=
      rcvWindow_range (by unfold maxWnd; omega) (by decide)
    show (p.kcp b).fixed.rcvWnd.toNat ≤ maxWnd
    rw [hr]
    exact hrange.2

/-- Wherever a run stands, the two ends can bring over all that was accepted, by what they do and send from then on. -/
theorem all_delivered (p : Pairing) (hsnd : ∀ b, (p.options b).sndWnd < 2 ^ 32)
    (hrcv : ∀ b, (p.options b).rcvWnd < 2 ^ 16) {s : Ends} (h : (net p).Reach Fresh s) :
    ∃ t, (net p).Later (Resumes fun b => (s b).sent.length) s t ∧
      ∀ b, (t b).accepted = (s b).accepted ∧ (t !b).delivered = (s b).accepted := by
  have hp := announced p hsnd hrcv
  have hgoing : Going p (fun b => (s b).sent.length) s := ⟨h, fun _ => Nat.le_refl _⟩
  obtain ⟨t₁, ho₁, hfalse⟩ := one_way hp hgoing false
  have h₁ := hgoing.onward ho₁
  obtain ⟨t₂, ho₂, htrue⟩ := one_way hp h₁ true
  have ho := ho₁.trans ho₂
  refine ⟨t₂, ho.later, fun b => ⟨ho.accepted b, ?_⟩⟩
  rw [← ho.accepted b]
  cases b with
  | false => exact ho₂.keeps (h₁.onward ho₂) hfalse
  | true => exact htrue

/-- Both datagrams of a message are lost. -/
theorem lost_run : ∃ s, (net smallPair).Reach Fresh s ∧
    decide ((s false).accepted = [fortyBytes] ∧ (s true).delivered = [] ∧ (s false).sent.length = 2) = true :=
  Machine.Reach.of_run (net smallPair) Fresh
    (fun s => decide ((s false).accepted = [fortyBytes] ∧ (s true).delivered = [] ∧ (s false).sent.length = 2))
    [.send false fortyBytes, .update false 100] (by decide +kernel)

theorem all_delivered_lost : ∃ s t, (net smallPair).Reach Fresh s ∧ (s false).sent.length = 2 ∧
    (s true).delivered = [] ∧ (net smallPair).Later (Resumes fun b => (s b).sent.length) s t ∧
      (t true).delivered = [fortyBytes] := by
  obtain ⟨s, hs, hrun⟩ := lost_run
  obtain ⟨hacc, hnone, hsent⟩ := of_decide_eq_true hrun
  obtain ⟨t, hlater, hall⟩ := all_delivered smallPair (fun _ => (by decide : smallOptions.sndWnd < 2 ^ 32))
    (fun _ => (by decide : smallOptions.rcvWnd < 2 ^ 16)) hs
  exact ⟨s, t, hs, hsent, hnone, hlater, (hall false).2.trans hacc⟩

end Dbase.Net.Ikcp
