/-
  Dbase.Net.IkcpClock — the timers of one end: how long it waits before it sends again, and when it wants to be updated.

  `Paced` bounds what the timers are computed from. `ikcp_check` tells `KcpSession` when to call `ikcp_update` again.

  Proved:
  (1) `alone_paced`: whatever arrives and however the clock goes, the timeout stays between its minimum of 30 or 100 ms and
      60 s, the interval between 10 ms and 5 s, and the threshold of the congestion window at 2 or more.
  (2) `check_within`: `ikcp_check` never asks for more than an interval, so the timer that `scheduleUpdate` arms is due
      within 5 s.
  (3) `check_skips_nothing`: an update before the time that `ikcp_check` tells would send nothing.
-/

import Dbase.Net.IkcpEnd
import Dbase.Net.KcpSessionClock

namespace Dbase.Net.Ikcp

open Dbase.Lib.Serial
open Dbase.Net.KcpSession (Options Session Answers scheduleUpdate)

structure Pace where
  rxRto : Int
  rxMinrto : Int
  rxSrtt : Int
  interval : UInt32
  ssthresh : UInt32

abbrev Kcpcb.pace (kcp : Kcpcb) : Pace := ⟨kcp.rxRto, kcp.rxMinrto, kcp.rxSrtt, kcp.interval, kcp.ssthresh⟩

structure Paced (kcp : Kcpcb) : Prop where
  minrto : kcp.rxMinrto = IKCP_RTO_NDL ∨ kcp.rxMinrto = IKCP_RTO_MIN
  rto : kcp.rxMinrto ≤ kcp.rxRto ∧ kcp.rxRto ≤ 60000
  srtt : 0 ≤ kcp.rxSrtt
  interval : 10 ≤ kcp.interval.toNat ∧ kcp.interval.toNat ≤ 5000
  ssthresh : 2 ≤ kcp.ssthresh.toNat

variable {kcp k : Kcpcb} {seg : Segment}

theorem Paced.congr (h : Paced kcp) (hk : k.pace = kcp.pace) : Paced k := by
  simp only [Kcpcb.pace, Pace.mk.injEq] at hk
  obtain ⟨hrto, hmin, hsrtt, hint, hss⟩ := hk
  exact ⟨hmin ▸ h.minrto, hmin ▸ hrto ▸ h.rto, hsrtt ▸ h.srtt, hint ▸ h.interval, hss ▸ h.ssthresh⟩

/-! ## What leaves the timers alone -/

section

variable (kcp)

theorem moveAvailable_pace (n : Nat) : (moveAvailable n kcp).pace = kcp.pace := by
  induction n generalizing kcp with
  | zero => rfl
  | succ n ih =>
    unfold moveAvailable
    split
    · rfl
    · split
      · exact ih _
      · rfl

theorem recv_pace (len : Int) : (ikcpRecv len kcp).2.2.pace = kcp.pace := by
  have hmerge : ∀ ispeek, (mergeFragment ispeek kcp).2.pace = kcp.pace := by
    intro ispeek
    cases ispeek <;> rfl
  unfold ikcpRecv
  split
  · rfl
  split
  · rfl
  split
  · rfl
  dsimp only
  rw [← hmerge (decide (len < 0))]
  split
  · exact moveAvailable_pace _ _
  · exact moveAvailable_pace _ _

theorem send_pace (buffer : List UInt8) : (ikcpSend buffer kcp).2.pace = kcp.pace := by
  have hextend : (extendLast buffer kcp).2.pace = kcp.pace := by
    unfold extendLast
    split
    · split <;> rfl
    · rfl
  have hfragments : ∀ buffer k, (sendFragments buffer k).2.pace = k.pace := by
    intro buffer k
    unfold sendFragments
    dsimp only
    split <;> rfl
  unfold ikcpSend
  split
  · dsimp only
    split
    · exact hextend
    · exact (hfragments _ _).trans hextend
  · exact hfragments _ _

theorem shrinkBuf_pace : (ikcpShrinkBuf kcp).pace = kcp.pace := by
  unfold ikcpShrinkBuf
  split <;> rfl

theorem parseAck_pace (sn : UInt32) : (ikcpParseAck sn kcp).pace = kcp.pace := by
  unfold ikcpParseAck
  split <;> rfl

theorem parseData_pace (newseg : Segment) : (ikcpParseData newseg kcp).pace = kcp.pace := by
  have hinsert : (insertData newseg kcp).pace = kcp.pace := by
    unfold insertData
    split <;> rfl
  unfold ikcpParseData
  split
  · rfl
  · exact (moveAvailable_pace _ _).trans hinsert

theorem skipped_pace (maxack : MaxAck) : (skipped maxack kcp).pace = kcp.pace := by
  cases maxack with
  | none => rfl
  | some sn =>
    unfold skipped ikcpParseFastack
    dsimp only
    split <;> rfl

theorem growCwnd_pace (prevUna : UInt32) : (growCwnd prevUna kcp).pace = kcp.pace := by
  have henlarge : (enlargeCwnd kcp).pace = kcp.pace := by
    unfold enlargeCwnd
    dsimp only
    split <;> rfl
  have hbound : ∀ k, (boundCwnd k).pace = k.pace := by
    intro k
    unfold boundCwnd
    split <;> rfl
  unfold growCwnd
  split
  · rw [hbound (enlargeCwnd kcp)]
    exact henlarge
  · rfl

theorem probeWindow_pace : (probeWindow kcp).pace = kcp.pace := by
  unfold probeWindow
  split
  · rfl
  split
  · rfl
  split
  · rfl
  · rfl

theorem moveToBuf_pace (cwnd wnd : UInt32) (n : Nat) : (moveToBuf cwnd wnd n kcp).pace = kcp.pace := by
  induction n generalizing kcp with
  | zero => rfl
  | succ n ih =>
    unfold moveToBuf
    split
    · split
      · rfl
      · exact ih _
    · rfl

theorem ticked_pace (current : UInt32) : (ticked current kcp).pace = kcp.pace ∧
    (resync (startClock current kcp)).pace = kcp.pace := by
  have hstart : (startClock current kcp).pace = kcp.pace := by
    unfold startClock
    split <;> rfl
  have hresync : ∀ k, (resync k).pace = k.pace := by
    intro k
    unfold resync
    dsimp only
    split <;> rfl
  exact ⟨(hresync _).trans hstart, (hresync _).trans hstart⟩

theorem statistics_pace : (ikcpUpdatePktloss (ikcpUpdateBandwidth kcp)).pace = kcp.pace := by
  have hbandwidth : (ikcpUpdateBandwidth kcp).pace = kcp.pace := by
    unfold ikcpUpdateBandwidth
    dsimp only
    split
    · rfl
    · split <;> rfl
  have hpktloss : ∀ k, (ikcpUpdatePktloss k).pace = k.pace := by
    intro k
    unfold ikcpUpdatePktloss
    dsimp only
    split
    · rfl
    · split <;> rfl
  exact (hpktloss _).trans hbandwidth

end

/-! ## What changes them -/

theorem ibound_range {lower upper : UInt32} (middle : UInt32) (h : lower ≤ upper) :
    lower ≤ ibound lower middle upper ∧ ibound lower middle upper ≤ upper := by
  unfold ibound imin imax
  by_cases hlow : lower ≥ middle
  · rw [if_pos hlow, if_pos h]
    exact ⟨UInt32.le_refl _, h⟩
  · rw [if_neg hlow]
    split
    · rename_i hup
      exact ⟨UInt32.le_of_lt (UInt32.not_le.mp hlow), hup⟩
    · exact ⟨h, UInt32.le_refl _⟩

theorem bounded_paced (h : Paced kcp) (middle : UInt32) :
    Paced { kcp with rxRto := toSigned (ibound (toUnsigned kcp.rxMinrto) middle IKCP_RTO_MAX) } := by
  have hmin : 30 ≤ kcp.rxMinrto ∧ kcp.rxMinrto ≤ 100 := by
    rcases h.minrto with h | h <;> rw [h] <;> decide
  have hlower : ((toUnsigned kcp.rxMinrto).toNat : Int) = kcp.rxMinrto := toNat_toUnsigned (by omega) (by omega)
  have hmax : IKCP_RTO_MAX.toNat = 60000 := rfl
  obtain ⟨h1, h2⟩ := ibound_range middle (UInt32.le_iff_toNat_le.mpr (by omega) : toUnsigned kcp.rxMinrto ≤ IKCP_RTO_MAX)
  rw [UInt32.le_iff_toNat_le] at h1 h2
  have hvalue : toSigned (ibound (toUnsigned kcp.rxMinrto) middle IKCP_RTO_MAX) =
      ((ibound (toUnsigned kcp.rxMinrto) middle IKCP_RTO_MAX).toNat : Int) := toInt_of_lt (by omega)
  have hrto : kcp.rxMinrto ≤ toSigned (ibound (toUnsigned kcp.rxMinrto) middle IKCP_RTO_MAX) ∧
      toSigned (ibound (toUnsigned kcp.rxMinrto) middle IKCP_RTO_MAX) ≤ 60000 := by
    omega
  exact ⟨h.minrto, hrto, h.srtt, h.interval, h.ssthresh⟩

theorem updateAck_paced (h : Paced kcp) {rtt : Int} (hrtt : 0 ≤ rtt) : Paced (ikcpUpdateAck rtt kcp) := by
  have hestimate : Paced (if kcp.rxSrtt = 0 then { kcp with rxSrtt := rtt, rxRttval := rtt.tdiv 2 }
      else
        { kcp with
          rxRttval := wrap ((wrap (3 * kcp.rxRttval) + |rtt - kcp.rxSrtt|).tdiv 4)
          rxSrtt := if (wrap (7 * kcp.rxSrtt + rtt)).tdiv 8 < 1 then 1 else (wrap (7 * kcp.rxSrtt + rtt)).tdiv 8 }) := by
    by_cases hfirst : kcp.rxSrtt = 0
    · rw [if_pos hfirst]
      exact ⟨h.minrto, h.rto, hrtt, h.interval, h.ssthresh⟩
    · rw [if_neg hfirst]
      generalize (wrap (7 * kcp.rxSrtt + rtt)).tdiv 8 = srtt
      have hpos : 0 ≤ if srtt < 1 then 1 else srtt := by
        split <;> omega
      exact ⟨h.minrto, h.rto, hpos, h.interval, h.ssthresh⟩
  exact bounded_paced hestimate _

theorem updateSsthresh_paced (h : Paced kcp) (cwnd resent : UInt32) (change : Nat) (lost : Bool) :
    Paced (updateSsthresh cwnd resent change lost kcp) := by
  have hatLeast : ∀ x, 2 ≤ (atLeastThresh x).toNat := by
    intro x
    unfold atLeastThresh
    split
    · decide
    · rename_i hlarge
      exact UInt32.le_iff_toNat_le.mp (UInt32.not_lt.mp hlarge)
  have hfast : Paced (if change ≠ 0 then afterFast resent kcp else kcp) := by
    split
    · exact ⟨h.minrto, h.rto, h.srtt, h.interval, hatLeast _⟩
    · exact h
  have hloss : ∀ k, Paced k → Paced (if lost then afterLoss cwnd k else k) := by
    intro k hk
    split
    · exact ⟨hk.minrto, hk.rto, hk.srtt, hk.interval, hatLeast _⟩
    · exact hk
  have hone : ∀ k, (atLeastOne k).pace = k.pace := by
    intro k
    unfold atLeastOne
    split <;> rfl
  unfold updateSsthresh
  exact (hloss _ hfast).congr (hone _)

theorem inputSegment_paced (h : Paced kcp) : Paced (inputSegment seg kcp) := by
  have huna : Paced (inputUna seg kcp) := h.congr (shrinkBuf_pace _)
  unfold inputSegment
  dsimp only
  split
  · unfold inputAck
    dsimp only
    have hack : Paced (if itimediff (inputUna seg kcp).current seg.ts ≥ 0 then
        ikcpUpdateAck (itimediff (inputUna seg kcp).current seg.ts) (inputUna seg kcp) else inputUna seg kcp) := by
      split
      · rename_i hrtt
        exact updateAck_paced huna hrtt
      · exact huna
    exact hack.congr ((shrinkBuf_pace _).trans (parseAck_pace _ _))
  split
  · unfold inputPush
    split
    · dsimp only
      split
      · exact huna.congr (parseData_pace (ikcpAckPush seg.sn seg.ts (inputUna seg kcp)) seg)
      · exact huna.congr rfl
    · exact huna
  split
  · exact huna.congr rfl
  · exact huna

theorem inputLoop_paced (n : Nat) (data : List UInt8) (maxack : MaxAck) (h : Paced kcp) :
    Paced (inputLoop n data maxack kcp).2.2 := by
  induction n generalizing data maxack kcp with
  | zero => exact h
  | succ n ih =>
    unfold inputLoop
    dsimp only
    split
    · exact h
    split
    · exact h
    split
    · exact h
    split
    · exact h
    split
    · exact h
    · exact ih _ _ (inputSegment_paced h)

theorem input_paced (h : Paced kcp) (data : List UInt8) : Paced (ikcpInput data kcp).2 := by
  have hloop := inputLoop_paced data.length data none (h.congr (rfl : (countRx data.length kcp).pace = kcp.pace))
  by_cases hshort : wrap data.length < IKCP_OVERHEAD
  · rw [ikcpInput, if_pos hshort]
    exact h.congr rfl
  rw [ikcpInput, if_neg hshort]
  generalize inputLoop data.length data none (countRx data.length kcp) = result at hloop
  obtain ⟨code, maxack, k⟩ := result
  dsimp only
  by_cases hcode : code ≠ 0
  · rw [if_pos hcode]
    exact hloop
  · rw [if_neg hcode]
    exact hloop.congr ((growCwnd_pace _ _).trans (skipped_pace k maxack))

theorem flush_paced (h : Paced kcp) : Paced (ikcpFlush kcp).1 := by
  have hnumbering : (numbering kcp).pace = kcp.pace := (moveToBuf_pace _ _ _ _).trans (probeWindow_pace _)
  by_cases hup : kcp.updated = 0
  · rw [ikcpFlush, if_pos hup]
    exact h
  generalize hres : ikcpFlush kcp = res
  rw [ikcpFlush, if_neg hup] at hres
  extract_lets wnd seg acks k0 probed k1 cwnd k2 resent rtomin f out3 k3 at hres
  have h3 : k3.pace = kcp.pace := hnumbering
  clear_value k3
  subst hres
  show Paced (updateSsthresh cwnd resent f.change f.lost k3)
  exact updateSsthresh_paced (h.congr h3) cwnd resent f.change f.lost

theorem update_paced (h : Paced kcp) (current : UInt32) : Paced (ikcpUpdate current kcp).1 := by
  obtain ⟨hticked, hclock⟩ := ticked_pace kcp current
  unfold ikcpUpdate
  dsimp only
  split
  · exact (flush_paced (h.congr hticked)).congr (statistics_pace _)
  · exact (h.congr hclock).congr (statistics_pace _)

/-! ## Runs -/

theorem clampInterval_range {interval : Int} (h : interval ≥ 0) :
    10 ≤ (clampInterval interval).toNat ∧ (clampInterval interval).toNat ≤ 5000 := by
  unfold clampInterval
  split
  · decide
  split
  · decide
  · have hnat := toNat_toUnsigned (x := interval) (by omega) (by omega)
    omega

/-- `ikcp_nodelay` may raise the minimum, but not above a timeout that is still the one of a new block. -/
theorem nodelay_paced (h : Paced kcp) (hrto : 100 ≤ kcp.rxRto) (nodelay interval resend nc : Int) :
    Paced (ikcpNodelay nodelay interval resend nc kcp) := by
  obtain ⟨hlow, hhigh⟩ := h.rto
  unfold ikcpNodelay
  extract_lets k1 k2 k3
  have h1 : Paced k1 := by
    show Paced (if nodelay ≥ 0 then _ else kcp)
    by_cases hset : nodelay ≥ 0
    · rw [if_pos hset]
      by_cases hon : nodelay ≠ 0
      · rw [if_pos hon]
        exact ⟨.inl rfl, ⟨Int.le_trans (by decide : IKCP_RTO_NDL ≤ 100) hrto, hhigh⟩, h.srtt, h.interval, h.ssthresh⟩
      · rw [if_neg hon]
        exact ⟨.inr rfl, ⟨hrto, hhigh⟩, h.srtt, h.interval, h.ssthresh⟩
    · rw [if_neg hset]
      exact h
  have h2 : Paced k2 := by
    show Paced (if interval ≥ 0 then { k1 with interval := clampInterval interval } else k1)
    split
    · rename_i hset
      exact ⟨h1.minrto, h1.rto, h1.srtt, clampInterval_range hset, h1.ssthresh⟩
    · exact h1
  have h3 : Paced k3 := by
    show Paced (if resend ≥ 0 then { k2 with fastresend := resend } else k2)
    split
    · exact h2.congr rfl
    · exact h2
  split
  · exact h3.congr rfl
  · exact h3

theorem construct_paced {o : Options} {memory : UInt32} (h : construct o memory = some kcp) : Paced kcp := by
  have hpace : (newBlock o memory).pace = ⟨200, 100, 0, 100, 2⟩ := by
    unfold newBlock
    split <;> rfl
  unfold construct at h
  split at h
  · cases h
  split at h
  · cases h
  generalize newBlock o memory = k at *
  have hmtu : (ikcpSetmtu o.mtu k).2.pace = k.pace := by
    unfold ikcpSetmtu
    split <;> rfl
  have hwndsize : ∀ k, (ikcpWndsize o.sndWnd o.rcvWnd k).pace = k.pace := by
    intro k
    unfold ikcpWndsize
    dsimp only
    split <;> split <;> rfl
  have hnew := (hwndsize _).trans (hmtu.trans hpace)
  generalize ikcpWndsize o.sndWnd o.rcvWnd (ikcpSetmtu o.mtu k).2 = made at hnew h
  simp only [Option.some.injEq] at h
  subst h
  simp only [Kcpcb.pace, Pace.mk.injEq] at hnew
  obtain ⟨hrto, hmin, hsrtt, hint, hss⟩ := hnew
  refine nodelay_paced ⟨?_, ?_, ?_, ?_, ?_⟩ ?_ _ _ _ _
  · exact .inr hmin
  · rw [hmin, hrto]
    decide
  · exact hsrtt.ge
  · rw [hint]
    decide
  · rw [hss]
    decide
  · rw [hrto]
    decide

theorem perform_paced {s : Alone} (h : Paced s.kcp) (a : Call) : Paced (perform s a).kcp := by
  have hmoved : ∀ {k}, Paced k → Paced { s with kcp := k }.kcp := fun hk => hk
  have hflushed : ∀ {result}, Paced result.1 → Paced (s.flushed result).kcp := fun hk => hk
  cases a with
  | send buffer => exact hmoved (h.congr (send_pace s.kcp buffer))
  | recv len => exact hmoved (h.congr (recv_pace s.kcp len))
  | input data => exact hmoved (input_paced h data)
  | update current => exact hflushed (update_paced h current)
  | flush => exact hflushed (flush_paced h)

/-- Whatever arrives and whatever the clock does, the timeout and the interval stay within their bounds. -/
theorem alone_paced {o : Options} {memory : UInt32} (h : construct o memory = some kcp) {s : Alone}
    (hr : (alone kcp).Reach (fun _ _ => True) s) : Paced s.kcp := by
  refine hr.inv (I := fun t => Paced t.kcp) (construct_paced h) fun t a t' ht _ hstep => ?_
  obtain rfl := Option.some.inj hstep
  exact perform_paced ht a

/-! ## When to update next -/

theorem nearestResend_le {current : UInt32} {segs : List Segment} {tmPacket x : Int}
    (h : nearestResend current segs tmPacket = some x) :
    x ≤ tmPacket ∧ (0 < tmPacket → 0 < x) ∧ ∀ s ∈ segs, x ≤ itimediff s.resendts current := by
  induction segs generalizing tmPacket with
  | nil =>
    obtain rfl := Option.some.inj h
    exact ⟨Int.le_refl _, id, fun s hs => absurd hs List.not_mem_nil⟩
  | cons seg rest ih =>
    unfold nearestResend at h
    dsimp only at h
    split at h
    · cases h
    rename_i hlate
    obtain ⟨hle, hpos, hrest⟩ := ih h
    have hmin : x ≤ tmPacket ∧ x ≤ itimediff seg.resendts current := by
      split at hle <;> omega
    refine ⟨hmin.1, fun h0 => hpos ?_, fun s hs => ?_⟩
    · split <;> omega
    · rcases List.mem_cons.mp hs with rfl | hs
      · exact hmin.2
      · exact hrest s hs

/-- How long `ikcp_check` waits, and what it waits for. -/
theorem check_spec (kcp : Kcpcb) (current : UInt32) :
    ∃ m : Nat, ikcpCheck kcp current = current + UInt32.ofNat m ∧ m ≤ kcp.interval.toNat ∧
      (0 < m → kcp.updated ≠ 0 ∧ m ≤ itimediff kcp.tsFlush current ∧ -10000 ≤ itimediff current kcp.tsFlush ∧
        ∀ s ∈ kcp.sndBuf, m ≤ itimediff s.resendts current) := by
  have hnow : ∃ m : Nat, current = current + UInt32.ofNat m ∧ m ≤ kcp.interval.toNat ∧
      (0 < m → kcp.updated ≠ 0 ∧ m ≤ itimediff kcp.tsFlush current ∧ -10000 ≤ itimediff current kcp.tsFlush ∧
        ∀ s ∈ kcp.sndBuf, m ≤ itimediff s.resendts current) :=
    ⟨0, (UInt32.add_zero _).symm, Nat.zero_le _, fun h => absurd h (Nat.lt_irrefl 0)⟩
  by_cases hup : kcp.updated = 0
  · rw [ikcpCheck, if_pos hup]
    exact hnow
  by_cases hfar : itimediff current kcp.tsFlush ≥ 10000 ∨ itimediff current kcp.tsFlush < -10000
  · have hself : itimediff current current ≥ 0 := by
      rw [itimediff, diff, UInt32.sub_self]
      decide
    rw [ikcpCheck, if_neg hup, if_pos hfar]
    dsimp only
    rw [if_pos hself]
    exact hnow
  rw [ikcpCheck, if_neg hup, if_neg hfar]
  dsimp only
  by_cases hdue : itimediff current kcp.tsFlush ≥ 0
  · rw [if_pos hdue]
    exact hnow
  rw [if_neg hdue]
  cases hnear : nearestResend current kcp.sndBuf 0x7fffffff with
  | none => exact hnow
  | some tmPacket =>
    obtain ⟨hle, hpos, hall⟩ := nearestResend_le hnear
    have hpos := hpos (by decide)
    have hswap : itimediff kcp.tsFlush current = -itimediff current kcp.tsFlush := diff_swap (by
      have : -10000 ≤ itimediff current kcp.tsFlush := by omega
      exact Int.lt_of_lt_of_le (by decide) this)
    dsimp only
    generalize hv : (if tmPacket < itimediff kcp.tsFlush current then tmPacket else itimediff kcp.tsFlush current) = v
    have hrange : 0 < v ∧ v ≤ tmPacket ∧ v ≤ itimediff kcp.tsFlush current := by
      split at hv <;> omega
    have hnat := toNat_toUnsigned (x := v) (by omega) (by omega)
    refine ⟨(if toUnsigned v ≥ kcp.interval then kcp.interval else toUnsigned v).toNat, ?_, ?_, fun _ => ?_⟩
    · rw [UInt32.ofNat_toNat]
    · split
      · exact Nat.le_refl _
      · rename_i hsmall
        exact Nat.le_of_lt (UInt32.lt_iff_toNat_lt.mp (UInt32.not_le.mp hsmall))
    · have hle' : ((if toUnsigned v ≥ kcp.interval then kcp.interval else toUnsigned v).toNat : Int) ≤ v := by
        split
        · rename_i hlarge
          have := UInt32.le_iff_toNat_le.mp hlarge
          omega
        · exact Int.le_of_eq hnat
      exact ⟨hup, by omega, by omega, fun s hs => by have := hall s hs; omega⟩

/-- An end as it is reached asks to be updated within 5 s, and the session's timer is armed for no longer. -/
theorem check_within {o : Options} {memory : UInt32} (h : construct o memory = some kcp) {s : Alone}
    (hr : (alone kcp).Reach (fun _ _ => True) s) (now : UInt32) {a : Answers} (ha : a.check = ikcpCheck s.kcp now)
    (t : Session) : ∀ timer ∈ (scheduleUpdate now a t).timers, timer ∈ t.timers ∨ timer.delay ≤ 5000 := by
  obtain ⟨m, hm, hinterval, -⟩ := check_spec s.kcp now
  have hmax := (alone_paced h hr).interval.2
  have hdelay : KcpSession.delay now a.check ≤ 5000 := by
    rw [ha, hm, KcpSession.delay_eq (by omega)]
    split <;> omega
  have hcancel : ∀ timer ∈ (KcpSession.cancelUpdateTimer t).timers, timer ∈ t.timers := by
    intro timer ht
    unfold KcpSession.cancelUpdateTimer at ht
    split at ht
    · exact (List.mem_filter.mp ht).1
    · exact ht
  intro timer ht
  by_cases hs : t.state = .disconnected
  · rw [scheduleUpdate, if_pos hs] at ht
    exact .inl ht
  · rw [KcpSession.scheduleUpdate_arms now a hs] at ht
    rcases List.mem_append.mp ht with ht | ht
    · exact .inl (hcancel timer ht)
    · obtain rfl := List.mem_singleton.mp ht
      exact .inr hdelay

/-- Before the time that `ikcp_check` tells, no segment is due to be sent again, and an update sends nothing. -/
theorem check_skips_nothing (kcp : Kcpcb) (current : UInt32) {k : Nat} (hk : k < (ikcpCheck kcp current - current).toNat) :
    (ikcpUpdate (current + UInt32.ofNat k) kcp).2.1 = [] ∧
      ∀ s ∈ kcp.sndBuf, 0 < itimediff s.resendts (current + UInt32.ofNat k) := by
  obtain ⟨m, hm, -, hwait⟩ := check_spec kcp current
  have hkm : k < m := by
    rw [hm, UInt32.add_comm, UInt32.add_sub_cancel, UInt32.toNat_ofNat'] at hk
    exact Nat.lt_of_lt_of_le hk (Nat.mod_le _ _)
  obtain ⟨hup, hflush, hfar, hsegs⟩ := hwait (by omega)
  have hswap : itimediff kcp.tsFlush current = -itimediff current kcp.tsFlush :=
    diff_swap (Int.lt_of_lt_of_le (by decide) hfar)
  have hahead : itimediff kcp.tsFlush (current + UInt32.ofNat k) = itimediff kcp.tsFlush current - k :=
    diff_later (by unfold itimediff at *; omega)
  have hslap : itimediff (current + UInt32.ofNat k) kcp.tsFlush = -itimediff kcp.tsFlush (current + UInt32.ofNat k) :=
    diff_swap (by unfold itimediff at *; omega)
  have hclock : resync (startClock (current + UInt32.ofNat k) kcp) = { kcp with current := current + UInt32.ofNat k } := by
    rw [startClock, if_neg hup, resync]
    dsimp only
    rw [if_neg (by omega)]
  have hdue : flushDue { kcp with current := current + UInt32.ofNat k } = false :=
    decide_eq_false (show ¬ itimediff (current + UInt32.ofNat k) kcp.tsFlush ≥ 0 by omega)
  refine ⟨?_, fun s hs => ?_⟩
  · rw [ikcpUpdate, hclock]
    dsimp only
    rw [hdue]
    rfl
  · have hseg := hsegs s hs
    have hlater : itimediff s.resendts (current + UInt32.ofNat k) = itimediff s.resendts current - k :=
      diff_later (by unfold itimediff at *; omega)
    omega

/-! The run of before, with an estimate of the round trip; the next flush is due at 340. -/

theorem estimated_run : ∃ s, (alone smallBlock).Reach (fun _ _ => True) s ∧
    decide (s.kcp.rxSrtt = 100 ∧ s.kcp.sndBuf.length = 1 ∧ (ikcpCheck s.kcp 325 - 325).toNat = 15) = true :=
  Lib.Machine.Reach.of_run (alone smallBlock) (fun _ _ => True)
    (fun s => decide (s.kcp.rxSrtt = 100 ∧ s.kcp.sndBuf.length = 1 ∧ (ikcpCheck s.kcp 325 - 325).toNat = 15))
    [.send fortyBytes, .update 100, .input forged, .update 320] (by decide +kernel)

theorem alone_paced_estimated : ∃ s, (alone smallBlock).Reach (fun _ _ => True) s ∧ s.kcp.rxSrtt = 100 ∧ Paced s.kcp := by
  obtain ⟨s, hs, hp⟩ := estimated_run
  exact ⟨s, hs, (of_decide_eq_true hp).1, alone_paced smallBlock_made hs⟩

theorem check_within_estimated : ∃ s, (alone smallBlock).Reach (fun _ _ => True) s ∧ s.kcp.rxSrtt = 100 ∧
    ∀ timer ∈ (scheduleUpdate 325 { check := ikcpCheck s.kcp 325 } ⟨.connected, 0, 0, [], 1⟩).timers,
      timer ∈ ([] : List KcpSession.Timer) ∨ timer.delay ≤ 5000 := by
  obtain ⟨s, hs, hp⟩ := estimated_run
  exact ⟨s, hs, (of_decide_eq_true hp).1, check_within smallBlock_made hs 325 rfl ⟨.connected, 0, 0, [], 1⟩⟩

theorem check_skips_nothing_estimated : ∃ s, (alone smallBlock).Reach (fun _ _ => True) s ∧ s.kcp.sndBuf.length = 1 ∧
    (ikcpUpdate (325 + UInt32.ofNat 14) s.kcp).2.1 = [] ∧
      ∀ seg ∈ s.kcp.sndBuf, 0 < itimediff seg.resendts (325 + UInt32.ofNat 14) := by
  obtain ⟨s, hs, hp⟩ := estimated_run
  obtain ⟨-, hlen, hcheck⟩ := of_decide_eq_true hp
  exact ⟨s, hs, hlen, check_skips_nothing s.kcp 325 (hcheck.symm ▸ by decide)⟩

end Dbase.Net.Ikcp
