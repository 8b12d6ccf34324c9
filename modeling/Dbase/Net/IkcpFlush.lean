/-
  Dbase.Net.IkcpFlush — what a flush sends.

  `emitted` are the segments of a flush in order: the acknowledgements that are due, the probes, and of `snd_buf` what is new
  or to be sent again. `Packed` follows the bytes through the loops: the segments written so far stand one behind the other
  in datagrams no longer than the MTU and in the block, and nothing was written behind the block.

  Proved:
  (1) `flush_sends`: the datagrams of a flush are its `emitted` segments, in order and none cut.
  (2) `flush_spec` (and `update_spec`): a flush numbers the first of `snd_queue`, keeps both windows, and what it sends are
      acknowledgements that were due, probes, and fragments of the log that are still open.
-/

import Dbase.Net.IkcpWindows
import Dbase.Net.IkcpWire

namespace Dbase.Net.Ikcp

open Dbase.Lib.Reorder Dbase.Lib.Serial

/-- The sizes that `ikcp_setmtu` leaves, for an MTU whose block does not wrap. -/
structure Sized (kcp : Kcpcb) : Prop where
  mss : kcp.mss.toNat + IKCP_OVERHEAD = kcp.mtu.toNat
  block : kcp.mtu.toNat ≤ kcp.capacity.toNat

theorem Sized.congr {k kcp : Kcpcb} (h : Sized kcp) (hf : k.fixed = kcp.fixed) : Sized k := by
  have hmss : k.mss = kcp.mss := congrArg Fixed.mss hf
  have hmtu : k.mtu = kcp.mtu := congrArg Fixed.mtu hf
  have hcap : k.capacity = kcp.capacity := congrArg Fixed.capacity hf
  exact ⟨hmss ▸ hmtu ▸ h.mss, hmtu ▸ hcap ▸ h.block⟩

/-! ## The block -/

structure Packed (kcp : Kcpcb) (segs : List Segment) (out : Out) : Prop where
  grouped : ∃ (sent : List (List Segment)) (block : List Segment), segs = sent.flatten ++ block ∧ out.datagrams = sent.map wire ∧ out.buffer = wire block ∧
    ∀ d ∈ sent, d ≠ [] ∧ (wire d).length ≤ kcp.mtu.toNat
  size : out.buffer.length ≤ kcp.mtu.toNat
  inside : out.overrun = false

variable {kcp k : Kcpcb} {segs : List Segment} {out : Out} {seg : Segment}

theorem Packed.congr (h : Packed kcp segs out) (hf : k.fixed = kcp.fixed) : Packed k segs out := by
  have hmtu : k.mtu = kcp.mtu := congrArg Fixed.mtu hf
  exact ⟨hmtu ▸ h.grouped, hmtu ▸ h.size, h.inside⟩

theorem output_packed (h : Packed kcp segs out) : Packed kcp segs (ikcpOutput out) ∧ (ikcpOutput out).buffer = [] := by
  unfold ikcpOutput
  by_cases hempty : out.buffer.length = 0
  · rw [if_pos hempty]
    exact ⟨h, List.eq_nil_of_length_eq_zero hempty⟩
  · rw [if_neg hempty]
    obtain ⟨sent, block, hsegs, hsent, hblock, hall⟩ := h.grouped
    refine ⟨⟨⟨sent ++ [block], [], ?_, ?_, rfl, fun d hd => ?_⟩, Nat.zero_le _, h.inside⟩, rfl⟩
    · simpa using hsegs
    · rw [hsent, hblock, List.map_append, List.map_singleton]
    · rcases List.mem_append.mp hd with hd | hd
      · exact hall d hd
      · obtain rfl := List.mem_singleton.mp hd
        exact ⟨fun e => hempty (by rw [hblock, e]; rfl), hblock ▸ h.size⟩

theorem makeRoom_packed (h : Packed kcp segs out) {need : Nat} (hneed : need ≤ kcp.mtu.toNat) :
    Packed kcp segs (makeRoom kcp.mtu need out) ∧
      (makeRoom kcp.mtu need out).buffer.length + need ≤ kcp.mtu.toNat := by
  unfold makeRoom
  split
  · obtain ⟨hp, he⟩ := output_packed h
    exact ⟨hp, by rw [he]; simpa using hneed⟩
  · exact ⟨h, by omega⟩

/-- A segment is written where there is room for it. -/
theorem write_packed (h : Packed kcp segs out) (hblock : kcp.mtu.toNat ≤ kcp.capacity.toNat)
    (hroom : out.buffer.length + (IKCP_OVERHEAD + seg.data.length) ≤ kcp.mtu.toNat) :
    Packed kcp (segs ++ [seg]) (write kcp.capacity seg.data (write kcp.capacity (ikcpEncodeSeg seg) out)) := by
  obtain ⟨sent, block, hsegs, hsent, hbuf, hall⟩ := h.grouped
  refine ⟨⟨sent, block ++ [seg], ?_, hsent, ?_, hall⟩, ?_, ?_⟩
  · rw [hsegs, List.append_assoc]
  · simp [write, hbuf]
  · simp only [write, List.length_append, length_encodeSeg]
    omega
  · simp only [write, h.inside, List.length_append, length_encodeSeg, Bool.false_or, Bool.or_eq_false_iff,
      decide_eq_false_iff_not]
    omega

theorem putHeader_packed (h : Packed kcp segs out) (hs : Sized kcp) (hdata : seg.data = []) :
    Packed kcp (segs ++ [seg]) (putHeader kcp seg out) := by
  have hneed : IKCP_OVERHEAD ≤ kcp.mtu.toNat := by
    have := hs.mss
    omega
  obtain ⟨hroom, hlen⟩ := makeRoom_packed h hneed
  have hw := write_packed hroom hs.block (by rw [hdata]; exact hlen)
  refine ⟨?_, ?_, ?_⟩
  · simpa [write, hdata, putHeader] using hw.grouped
  · simpa [write, hdata, putHeader] using hw.size
  · have := hw.inside
    simp only [write, hdata, List.append_nil, Bool.or_eq_false_iff] at this
    simpa [write, putHeader] using this.1

/-! ## The segments of a flush -/

def ackSegments (seg : Segment) (acks : List (UInt32 × UInt32)) : List Segment :=
  acks.map fun ack => { seg with sn := ack.1, ts := ack.2 }

/-- The header that is left behind the acknowledgements. -/
def lastHeader (seg : Segment) (acks : List (UInt32 × UInt32)) : Segment :=
  acks.foldl (fun seg ack => { seg with sn := ack.1, ts := ack.2 }) seg

def probeSegments (probe flag cmd : UInt32) (seg : Segment) : List Segment :=
  if probe &&& flag ≠ 0 then [{ seg with cmd }] else []

/-- The stamp of a segment that is sent. -/
def stamp (kcp : Kcpcb) (wnd : UInt32) (seg : Segment) : Segment := { seg with ts := kcp.current, wnd, una := kcp.rcvNxt }

/-- A segment of `snd_buf` after the round. -/
def resend (kcp : Kcpcb) (wnd resent rtomin : UInt32) (seg : Segment) : Segment :=
  if needsend kcp resent seg = .no then seg else stamp kcp wnd (retime kcp rtomin seg (needsend kcp resent seg))

def dataSegments (kcp : Kcpcb) (wnd resent rtomin : UInt32) (segs : List Segment) : List Segment :=
  (segs.filter fun seg => needsend kcp resent seg ≠ .no).map (resend kcp wnd resent rtomin)

theorem flushAcks_packed (hs : Sized kcp) (seg : Segment) (acks : List (UInt32 × UInt32)) (h : Packed kcp segs out)
    (hdata : seg.data = []) : Packed kcp (segs ++ ackSegments seg acks) (flushAcks kcp acks seg out).2 ∧
      (flushAcks kcp acks seg out).1 = lastHeader seg acks := by
  induction acks generalizing segs seg out with
  | nil => exact ⟨by rwa [ackSegments, List.map_nil, List.append_nil], rfl⟩
  | cons ack acks ih =>
    obtain ⟨sn, ts⟩ := ack
    have hput : Packed kcp (segs ++ [{ seg with sn, ts }]) (putHeader kcp { seg with sn, ts } out) :=
      putHeader_packed h hs hdata
    obtain ⟨hp, hlast⟩ := ih { seg with sn, ts } hput hdata
    refine ⟨?_, hlast⟩
    rw [List.append_assoc] at hp
    exact hp

/-- But for its numbers it is the first. -/
theorem lastHeader_eq (seg : Segment) (acks : List (UInt32 × UInt32)) : ∃ sn ts, lastHeader seg acks = { seg with sn, ts } := by
  induction acks generalizing seg with
  | nil => exact ⟨seg.sn, seg.ts, rfl⟩
  | cons ack acks ih =>
    obtain ⟨sn, ts, h⟩ := ih { seg with sn := ack.1, ts := ack.2 }
    exact ⟨sn, ts, h⟩

theorem flushProbe_packed (hs : Sized k) (flag cmd : UInt32) {probed : Segment × Out} (h : Packed k segs probed.2)
    (hdata : probed.1.data = []) :
    Packed k (segs ++ probeSegments k.probe flag cmd probed.1) (flushProbe k flag cmd probed).2 ∧
      ((flushProbe k flag cmd probed).1 = probed.1 ∨ (flushProbe k flag cmd probed).1 = { probed.1 with cmd }) := by
  unfold flushProbe probeSegments
  split
  · exact ⟨putHeader_packed h hs hdata, .inr rfl⟩
  · exact ⟨by rwa [List.append_nil], .inl rfl⟩

theorem retime_alike (rtomin : UInt32) (why : Resend) : Alike seg (retime kcp rtomin seg why) := by
  cases why <;> exact ⟨rfl, rfl, rfl, rfl, rfl⟩

theorem stamp_alike (wnd : UInt32) {seg seg' : Segment} (h : Alike seg seg') : Alike seg (stamp kcp wnd seg') :=
  ⟨h.sn, h.frag, h.conv, h.token, h.cmd⟩

theorem resend_alike (wnd resent rtomin : UInt32) : Alike seg (resend kcp wnd resent rtomin seg) := by
  unfold resend
  split
  · exact .refl seg
  · exact stamp_alike wnd (retime_alike rtomin _)

theorem flushSegment_packed (hs : Sized kcp) (wnd resent rtomin : UInt32) {f : Flushed} (h : Packed kcp segs f.out)
    (hsize : seg.data.length ≤ kcp.mss.toNat) :
    Packed kcp (segs ++ dataSegments kcp wnd resent rtomin [seg]) (flushSegment kcp wnd resent rtomin seg f).out ∧
      (flushSegment kcp wnd resent rtomin seg f).sndBuf = f.sndBuf ++ [resend kcp wnd resent rtomin seg] := by
  unfold flushSegment dataSegments
  by_cases hno : needsend kcp resent seg = .no
  · dsimp only
    rw [if_pos hno, List.filter_cons_of_neg (by simpa using hno), List.filter_nil, List.map_nil, List.append_nil, resend,
      if_pos hno]
    exact ⟨h, rfl⟩
  · have hseg : stamp kcp wnd (retime kcp rtomin seg (needsend kcp resent seg)) = resend kcp wnd resent rtomin seg := by
      rw [resend, if_neg hno]
    have hlen : (resend kcp wnd resent rtomin seg).data.length ≤ kcp.mss.toNat := by
      rw [(resend_alike wnd resent rtomin).data]
      exact hsize
    have hneed : IKCP_OVERHEAD + (resend kcp wnd resent rtomin seg).data.length ≤ kcp.mtu.toNat := by
      have := hs.mss
      omega
    obtain ⟨hroom, hfree⟩ := makeRoom_packed h hneed
    dsimp only
    rw [if_neg hno, List.filter_cons_of_pos (by simpa using hno), List.filter_nil, List.map_singleton, ← hseg]
    rw [← hseg] at hroom hfree
    exact ⟨write_packed hroom hs.block hfree, rfl⟩

theorem dataSegments_append (wnd resent rtomin : UInt32) (xs ys : List Segment) :
    dataSegments kcp wnd resent rtomin (xs ++ ys) =
      dataSegments kcp wnd resent rtomin xs ++ dataSegments kcp wnd resent rtomin ys := by
  simp [dataSegments]

theorem flushData_packed (hs : Sized kcp) (wnd resent rtomin : UInt32) (buf : List Segment) {f : Flushed}
    (h : Packed kcp segs f.out) (hsize : ∀ seg ∈ buf, seg.data.length ≤ kcp.mss.toNat) :
    Packed kcp (segs ++ dataSegments kcp wnd resent rtomin buf) (flushData kcp wnd resent rtomin buf f).out ∧
      (flushData kcp wnd resent rtomin buf f).sndBuf = f.sndBuf ++ buf.map (resend kcp wnd resent rtomin) := by
  induction buf generalizing segs f with
  | nil => exact ⟨by simpa [dataSegments, flushData] using h, by simp [flushData]⟩
  | cons seg buf ih =>
    unfold flushData
    obtain ⟨hp, hbuf⟩ := flushSegment_packed hs wnd resent rtomin h (hsize seg List.mem_cons_self)
    obtain ⟨hp', hbuf'⟩ := ih hp fun s hs => hsize s (List.mem_cons_of_mem _ hs)
    refine ⟨?_, by rw [hbuf', hbuf, List.append_assoc]; rfl⟩
    rw [List.append_assoc, ← dataSegments_append] at hp'
    exact hp'

/-! ## The flush -/

/-- The header that acknowledgements and probes share. -/
def ackHeader (kcp : Kcpcb) : Segment :=
  { conv := kcp.conv, token := kcp.token, cmd := IKCP_CMD_ACK, wnd := ikcpWndUnused kcp, una := kcp.rcvNxt }

/-- Behind the acknowledgements, with a probe of the remote window where it is time for one. -/
def probing (kcp : Kcpcb) : Kcpcb := probeWindow { kcp with acklist := [] }

/-- Behind the probes, with the segments that get numbers. -/
def numbering (kcp : Kcpcb) : Kcpcb :=
  moveToBuf (sendWindow { probing kcp with probe := 0 }) (ikcpWndUnused kcp) (probing kcp).sndQueue.length
    { probing kcp with probe := 0 }

/-- The probes of a flush; their header keeps the numbers of the last acknowledgement. -/
def probes (kcp : Kcpcb) : List Segment :=
  probeSegments (probing kcp).probe IKCP_ASK_SEND IKCP_CMD_WASK (lastHeader (ackHeader kcp) kcp.acklist) ++
    probeSegments (probing kcp).probe IKCP_ASK_TELL IKCP_CMD_WINS (lastHeader (ackHeader kcp) kcp.acklist)

/-- The segments of a flush with data. -/
def sendings (kcp : Kcpcb) : List Segment :=
  dataSegments (numbering kcp) (ikcpWndUnused kcp)
    (if (numbering kcp).fastresend > 0 then toUnsigned (numbering kcp).fastresend else 0xffffffff)
    (if (numbering kcp).nodelay = 0 then toUnsigned ((numbering kcp).rxRto >>> 3) else 0) (numbering kcp).sndBuf

def emitted (kcp : Kcpcb) : List Segment := ackSegments (ackHeader kcp) kcp.acklist ++ (probes kcp ++ sendings kcp)

theorem probing_same (kcp : Kcpcb) : SameParts (probing kcp) { kcp with acklist := [] } := probeWindow_same _

theorem numbering_frame (kcp : Kcpcb) :
    (numbering kcp).fixed = kcp.fixed ∧ (numbering kcp).recvPart = { kcp.recvPart with acklist := [] } := by
  have hp := probing_same kcp
  obtain ⟨hf, hr⟩ := moveToBuf_frame { probing kcp with probe := 0 } (sendWindow { probing kcp with probe := 0 })
    (ikcpWndUnused kcp) (probing kcp).sndQueue.length
  exact ⟨hf.trans hp.fixed, hr.trans hp.recvPart⟩

/-- What a flush sends, and what it leaves, when it takes place at all. -/
theorem flush_sends (hs : Sized kcp) (hup : kcp.updated ≠ 0)
    (hsize : ∀ seg ∈ (numbering kcp).sndBuf, seg.data.length ≤ kcp.mss.toNat) :
    (∃ sent : List (List Segment), (ikcpFlush kcp).2.1 = sent.map wire ∧ sent.flatten = emitted kcp ∧
      ∀ d ∈ sent, d ≠ [] ∧ (wire d).length ≤ kcp.mtu.toNat) ∧ (ikcpFlush kcp).2.2 = false ∧
    (ikcpFlush kcp).1.fixed = kcp.fixed ∧ (ikcpFlush kcp).1.recvPart = { kcp.recvPart with acklist := [] } ∧
    ∃ buf, List.Forall₂ Alike (numbering kcp).sndBuf buf ∧
      (ikcpFlush kcp).1.sendPart = { (numbering kcp).sendPart with sndBuf := buf } := by
  obtain ⟨hfixed, hrecv⟩ := numbering_frame kcp
  have hprobing := probing_same kcp
  have hmss : (numbering kcp).mss = kcp.mss := congrArg Fixed.mss hfixed
  generalize hres : ikcpFlush kcp = res
  rw [ikcpFlush, if_neg hup] at hres
  extract_lets wnd seg acks k0 probed k1 cwnd k2 resent rtomin f out3 k3 at hres
  subst hres
  -- the acknowledgements, and the probes behind them
  have hstart : Packed kcp [] ⟨[], [], kcp.txBytes, false⟩ :=
    ⟨⟨[], [], rfl, rfl, rfl, fun d hd => absurd hd List.not_mem_nil⟩, Nat.zero_le _, rfl⟩
  have hs0 : Sized k0 := hs.congr hprobing.fixed
  obtain ⟨hacks, hheader⟩ := flushAcks_packed hs seg kcp.acklist hstart rfl
  obtain ⟨sn, ts, hlast⟩ := lastHeader_eq seg kcp.acklist
  have hack : acks.1 = lastHeader seg kcp.acklist := hheader
  have hdata : acks.1.data = [] := by rw [hack, hlast]
  obtain ⟨hask, hsame⟩ := flushProbe_packed hs0 IKCP_ASK_SEND IKCP_CMD_WASK (hacks.congr hprobing.fixed) hdata
  have hdata' : (flushProbe k0 IKCP_ASK_SEND IKCP_CMD_WASK acks).1.data = [] := by
    rcases hsame with h | h
    · rw [h]
      exact hdata
    · rw [h]
      exact hdata
  obtain ⟨htell, -⟩ := flushProbe_packed hs0 IKCP_ASK_TELL IKCP_CMD_WINS hask hdata'
  have hprobes : Packed k2 (ackSegments (ackHeader kcp) kcp.acklist ++ probes kcp) probed.2 := by
    have hwins : probeSegments k0.probe IKCP_ASK_TELL IKCP_CMD_WINS (flushProbe k0 IKCP_ASK_SEND IKCP_CMD_WASK acks).1 =
        probeSegments k0.probe IKCP_ASK_TELL IKCP_CMD_WINS acks.1 := by
      rcases hsame with h | h
      · rw [h]
      · rw [h]
        rfl
    rw [hwins, List.append_assoc, List.nil_append, hack] at htell
    exact htell.congr (hfixed.trans hprobing.fixed.symm)
  -- the segments
  obtain ⟨hsent, hbuf⟩ := flushData_packed (f := ⟨probed.2, [], 0, false, k2.xmit, k2.pktsLost, k2.pktsSent, k2.state⟩)
    (hs.congr hfixed) wnd resent rtomin k2.sndBuf hprobes (fun s hin => hmss.symm ▸ hsize s hin)
  obtain ⟨hout, hempty⟩ := output_packed hsent
  have hk3 : SameParts (updateSsthresh cwnd resent f.change f.lost k3) k3 := updateSsthresh_same k3 _ _ _ _
  refine ⟨?_, hout.inside, hk3.fixed.trans hfixed, hk3.recvPart.trans hrecv, f.sndBuf, ?_, hk3.sendPart⟩
  · obtain ⟨sent, block, hsegs, hdatagrams, hblock, hall⟩ := hout.grouped
    obtain rfl : block = [] := by
      rw [hempty] at hblock
      by_contra hne
      have := length_wire_ge hne
      rw [← hblock] at this
      exact absurd this (by decide)
    have hmtu : k2.mtu = kcp.mtu := congrArg Fixed.mtu hfixed
    refine ⟨sent, hdatagrams, ?_, hmtu ▸ hall⟩
    rw [List.append_nil, List.append_assoc] at hsegs
    exact hsegs.symm
  · rw [show f.sndBuf = k2.sndBuf.map (resend k2 wnd resent rtomin) from hbuf, List.forall₂_map_right_iff]
    exact List.forall₂_same.mpr fun s _ => resend_alike wnd resent rtomin

/-- What stands in a datagram: `log` and `js` are the sender's after numbering, the rest is as before the flush. -/
structure Emitted (kcp : Kcpcb) (log : List Fragment) (js : List Nat) (seg : Segment) : Prop where
  conv : seg.conv = kcp.conv
  token : seg.token = kcp.token
  una : seg.una = kcp.rcvNxt
  size : seg.data.length ≤ kcp.mss.toNat
  kind : (seg.cmd = IKCP_CMD_ACK ∧ ∃ ts, (seg.sn, ts) ∈ kcp.acklist) ∨
    (seg.cmd = IKCP_CMD_WASK ∨ seg.cmd = IKCP_CMD_WINS) ∨
    (seg.cmd = IKCP_CMD_PUSH ∧ ∃ j ∈ js, Carries (fun j f => log[j]? = some f) seg j)

section

variable {A : Nat → Prop} {log : List Fragment} {js : List Nat}

/-- What a flush does: `moved` gets numbers, `sent` are the segments of its datagrams. -/
structure Flushes (A : Nat → Prop) (log : List Fragment) (js : List Nat) (kcp : Kcpcb)
    (result : Kcpcb × List (List UInt8) × Bool) (moved : List Segment) (js' : List Nat) (sent : List (List Segment)) :
    Prop where
  queue : kcp.sndQueue = moved ++ result.1.sndQueue
  sending : Sending A (log ++ moved.map Segment.frag) js' result.1
  first : firstOpen js' (log ++ moved.map Segment.frag) = firstOpen js log
  fixed : result.1.fixed = kcp.fixed
  recv : (result.1.recvPart = kcp.recvPart ∧ sent = []) ∨ result.1.recvPart = { kcp.recvPart with acklist := [] }
  datagrams : result.2.1 = sent.map wire
  inside : result.2.2 = false
  sent : ∀ d ∈ sent, d ≠ [] ∧ (wire d).length ≤ kcp.mtu.toNat ∧
    ∀ seg ∈ d, Emitted kcp (log ++ moved.map Segment.frag) js' seg

theorem Flushes.refl (h : Sending A log js kcp) : Flushes A log js kcp (kcp, [], false) [] js [] :=
  ⟨rfl, by simpa using h, by simp, rfl, .inl ⟨rfl, rfl⟩, rfl, rfl, fun d hd => absurd hd List.not_mem_nil⟩

theorem numbering_sending (h : Sending A log js kcp) : ∃ moved js', kcp.sndQueue = moved ++ (numbering kcp).sndQueue ∧
    Sending A (log ++ moved.map Segment.frag) js' (numbering kcp) ∧
    firstOpen js' (log ++ moved.map Segment.frag) = firstOpen js log := by
  have hp := probing_same kcp
  have hsend : Sending A log js { probing kcp with probe := 0 } := h.congr hp.fixed hp.sendPart
  have hqueue : (probing kcp).sndQueue = kcp.sndQueue := hp.sndQueue
  rw [← hqueue]
  exact moveToBuf_sending (sendWindow_le hsend.rmtWnd) (probing kcp).sndQueue.length hsend

/-- Every segment of a flush is one of the three kinds. -/
theorem emitted_kind (hs : Sending A log js (numbering kcp)) : ∀ seg ∈ emitted kcp, Emitted kcp log js seg := by
  obtain ⟨hfixed, hrecv⟩ := numbering_frame kcp
  obtain ⟨sn, ts, hlast⟩ := lastHeader_eq (ackHeader kcp) kcp.acklist
  intro seg hseg
  unfold emitted probes at hseg
  rw [hlast] at hseg
  simp only [List.mem_append] at hseg
  rcases hseg with hack | (hask | htell) | hdata
  · obtain ⟨ack, hin, rfl⟩ := List.mem_map.mp hack
    exact ⟨rfl, rfl, rfl, Nat.zero_le _, .inl ⟨rfl, ack.2, hin⟩⟩
  · unfold probeSegments at hask
    split at hask
    · obtain rfl := List.mem_singleton.mp hask
      exact ⟨rfl, rfl, rfl, Nat.zero_le _, .inr (.inl (.inl rfl))⟩
    · exact absurd hask List.not_mem_nil
  · unfold probeSegments at htell
    split at htell
    · obtain rfl := List.mem_singleton.mp htell
      exact ⟨rfl, rfl, rfl, Nat.zero_le _, .inr (.inl (.inr rfl))⟩
    · exact absurd htell List.not_mem_nil
  · obtain ⟨s, hs', rfl⟩ := List.mem_map.mp hdata
    obtain ⟨hin, hdue⟩ := List.mem_filter.mp hs'
    have hno : needsend (numbering kcp)
        (if (numbering kcp).fastresend > 0 then toUnsigned (numbering kcp).fastresend else 0xffffffff) s ≠ .no := by
      simpa using hdue
    have hown := (hs.own s hin).congr hfixed.symm
    obtain ⟨j, hj, hcarries⟩ := hs.cells.exists_mark hin
    have halike : Alike s (resend (numbering kcp) (ikcpWndUnused kcp)
      (if (numbering kcp).fastresend > 0 then toUnsigned (numbering kcp).fastresend else 0xffffffff)
      (if (numbering kcp).nodelay = 0 then toUnsigned ((numbering kcp).rxRto >>> 3) else 0) s) := resend_alike _ _ _
    refine ⟨halike.conv.trans hown.conv, halike.token.trans hown.token, ?_, halike.data ▸ hown.size,
      .inr (.inr ⟨halike.cmd.trans hown.cmd, j, hj, halike.sn.trans hcarries.1, halike.frag ▸ hcarries.2⟩)⟩
    rw [resend, if_neg hno]
    exact congrArg RecvPart.rcvNxt hrecv

theorem flush_spec (h : Sending A log js kcp) (hs : Sized kcp) : ∃ moved js' sent,
    Flushes A log js kcp (ikcpFlush kcp) moved js' sent ∧ (kcp.updated ≠ 0 → sent.flatten = emitted kcp) := by
  by_cases hup : kcp.updated = 0
  · have e : ikcpFlush kcp = (kcp, [], false) := by rw [ikcpFlush, if_pos hup]
    rw [e]
    exact ⟨[], js, [], .refl h, fun hne => absurd hup hne⟩
  obtain ⟨moved, js', hqueue, hsend, hfirst⟩ := numbering_sending h
  have hmss : (numbering kcp).mss = kcp.mss := congrArg Fixed.mss (numbering_frame kcp).1
  obtain ⟨⟨sent, hdatagrams, hall, hsizes⟩, hinside, hfixed, hrecv, buf, halike, hpart⟩ :=
    flush_sends hs hup fun seg hin => hmss ▸ (hsend.own seg hin).size
  have hkind := emitted_kind hsend
  have hfixed' : (ikcpFlush kcp).1.fixed = (numbering kcp).fixed := hfixed.trans (numbering_frame kcp).1.symm
  have hrest : (ikcpFlush kcp).1.sndQueue = (numbering kcp).sndQueue := congrArg SendPart.sndQueue hpart
  refine ⟨moved, js', sent, ⟨?_, hsend.restamp halike hfixed' hpart, hfirst, hfixed, .inr hrecv, hdatagrams, hinside,
    fun d hd => ⟨(hsizes d hd).1, (hsizes d hd).2, fun seg hseg => hkind seg ?_⟩⟩, fun _ => hall⟩
  · rw [hrest]
    exact hqueue
  · rw [← hall]
    exact List.mem_flatten_of_mem hd hseg

/-! ## The update -/

theorem Emitted.congr (h : Emitted kcp log js seg) (hk : SameParts k kcp) : Emitted k log js seg := by
  have hconv : k.conv = kcp.conv := congrArg Fixed.conv hk.fixed
  have htoken : k.token = kcp.token := congrArg Fixed.token hk.fixed
  have hmss : k.mss = kcp.mss := congrArg Fixed.mss hk.fixed
  have hnxt : k.rcvNxt = kcp.rcvNxt := congrArg RecvPart.rcvNxt hk.recvPart
  exact ⟨hconv ▸ h.conv, htoken ▸ h.token, hnxt ▸ h.una, hmss ▸ h.size, hk.acklist ▸ h.kind⟩

/-- Clocks, timers and statistics before and after a flush. -/
theorem Flushes.around {js' : List Nat} {before after : Kcpcb} {result : Kcpcb × List (List UInt8) × Bool}
    {moved : List Segment} {sent : List (List Segment)} (h : Flushes A log js kcp result moved js' sent)
    (hb : SameParts kcp before) (ha : SameParts after result.1) :
    Flushes A log js before (after, result.2) moved js' sent := by
  have hmtu : kcp.mtu = before.mtu := congrArg Fixed.mtu hb.fixed
  refine ⟨?_, h.sending.congr ha.fixed ha.sendPart, h.first, ha.fixed.trans (h.fixed.trans hb.fixed), ?_, h.datagrams,
    h.inside, fun d hd => ?_⟩
  · rw [← hb.sndQueue, ha.sndQueue, h.queue]
  · rcases h.recv with ⟨hr, hnone⟩ | hr
    · exact .inl ⟨ha.recvPart.trans (hr.trans hb.recvPart), hnone⟩
    · refine .inr (ha.recvPart.trans (hr.trans ?_))
      rw [hb.recvPart]
  · obtain ⟨hne, hlen, hall⟩ := h.sent d hd
    exact ⟨hne, hmtu ▸ hlen, fun s hs => (hall s hs).congr ⟨hb.fixed.symm, hb.sendPart.symm, hb.recvPart.symm⟩⟩

/-- `ikcp_update` up to the flush, when one is due. -/
def ticked (current : UInt32) (kcp : Kcpcb) : Kcpcb := nextFlush (resync (startClock current kcp))

theorem ticked_same (current : UInt32) (kcp : Kcpcb) : SameParts (ticked current kcp) kcp :=
  (nextFlush_same _).trans ((resync_same _).trans (startClock_same kcp current))

theorem update_spec (h : Sending A log js kcp) (hs : Sized kcp) (current : UInt32) : ∃ moved js' sent,
    Flushes A log js kcp (ikcpUpdate current kcp) moved js' sent := by
  have hticked := ticked_same current kcp
  have hclock : SameParts (resync (startClock current kcp)) kcp :=
    (resync_same _).trans (startClock_same kcp current)
  unfold ikcpUpdate
  dsimp only
  split
  · obtain ⟨moved, js', sent, hflush, -⟩ := flush_spec (h.congr hticked.fixed hticked.sendPart) (hs.congr hticked.fixed)
    exact ⟨moved, js', sent, hflush.around hticked (statistics_same _)⟩
  · exact ⟨[], js, [], (Flushes.refl h).around (SameParts.refl kcp) ((statistics_same _).trans hclock)⟩

end

end Dbase.Net.Ikcp
