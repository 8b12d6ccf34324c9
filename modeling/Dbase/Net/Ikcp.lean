/-
  Dbase.Net.Ikcp — the ARQ protocol under `KcpSession`: segments with 32-bit sequence numbers, acknowledgements, a window
  on each side, resending by time and by skipped acknowledgements (`ikcp.h`, `ikcp.c`).

  A queue of `IQUEUEHEAD` nodes is a list of segments, a block of memory behind a segment its bytes (`len` is their number),
  `acklist` with `ackcount` a list of pairs. `IUINT32` is `UInt32`; an `IINT32` is an integer, and where its arithmetic can
  leave the range it wraps, as it does on the usual targets. The host is little endian. What `output` is called with is
  collected; the block that `flush` writes in has `(mtu + IKCP_OVERHEAD) * 3` bytes, and `overrun` says whether it ever
  wrote behind them. Allocations succeed; logging is left out.
-/

import Dbase.Lib.Bytes
import Dbase.Lib.Serial

namespace Dbase.Net.Ikcp

open Dbase.Lib.Bytes (leDecode leEncode)
open Dbase.Lib.Serial

def IKCP_RTO_NDL : Int := 30
def IKCP_RTO_MIN : Int := 100
def IKCP_RTO_DEF : Int := 200
def IKCP_RTO_MAX : UInt32 := 60000
def IKCP_CMD_PUSH : UInt32 := 81
def IKCP_CMD_ACK : UInt32 := 82
def IKCP_CMD_WASK : UInt32 := 83
def IKCP_CMD_WINS : UInt32 := 84
def IKCP_ASK_SEND : UInt32 := 1
def IKCP_ASK_TELL : UInt32 := 2
def IKCP_WND_SND : UInt32 := 32
def IKCP_WND_RCV : UInt32 := 256
def IKCP_MTU_DEF : UInt32 := 1400
def IKCP_INTERVAL : UInt32 := 100
def IKCP_OVERHEAD : Nat := 28
def IKCP_DEADLINK : UInt32 := 20
def IKCP_THRESH_INIT : UInt32 := 2
def IKCP_THRESH_MIN : UInt32 := 2
def IKCP_PROBE_INIT : UInt32 := 7000
def IKCP_PROBE_LIMIT : UInt32 := 120000
def IKCP_FASTACK_LIMIT : Int := 5
def IKCP_PKT_LOSS_INTERVAL : Int := 1000
def IKCP_BANDWITH_INTERVAL : Int := 1000

/-! ## Encoding -/

def ikcpEncode16u (w : UInt16) : List UInt8 := leEncode 2 w.toNat

def ikcpEncode32u (l : UInt32) : List UInt8 := leEncode 4 l.toNat

def ikcpDecode16u (data : List UInt8) : UInt16 := UInt16.ofNat (leDecode (data.take 2))

def ikcpDecode32u (data : List UInt8) : UInt32 := UInt32.ofNat (leDecode (data.take 4))

def imin (a b : UInt32) : UInt32 := if a ≤ b then a else b

def imax (a b : UInt32) : UInt32 := if a ≥ b then a else b

def ibound (lower middle upper : UInt32) : UInt32 := imin (imax lower middle) upper

/-- `_itimediff` -/
def itimediff (later earlier : UInt32) : Int := diff later earlier

/-- An `IUINT32` read as an `IINT32`. -/
def toSigned (x : UInt32) : Int := x.toInt32.toInt

/-- An integer kept in an `IUINT32`. -/
def toUnsigned (x : Int) : UInt32 := UInt32.ofNat (x % 2 ^ 32).toNat

/-- An integer kept in an `IINT32`. -/
def wrap (x : Int) : Int := x.bmod (2 ^ 32)

structure Segment where
  conv : UInt32 := 0
  token : UInt32 := 0
  cmd : UInt32 := 0
  frg : UInt32 := 0
  wnd : UInt32 := 0
  ts : UInt32 := 0
  sn : UInt32 := 0
  una : UInt32 := 0
  resendts : UInt32 := 0
  rto : UInt32 := 0
  fastack : UInt32 := 0
  xmit : UInt32 := 0
  data : List UInt8 := []
  deriving DecidableEq, Repr

def Segment.len (seg : Segment) : UInt32 := UInt32.ofNat seg.data.length

def ikcpEncodeSeg (seg : Segment) : List UInt8 :=
  ikcpEncode32u seg.conv ++ ikcpEncode32u seg.token ++ [seg.cmd.toUInt8] ++ [seg.frg.toUInt8] ++
    ikcpEncode16u seg.wnd.toUInt16 ++ ikcpEncode32u seg.ts ++ ikcpEncode32u seg.sn ++ ikcpEncode32u seg.una ++
    ikcpEncode32u seg.len

/-- `IKCPCB`; the counters of bytes and packets are those that `ikcp_update` evaluates. -/
structure Kcpcb where
  conv : UInt32
  mtu : UInt32
  mss : UInt32
  state : UInt32
  token : UInt32
  sndUna : UInt32
  sndNxt : UInt32
  rcvNxt : UInt32
  ssthresh : UInt32
  rxRttval : Int
  rxSrtt : Int
  rxRto : Int
  rxMinrto : Int
  sndWnd : UInt32
  rcvWnd : UInt32
  rmtWnd : UInt32
  cwnd : UInt32
  probe : UInt32
  current : UInt32
  interval : UInt32
  tsFlush : UInt32
  xmit : UInt32
  pktsSent : UInt32
  pktsLost : UInt32
  pktLoss : UInt32
  pktLossEpoch : UInt32
  rxBytes : UInt32
  txBytes : UInt32
  rxBandwidth : UInt32
  txBandwidth : UInt32
  bandwithEpoch : UInt32
  nrcvBuf : UInt32
  nsndBuf : UInt32
  nrcvQue : UInt32
  nsndQue : UInt32
  nodelay : UInt32
  updated : UInt32
  tsProbe : UInt32
  probeWait : UInt32
  deadLink : UInt32
  incr : UInt32
  sndQueue : List Segment
  rcvQueue : List Segment
  sndBuf : List Segment
  rcvBuf : List Segment
  acklist : List (UInt32 × UInt32)
  fastresend : Int
  fastlimit : Int
  nocwnd : Int
  stream : Int
  /-- the bytes of `buffer` -/
  capacity : UInt32
  deriving DecidableEq, Repr

/-- `ikcp_create`; the token is what the memory holds. -/
def ikcpCreate (conv memory : UInt32) : Kcpcb where
  conv
  mtu := IKCP_MTU_DEF
  mss := IKCP_MTU_DEF - UInt32.ofNat IKCP_OVERHEAD
  state := 0
  token := memory
  sndUna := 0
  sndNxt := 0
  rcvNxt := 0
  ssthresh := IKCP_THRESH_INIT
  rxRttval := 0
  rxSrtt := 0
  rxRto := IKCP_RTO_DEF
  rxMinrto := IKCP_RTO_MIN
  sndWnd := IKCP_WND_SND
  rcvWnd := IKCP_WND_RCV
  rmtWnd := IKCP_WND_RCV
  cwnd := 0
  probe := 0
  current := 0
  interval := IKCP_INTERVAL
  tsFlush := IKCP_INTERVAL
  xmit := 0
  pktsSent := 0
  pktsLost := 0
  pktLoss := 0
  pktLossEpoch := 0
  rxBytes := 0
  txBytes := 0
  rxBandwidth := 0
  txBandwidth := 0
  bandwithEpoch := 0
  nrcvBuf := 0
  nsndBuf := 0
  nrcvQue := 0
  nsndQue := 0
  nodelay := 0
  updated := 0
  tsProbe := 0
  probeWait := 0
  deadLink := IKCP_DEADLINK
  incr := 0
  sndQueue := []
  rcvQueue := []
  sndBuf := []
  rcvBuf := []
  acklist := []
  fastresend := 0
  fastlimit := IKCP_FASTACK_LIMIT
  nocwnd := 0
  stream := 0
  capacity := (IKCP_MTU_DEF + UInt32.ofNat IKCP_OVERHEAD) * 3

/-! ## Settings -/

def ikcpSettoken (token : UInt32) (kcp : Kcpcb) : Int × Kcpcb := (0, { kcp with token })

def ikcpSetmtu (mtu : Int) (kcp : Kcpcb) : Int × Kcpcb :=
  if mtu < 50 ∨ mtu < IKCP_OVERHEAD then (-1, kcp)
  else
    (0, { kcp with
      mtu := toUnsigned mtu
      mss := toUnsigned mtu - UInt32.ofNat IKCP_OVERHEAD
      capacity := (toUnsigned mtu + UInt32.ofNat IKCP_OVERHEAD) * 3 })

/-- The interval that `ikcp_interval` and `ikcp_nodelay` keep. -/
def clampInterval (interval : Int) : UInt32 :=
  if interval > 5000 then 5000 else if interval < 10 then 10 else toUnsigned interval

def ikcpNodelay (nodelay interval resend nc : Int) (kcp : Kcpcb) : Kcpcb :=
  let kcp := if nodelay ≥ 0 then
    { kcp with nodelay := toUnsigned nodelay, rxMinrto := if nodelay ≠ 0 then IKCP_RTO_NDL else IKCP_RTO_MIN } else kcp
  let kcp := if interval ≥ 0 then { kcp with interval := clampInterval interval } else kcp
  let kcp := if resend ≥ 0 then { kcp with fastresend := resend } else kcp
  if nc ≥ 0 then { kcp with nocwnd := nc } else kcp

def ikcpWndsize (sndwnd rcvwnd : Int) (kcp : Kcpcb) : Kcpcb :=
  let kcp := if sndwnd > 0 then { kcp with sndWnd := toUnsigned sndwnd } else kcp
  if rcvwnd > 0 then { kcp with rcvWnd := imax (toUnsigned rcvwnd) IKCP_WND_RCV } else kcp

/-! ## The user's side: receiving and sending -/

/-- The segments up to the first with `frg` 0, and those behind it. -/
def splitMessage : List Segment → List Segment × List Segment
  | [] => ([], [])
  | seg :: rest => if seg.frg = 0 then ([seg], rest) else (seg :: (splitMessage rest).1, (splitMessage rest).2)

def ikcpPeeksize (kcp : Kcpcb) : Int :=
  match kcp.rcvQueue with
  | [] => -1
  | seg :: _ =>
    if seg.frg = 0 then seg.data.length
    else if kcp.nrcvQue < seg.frg + 1 then -1
    else ((splitMessage kcp.rcvQueue).1.flatMap (·.data)).length

/-- `move available data from rcv_buf -> rcv_queue`, for as many turns as `rcv_buf` has segments. -/
def moveAvailable : Nat → Kcpcb → Kcpcb
  | 0, kcp => kcp
  | n + 1, kcp =>
    match kcp.rcvBuf with
    | [] => kcp
    | seg :: rest =>
      if seg.sn = kcp.rcvNxt ∧ kcp.nrcvQue < kcp.rcvWnd then
        moveAvailable n { kcp with
          rcvBuf := rest, nrcvBuf := kcp.nrcvBuf - 1, rcvQueue := kcp.rcvQueue ++ [seg], nrcvQue := kcp.nrcvQue + 1,
          rcvNxt := kcp.rcvNxt + 1 }
      else kcp

/-- The segments of the message in front, copied and, unless `ispeek`, deleted. -/
def mergeFragment (ispeek : Bool) (kcp : Kcpcb) : List UInt8 × Kcpcb :=
  let message := (splitMessage kcp.rcvQueue).1
  (message.flatMap (·.data),
    if ispeek then kcp else
      { kcp with
        rcvQueue := (splitMessage kcp.rcvQueue).2, nrcvQue := kcp.nrcvQue - UInt32.ofNat message.length })

def askTell (kcp : Kcpcb) : Kcpcb := { kcp with probe := kcp.probe ||| IKCP_ASK_TELL }

/-- `ikcp_recv` with a buffer: the result, and what it has copied. -/
def ikcpRecv (len : Int) (kcp : Kcpcb) : Int × List UInt8 × Kcpcb :=
  if kcp.rcvQueue = [] then (-1, [], kcp)
  else if ikcpPeeksize kcp < 0 then (-2, [], kcp)
  else if ikcpPeeksize kcp > |len| then (-3, [], kcp)
  else
    let recover := kcp.nrcvQue ≥ kcp.rcvWnd
    let (data, kcp) := mergeFragment (decide (len < 0)) kcp
    let kcp := moveAvailable kcp.rcvBuf.length kcp
    (data.length, data, if kcp.nrcvQue < kcp.rcvWnd ∧ recover then askTell kcp else kcp)

/-- The loop over the fragments: `count` of them still to come. -/
def fragment (mss : Nat) (stream : Int) : Nat → List UInt8 → List Segment
  | 0, _ => []
  | count + 1, buffer =>
    { data := buffer.take mss, frg := if stream = 0 then UInt32.ofNat count else 0 } ::
      fragment mss stream count (buffer.drop mss)

/-- The number of fragments of so many bytes. -/
def fragments (mss len : Nat) : Nat :=
  if len ≤ mss then 1 else (len + mss - 1) / mss

/-- `append to previous segment in streaming mode (if possible)`: the bytes that are left. -/
def extendLast (buffer : List UInt8) (kcp : Kcpcb) : List UInt8 × Kcpcb :=
  match kcp.sndQueue.getLast? with
  | some old =>
    if old.data.length < kcp.mss.toNat then
      let extend := min buffer.length (kcp.mss.toNat - old.data.length)
      (buffer.drop extend,
        { kcp with sndQueue := kcp.sndQueue.dropLast ++ [{ data := old.data ++ buffer.take extend, frg := 0 }] })
    else (buffer, kcp)
  | none => (buffer, kcp)

def sendFragments (buffer : List UInt8) (kcp : Kcpcb) : Int × Kcpcb :=
  let count := fragments kcp.mss.toNat buffer.length
  if count ≥ IKCP_WND_RCV.toNat then (-2, kcp)
  else
    (0, { kcp with
      sndQueue := kcp.sndQueue ++ fragment kcp.mss.toNat kcp.stream count buffer
      nsndQue := kcp.nsndQue + UInt32.ofNat count })

/-- `ikcp_send`; `len` is the length of the buffer, an `int`. -/
def ikcpSend (buffer : List UInt8) (kcp : Kcpcb) : Int × Kcpcb :=
  if kcp.stream ≠ 0 then
    let (buffer, kcp) := extendLast buffer kcp
    if buffer = [] then (0, kcp) else sendFragments buffer kcp
  else sendFragments buffer kcp

/-! ## Acknowledgements -/

def ikcpUpdateAck (rtt : Int) (kcp : Kcpcb) : Kcpcb :=
  let kcp := if kcp.rxSrtt = 0 then { kcp with rxSrtt := rtt, rxRttval := rtt.tdiv 2 }
    else
      let delta := |rtt - kcp.rxSrtt|
      let srtt := (wrap (7 * kcp.rxSrtt + rtt)).tdiv 8
      { kcp with
        rxRttval := wrap ((wrap (3 * kcp.rxRttval) + delta).tdiv 4), rxSrtt := if srtt < 1 then 1 else srtt }
  let rto := toUnsigned kcp.rxSrtt + imax kcp.interval (toUnsigned (4 * kcp.rxRttval))
  { kcp with rxRto := toSigned (ibound (toUnsigned kcp.rxMinrto) rto IKCP_RTO_MAX) }

def ikcpShrinkBuf (kcp : Kcpcb) : Kcpcb :=
  match kcp.sndBuf with
  | seg :: _ => { kcp with sndUna := seg.sn }
  | [] => { kcp with sndUna := kcp.sndNxt }

/-- The loop of `ikcp_parse_ack`: what it leaves, and how many segments it takes out. -/
def dropAcked (sn : UInt32) : List Segment → List Segment × Nat
  | [] => ([], 0)
  | seg :: rest =>
    if sn = seg.sn then (rest, 1)
    else if itimediff sn seg.sn < 0 then (seg :: rest, 0)
    else (seg :: (dropAcked sn rest).1, (dropAcked sn rest).2)

def ikcpParseAck (sn : UInt32) (kcp : Kcpcb) : Kcpcb :=
  if itimediff sn kcp.sndUna < 0 ∨ itimediff sn kcp.sndNxt ≥ 0 then kcp
  else
    { kcp with
      sndBuf := (dropAcked sn kcp.sndBuf).1, nsndBuf := kcp.nsndBuf - UInt32.ofNat (dropAcked sn kcp.sndBuf).2 }

/-- The loop of `ikcp_parse_una`. -/
def dropUna (una : UInt32) : List Segment → List Segment × Nat
  | [] => ([], 0)
  | seg :: rest => if itimediff una seg.sn > 0 then ((dropUna una rest).1, (dropUna una rest).2 + 1) else (seg :: rest, 0)

def ikcpParseUna (una : UInt32) (kcp : Kcpcb) : Kcpcb :=
  { kcp with sndBuf := (dropUna una kcp.sndBuf).1, nsndBuf := kcp.nsndBuf - UInt32.ofNat (dropUna una kcp.sndBuf).2 }

/-- The loop of `ikcp_parse_fastack`. -/
def markSkipped (sn : UInt32) : List Segment → List Segment
  | [] => []
  | seg :: rest =>
    if itimediff sn seg.sn < 0 then seg :: rest
    else (if sn ≠ seg.sn then { seg with fastack := seg.fastack + 1 } else seg) :: markSkipped sn rest

def ikcpParseFastack (sn : UInt32) (kcp : Kcpcb) : Kcpcb :=
  if itimediff sn kcp.sndUna < 0 ∨ itimediff sn kcp.sndNxt ≥ 0 then kcp
  else { kcp with sndBuf := markSkipped sn kcp.sndBuf }

def ikcpAckPush (sn ts : UInt32) (kcp : Kcpcb) : Kcpcb := { kcp with acklist := kcp.acklist ++ [(sn, ts)] }

/-! ## Data -/

/-- The search of `ikcp_parse_data`, from the back of the list (here reversed); none for a repeated segment. -/
def insertFromBack (newseg : Segment) : List Segment → Option (List Segment)
  | [] => some [newseg]
  | seg :: before =>
    if seg.sn = newseg.sn then none
    else if itimediff newseg.sn seg.sn > 0 then some (newseg :: seg :: before)
    else (insertFromBack newseg before).map (seg :: ·)

def insertData (newseg : Segment) (kcp : Kcpcb) : Kcpcb :=
  match insertFromBack newseg kcp.rcvBuf.reverse with
  | some reversed => { kcp with rcvBuf := reversed.reverse, nrcvBuf := kcp.nrcvBuf + 1 }
  | none => kcp

def ikcpParseData (newseg : Segment) (kcp : Kcpcb) : Kcpcb :=
  if itimediff newseg.sn (kcp.rcvNxt + kcp.rcvWnd) ≥ 0 ∨ itimediff newseg.sn kcp.rcvNxt < 0 then kcp
  else
    let kcp := insertData newseg kcp
    moveAvailable kcp.rcvBuf.length kcp

/-! ## Input -/

/-- A segment as `ikcp_input` decodes it, with the bytes behind its header. -/
def decodeSeg (data : List UInt8) : Segment :=
  { conv := ikcpDecode32u data
    token := ikcpDecode32u (data.drop 4)
    cmd := (data.getD 8 0).toUInt32
    frg := (data.getD 9 0).toUInt32
    wnd := (ikcpDecode16u (data.drop 10)).toUInt32
    ts := ikcpDecode32u (data.drop 12)
    sn := ikcpDecode32u (data.drop 16)
    una := ikcpDecode32u (data.drop 20)
    data := (data.drop 28).take (ikcpDecode32u (data.drop 24)).toNat }

/-- What the turns of `ikcp_input` know of the acknowledgements so far: the largest number, once there is one. -/
abbrev MaxAck := Option UInt32

def ackSeen (sn : UInt32) : MaxAck → MaxAck
  | none => some sn
  | some maxack => some (if itimediff sn maxack > 0 then sn else maxack)

/-- What every segment tells: the window of its sender, and that everything below `una` has arrived there. -/
def inputUna (seg : Segment) (kcp : Kcpcb) : Kcpcb :=
  ikcpShrinkBuf (ikcpParseUna seg.una { kcp with rmtWnd := seg.wnd })

def inputAck (seg : Segment) (kcp : Kcpcb) : Kcpcb :=
  let rtt := itimediff kcp.current seg.ts
  ikcpShrinkBuf (ikcpParseAck seg.sn (if rtt ≥ 0 then ikcpUpdateAck rtt kcp else kcp))

def inputPush (seg : Segment) (kcp : Kcpcb) : Kcpcb :=
  if itimediff seg.sn (kcp.rcvNxt + kcp.rcvWnd) < 0 then
    let kcp := ikcpAckPush seg.sn seg.ts kcp
    if itimediff seg.sn kcp.rcvNxt ≥ 0 then ikcpParseData seg kcp else kcp
  else kcp

/-- What one turn does with a segment that has passed the checks. -/
def inputSegment (seg : Segment) (kcp : Kcpcb) : Kcpcb :=
  let kcp := inputUna seg kcp
  if seg.cmd = IKCP_CMD_ACK then inputAck seg kcp
  else if seg.cmd = IKCP_CMD_PUSH then inputPush seg kcp
  else if seg.cmd = IKCP_CMD_WASK then askTell kcp
  else kcp

/-- The loop of `ikcp_input`: the code it returns early with, or what it leaves behind. -/
def inputLoop : Nat → List UInt8 → MaxAck → Kcpcb → Int × MaxAck × Kcpcb
  | 0, _, maxack, kcp => (0, maxack, kcp)
  | n + 1, data, maxack, kcp =>
    if data.length < IKCP_OVERHEAD then (0, maxack, kcp)
    else
      let seg := decodeSeg data
      let len := ikcpDecode32u (data.drop 24)
      if seg.conv ≠ kcp.conv then (-1, maxack, kcp)
      else if data.length - IKCP_OVERHEAD < len.toNat ∨ toSigned len < 0 then (-2, maxack, kcp)
      else if seg.token ≠ kcp.token then (-4, maxack, kcp)
      else if seg.cmd ≠ IKCP_CMD_PUSH ∧ seg.cmd ≠ IKCP_CMD_ACK ∧ seg.cmd ≠ IKCP_CMD_WASK ∧ seg.cmd ≠ IKCP_CMD_WINS then
        (-3, maxack, kcp)
      else
        let maxack := if seg.cmd = IKCP_CMD_ACK then ackSeen seg.sn maxack else maxack
        inputLoop n (data.drop (IKCP_OVERHEAD + len.toNat)) maxack (inputSegment seg kcp)

/-- One more segment, or by `mss * mss / incr` once past `ssthresh`. -/
def enlargeCwnd (kcp : Kcpcb) : Kcpcb :=
  let mss := kcp.mss
  if kcp.cwnd < kcp.ssthresh then { kcp with cwnd := kcp.cwnd + 1, incr := kcp.incr + mss }
  else
    let incr := if kcp.incr < mss then mss else kcp.incr
    let incr := incr + (mss * mss / incr + mss / 16)
    { kcp with
      incr, cwnd := if (kcp.cwnd + 1) * mss ≤ incr then (incr + mss - 1) / (if mss > 0 then mss else 1) else kcp.cwnd }

def boundCwnd (kcp : Kcpcb) : Kcpcb :=
  if kcp.cwnd > kcp.rmtWnd then { kcp with cwnd := kcp.rmtWnd, incr := kcp.rmtWnd * kcp.mss } else kcp

/-- The end of `ikcp_input`: the congestion window grows when the oldest unacknowledged number has moved. -/
def growCwnd (prevUna : UInt32) (kcp : Kcpcb) : Kcpcb :=
  if itimediff kcp.sndUna prevUna > 0 ∧ kcp.cwnd < kcp.rmtWnd then boundCwnd (enlargeCwnd kcp) else kcp

def countRx (size : Nat) (kcp : Kcpcb) : Kcpcb := { kcp with rxBytes := kcp.rxBytes + UInt32.ofNat size }

/-- `if (flag != 0) ikcp_parse_fastack` -/
def skipped (maxack : MaxAck) (kcp : Kcpcb) : Kcpcb :=
  match maxack with
  | some sn => ikcpParseFastack sn kcp
  | none => kcp

def ikcpInput (data : List UInt8) (kcp : Kcpcb) : Int × Kcpcb :=
  let prevUna := kcp.sndUna
  let kcp := countRx data.length kcp
  if wrap data.length < IKCP_OVERHEAD then (-1, kcp)
  else
    let (code, maxack, kcp) := inputLoop data.length data none kcp
    if code ≠ 0 then (code, kcp) else (0, growCwnd prevUna (skipped maxack kcp))

/-! ## Flushing -/

/-- What `flush` writes: the bytes from `buffer` to `ptr`, the calls of `output`, and whether it has left the block. -/
structure Out where
  buffer : List UInt8
  datagrams : List (List UInt8)
  txBytes : UInt32
  overrun : Bool
  deriving DecidableEq, Repr

/-- `ikcp_output`, and the pointer back at the start. -/
def ikcpOutput (out : Out) : Out :=
  if out.buffer.length = 0 then out
  else
    { out with
      buffer := [], datagrams := out.datagrams ++ [out.buffer], txBytes := out.txBytes + UInt32.ofNat out.buffer.length }

/-- Make room for so many bytes. -/
def makeRoom (mtu : UInt32) (need : Nat) (out : Out) : Out :=
  if out.buffer.length + need > mtu.toNat then ikcpOutput out else out

def write (capacity : UInt32) (bytes : List UInt8) (out : Out) : Out :=
  { out with
    buffer := out.buffer ++ bytes, overrun := out.overrun || decide (capacity.toNat < (out.buffer ++ bytes).length) }

/-- A segment without data. -/
def putHeader (kcp : Kcpcb) (seg : Segment) (out : Out) : Out :=
  write kcp.capacity (ikcpEncodeSeg seg) (makeRoom kcp.mtu IKCP_OVERHEAD out)

def ikcpWndUnused (kcp : Kcpcb) : UInt32 := if kcp.nrcvQue < kcp.rcvWnd then kcp.rcvWnd - kcp.nrcvQue else 0

/-- `flush acknowledges`: the local `seg` keeps the numbers of the last one. -/
def flushAcks (kcp : Kcpcb) : List (UInt32 × UInt32) → Segment → Out → Segment × Out
  | [], seg, out => (seg, out)
  | (sn, ts) :: rest, seg, out =>
    let seg := { seg with sn, ts }
    flushAcks kcp rest seg (putHeader kcp seg out)

/-- The next time to wait before a probe: half as long again. -/
def longerWait (probeWait : UInt32) : UInt32 :=
  let wait := if probeWait < IKCP_PROBE_INIT then IKCP_PROBE_INIT else probeWait
  if wait + wait / 2 > IKCP_PROBE_LIMIT then IKCP_PROBE_LIMIT else wait + wait / 2

/-- `probe window size (if remote window size equals zero)` -/
def probeWindow (kcp : Kcpcb) : Kcpcb :=
  if kcp.rmtWnd ≠ 0 then { kcp with tsProbe := 0, probeWait := 0 }
  else if kcp.probeWait = 0 then { kcp with probeWait := IKCP_PROBE_INIT, tsProbe := kcp.current + IKCP_PROBE_INIT }
  else if itimediff kcp.current kcp.tsProbe ≥ 0 then
    let wait := longerWait kcp.probeWait
    { kcp with probeWait := wait, tsProbe := kcp.current + wait, probe := kcp.probe ||| IKCP_ASK_SEND }
  else kcp

/-- `flush window probing commands`: one of the two. -/
def flushProbe (kcp : Kcpcb) (flag cmd : UInt32) (probed : Segment × Out) : Segment × Out :=
  if kcp.probe &&& flag ≠ 0 then ({ probed.1 with cmd }, putHeader kcp { probed.1 with cmd } probed.2) else probed

/-- A segment as it goes to `snd_buf`. -/
def numbered (kcp : Kcpcb) (wnd : UInt32) (newseg : Segment) : Segment :=
  { newseg with
    conv := kcp.conv, token := kcp.token, cmd := IKCP_CMD_PUSH, wnd, ts := kcp.current, sn := kcp.sndNxt,
    una := kcp.rcvNxt, resendts := kcp.current, rto := toUnsigned kcp.rxRto, fastack := 0, xmit := 0 }

/-- `move data from snd_queue to snd_buf`, for as many turns as `snd_queue` has segments. -/
def moveToBuf (cwnd wnd : UInt32) : Nat → Kcpcb → Kcpcb
  | 0, kcp => kcp
  | n + 1, kcp =>
    if itimediff kcp.sndNxt (kcp.sndUna + cwnd) < 0 then
      match kcp.sndQueue with
      | [] => kcp
      | newseg :: rest =>
        moveToBuf cwnd wnd n { kcp with
          sndQueue := rest, sndBuf := kcp.sndBuf ++ [numbered kcp wnd newseg], nsndQue := kcp.nsndQue - 1, nsndBuf := kcp.nsndBuf + 1,
          sndNxt := kcp.sndNxt + 1 }
    else kcp

/-- Why a segment is sent in this round. -/
inductive Resend where
  | no
  | first
  | timeout
  | fast
  deriving DecidableEq, Repr

def needsend (kcp : Kcpcb) (resent : UInt32) (segment : Segment) : Resend :=
  if segment.xmit = 0 then .first
  else if itimediff kcp.current segment.resendts ≥ 0 then .timeout
  else if segment.fastack ≥ resent ∧ (toSigned segment.xmit ≤ kcp.fastlimit ∨ kcp.fastlimit ≤ 0) then .fast
  else .no

/-- The segment's timers after the decision. -/
def retime (kcp : Kcpcb) (rtomin : UInt32) (segment : Segment) : Resend → Segment
  | .no => segment
  | .first =>
    { segment with
      xmit := segment.xmit + 1, rto := toUnsigned kcp.rxRto, resendts := kcp.current + toUnsigned kcp.rxRto + rtomin }
  | .timeout =>
    let rto :=
      if kcp.nodelay = 0 then segment.rto + imax segment.rto (toUnsigned kcp.rxRto)
      else segment.rto + toUnsigned ((if kcp.nodelay < 2 then toSigned segment.rto else kcp.rxRto).tdiv 2)
    { segment with xmit := segment.xmit + 1, rto, resendts := kcp.current + rto }
  | .fast => { segment with xmit := segment.xmit + 1, fastack := 0, resendts := kcp.current + segment.rto }

/-- What `flush data segments` changes besides the segments and the bytes. -/
structure Flushed where
  out : Out
  sndBuf : List Segment
  change : Nat
  lost : Bool
  xmit : UInt32
  pktsLost : UInt32
  pktsSent : UInt32
  state : UInt32
  deriving DecidableEq, Repr

/-- One turn of `flush data segments`. -/
def flushSegment (kcp : Kcpcb) (wnd resent rtomin : UInt32) (segment : Segment) (f : Flushed) : Flushed :=
  let why := needsend kcp resent segment
  if why = .no then { f with sndBuf := f.sndBuf ++ [segment] }
  else
    let segment := { retime kcp rtomin segment why with ts := kcp.current, wnd, una := kcp.rcvNxt }
    let out := makeRoom kcp.mtu (IKCP_OVERHEAD + segment.data.length) f.out
    { out := write kcp.capacity segment.data (write kcp.capacity (ikcpEncodeSeg segment) out)
      sndBuf := f.sndBuf ++ [segment]
      change := if why = .fast then f.change + 1 else f.change
      lost := f.lost || decide (why = .timeout)
      xmit := if why = .timeout then f.xmit + 1 else f.xmit
      pktsLost := if why = .timeout then f.pktsLost + 1 else f.pktsLost
      pktsSent := f.pktsSent + 1
      state := if segment.xmit ≥ kcp.deadLink then 0xffffffff else f.state }

def flushData (kcp : Kcpcb) (wnd resent rtomin : UInt32) : List Segment → Flushed → Flushed
  | [], f => f
  | segment :: rest, f => flushData kcp wnd resent rtomin rest (flushSegment kcp wnd resent rtomin segment f)

def atLeastThresh (ssthresh : UInt32) : UInt32 := if ssthresh < IKCP_THRESH_MIN then IKCP_THRESH_MIN else ssthresh

/-- `update ssthresh`, after a fast resend. -/
def afterFast (resent : UInt32) (kcp : Kcpcb) : Kcpcb :=
  let ssthresh := atLeastThresh ((kcp.sndNxt - kcp.sndUna) / 2)
  { kcp with ssthresh, cwnd := ssthresh + resent, incr := (ssthresh + resent) * kcp.mss }

/-- The same after a timeout. -/
def afterLoss (cwnd : UInt32) (kcp : Kcpcb) : Kcpcb :=
  { kcp with ssthresh := atLeastThresh (cwnd / 2), cwnd := 1, incr := kcp.mss }

def atLeastOne (kcp : Kcpcb) : Kcpcb := if kcp.cwnd < 1 then { kcp with cwnd := 1, incr := kcp.mss } else kcp

def updateSsthresh (cwnd resent : UInt32) (change : Nat) (lost : Bool) (kcp : Kcpcb) : Kcpcb :=
  let kcp := if change ≠ 0 then afterFast resent kcp else kcp
  atLeastOne (if lost then afterLoss cwnd kcp else kcp)

/-- `calculate window size` -/
def sendWindow (kcp : Kcpcb) : UInt32 :=
  let cwnd := imin kcp.sndWnd kcp.rmtWnd
  if kcp.nocwnd = 0 then imin kcp.cwnd cwnd else cwnd

/-- `ikcp_flush`, with the calls of `output` in order, and whether it has written behind its block. -/
def ikcpFlush (kcp : Kcpcb) : Kcpcb × List (List UInt8) × Bool :=
  if kcp.updated = 0 then (kcp, [], false)
  else
    let wnd := ikcpWndUnused kcp
    let seg : Segment :=
      { conv := kcp.conv, token := kcp.token, cmd := IKCP_CMD_ACK, wnd, una := kcp.rcvNxt }
    let acks := flushAcks kcp kcp.acklist seg ⟨[], [], kcp.txBytes, false⟩
    let kcp := probeWindow { kcp with acklist := [] }
    let probes := flushProbe kcp IKCP_ASK_TELL IKCP_CMD_WINS (flushProbe kcp IKCP_ASK_SEND IKCP_CMD_WASK acks)
    let kcp := { kcp with probe := 0 }
    let cwnd := sendWindow kcp
    let kcp := moveToBuf cwnd wnd kcp.sndQueue.length kcp
    let resent := if kcp.fastresend > 0 then toUnsigned kcp.fastresend else 0xffffffff
    let rtomin := if kcp.nodelay = 0 then toUnsigned (kcp.rxRto >>> 3) else 0
    let f := flushData kcp wnd resent rtomin kcp.sndBuf
      ⟨probes.2, [], 0, false, kcp.xmit, kcp.pktsLost, kcp.pktsSent, kcp.state⟩
    let out := ikcpOutput f.out
    let kcp := { kcp with
      sndBuf := f.sndBuf, xmit := f.xmit, pktsLost := f.pktsLost, pktsSent := f.pktsSent, state := f.state,
      txBytes := out.txBytes }
    (updateSsthresh cwnd resent f.change f.lost kcp, out.datagrams, out.overrun)

/-! ## The clock -/

def ikcpUpdateBandwidth (kcp : Kcpcb) : Kcpcb :=
  let slap := itimediff kcp.current kcp.bandwithEpoch
  if slap ≥ 10000 ∨ slap < -10000 then { kcp with bandwithEpoch := kcp.current, rxBytes := 0, txBytes := 0 }
  else if slap ≥ IKCP_BANDWITH_INTERVAL then
    { kcp with
      rxBandwidth := kcp.rxBytes * 1000 / toUnsigned slap, txBandwidth := kcp.txBytes * 1000 / toUnsigned slap,
      bandwithEpoch := kcp.current, rxBytes := 0, txBytes := 0 }
  else kcp

def ikcpUpdatePktloss (kcp : Kcpcb) : Kcpcb :=
  let slap := itimediff kcp.current kcp.pktLossEpoch
  if slap ≥ 10000 ∨ slap < -10000 then { kcp with pktLossEpoch := kcp.current, pktsSent := 0, pktsLost := 0 }
  else if slap ≥ IKCP_PKT_LOSS_INTERVAL then
    { kcp with
      pktLoss := if kcp.pktsSent ≠ 0 then kcp.pktsLost * 100 / kcp.pktsSent else 0,
      pktLossEpoch := kcp.current, pktsSent := 0, pktsLost := 0 }
  else kcp

/-- `ikcp_update` up to the time of the next flush. -/
def startClock (current : UInt32) (kcp : Kcpcb) : Kcpcb :=
  if kcp.updated = 0 then { kcp with current, updated := 1, tsFlush := current } else { kcp with current }

/-- A time of the next flush that is far away counts for nothing. -/
def resync (kcp : Kcpcb) : Kcpcb :=
  let slap := itimediff kcp.current kcp.tsFlush
  if slap ≥ 10000 ∨ slap < -10000 then { kcp with tsFlush := kcp.current } else kcp

/-- The time of the flush after this one. -/
def nextFlush (kcp : Kcpcb) : Kcpcb :=
  let tsFlush := kcp.tsFlush + kcp.interval
  { kcp with tsFlush := if itimediff kcp.current tsFlush ≥ 0 then kcp.current + kcp.interval else tsFlush }

def flushDue (kcp : Kcpcb) : Bool := decide (itimediff kcp.current kcp.tsFlush ≥ 0)

def ikcpUpdate (current : UInt32) (kcp : Kcpcb) : Kcpcb × List (List UInt8) × Bool :=
  let kcp := resync (startClock current kcp)
  let (kcp, datagrams, overrun) := if flushDue kcp then ikcpFlush (nextFlush kcp) else (kcp, [], false)
  (ikcpUpdatePktloss (ikcpUpdateBandwidth kcp), datagrams, overrun)

/-- The loop of `ikcp_check`: the nearest time of sending, none once one is due. -/
def nearestResend (current : UInt32) : List Segment → Int → Option Int
  | [], tmPacket => some tmPacket
  | seg :: rest, tmPacket =>
    let diff := itimediff seg.resendts current
    if diff ≤ 0 then none else nearestResend current rest (if diff < tmPacket then diff else tmPacket)

def ikcpCheck (kcp : Kcpcb) (current : UInt32) : UInt32 :=
  if kcp.updated = 0 then current
  else
    let tsFlush := if itimediff current kcp.tsFlush ≥ 10000 ∨ itimediff current kcp.tsFlush < -10000 then current
      else kcp.tsFlush
    if itimediff current tsFlush ≥ 0 then current
    else
      let tmFlush := itimediff tsFlush current
      match nearestResend current kcp.sndBuf 0x7fffffff with
      | none => current
      | some tmPacket =>
        let minimal := toUnsigned (if tmPacket < tmFlush then tmPacket else tmFlush)
        current + (if minimal ≥ kcp.interval then kcp.interval else minimal)

def ikcpWaitsnd (kcp : Kcpcb) : Int := toSigned (kcp.nsndBuf + kcp.nsndQue)

end Dbase.Net.Ikcp
