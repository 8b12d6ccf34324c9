/-
  Dbase.Net.IkcpWire — segments on the wire: what `ikcp_input` makes of what `ikcp_flush` writes.

  `wire segs` is a datagram: header and data of each segment, one behind the other. `received` is a segment as the other end
  decodes it; what does not fit a field of the header is cut off.

  Proved:
  (1) `decodeSeg_wire`: the segment at the front of the bytes is decoded, whatever stands behind it.
  (2) `inputLoop_wire`, `ikcpInput_wire`: a datagram of segments of one's own conversation is taken whole, one segment after
      the other, and the result is 0.
  (3) `ikcpInput_foreign`: a datagram whose first header is another conversation's, or none, changes nothing.
-/

import Dbase.Net.IkcpParts

namespace Dbase.Net.Ikcp

open Dbase.Lib.Bytes

/-! ## Fields -/

@[simp] theorem length_encode16u (w : UInt16) : (ikcpEncode16u w).length = 2 := length_leEncode _ _

@[simp] theorem length_encode32u (l : UInt32) : (ikcpEncode32u l).length = 4 := length_leEncode _ _

theorem decode16u_encode16u (w : UInt16) (rest : List UInt8) : ikcpDecode16u (ikcpEncode16u w ++ rest) = w := by
  unfold ikcpDecode16u
  rw [List.take_left' (length_encode16u w), ikcpEncode16u, leDecode_leEncode w.toNat_lt, UInt16.ofNat_toNat]

theorem decode32u_encode32u (l : UInt32) (rest : List UInt8) : ikcpDecode32u (ikcpEncode32u l ++ rest) = l := by
  unfold ikcpDecode32u
  rw [List.take_left' (length_encode32u l), ikcpEncode32u, leDecode_leEncode l.toNat_lt, UInt32.ofNat_toNat]

@[simp] theorem length_encodeSeg (seg : Segment) : (ikcpEncodeSeg seg).length = IKCP_OVERHEAD := by
  simp [ikcpEncodeSeg, IKCP_OVERHEAD]

/-! ## Segments -/

/-- A segment as the other end decodes it. -/
def received (seg : Segment) : Segment :=
  { conv := seg.conv, token := seg.token, cmd := seg.cmd.toUInt8.toUInt32, frg := seg.frg.toUInt8.toUInt32,
    wnd := seg.wnd.toUInt16.toUInt32, ts := seg.ts, sn := seg.sn, una := seg.una, data := seg.data }

def wire (segs : List Segment) : List UInt8 := segs.flatMap fun seg => ikcpEncodeSeg seg ++ seg.data

@[simp] theorem wire_nil : wire [] = [] := rfl

@[simp] theorem wire_cons (seg : Segment) (segs : List Segment) :
    wire (seg :: segs) = ikcpEncodeSeg seg ++ (seg.data ++ wire segs) := by
  simp [wire]

@[simp] theorem wire_append (xs ys : List Segment) : wire (xs ++ ys) = wire xs ++ wire ys := by
  simp [wire]

/-- A field behind so many bytes. -/
theorem decode32u_behind (front : List UInt8) {n : Nat} (h : front.length = n) (l : UInt32) (rest : List UInt8) :
    ikcpDecode32u ((front ++ (ikcpEncode32u l ++ rest)).drop n) = l := by
  rw [List.drop_left' h, decode32u_encode32u]

theorem decode16u_behind (front : List UInt8) {n : Nat} (h : front.length = n) (w : UInt16) (rest : List UInt8) :
    ikcpDecode16u ((front ++ (ikcpEncode16u w ++ rest)).drop n) = w := by
  rw [List.drop_left' h, decode16u_encode16u]

/-- The header, up to the window. -/
def head (seg : Segment) : List UInt8 :=
  ikcpEncode32u seg.conv ++ ikcpEncode32u seg.token ++ [seg.cmd.toUInt8] ++ [seg.frg.toUInt8]

theorem length_head (seg : Segment) : (head seg).length = 10 := by simp [head]

theorem encodeSeg_head (seg : Segment) : ikcpEncodeSeg seg = head seg ++ (ikcpEncode16u seg.wnd.toUInt16 ++
    (ikcpEncode32u seg.ts ++ (ikcpEncode32u seg.sn ++ (ikcpEncode32u seg.una ++ ikcpEncode32u seg.len)))) := by
  simp [ikcpEncodeSeg, head]

/-- The number of the data bytes, read from the header. -/
theorem len_field (seg : Segment) (rest : List UInt8) (h : seg.data.length < 2 ^ 32) :
    (ikcpDecode32u ((ikcpEncodeSeg seg ++ rest).drop 24)).toNat = seg.data.length := by
  have e := decode32u_behind (head seg ++ (ikcpEncode16u seg.wnd.toUInt16 ++ (ikcpEncode32u seg.ts ++
    (ikcpEncode32u seg.sn ++ ikcpEncode32u seg.una)))) (n := 24) (by simp [length_head]) seg.len rest
  simp only [List.append_assoc] at e
  simp only [encodeSeg_head, List.append_assoc]
  rw [e, Segment.len, UInt32.toNat_ofNat', Nat.mod_eq_of_lt h]

theorem decodeSeg_wire (seg : Segment) (rest : List UInt8) (h : seg.data.length < 2 ^ 32) :
    decodeSeg (ikcpEncodeSeg seg ++ (seg.data ++ rest)) = received seg := by
  have hdata : ((ikcpEncodeSeg seg ++ (seg.data ++ rest)).drop 28).take seg.data.length = seg.data := by
    rw [List.drop_left' (show (ikcpEncodeSeg seg).length = 28 from length_encodeSeg seg), List.take_left' rfl]
  have hconv := decode32u_encode32u seg.conv (ikcpEncode32u seg.token ++ ([seg.cmd.toUInt8] ++ ([seg.frg.toUInt8] ++
    (ikcpEncode16u seg.wnd.toUInt16 ++ (ikcpEncode32u seg.ts ++ (ikcpEncode32u seg.sn ++ (ikcpEncode32u seg.una ++
    (ikcpEncode32u seg.len ++ (seg.data ++ rest)))))))))
  have htoken := decode32u_behind (ikcpEncode32u seg.conv) (n := 4) (by simp) seg.token ([seg.cmd.toUInt8] ++
    ([seg.frg.toUInt8] ++ (ikcpEncode16u seg.wnd.toUInt16 ++ (ikcpEncode32u seg.ts ++ (ikcpEncode32u seg.sn ++
    (ikcpEncode32u seg.una ++ (ikcpEncode32u seg.len ++ (seg.data ++ rest))))))))
  have hwnd := decode16u_behind (head seg) (length_head seg) seg.wnd.toUInt16 (ikcpEncode32u seg.ts ++
    (ikcpEncode32u seg.sn ++ (ikcpEncode32u seg.una ++ (ikcpEncode32u seg.len ++ (seg.data ++ rest)))))
  have hts := decode32u_behind (head seg ++ ikcpEncode16u seg.wnd.toUInt16) (n := 12) (by simp [length_head]) seg.ts
    (ikcpEncode32u seg.sn ++ (ikcpEncode32u seg.una ++ (ikcpEncode32u seg.len ++ (seg.data ++ rest))))
  have hsn := decode32u_behind (head seg ++ (ikcpEncode16u seg.wnd.toUInt16 ++ ikcpEncode32u seg.ts)) (n := 16)
    (by simp [length_head]) seg.sn (ikcpEncode32u seg.una ++ (ikcpEncode32u seg.len ++ (seg.data ++ rest)))
  have huna := decode32u_behind (head seg ++ (ikcpEncode16u seg.wnd.toUInt16 ++ (ikcpEncode32u seg.ts ++
    ikcpEncode32u seg.sn))) (n := 20) (by simp [length_head]) seg.una (ikcpEncode32u seg.len ++ (seg.data ++ rest))
  have hcmd : (ikcpEncodeSeg seg ++ (seg.data ++ rest)).getD 8 0 = seg.cmd.toUInt8 := by
    simp [ikcpEncodeSeg, List.getElem?_append]
  have hfrg : (ikcpEncodeSeg seg ++ (seg.data ++ rest)).getD 9 0 = seg.frg.toUInt8 := by
    simp [ikcpEncodeSeg, List.getElem?_append]
  unfold decodeSeg received
  rw [len_field seg _ h, hdata, hcmd, hfrg]
  simp only [encodeSeg_head, head, List.append_assoc] at hconv htoken hwnd hts hsn huna ⊢
  rw [hconv, htoken, hwnd, hts, hsn, huna]

/-! ## Datagrams -/

/-- A segment of one's own conversation, with a command and data that the loop accepts. -/
structure Accepted (kcp : Kcpcb) (seg : Segment) : Prop where
  conv : seg.conv = kcp.conv
  token : seg.token = kcp.token
  cmd : seg.cmd = IKCP_CMD_PUSH ∨ seg.cmd = IKCP_CMD_ACK ∨ seg.cmd = IKCP_CMD_WASK ∨ seg.cmd = IKCP_CMD_WINS
  small : seg.data.length < 2 ^ 31

theorem received_cmd {seg : Segment}
    (h : seg.cmd = IKCP_CMD_PUSH ∨ seg.cmd = IKCP_CMD_ACK ∨ seg.cmd = IKCP_CMD_WASK ∨ seg.cmd = IKCP_CMD_WINS) :
    (received seg).cmd = seg.cmd := by
  unfold received
  rcases h with h | h | h | h <;> rw [h] <;> rfl

def ackFold (segs : List Segment) (maxack : MaxAck) : MaxAck :=
  segs.foldl (fun maxack seg => if seg.cmd = IKCP_CMD_ACK then ackSeen seg.sn maxack else maxack) maxack

def inputAll (segs : List Segment) (kcp : Kcpcb) : Kcpcb := segs.foldl (fun kcp seg => inputSegment seg kcp) kcp

theorem inputLoop_wire {segs : List Segment} {n : Nat} (hn : segs.length < n) {kcp : Kcpcb} (maxack : MaxAck)
    (h : ∀ seg ∈ segs, Accepted kcp seg) :
    inputLoop n (wire segs) maxack kcp = (0, ackFold (segs.map received) maxack, inputAll (segs.map received) kcp) := by
  induction segs generalizing n maxack kcp with
  | nil =>
    obtain ⟨m, rfl⟩ := Nat.exists_eq_succ_of_ne_zero (Nat.ne_of_gt hn)
    simp [inputLoop, IKCP_OVERHEAD, ackFold, inputAll]
  | cons seg segs ih =>
    obtain ⟨m, rfl⟩ := Nat.exists_eq_succ_of_ne_zero (Nat.ne_of_gt (Nat.zero_lt_of_lt hn))
    have hseg := h seg List.mem_cons_self
    have hsmall : seg.data.length < 2 ^ 32 := Nat.lt_trans hseg.small (by decide)
    have hlen : (wire (seg :: segs)).length = IKCP_OVERHEAD + (seg.data.length + (wire segs).length) := by simp
    have hdec : decodeSeg (wire (seg :: segs)) = received seg := by
      rw [wire_cons]
      exact decodeSeg_wire seg _ hsmall
    have hfield : (ikcpDecode32u ((wire (seg :: segs)).drop 24)).toNat = seg.data.length := by
      rw [wire_cons]
      exact len_field seg _ hsmall
    have hrest : (wire (seg :: segs)).drop (IKCP_OVERHEAD + seg.data.length) = wire segs := by
      rw [wire_cons, ← List.append_assoc]
      exact List.drop_left' (by simp)
    have hcmd := received_cmd hseg.cmd
    have hsign : ¬ toSigned (ikcpDecode32u ((wire (seg :: segs)).drop 24)) < 0 := by
      unfold toSigned
      rw [Dbase.Lib.Serial.toInt_of_lt (by rw [hfield]; exact hseg.small), hfield]
      omega
    have hstep : inputLoop (m + 1) (wire (seg :: segs)) maxack kcp = inputLoop m (wire segs)
        (if (received seg).cmd = IKCP_CMD_ACK then ackSeen (received seg).sn maxack else maxack)
        (inputSegment (received seg) kcp) := by
      rw [inputLoop, if_neg (by omega)]
      dsimp only
      have hconv : (received seg).conv = kcp.conv := hseg.conv
      have htoken : (received seg).token = kcp.token := hseg.token
      have hknown : ¬ ((received seg).cmd ≠ IKCP_CMD_PUSH ∧ (received seg).cmd ≠ IKCP_CMD_ACK ∧
          (received seg).cmd ≠ IKCP_CMD_WASK ∧ (received seg).cmd ≠ IKCP_CMD_WINS) := by
        rw [hcmd]
        intro hnone
        rcases hseg.cmd with h | h | h | h
        · exact hnone.1 h
        · exact hnone.2.1 h
        · exact hnone.2.2.1 h
        · exact hnone.2.2.2 h
      rw [hdec, if_neg (not_not_intro hconv), if_neg (by rw [hfield]; exact not_or.mpr ⟨by omega, hsign⟩),
        if_neg (not_not_intro htoken), if_neg hknown, hfield, hrest]
    have hfixed := inputSegment_fixed kcp (received seg)
    rw [hstep, ih (by simpa using hn) _ ?_]
    · rfl
    · intro seg' hseg'
      have hold := h seg' (List.mem_cons_of_mem _ hseg')
      exact ⟨hold.conv.trans (congrArg Fixed.conv hfixed).symm, hold.token.trans (congrArg Fixed.token hfixed).symm,
        hold.cmd, hold.small⟩

theorem length_wire_ge {segs : List Segment} (h : segs ≠ []) : IKCP_OVERHEAD ≤ (wire segs).length := by
  obtain ⟨seg, rest, rfl⟩ := List.exists_cons_of_ne_nil h
  rw [wire_cons, List.length_append, length_encodeSeg]
  exact Nat.le_add_right _ _

theorem length_le_length_wire (segs : List Segment) : segs.length ≤ (wire segs).length := by
  induction segs with
  | nil => exact Nat.le_refl _
  | cons seg segs ih =>
    have h : 1 ≤ IKCP_OVERHEAD := by decide
    rw [wire_cons, List.length_append, length_encodeSeg, List.length_append, List.length_cons]
    omega

theorem ikcpInput_wire {segs : List Segment} {kcp : Kcpcb} (hne : segs ≠ []) (hsize : (wire segs).length < 2 ^ 31)
    (h : ∀ seg ∈ segs, Accepted kcp seg) :
    ikcpInput (wire segs) kcp = (0, growCwnd kcp.sndUna (skipped (ackFold (segs.map received) none)
      (inputAll (segs.map received) (countRx (wire segs).length kcp)))) := by
  have hlen := length_wire_ge hne
  have hwrap : ¬ wrap (wire segs).length < IKCP_OVERHEAD := by
    unfold wrap
    rw [Int.bmod_eq_of_le (by omega) (by omega)]
    omega
  have hcount : segs.length < (wire segs).length := by
    obtain ⟨seg, rest, rfl⟩ := List.exists_cons_of_ne_nil hne
    have hrest := length_le_length_wire rest
    have htwo : 2 ≤ IKCP_OVERHEAD := by decide
    rw [wire_cons, List.length_append, List.length_append, length_encodeSeg, List.length_cons]
    omega
  have haccepted : ∀ seg ∈ segs, Accepted (countRx (wire segs).length kcp) seg :=
    fun seg hs => ⟨(h seg hs).conv, (h seg hs).token, (h seg hs).cmd, (h seg hs).small⟩
  unfold ikcpInput
  dsimp only
  rw [if_neg hwrap, inputLoop_wire hcount none haccepted]
  rfl

/-- The first header of a datagram is not one of this end's conversation. -/
def Foreign (kcp : Kcpcb) (data : List UInt8) : Prop :=
  data.length < IKCP_OVERHEAD ∨ (decodeSeg data).conv ≠ kcp.conv ∨ (decodeSeg data).token ≠ kcp.token

instance (kcp : Kcpcb) (data : List UInt8) : Decidable (Foreign kcp data) := by unfold Foreign; infer_instance

theorem inputLoop_foreign {kcp : Kcpcb} {data : List UInt8} (h : Foreign kcp data) (hlen : IKCP_OVERHEAD ≤ data.length)
    (n : Nat) (maxack : MaxAck) : ∃ code, (code = -1 ∨ code = -2 ∨ code = -4) ∧
      inputLoop (n + 1) data maxack kcp = (code, maxack, kcp) := by
  rw [inputLoop, if_neg (by omega)]
  dsimp only
  by_cases hconv : (decodeSeg data).conv ≠ kcp.conv
  · exact ⟨-1, .inl rfl, if_pos hconv⟩
  rw [if_neg hconv]
  by_cases hbytes : data.length - IKCP_OVERHEAD < (ikcpDecode32u (data.drop 24)).toNat ∨
      toSigned (ikcpDecode32u (data.drop 24)) < 0
  · exact ⟨-2, .inr (.inl rfl), if_pos hbytes⟩
  rw [if_neg hbytes]
  have htoken : (decodeSeg data).token ≠ kcp.token := by
    rcases h with h | h | h
    · omega
    · exact absurd h hconv
    · exact h
  exact ⟨-4, .inr (.inr rfl), if_pos htoken⟩

/-- It is refused, and only counted. -/
theorem ikcpInput_foreign {kcp : Kcpcb} {data : List UInt8} (h : Foreign kcp data) (hsize : data.length < 2 ^ 31) :
    ∃ code < 0, ikcpInput data kcp = (code, countRx data.length kcp) := by
  have hwrap : wrap data.length = data.length := by
    unfold wrap
    exact Int.bmod_eq_of_le (by omega) (by omega)
  unfold ikcpInput
  dsimp only
  rw [hwrap]
  by_cases hshort : (data.length : Int) < IKCP_OVERHEAD
  · exact ⟨-1, by decide, if_pos hshort⟩
  rw [if_neg hshort]
  obtain ⟨n, hn⟩ : ∃ n, data.length = n + 1 := Nat.exists_eq_succ_of_ne_zero (by unfold IKCP_OVERHEAD at hshort; omega)
  have hforeign : Foreign (countRx data.length kcp) data := h
  obtain ⟨code, hcode, hloop⟩ := inputLoop_foreign hforeign (by omega) n none
  rw [← hn] at hloop
  rw [hloop]
  rcases hcode with rfl | rfl | rfl
  · exact ⟨-1, by decide, rfl⟩
  · exact ⟨-2, by decide, rfl⟩
  · exact ⟨-4, by decide, rfl⟩

end Dbase.Net.Ikcp
