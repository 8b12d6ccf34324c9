/-
  Dbase.Time.TimerWheelProofs — the wheels as an odometer, and what a timer's slot says.

  The wheels show the number of steps so far (`Lib.Odometer`). A timer linked into wheel `w`
  will be reached when wheel `w` has made `q` moves, and is then `timeout_` ticks early; so its
  slot and `timeout_` say when it is due (`Sits`). `Good` collects this for every timer, beside
  the deadlines the history so far has left pending (`Lib.Deadlines`).

  Proved: registration, unregistration, cascading, firing and the moves of the wheels keep
  `Good`, with the history one that the abstract service accepts (`act_ok`, `drain_ok`, `turn_ok`,
  `step_ok`).
-/

import Dbase.Lib.Deadlines
import Dbase.Lib.Odometer
import Dbase.Time.TimerWheel

namespace Dbase.Time.TimerWheel

open Dbase.Lib Dbase.Lib.Word
open Dbase.Lib.Odometer (low pos reading)

/-! ## The geometry of the wheels -/

/-- The ticks one slot of a wheel stands for. -/
abbrev base (w : Nat) : Nat := Odometer.base elementCntPerWheel w

theorem cnt_eq (j : Nat) : elementCntPerWheel j = if j = 0 then 256 else 64 := by
  match j with
  | 0 | 1 | 2 | 3 | 4 => rfl
  | _ + 5 => rfl

theorem cnt_pos (j : Nat) : 0 < elementCntPerWheel j := by
  rw [cnt_eq]; split <;> omega

theorem base_pos (j : Nat) : 0 < base j := Odometer.base_pos cnt_pos j

theorem baseTick_eq {w : Nat} (h : w < 5) : baseTickPerWheel w = base w := by
  match w, h with
  | 0, _ | 1, _ | 2, _ | 3, _ | 4, _ => rfl

theorem base_five : base 5 = 2 ^ 32 := rfl

theorem base_le_four {w : Nat} (h : w < 5) : base w ≤ 2 ^ 26 := Odometer.base_le cnt_pos (show w ≤ 4 by omega)

theorem base_succ (w : Nat) : base (w + 1) = base w * elementCntPerWheel w := rfl

/-- A span holds at least twice the span below it. -/
theorem two_base_le (w : Nat) : 2 * base w ≤ base (w + 1) := by
  have hc : 2 ≤ elementCntPerWheel w := by rw [cnt_eq]; split <;> omega
  rw [base_succ, Nat.mul_comm]
  exact Nat.mul_le_mul_left _ hc

theorem shift_eq (x w : Nat) : x >>> rightShiftPerWheel w = x / elementCntPerWheel w := by
  rw [Nat.shiftRight_eq_div_pow]
  match w with
  | 0 | 1 | 2 | 3 | 4 => rfl
  | _ + 5 => rfl

/-! ## Where a timeout goes -/

/-- `left` on arrival at wheel `w`. -/
def leftAt (d : Nat → Nat) (T w : Nat) : Nat := if w = 0 then T else T - base w + low elementCntPerWheel d w

/-- One turn of the loop takes `left` to the next wheel. -/
theorem leftAt_succ {d : Nat → Nat} (hd : ∀ j, d j < elementCntPerWheel j) {T w : Nat} (hw : w < 4) (hT : T < 2 ^ 32)
    (h : base (w + 1) ≤ T) :
    wsub 32 (leftAt d T w) (wmul 32 (baseTickPerWheel w)
      (wsub 32 (wsub 32 (elementCntPerWheel w) (d w)) (if w = 0 then 0 else 1))) = leftAt d T (w + 1) := by
  have hdw := hd w
  have hlow : low elementCntPerWheel d w < base w := Odometer.low_lt hd w
  have hcnt : elementCntPerWheel w ≤ 256 := by rw [cnt_eq]; split <;> omega
  have hb := base_le_four (show w < 5 by omega)
  have hb1 := base_le_four (show w + 1 < 5 by omega)
  have hpos := base_pos w
  have e1 : wsub 32 (elementCntPerWheel w) (d w) = elementCntPerWheel w - d w := wsub_eq (by omega) (by omega)
  have e2 : wsub 32 (elementCntPerWheel w - d w) (if w = 0 then 0 else 1) =
      elementCntPerWheel w - d w - (if w = 0 then 0 else 1) := wsub_eq (by split <;> omega) (by omega)
  have hmul : base w * (elementCntPerWheel w - d w - (if w = 0 then 0 else 1)) ≤ base (w + 1) := by
    rw [base_succ]
    exact Nat.mul_le_mul_left _ (by omega)
  rw [e1, e2, baseTick_eq (by omega), wmul_eq (by omega)]
  unfold leftAt
  by_cases h0 : w = 0
  · subst h0
    simp only [if_true, Nat.sub_zero, Nat.add_eq_zero_iff, one_ne_zero, and_false, if_false]
    have hb0 : base 0 = 1 := rfl
    have hb1' : base (0 + 1) = 256 := rfl
    have hc0 : elementCntPerWheel 0 = 256 := rfl
    have hl1 : low elementCntPerWheel d (0 + 1) = d 0 := by simp [low, Odometer.base]
    rw [hb0, Nat.one_mul, hl1, wsub_eq (by omega) hT]
    omega
  · rw [if_neg h0, if_neg h0, if_neg (by omega)]
    have hsplit : base w * (elementCntPerWheel w - d w - 1) + base w + base w * d w = base (w + 1) := by
      rw [base_succ]
      obtain ⟨k, hk⟩ : ∃ k, elementCntPerWheel w = d w + 1 + k := ⟨elementCntPerWheel w - d w - 1, by omega⟩
      rw [hk, show d w + 1 + k - d w - 1 = k by omega]
      ring
    have hlow' : low elementCntPerWheel d (w + 1) = low elementCntPerWheel d w + base w * d w := rfl
    rw [if_neg h0] at hmul
    rw [hlow', wsub_eq (by omega) (by omega)]
    omega

theorem climb_spec {d : Nat → Nat} (hd : ∀ j, d j < elementCntPerWheel j) {T : Nat} (hT : T < 2 ^ 32) (n : Nat) :
    ∀ w, w < 5 → 5 ≤ n + w → base w ≤ T →
      ∃ v, v < 5 ∧ base v ≤ T ∧ T < base (v + 1) ∧
        climb d n w (T / base w) (leftAt d T w) = (v, T / base v, leftAt d T v) := by
  induction n with
  | zero => intro w hw hn _; omega
  | succ n ih =>
    intro w hw hn hb
    have hiff : elementCntPerWheel w ≤ T / base w ↔ base (w + 1) ≤ T := by
      rw [Nat.le_div_iff_mul_le (base_pos w), base_succ, Nat.mul_comm]
    unfold climb
    by_cases h : w + 1 < wheelCnt ∧ elementCntPerWheel w ≤ T / base w
    · have hw4 : w < 4 := by have := h.1; unfold wheelCnt at this; omega
      have hb1 := hiff.mp h.2
      rw [if_pos h, leftAt_succ hd hw4 hT hb1, shift_eq, Nat.div_div_eq_div_mul]
      exact ih (w + 1) (by omega) (by omega) hb1
    · rw [if_neg h]
      refine ⟨w, hw, hb, ?_, rfl⟩
      by_cases hw4 : w = 4
      · subst hw4
        rw [base_five]; exact hT
      · have : ¬ base (w + 1) ≤ T := fun hc => h ⟨by unfold wheelCnt; omega, hiff.mpr hc⟩
        omega

/-- `left` once the wheel is found: what remains of the timeout when the slot is reached. -/
def leftOver (d : Nat → Nat) (T w : Nat) : Nat := if w = 0 then 1 else T % base w + low elementCntPerWheel d w

theorem leftOver_lt {d : Nat → Nat} (hd : ∀ j, d j < elementCntPerWheel j) (T w : Nat) : leftOver d T w < 2 * base w := by
  have hlow : low elementCntPerWheel d w < base w := Odometer.low_lt hd w
  have hm := Nat.mod_lt T (base_pos w)
  have hp := base_pos w
  unfold leftOver
  split <;> omega

theorem leftOver_eq {d : Nat → Nat} (hd : ∀ j, d j < elementCntPerWheel j) {T w : Nat} (hw : w < 5) (hT : T < 2 ^ 32)
    (h1 : base w ≤ T) (h2 : T < base (w + 1)) :
    wsub 32 (leftAt d T w) (wmul 32 (baseTickPerWheel w) (wsub 32 (T / base w) 1)) = leftOver d T w := by
  have hlow : low elementCntPerWheel d w < base w := Odometer.low_lt hd w
  have hb := base_le_four hw
  have hpos := base_pos w
  have hq : 1 ≤ T / base w := (Nat.le_div_iff_mul_le hpos).mpr (by omega)
  have hql : T / base w ≤ T := Nat.div_le_self _ _
  have hdm := Nat.div_add_mod T (base w)
  have hmul : base w * (T / base w - 1) + base w = base w * (T / base w) := by
    obtain ⟨k, hk⟩ : ∃ k, T / base w = k + 1 := ⟨T / base w - 1, by omega⟩
    rw [hk, Nat.add_sub_cancel]
    ring
  rw [wsub_eq hq (by omega), baseTick_eq hw, wmul_eq (by omega)]
  unfold leftAt leftOver
  by_cases h0 : w = 0
  · subst h0
    have hb0 : base 0 = 1 := rfl
    rw [if_pos rfl, if_pos rfl, hb0, Nat.div_one, Nat.one_mul, wsub_eq (by omega) hT]
    rw [hb0] at h1
    omega
  · rw [if_neg h0, if_neg h0, wsub_eq (by omega) (by omega)]
    omega

/-- `place`: the wheel whose span the timeout falls into, as many slots ahead as it has whole
    slots of that wheel. -/
theorem place_eq {m : Mgr} (hd : ∀ j, m.cur_slot j < elementCntPerWheel j) (t : TimerId) {T : Nat} (h1 : 1 ≤ T)
    (hT : T < 2 ^ 32) :
    ∃ w, w < 5 ∧ base w ≤ T ∧ T < base (w + 1) ∧
      place m t T = push (m.setTimeOut t (UInt32.ofNat (leftOver m.cur_slot T w))) w
        ((T / base w + m.cur_slot w) % elementCntPerWheel w) t := by
  obtain ⟨w, hw, hb1, hb2, hc⟩ := climb_spec hd hT wheelCnt 0 (by omega) (Nat.le_refl _) h1
  have h0 : climb m.cur_slot wheelCnt 0 T T = (w, T / base w, leftAt m.cur_slot T w) := by
    have e : T / base 0 = T := Nat.div_one T
    rw [e] at hc
    exact hc
  refine ⟨w, hw, hb1, hb2, ?_⟩
  unfold place
  simp only [h0, leftOver_eq hd hw hT hb1 hb2]

/-! ## Lists and owners -/

structure Linked (m : Mgr) : Prop where
  owner : ∀ t w s, t ∈ m.tlist w s ↔ m.pOwner t = some (w, s)
  nodup : ∀ w s, (m.tlist w s).Nodup

theorem isRegistered_iff (m : Mgr) (t : TimerId) : isRegistered m t = true ↔ m.pOwner t ≠ none := by
  unfold isRegistered
  cases m.pOwner t <;> simp

theorem remove_linked {m : Mgr} (h : Linked m) (t : TimerId) : Linked (remove m t) := by
  unfold remove
  split
  · exact h
  · rename_i w s hw
    constructor
    · intro u w' s'
      have ho := h.owner u w' s'
      simp only [Mgr.setOwner, Mgr.setList]
      by_cases hu : u = t
      · subst hu
        simp only [if_true, reduceCtorEq, iff_false]
        split
        · exact fun hm => absurd rfl ((h.nodup w s).mem_erase_iff.mp hm).1
        · rename_i hne
          intro hm
          rw [ho, hw] at hm
          injection hm with hm
          exact hne ⟨(congrArg Prod.fst hm).symm, (congrArg Prod.snd hm).symm⟩
      · simp only [hu, if_false]
        split
        · rename_i he
          rw [← ho, he.1, he.2, List.mem_erase_of_ne hu]
        · exact ho
    · intro w' s'
      simp only [Mgr.setOwner, Mgr.setList]
      split
      · exact (h.nodup w s).erase t
      · exact h.nodup w' s'

theorem push_linked {m : Mgr} (h : Linked m) (w s : Nat) (t : TimerId) : Linked (push m w s t) := by
  unfold push
  split
  · exact h
  · rename_i hr
    have hn : m.pOwner t = none := by
      by_contra hc
      exact hr ((isRegistered_iff m t).mpr hc)
    have hfree : ∀ w' s', t ∉ m.tlist w' s' := by
      intro w' s' hm
      rw [h.owner, hn] at hm
      cases hm
    constructor
    · intro u w' s'
      have ho := h.owner u w' s'
      simp only [Mgr.setOwner, Mgr.setList]
      by_cases hu : u = t
      · subst hu
        simp only [if_true, Option.some.injEq, Prod.mk.injEq]
        split
        · rename_i he
          simp [he.1, he.2]
        · rename_i he
          constructor
          · intro hm; exact absurd hm (hfree w' s')
          · rintro ⟨rfl, rfl⟩; exact absurd ⟨rfl, rfl⟩ he
      · simp only [hu, if_false]
        split
        · rename_i he
          rw [← ho, he.1, he.2]
          simp [hu]
        · exact ho
    · intro w' s'
      simp only [Mgr.setOwner, Mgr.setList]
      split
      · exact List.nodup_append.mpr ⟨h.nodup w s, List.nodup_singleton t,
          fun a ha b hb => by rw [List.mem_singleton.mp hb]; exact fun e => hfree w s (e ▸ ha)⟩
      · exact h.nodup w' s'

/-! ## What a slot says -/

/-- A timer with `left` in slot `s` of wheel `w` is due at `d`: the wheel reaches the slot with its
    move number `q`, one of those from `lo w` on that still come before it is back here. -/
def Sits (p lo : Nat → Nat) (left w s d : Nat) : Prop :=
  w < 5 ∧ left < 2 * base w ∧
    ∃ q, s = q % elementCntPerWheel w ∧ lo w ≤ q ∧ q < p w + elementCntPerWheel w ∧
      d = if w = 0 then q else base w * q + left

/-- Wheel `j` has made `p j` moves, and every linked timer is due as its slot says. -/
structure Good (p lo : Nat → Nat) (due : TimerId → Option Nat) (m : Mgr) : Prop where
  cur : ∀ j, j < 5 → m.cur_slot j = p j % elementCntPerWheel j
  slots : ∀ j, m.cur_slot j < elementCntPerWheel j
  linked : Linked m
  sits : ∀ t w s, m.pOwner t = some (w, s) → ∃ d, due t = some d ∧ Sits p lo (m.timeout_ t).toNat w s d
  free : ∀ t, m.pOwner t = none → due t = none

def forget (due : TimerId → Option Nat) (t : TimerId) (d : Option Nat) : TimerId → Option Nat :=
  fun u => if u = t then d else due u

theorem remove_owner (m : Mgr) (t u : TimerId) : (remove m t).pOwner u = if u = t then none else m.pOwner u := by
  unfold remove
  split
  · rename_i h
    split
    · rename_i e; rw [e, h]
    · rfl
  · rfl

theorem remove_fields (m : Mgr) (t : TimerId) :
    (remove m t).cur_slot = m.cur_slot ∧ (remove m t).timeout_ = m.timeout_ ∧ (remove m t).last_tick = m.last_tick ∧
      (remove m t).log = m.log := by
  unfold remove
  split <;> exact ⟨rfl, rfl, rfl, rfl⟩

theorem remove_shrinks (m : Mgr) (t : TimerId) (w s : Nat) :
    ((remove m t).tlist w s).length ≤ (m.tlist w s).length := by
  unfold remove
  split
  · exact Nat.le_refl _
  · simp only [Mgr.setOwner, Mgr.setList]
    split
    · rename_i h
      rw [h.1, h.2]
      exact List.length_erase_le
    · exact Nat.le_refl _

theorem remove_good {p lo : Nat → Nat} {due : TimerId → Option Nat} {m : Mgr} (h : Good p lo due m) (t : TimerId) :
    Good p lo (forget due t none) (remove m t) := by
  obtain ⟨hc, ht, _, _⟩ := remove_fields m t
  refine ⟨by rw [hc]; exact h.cur, by rw [hc]; exact h.slots, remove_linked h.linked t, ?_, ?_⟩
  · intro u w s hu
    rw [remove_owner] at hu
    rw [ht]
    by_cases e : u = t
    · rw [if_pos e] at hu; cases hu
    · rw [if_neg e] at hu
      simp only [forget, e, if_false]
      exact h.sits u w s hu
  · intro u hu
    rw [remove_owner] at hu
    unfold forget
    split
    · rfl
    · rename_i e
      rw [if_neg e] at hu
      exact h.free u hu

/-- A registered timer is due as many ticks after the reading of the wheels as was asked for. -/
theorem place_good {p lo : Nat → Nat} {due : TimerId → Option Nat} {m : Mgr} (h : Good p lo due m)
    (hlo : ∀ j, lo j ≤ p j + 1) {t : TimerId} (ht : m.pOwner t = none) {T : Nat} (h1 : 1 ≤ T) (hT : T < 2 ^ 32) :
    ∃ w, w < 5 ∧ base w ≤ T ∧ T < base (w + 1) ∧
      Good p lo (forget due t (some (reading elementCntPerWheel p w + T))) (place m t T) ∧
      ∀ k, k < 5 → (place m t T).tlist k (m.cur_slot k) = m.tlist k (m.cur_slot k) := by
  obtain ⟨w, hw, hb1, hb2, hp⟩ := place_eq h.slots t h1 hT
  have hpos := base_pos w
  have hq1 : 1 ≤ T / base w := (Nat.le_div_iff_mul_le hpos).mpr (by omega)
  have hq2 : T / base w < elementCntPerWheel w := by
    rw [Nat.div_lt_iff_lt_mul hpos, Nat.mul_comm]
    exact hb2
  have hreg : isRegistered (m.setTimeOut t (UInt32.ofNat (leftOver m.cur_slot T w))) t = false := by
    unfold isRegistered
    simp [Mgr.setTimeOut, ht]
  have hlow : low elementCntPerWheel m.cur_slot w = low elementCntPerWheel (fun j => p j % elementCntPerWheel j) w :=
    Odometer.low_congr fun j hj => h.cur j (by omega)
  have hleft : (UInt32.ofNat (leftOver m.cur_slot T w)).toNat = leftOver m.cur_slot T w := by
    have := leftOver_lt h.slots T w
    have := base_le_four hw
    rw [UInt32.toNat_ofNat']
    exact Nat.mod_eq_of_lt (by omega)
  have hslot : (T / base w + m.cur_slot w) % elementCntPerWheel w = (p w + T / base w) % elementCntPerWheel w := by
    rw [h.cur w hw, Nat.add_mod_mod, Nat.add_comm]
  refine ⟨w, hw, hb1, hb2, ?_, ?_⟩
  · rw [hp]
    have hlink := push_linked (m := m.setTimeOut t (UInt32.ofNat (leftOver m.cur_slot T w)))
      ⟨h.linked.owner, h.linked.nodup⟩ w ((T / base w + m.cur_slot w) % elementCntPerWheel w) t
    unfold push at hlink ⊢
    rw [hreg] at hlink ⊢
    simp only [Bool.false_eq_true, if_false] at hlink ⊢
    refine ⟨h.cur, h.slots, hlink, ?_, ?_⟩
    · intro u w' s' hu
      simp only [Mgr.setOwner, Mgr.setList, Mgr.setTimeOut] at hu ⊢
      by_cases e : u = t
      · subst e
        simp only [if_true, Option.some.injEq, Prod.mk.injEq] at hu
        obtain ⟨rfl, rfl⟩ := hu
        simp only [forget, if_true, hleft]
        refine ⟨_, rfl, hw, leftOver_lt h.slots T w, p w + T / base w, hslot, ?_, by omega, ?_⟩
        · have := hlo w; omega
        · -- the slots ahead, what is left over and the wheels below add up to the timeout
          have hdm := Nat.div_add_mod T (base w)
          unfold reading leftOver
          rw [hlow]
          by_cases h0 : w = 0
          · subst h0
            have hb0 : base 0 = 1 := rfl
            rw [if_pos rfl, hb0, Nat.div_one]
            simp [low, Odometer.base]
          · rw [if_neg h0, if_neg h0, Nat.mul_add]
            show base w * p w + _ + T = _
            omega
      · simp only [e, if_false] at hu
        simp only [forget, e, if_false]
        exact h.sits u w' s' hu
    · intro u hu
      simp only [Mgr.setOwner, Mgr.setList, Mgr.setTimeOut] at hu
      unfold forget
      by_cases e : u = t
      · rw [if_pos e] at hu; cases hu
      · rw [if_neg e] at hu ⊢
        exact h.free u hu
  · intro k hk
    rw [hp]
    unfold push
    rw [hreg]
    simp only [Bool.false_eq_true, if_false, Mgr.setOwner, Mgr.setList, Mgr.setTimeOut]
    split
    · -- the slot is ahead of the current one
      rename_i he
      exfalso
      obtain ⟨rfl, he⟩ := he
      have hlt := h.slots k
      have := Odometer.eq_of_mod_eq (he.symm.trans (Nat.mod_eq_of_lt hlt).symm) (by omega) (by omega)
      omega
    · rfl

theorem place_fields (m : Mgr) (t : TimerId) (T : Nat) :
    (place m t T).cur_slot = m.cur_slot ∧ (place m t T).last_tick = m.last_tick ∧ (place m t T).log = m.log := by
  unfold place push
  simp only
  split <;> exact ⟨rfl, rfl, rfl⟩

/-! ## The history as one of deadlines -/

/-- The ticks from a registration to its firing. A callback that runs while a wheel stands at
    zero, before the wheels above it have moved, sees these a whole turn behind. -/
def delay (timeout : Nat) : Origin → Nat
  | .outside => timeout
  | .callback wheel_no cur_slot =>
    if cur_slot = 0 ∧ base (wheel_no + 1) ≤ timeout then timeout - base (wheel_no + 1) else timeout

def asEv : Event → Deadlines.Ev TimerId
  | .registered t timeout origin => .set t (delay (max 1 timeout) origin)
  | .unregistered t => .cancel t
  | .fired t _ => .fire t
  | .stepped => .tick

def hist (log : List Event) : List (Deadlines.Ev TimerId) := log.map asEv

def nothing : Deadlines.Pending TimerId := ⟨0, fun _ => none⟩

/-- The deadlines pending after the history of a manager. -/
def dues (m : Mgr) : Deadlines.Pending TimerId := Deadlines.after nothing (hist m.log)

structure Ok (p lo : Nat → Nat) (m : Mgr) : Prop where
  accepts : Deadlines.Accepts nothing (hist m.log)
  good : Good p lo (dues m).due m

/-- What no call inside a step changes, and that it adds nothing to a current slot. -/
structure Frame (m m' : Mgr) : Prop where
  cur : m'.cur_slot = m.cur_slot
  tick : m'.last_tick = m.last_tick
  now : (dues m').now = (dues m).now
  shrink : ∀ k, k < 5 → (m'.tlist k (m.cur_slot k)).length ≤ (m.tlist k (m.cur_slot k)).length

theorem Frame.refl (m : Mgr) : Frame m m := ⟨rfl, rfl, rfl, fun _ _ => Nat.le_refl _⟩

theorem Frame.trans {a b c : Mgr} (h : Frame a b) (g : Frame b c) : Frame a c where
  cur := g.cur.trans h.cur
  tick := g.tick.trans h.tick
  now := g.now.trans h.now
  shrink k hk := by
    have h1 := h.shrink k hk
    have h2 := g.shrink k hk
    rw [h.cur] at h2
    omega

theorem dues_congr {m m' : Mgr} (h : m'.log = m.log) : dues m' = dues m := by
  unfold dues
  rw [h]

theorem dues_note (m : Mgr) (e : Event) : dues (m.note e) = Deadlines.next (dues m) (asEv e) := by
  unfold dues hist
  rw [Mgr.note, List.map_append, Deadlines.after_append]
  rfl

theorem dues_called (m : Mgr) (t : TimerId) : dues (m.called t) = Deadlines.next (dues m) (.fire t) :=
  dues_note m (.fired t m.last_tick)

theorem accepts_note {m : Mgr} (h : Deadlines.Accepts nothing (hist m.log)) {e : Event}
    (he : Deadlines.Allowed (dues m) (asEv e)) : Deadlines.Accepts nothing (hist (m.note e).log) := by
  unfold hist Mgr.note
  rw [List.map_append]
  exact Deadlines.accepts_snoc h he

theorem remove_frame (m : Mgr) (t : TimerId) : Frame m (remove m t) := by
  obtain ⟨h1, _, h3, h4⟩ := remove_fields m t
  exact ⟨h1, h3, by rw [dues_congr h4], fun k _ => remove_shrinks m t k _⟩

/-- With the clock at `last_tick_` a registration uses the timeout it is given. -/
theorem lagged_still {E : Env} {m : Mgr} (hE : ∀ i, E.getNow i = m.last_tick) (timeout : UInt32) :
    (lagged E m timeout).1 = timeout ∧
      ((lagged E m timeout).2 = m ∨ (lagged E m timeout).2 = { m with reads := m.reads + 1 }) := by
  unfold lagged
  split
  · simp [hE]
  · exact ⟨rfl, Or.inl rfl⟩

/-- The effective timeout. -/
def effective (timeout : UInt32) : Nat := if timeout = 0 then 1 else timeout.toNat

theorem effective_eq (timeout : UInt32) : effective timeout = max 1 timeout.toNat := by
  unfold effective
  split
  · rename_i h; subst h; rfl
  · rename_i h
    have : timeout.toNat ≠ 0 := fun e => h (UInt32.toNat_inj.mp e)
    omega

theorem effective_bounds (timeout : UInt32) : 1 ≤ effective timeout ∧ effective timeout < 2 ^ 32 := by
  have := timeout.toNat_lt
  rw [effective_eq]
  omega

/-- `registerTimer` of a timer that is not linked. -/
theorem registerTimer_good {E : Env} {p lo : Nat → Nat} {due : TimerId → Option Nat} {m : Mgr} (h : Good p lo due m)
    (hE : ∀ i, E.getNow i = m.last_tick) (hlo : ∀ j, lo j ≤ p j + 1) {t : TimerId} (ht : m.pOwner t = none)
    (timeout : UInt32) :
    ∃ w, w < 5 ∧ base w ≤ effective timeout ∧ effective timeout < base (w + 1) ∧
      Good p lo (forget due t (some (reading elementCntPerWheel p w + effective timeout)))
        (registerTimer E m (some t) timeout).2 ∧
      (registerTimer E m (some t) timeout).2.log = m.log ∧ Frame m (registerTimer E m (some t) timeout).2 := by
  have hreg : isRegistered m t = false := by unfold isRegistered; rw [ht]; rfl
  obtain ⟨hl1, hl2⟩ := lagged_still hE timeout
  obtain ⟨hb1, hb2⟩ := effective_bounds timeout
  have key : ∀ m' : Mgr, m' = m ∨ m' = { m with reads := m.reads + 1 } →
      ∃ w, w < 5 ∧ base w ≤ effective timeout ∧ effective timeout < base (w + 1) ∧
        Good p lo (forget due t (some (reading elementCntPerWheel p w + effective timeout)))
          (place m' t (effective timeout)) ∧
        (place m' t (effective timeout)).log = m.log ∧ Frame m (place m' t (effective timeout)) := by
    intro m' hm'
    have hg : Good p lo due m' ∧ m'.pOwner t = none ∧ m'.cur_slot = m.cur_slot ∧ m'.last_tick = m.last_tick ∧
        m'.log = m.log ∧ m'.tlist = m.tlist := by
      rcases hm' with rfl | rfl
      · exact ⟨h, ht, rfl, rfl, rfl, rfl⟩
      · exact ⟨⟨h.cur, h.slots, ⟨h.linked.owner, h.linked.nodup⟩, h.sits, h.free⟩, ht, rfl, rfl, rfl, rfl⟩
    obtain ⟨hg, hto, hc, htk, hlog, htl⟩ := hg
    obtain ⟨w, hw, h1, h2, h3, h4⟩ := place_good hg hlo hto hb1 hb2
    obtain ⟨f1, f2, f3⟩ := place_fields m' t (effective timeout)
    refine ⟨w, hw, h1, h2, h3, f3.trans hlog, f1.trans hc, f2.trans htk, by rw [dues_congr (f3.trans hlog)], ?_⟩
    intro k hk
    have := h4 k hk
    rw [hc, htl] at this
    rw [this]
  unfold registerTimer
  simp only [hreg, Bool.false_eq_true, if_false]
  rw [hl1]
  exact key _ hl2

theorem remove_note (m : Mgr) (e : Event) (t : TimerId) : remove (m.note e) t = (remove m t).note e := by
  unfold remove
  rw [show (m.note e).pOwner t = m.pOwner t from rfl]
  cases m.pOwner t <;> rfl

/-- `registerTimer` of a linked timer is that of the timer once unlinked. -/
theorem registerTimer_registered (E : Env) {m : Mgr} {t : TimerId} (h : isRegistered m t = true) (timeout : UInt32) :
    registerTimer E m (some t) timeout = registerTimer E (remove m t) (some t) timeout := by
  have hn : isRegistered (remove m t) t = false := by
    unfold isRegistered
    rw [remove_owner, if_pos rfl]
    rfl
  unfold registerTimer
  simp only [h, hn, if_true, Bool.false_eq_true, if_false, unRegisterTimer]

theorem forget_put (s : Deadlines.Pending TimerId) (t : TimerId) (d : Option Nat) : (s.put t d).due = forget s.due t d := rfl

theorem forget_forget (due : TimerId → Option Nat) (t : TimerId) (a b : Option Nat) :
    forget (forget due t a) t b = forget due t b := by
  funext u
  unfold forget
  split <;> rfl

theorem good_note {p lo : Nat → Nat} {due : TimerId → Option Nat} {m : Mgr} (h : Good p lo due m) (e : Event) :
    Good p lo due (m.note e) := ⟨h.cur, h.slots, ⟨h.linked.owner, h.linked.nodup⟩, h.sits, h.free⟩

/-- Unlinking a linked timer, recorded. -/
theorem unregister_ok {p lo : Nat → Nat} {m : Mgr} (h : Ok p lo m) {t : TimerId} (ht : m.pOwner t ≠ none) :
    Ok p lo (remove (m.note (.unregistered t)) t) ∧ Frame m (remove (m.note (.unregistered t)) t) := by
  have hallow : Deadlines.Allowed (dues m) (asEv (.unregistered t)) := by
    obtain ⟨⟨w, s⟩, hw⟩ := Option.ne_none_iff_exists'.mp ht
    obtain ⟨d, hd, _⟩ := h.good.sits t w s hw
    show (dues m).due t ≠ none
    rw [hd]; simp
  have hlog := (remove_fields (m.note (.unregistered t)) t).2.2.2
  have hdues : dues (remove (m.note (.unregistered t)) t) = (dues m).put t none := by
    rw [dues_congr hlog, dues_note]; rfl
  refine ⟨⟨?_, ?_⟩, ?_⟩
  · rw [hlog]; exact accepts_note h.accepts hallow
  · rw [hdues]; exact remove_good (good_note h.good _) t
  · have hf := remove_frame (m.note (.unregistered t)) t
    exact ⟨hf.cur, hf.tick, by rw [hdues]; rfl, hf.shrink⟩

/-- One call of the program: outside a step, or from a callback. -/
theorem act_ok {E : Env} {p lo : Nat → Nat} {m : Mgr} {origin : Origin} (h : Ok p lo m)
    (hE : ∀ i, E.getNow i = m.last_tick) (hlo : ∀ j, lo j ≤ p j + 1)
    (ho : ∀ T w, 1 ≤ T → base w ≤ T → T < base (w + 1) → w < 5 →
      reading elementCntPerWheel p w + T = (dues m).now + delay T origin) (a : Act) :
    Ok p lo (act E origin m a) ∧ Frame m (act E origin m a) := by
  cases a with
  | unRegisterTimer timer =>
    cases timer with
    | none => exact ⟨h, Frame.refl m⟩
    | some t =>
      by_cases hr : isRegistered m t = true
      · have hr' : isRegistered (m.note (.unregistered t)) t = true := hr
        simp only [act, hr, if_true, unRegisterTimer, hr']
        exact unregister_ok h ((isRegistered_iff m t).mp hr)
      · simp only [act, unRegisterTimer, hr, Bool.false_eq_true, if_false]
        exact ⟨h, Frame.refl m⟩
  | registerTimer timer timeout =>
    cases timer with
    | none => exact ⟨h, Frame.refl m⟩
    | some t =>
      -- registering what is registered unregisters it first
      have key : ∀ m1 : Mgr, Ok p lo m1 → Frame m m1 → m1.pOwner t = none →
          Ok p lo (registerTimer E (m1.note (.registered t timeout.toNat origin)) (some t) timeout).2 ∧
            Frame m (registerTimer E (m1.note (.registered t timeout.toNat origin)) (some t) timeout).2 := by
        intro m1 h1 hf ht
        obtain ⟨w, hw, hb1, hb2, hg, hlog, hfr⟩ := registerTimer_good (E := E)
          (good_note h1.good (.registered t timeout.toNat origin)) (by intro i; rw [hE]; exact hf.tick.symm) hlo ht timeout
        have hread := ho _ w (effective_bounds timeout).1 hb1 hb2 hw
        have hset : dues (m1.note (.registered t timeout.toNat origin)) =
            (dues m1).put t (some ((dues m1).now + delay (effective timeout) origin)) := by
          rw [dues_note, effective_eq]; rfl
        refine ⟨⟨?_, ?_⟩, ?_⟩
        · rw [hlog]; exact accepts_note h1.accepts (h1.good.free t ht)
        · rw [dues_congr hlog, hset, forget_put, hf.now, ← hread]
          exact hg
        · refine hf.trans ?_
          exact ⟨hfr.cur, hfr.tick, by rw [hfr.now, hset]; rfl, hfr.shrink⟩
      by_cases hr : isRegistered m t = true
      · obtain ⟨h1, h2⟩ := unregister_ok h ((isRegistered_iff m t).mp hr)
        have hk := key _ h1 h2 (by rw [remove_owner, if_pos rfl])
        have hreg : isRegistered ((m.note (.unregistered t)).note (.registered t timeout.toNat origin)) t = true := hr
        have he := registerTimer_registered E hreg timeout
        simp only [act, hr, if_true, he]
        rw [remove_note]
        exact hk
      · have hn : m.pOwner t = none := by
          by_contra hc
          exact hr ((isRegistered_iff m t).mpr hc)
        simp only [act, hr, Bool.false_eq_true, if_false]
        exact key m h (Frame.refl m) hn

/-! ## Draining a slot -/

/-- Wheel `k` has just moved on the way from `n` to `n + 1`: its timers may be due, those of the
    other wheels are still ahead. -/
def drainFrom (n k j : Nat) : Nat :=
  if j = k then pos elementCntPerWheel n (k + 1) j else pos elementCntPerWheel n (k + 1) j + 1

/-- The moment at which the current slot of wheel `k` is drained. -/
structure Draining (E : Env) (n k : Nat) (m : Mgr) : Prop where
  ok : Ok (pos elementCntPerWheel n (k + 1)) (drainFrom n k) m
  still : ∀ i, E.getNow i = m.last_tick
  wheel : k < 5
  below : (n + 1) % base k = 0
  now : (dues m).now = n + 1

theorem Draining.frame {E : Env} {n k : Nat} {m m' : Mgr} (h : Draining E n k m) (hf : Frame m m')
    (ok : Ok (pos elementCntPerWheel n (k + 1)) (drainFrom n k) m') : Draining E n k m' :=
  ⟨ok, fun i => (h.still i).trans hf.tick.symm, h.wheel, h.below, hf.now.trans h.now⟩

theorem drainFrom_le (n k j : Nat) : drainFrom n k j ≤ pos elementCntPerWheel n (k + 1) j + 1 := by
  unfold drainFrom
  split <;> omega

theorem pos_drained (n k : Nat) : pos elementCntPerWheel n (k + 1) k = (n + 1) / base k := by simp [pos]

/-- A timeout falls into a wheel above `k` exactly when it has a whole turn of wheel `k`. -/
theorem above_iff {T w k : Nat} (h1 : base w ≤ T) (h2 : T < base (w + 1)) : k + 1 ≤ w ↔ base (k + 1) ≤ T := by
  constructor
  · intro h
    exact Nat.le_trans (Odometer.base_le cnt_pos h) h1
  · intro h
    by_contra hc
    have : base (w + 1) ≤ base (k + 1) := Odometer.base_le cnt_pos (by omega)
    omega

/-- The delay of a registration from a callback, off the reading of the wheels. -/
theorem callback_delay {E : Env} {n k : Nat} {m : Mgr} (h : Draining E n k m) (T w : Nat)
    (h1 : base w ≤ T) (h2 : T < base (w + 1)) :
    reading elementCntPerWheel (pos elementCntPerWheel n (k + 1)) w + T =
      n + 1 + delay T (.callback k (m.cur_slot k)) := by
  have hcur : m.cur_slot k = 0 ↔ (n + 1) % base (k + 1) = 0 := by
    rw [h.ok.good.cur k h.wheel, pos_drained]
    exact Odometer.wrapped_iff cnt_pos h.below
  have hab : k + 1 ≤ w ↔ base (k + 1) ≤ T := above_iff h1 h2
  rw [Odometer.reading_pos cnt_pos]
  simp only [delay]
  by_cases hc : m.cur_slot k = 0 ∧ base (k + 1) ≤ T
  · have hm := hcur.mp hc.1
    have hle : base (k + 1) ≤ n + 1 := Nat.le_of_dvd (Nat.succ_pos n) (Nat.dvd_of_mod_eq_zero hm)
    rw [if_pos ⟨hab.mpr hc.2, hm⟩, if_pos hc]
    show n + 1 - base (k + 1) + T = _
    omega
  · rw [if_neg (fun hx => hc ⟨hcur.mpr hx.2, hab.mp hx.1⟩), if_neg hc]

theorem acts_ok {E : Env} {n k c : Nat} (acts : List Act) :
    ∀ m : Mgr, Draining E n k m → c = m.cur_slot k →
      Draining E n k (acts.foldl (act E (.callback k c)) m) ∧ Frame m (acts.foldl (act E (.callback k c)) m) := by
  induction acts with
  | nil => intro m h _; exact ⟨h, Frame.refl m⟩
  | cons a acts ih =>
    intro m h hc
    have ho : ∀ T w, 1 ≤ T → base w ≤ T → T < base (w + 1) → w < 5 →
        reading elementCntPerWheel (pos elementCntPerWheel n (k + 1)) w + T =
          (dues m).now + delay T (.callback k c) := by
      intro T w _ h1 h2 _
      rw [h.now, hc]
      exact callback_delay h T w h1 h2
    obtain ⟨h1, hf1⟩ := act_ok h.ok h.still (drainFrom_le n k) ho a
    obtain ⟨h2, hf2⟩ := ih _ (h.frame hf1 h1) (hc.trans (by rw [hf1.cur]))
    exact ⟨h2, hf1.trans hf2⟩

/-- The timer at the head of the drained list is due now, but for its `timeout_`. -/
theorem head_due {E : Env} {n k : Nat} {m : Mgr} (h : Draining E n k m) {t : TimerId} {rest : List TimerId}
    (hl : m.tlist k (m.cur_slot k) = t :: rest) :
    (m.timeout_ t).toNat < 2 * base k ∧
      (dues m).due t = some (if k = 0 then n + 1 else n + 1 + (m.timeout_ t).toNat) := by
  have ho : m.pOwner t = some (k, m.cur_slot k) := (h.ok.good.linked.owner t _ _).mp (by rw [hl]; exact List.mem_cons_self)
  obtain ⟨d, hd, _, hleft, q, hs, hq1, hq2, rfl⟩ := h.ok.good.sits t _ _ ho
  have hq : q = (n + 1) / base k := by
    -- of the moves still to come only the present one leads to this slot
    rw [h.ok.good.cur k h.wheel] at hs
    have hlo : drainFrom n k k = pos elementCntPerWheel n (k + 1) k := by simp [drainFrom]
    rw [hlo] at hq1
    rw [← pos_drained]
    exact Odometer.eq_of_mod_eq hs.symm hq1 hq2
  have hdiv : base k * ((n + 1) / base k) = n + 1 := Nat.mul_div_cancel' (Nat.dvd_of_mod_eq_zero h.below)
  refine ⟨hleft, ?_⟩
  rw [hd, hq, hdiv]
  by_cases h0 : k = 0
  · subst h0
    have hb0 : base 0 = 1 := rfl
    rw [if_pos rfl, if_pos rfl, hb0, Nat.div_one]
  · rw [if_neg h0, if_neg h0]

theorem remove_head {m : Mgr} (h : Linked m) {w s : Nat} {t : TimerId} {rest : List TimerId} (hl : m.tlist w s = t :: rest) :
    (remove m t).tlist w s = rest := by
  have ho : m.pOwner t = some (w, s) := (h.owner t w s).mp (by rw [hl]; exact List.mem_cons_self)
  unfold remove
  simp only [ho, Mgr.setOwner, Mgr.setList, and_self, if_true, hl, List.erase_cons_head]

/-- A callback: the timer is off its list and its deadline is met. -/
theorem onTimeOut_ok {E : Env} {n k : Nat} {m : Mgr} (h : Draining E n k m) {t : TimerId}
    (hdue : (dues m).due t = some (n + 1)) :
    Draining E n k (onTimeOut E k (remove m t) t) ∧ Frame (remove m t) (onTimeOut E k (remove m t) t) := by
  have hlog := (remove_fields m t).2.2.2
  have hallow : Deadlines.Allowed (dues (remove m t)) (asEv (.fired t (remove m t).last_tick)) := by
    show (dues (remove m t)).due t = some (dues (remove m t)).now
    rw [dues_congr hlog, hdue, h.now]
  have hdues : dues ((remove m t).called t) = (dues m).put t none := by
    rw [dues_called, dues_congr hlog]; rfl
  have hg := remove_good h.ok.good t
  have hok : Ok (pos elementCntPerWheel n (k + 1)) (drainFrom n k) ((remove m t).called t) := by
    refine ⟨accepts_note (by rw [hlog]; exact h.ok.accepts) hallow, ?_⟩
    rw [hdues, forget_put]
    exact ⟨hg.cur, hg.slots, ⟨hg.linked.owner, hg.linked.nodup⟩, hg.sits, hg.free⟩
  have hf : Frame (remove m t) ((remove m t).called t) :=
    ⟨rfl, rfl, by rw [hdues, dues_congr hlog]; rfl, fun _ _ => Nat.le_refl _⟩
  obtain ⟨h1, h2⟩ := acts_ok (E.onTimeOut (remove m t).calls t) _ (h.frame ((remove_frame m t).trans hf) hok) rfl
  exact ⟨h1, hf.trans h2⟩

/-- A cascade: the timer goes to a slot of the wheels already moved, with its deadline kept. -/
theorem cascade_ok {E : Env} {n k : Nat} {m : Mgr} (h : Draining E n k m) {t : TimerId}
    (hleft : (m.timeout_ t).toNat < 2 * base k) (h0 : m.timeout_ t ≠ 0)
    (hdue : (dues m).due t = some (n + 1 + (m.timeout_ t).toNat)) :
    Draining E n k (registerTimer E (remove m t) (some t) (m.timeout_ t)).2 ∧
      Frame (remove m t) (registerTimer E (remove m t) (some t) (m.timeout_ t)).2 := by
  have hrf := remove_frame m t
  have hlog := (remove_fields m t).2.2.2
  obtain ⟨w, hw, hb1, hb2, hg, hl, hf⟩ := registerTimer_good (remove_good h.ok.good t)
    (fun i => (h.still i).trans hrf.tick.symm) (drainFrom_le n k) (by rw [remove_owner, if_pos rfl]) (m.timeout_ t)
  have heff : effective (m.timeout_ t) = (m.timeout_ t).toNat := by unfold effective; rw [if_neg h0]
  have hwk : ¬ k + 1 ≤ w := by
    rw [above_iff hb1 hb2, heff]
    have := two_base_le k
    omega
  have hread : reading elementCntPerWheel (pos elementCntPerWheel n (k + 1)) w = n + 1 := by
    rw [Odometer.reading_pos cnt_pos, if_neg (fun hx => hwk hx.1)]
  rw [hread, heff, forget_forget] at hg
  have hsame : forget (dues m).due t (some (n + 1 + (m.timeout_ t).toNat)) = (dues m).due := by
    funext u
    unfold forget
    split
    · rename_i e; rw [e, hdue]
    · rfl
  rw [hsame] at hg
  refine ⟨h.frame (hrf.trans hf) ⟨by rw [hl, hlog]; exact h.ok.accepts, ?_⟩, hf⟩
  rw [dues_congr (hl.trans hlog)]
  exact hg

/-- The drain loop ends with the slot empty, within the turns it was given. -/
theorem drain_ok {E : Env} {n k : Nat} (fuel : Nat) :
    ∀ m : Mgr, Draining E n k m → (m.tlist k (m.cur_slot k)).length ≤ fuel →
      Draining E n k (drain E k fuel m) ∧ Frame m (drain E k fuel m) ∧
        (drain E k fuel m).tlist k (m.cur_slot k) = [] := by
  induction fuel with
  | zero =>
    intro m h hlen
    exact ⟨h, Frame.refl m, List.eq_nil_of_length_eq_zero (by show (m.tlist k (m.cur_slot k)).length = 0; omega)⟩
  | succ fuel ih =>
    intro m h hlen
    rcases hl : m.tlist k (m.cur_slot k) with _ | ⟨t, rest⟩
    · simp only [drain, pop, hl]
      exact ⟨h, Frame.refl m, trivial⟩
    · have hrest := remove_head h.ok.good.linked hl
      obtain ⟨hleft, hdue⟩ := head_due h hl
      have hto : (remove m t).timeout_ t = m.timeout_ t := by rw [(remove_fields m t).2.1]
      have hcur : (remove m t).cur_slot = m.cur_slot := (remove_fields m t).1
      have hlenr : rest.length ≤ fuel := by rw [hl] at hlen; simp at hlen; omega
      have next : ∀ m' : Mgr, Draining E n k m' → Frame (remove m t) m' →
          Draining E n k (drain E k fuel m') ∧ Frame m (drain E k fuel m') ∧
            (drain E k fuel m').tlist k (m.cur_slot k) = [] := by
        intro m' h' hf'
        have hc' : m'.cur_slot = m.cur_slot := hf'.cur.trans hcur
        have hs := hf'.shrink k h.wheel
        rw [hcur, hrest] at hs
        obtain ⟨i1, i2, i3⟩ := ih m' h' (by rw [hc']; omega)
        rw [hc'] at i3
        exact ⟨i1, ((remove_frame m t).trans hf').trans i2, i3⟩
      simp only [drain, pop, hl, hto]
      by_cases hfire : k = 0 ∨ m.timeout_ t = 0
      · rw [if_pos hfire]
        have hnow : (dues m).due t = some (n + 1) := by
          rw [hdue]
          rcases hfire with h0 | h0
          · rw [if_pos h0]
          · rw [h0]; simp
        obtain ⟨h1, h2⟩ := onTimeOut_ok h hnow
        exact next _ h1 h2
      · rw [if_neg hfire]
        push Not at hfire
        rw [if_neg hfire.1] at hdue
        obtain ⟨h1, h2⟩ := cascade_ok h hleft hfire.2 hdue
        exact next _ h1 h2

/-! ## A step -/

theorem Good.congr {p p' lo lo' : Nat → Nat} {due : TimerId → Option Nat} {m : Mgr} (h : Good p lo due m)
    (hp : ∀ j, j < 5 → p' j = p j) (hl : ∀ j, j < 5 → lo' j = lo j) : Good p' lo' due m where
  cur j hj := by rw [hp j hj]; exact h.cur j hj
  slots := h.slots
  linked := h.linked
  sits t w s ht := by
    obtain ⟨d, hd, hw, hs⟩ := h.sits t w s ht
    unfold Sits
    rw [hp w hw, hl w hw]
    exact ⟨d, hd, hw, hs⟩
  free := h.free

/-- The wheels below `k` have moved and come back to zero on the way from `n` to `n + 1`. -/
structure Moving (E : Env) (n k : Nat) (m : Mgr) : Prop where
  ok : Ok (pos elementCntPerWheel n k) (fun j => pos elementCntPerWheel n k j + 1) m
  still : ∀ i, E.getNow i = m.last_tick
  below : (n + 1) % base k = 0
  now : (dues m).now = n + 1

/-- Moving wheel `k` brings its timers one slot closer. -/
theorem move_ok {E : Env} {n k : Nat} {m : Mgr} (h : Moving E n k m) (hk : k < 5) :
    Draining E n k (m.setSlot k ((m.cur_slot k + 1) % elementCntPerWheel k)) := by
  have hg := h.ok.good
  have hmove : pos elementCntPerWheel n (k + 1) k = pos elementCntPerWheel n k k + 1 := Odometer.pos_move h.below
  have hother : ∀ j, j ≠ k → pos elementCntPerWheel n (k + 1) j = pos elementCntPerWheel n k j :=
    fun j hj => Odometer.pos_move_ne hj
  refine ⟨⟨h.ok.accepts, ?_⟩, h.still, hk, h.below, h.now⟩
  refine ⟨?_, ?_, ⟨hg.linked.owner, hg.linked.nodup⟩, ?_, hg.free⟩
  · intro j hj
    simp only [Mgr.setSlot]
    by_cases e : j = k
    · subst e
      rw [if_pos rfl, hmove, hg.cur j hj, Nat.mod_add_mod]
    · rw [if_neg e, hother j e]
      exact hg.cur j hj
  · intro j
    simp only [Mgr.setSlot]
    split
    · rename_i e; subst e; exact Nat.mod_lt _ (cnt_pos j)
    · exact hg.slots j
  · intro t w s ht
    obtain ⟨d, hd, hw, hleft, q, hs, hq1, hq2, hdq⟩ := hg.sits t w s ht
    refine ⟨d, hd, hw, hleft, q, hs, ?_, ?_, hdq⟩
    · unfold drainFrom
      by_cases e : w = k
      · subst e
        rw [if_pos rfl, hmove]
        exact hq1
      · rw [if_neg e, hother w e]
        exact hq1
    · by_cases e : w = k
      · subst e
        rw [hmove]; omega
      · rw [hother w e]
        exact hq2

/-- With its slot empty, everything on wheel `k` is ahead of it. -/
theorem drained_ok {E : Env} {n k : Nat} {m : Mgr} (h : Draining E n k m) (he : m.tlist k (m.cur_slot k) = []) :
    Ok (pos elementCntPerWheel n (k + 1)) (fun j => pos elementCntPerWheel n (k + 1) j + 1) m := by
  have hg := h.ok.good
  refine ⟨h.ok.accepts, hg.cur, hg.slots, hg.linked, ?_, hg.free⟩
  intro t w s ht
  obtain ⟨d, hd, hw, hleft, q, hs, hq1, hq2, hdq⟩ := hg.sits t w s ht
  refine ⟨d, hd, hw, hleft, q, hs, ?_, hq2, hdq⟩
  unfold drainFrom at hq1
  by_cases e : w = k
  · subst e
    rw [if_pos rfl] at hq1
    have hne : q ≠ pos elementCntPerWheel n (w + 1) w := by
      intro e
      have hm := (hg.linked.owner t w s).mpr ht
      rw [hs, e, ← hg.cur w hw, he] at hm
      cases hm
    exact Nat.lt_of_le_of_ne hq1 (Ne.symm hne)
  · rw [if_neg e] at hq1
    exact hq1

/-- One wheel of a step. -/
theorem turn_ok {E : Env} {n k : Nat} {m : Mgr} (h : Moving E n k m) (hk : k < 5) :
    Ok (pos elementCntPerWheel n (k + 1)) (fun j => pos elementCntPerWheel n (k + 1) j + 1) (turn E k m) ∧
      (turn E k m).last_tick = m.last_tick ∧ (dues (turn E k m)).now = n + 1 ∧
      ((turn E k m).cur_slot k = 0 ↔ (n + 1) % base (k + 1) = 0) := by
  have hd := move_ok h hk
  obtain ⟨h1, hf, he⟩ := drain_ok _ _ hd (Nat.le_refl _)
  have he' : (turn E k m).tlist k ((turn E k m).cur_slot k) = [] := by
    have hcur : (turn E k m).cur_slot = (m.setSlot k ((m.cur_slot k + 1) % elementCntPerWheel k)).cur_slot := hf.cur
    rw [hcur]
    exact he
  refine ⟨drained_ok h1 he', hf.tick, h1.now, ?_⟩
  show (drain E k _ _).cur_slot k = 0 ↔ _
  rw [h1.ok.good.cur k hk, pos_drained]
  exact Odometer.wrapped_iff cnt_pos h.below

/-- Between two steps: `n` steps done. -/
structure Rest (n : Nat) (m : Mgr) : Prop where
  ok : Ok (fun j => n / base j) (fun j => n / base j + 1) m
  now : (dues m).now = n

theorem turns_ok {E : Env} {n : Nat} (i : Nat) :
    ∀ (k : Nat) (m : Mgr), i + k = 5 → Moving E n k m →
      Rest (n + 1) (turns E i k m) ∧ (turns E i k m).last_tick = m.last_tick := by
  induction i with
  | zero =>
    intro k m hik h
    have hk : k = 5 := by omega
    subst hk
    have hp : ∀ j, j < 5 → (n + 1) / base j = pos elementCntPerWheel n 5 j := fun j hj => by simp [pos, hj]
    exact ⟨⟨⟨h.ok.accepts, h.ok.good.congr hp (fun j hj => by rw [hp j hj])⟩, h.now⟩, rfl⟩
  | succ i ih =>
    intro k m hik h
    obtain ⟨h1, h2, h3, h4⟩ := turn_ok h (by omega)
    unfold turns
    by_cases hc : (turn E k m).cur_slot k = 0
    · simp only [hc, ne_eq, not_true_eq_false, if_false]
      obtain ⟨i1, i2⟩ := ih (k + 1) (turn E k m) (by omega)
        ⟨h1, fun x => (h.still x).trans h2.symm, h4.mp hc, h3⟩
      exact ⟨i1, i2.trans h2⟩
    · simp only [hc, ne_eq, not_false_eq_true, if_true]
      have hp : ∀ j, j < 5 → (n + 1) / base j = pos elementCntPerWheel n (k + 1) j :=
        fun j _ => (Odometer.pos_done (fun e => hc (h4.mpr e))).symm
      exact ⟨⟨⟨h1.accepts, h1.good.congr hp (fun j hj => by rw [hp j hj])⟩, h3⟩, h2⟩

/-- Nothing pending is overdue. -/
theorem Rest.ahead {n : Nat} {m : Mgr} (h : Rest n m) {t : TimerId} {d : Nat} (hd : (dues m).due t = some d) : n < d := by
  have ho : m.pOwner t ≠ none := by
    intro e
    rw [h.ok.good.free t e] at hd
    cases hd
  obtain ⟨⟨w, s⟩, hw⟩ := Option.ne_none_iff_exists'.mp ho
  obtain ⟨d', hd', _, _, q, _, hq1, _, rfl⟩ := h.ok.good.sits t w s hw
  rw [hd'] at hd
  injection hd with hd
  subst hd
  have hlt : n < base w * q := by
    have hdm := Nat.div_add_mod n (base w)
    have hml := Nat.mod_lt n (base_pos w)
    calc n < base w * (n / base w) + base w := by omega
      _ = base w * (n / base w + 1) := by ring
      _ ≤ base w * q := Nat.mul_le_mul_left _ hq1
  split
  · rename_i e
    subst e
    have hb0 : base 0 = 1 := rfl
    rw [hb0] at hlt
    omega
  · omega

/-- One step of the manager is one tick of the abstract service. -/
theorem step_ok {E : Env} {n : Nat} {m : Mgr} (h : Rest n m) (hE : ∀ i, E.getNow i = m.last_tick) :
    Rest (n + 1) (step E m) ∧ (step E m).last_tick = m.last_tick := by
  have hallow : Deadlines.Allowed (dues m) (asEv .stepped) := by
    intro t d hd
    rw [h.now]
    exact h.ahead hd
  have hnow : (dues (m.note .stepped)).now = n + 1 := by
    rw [dues_note, asEv, Deadlines.next, h.now]
  have hdue : (dues (m.note .stepped)).due = (dues m).due := by rw [dues_note]; rfl
  refine turns_ok wheelCnt 0 (m.note .stepped) rfl ⟨⟨accepts_note h.ok.accepts hallow, ?_⟩, hE, Nat.mod_one _, hnow⟩
  rw [hdue]
  exact (good_note h.ok.good .stepped).congr (fun j _ => Odometer.pos_zero n j) (fun j _ => by rw [Odometer.pos_zero])

/-- A call between two steps. -/
theorem outside_ok {E : Env} {n : Nat} {m : Mgr} (h : Rest n m) (hE : ∀ i, E.getNow i = m.last_tick) (a : Act) :
    Rest n (act E .outside m a) ∧ (act E .outside m a).last_tick = m.last_tick := by
  have ho : ∀ T w, 1 ≤ T → base w ≤ T → T < base (w + 1) → w < 5 →
      reading elementCntPerWheel (fun j => n / base j) w + T = (dues m).now + delay T .outside := by
    intro T w _ _ _ _
    rw [h.now, reading, Odometer.low_digits, Nat.div_add_mod]
    rfl
  obtain ⟨h1, hf⟩ := act_ok h.ok hE (fun j => Nat.le_refl _) ho a
  exact ⟨⟨h1, hf.now.trans h.now⟩, hf.tick⟩

theorem make_rest (now : Nat) : Rest 0 (initTick make now) := by
  refine ⟨⟨trivial, ?_⟩, rfl⟩
  refine ⟨?_, fun j => cnt_pos j, ⟨?_, fun _ _ => List.nodup_nil⟩, ?_, fun _ _ => rfl⟩
  · intro j _
    simp [initTick, resetWheels]
  · intro t w s
    constructor
    · intro h; cases h
    · intro h; cases h
  · intro t w s h
    cases h

end Dbase.Time.TimerWheel
