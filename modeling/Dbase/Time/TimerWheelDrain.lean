/-
  Dbase.Time.TimerWheelDrain — the drain loop of `step`, without a bound on its turns.

  `drain` is given as many turns as the list has timers when it begins. Here the loop runs until the list is empty
  (`Drains`), and so does the loop over the wheels (`Turns`); `Begins` are the states in which a step begins to drain a
  wheel, and `Registers` the calls of `registerTimer` made while it does. Nothing is asked of the clock, of the positions
  of the wheels, or of the callbacks.

  Proved:
  - `climb_offset`: a registration goes between one slot and all but one slots ahead of where its wheel is.
  - `registerTimer_elsewhere`: so it never goes to the slot where the wheel is.
  - `drains_bounded`, `drains_drain`: a loop takes a timer off its list for good in every turn, and ends with what `drain`
    leaves.
  - `comes_sound`: every state a program brings its manager to has each timer on the one list its `pOwner` names.
  - `step_terminates`: all of it for every loop of every step.
-/

import Dbase.Time.TimerWheelProofs

namespace Dbase.Time.TimerWheel

open Dbase.Lib Dbase.Lib.Word

variable {E : Env} {m m' m₁ m₂ : Mgr} {k : Nat}

/-! ## Where a registration goes -/

/-- Every turn leaves at least one slot of the next wheel, and the last wheel has room for the rest. -/
theorem climb_offset (d : Nat → Nat) (n : Nat) : ∀ w offset left : Nat, w < wheelCnt → wheelCnt ≤ n + w → 1 ≤ offset →
    offset * base w < 2 ^ 32 →
    (climb d n w offset left).1 < wheelCnt ∧ 1 ≤ (climb d n w offset left).2.1 ∧
      (climb d n w offset left).2.1 < elementCntPerWheel (climb d n w offset left).1 := by
  induction n with
  | zero =>
    intro w offset left hw hn
    omega
  | succ n ih =>
    intro w offset left hw hn h1 hlt
    unfold climb
    by_cases h : w + 1 < wheelCnt ∧ elementCntPerWheel w ≤ offset
    · rw [if_pos h, shift_eq]
      refine ih (w + 1) _ _ h.1 (by omega) ((Nat.one_le_div_iff (cnt_pos w)).mpr h.2) ?_
      calc offset / elementCntPerWheel w * base (w + 1)
          = offset / elementCntPerWheel w * elementCntPerWheel w * base w := by rw [base_succ]; ring
        _ ≤ offset * base w := Nat.mul_le_mul_right _ (Nat.div_mul_le_self ..)
        _ < 2 ^ 32 := hlt
    · rw [if_neg h]
      refine ⟨hw, h1, ?_⟩
      show offset < elementCntPerWheel w
      by_cases hlast : w + 1 < wheelCnt
      · by_contra hge
        exact h ⟨hlast, by omega⟩
      · obtain rfl : w = 4 := by unfold wheelCnt at *; omega
        have hbase : base 4 = 2 ^ 26 := rfl
        have hcnt : elementCntPerWheel 4 = 64 := rfl
        rw [hbase] at hlt
        omega

theorem ahead_ne {k c offset : Nat} (hc : c < elementCntPerWheel k) (h1 : 1 ≤ offset) (h2 : offset < elementCntPerWheel k) :
    (offset + c) % elementCntPerWheel k ≠ c := by
  by_cases hlt : offset + c < elementCntPerWheel k
  · rw [Nat.mod_eq_of_lt hlt]
    omega
  · rw [Nat.mod_eq_sub_mod (by omega), Nat.mod_eq_of_lt (by omega)]
    omega

/-- `place` pushes the timer onto a list other than that of the slot where wheel `k` is. -/
theorem place_elsewhere (hc : m.cur_slot k < elementCntPerWheel k) (t : TimerId) {T : Nat} (h1 : 1 ≤ T) (hT : T < 2 ^ 32) :
    ∃ left w s, ¬ (w = k ∧ s = m.cur_slot k) ∧ place m t T = push (m.setTimeOut t left) w s t := by
  have hspec := climb_offset m.cur_slot wheelCnt 0 T T (by decide) (by omega) h1 (by rw [show base 0 = 1 from rfl]; omega)
  unfold place
  generalize climb m.cur_slot wheelCnt 0 T T = found at hspec ⊢
  obtain ⟨w, offset, left⟩ := found
  obtain ⟨-, ho1, ho2⟩ := hspec
  refine ⟨_, w, (offset + m.cur_slot w) % elementCntPerWheel w, ?_, rfl⟩
  rintro ⟨rfl, hs⟩
  exact ahead_ne hc ho1 ho2 hs

/-- What a call leaves of the wheels, where the slot of wheel `k` is drained: the slot gains no timer. -/
structure Spares (k : Nat) (m m' : Mgr) : Prop where
  linked : Linked m → Linked m'
  cur : m'.cur_slot = m.cur_slot
  shrinks : List.Sublist (m'.tlist k (m.cur_slot k)) (m.tlist k (m.cur_slot k))

theorem Spares.refl (k : Nat) (m : Mgr) : Spares k m m := ⟨id, rfl, List.Sublist.refl _⟩

theorem Spares.trans (h : Spares k m m₁) (g : Spares k m₁ m') : Spares k m m' := by
  refine ⟨fun hl => g.linked (h.linked hl), g.cur.trans h.cur, ?_⟩
  have hs := g.shrinks
  rw [h.cur] at hs
  exact hs.trans h.shrinks

/-- The lists are those of before, whatever else is. -/
theorem Spares.of_lists (hc : m'.cur_slot = m.cur_slot) (hl : m'.tlist = m.tlist) (ho : m'.pOwner = m.pOwner) :
    Spares k m m' := by
  refine ⟨fun h => ⟨?_, ?_⟩, hc, by rw [hl]⟩
  · rw [hl, ho]
    exact h.owner
  · rw [hl]
    exact h.nodup

theorem remove_spares (k : Nat) (m : Mgr) (t : TimerId) : Spares k m (remove m t) := by
  refine ⟨fun h => remove_linked h t, (remove_fields m t).1, ?_⟩
  unfold remove
  split
  · exact List.Sublist.refl _
  · simp only [Mgr.setOwner, Mgr.setList]
    split
    · rename_i h
      rw [h.2, h.1]
      exact List.erase_sublist
    · exact List.Sublist.refl _

theorem push_spares {w s : Nat} (hne : ¬ (w = k ∧ s = m.cur_slot k)) (t : TimerId) : Spares k m (push m w s t) := by
  refine ⟨fun h => push_linked h w s t, ?_, ?_⟩
  · unfold push
    split <;> rfl
  · unfold push
    split
    · exact List.Sublist.refl _
    · simp only [Mgr.setOwner, Mgr.setList]
      rw [if_neg (fun h => hne ⟨h.1.symm, h.2.symm⟩)]

theorem put_spares {w s : Nat} (hne : ¬ (w = k ∧ s = m.cur_slot k)) (t : TimerId) (left : UInt32) :
    Spares k m (push (m.setTimeOut t left) w s t) := by
  have hset : Spares k m (m.setTimeOut t left) := .of_lists rfl rfl rfl
  exact hset.trans (push_spares (m := m.setTimeOut t left) hne t)

theorem unRegisterTimer_spares (k : Nat) (m : Mgr) (timer : Option TimerId) : Spares k m (unRegisterTimer m timer).2 := by
  unfold unRegisterTimer
  cases timer with
  | none => exact .refl k m
  | some t =>
    dsimp only
    split
    · exact remove_spares k m t
    · exact .refl k m

/-- Off every list, with the lag added, and onto a list elsewhere. -/
theorem registerTimer_steps (E : Env) (hc : m.cur_slot k < elementCntPerWheel k) (t : TimerId) (timeout : UInt32) :
    ∃ m₁ left w s, Spares k m m₁ ∧ (Linked m → m₁.pOwner t = none) ∧ ¬ (w = k ∧ s = m.cur_slot k) ∧
      (registerTimer E m (some t) timeout).2 = push (m₁.setTimeOut t left) w s t := by
  have hfree : ∃ m₁, Spares k m m₁ ∧ m₁.pOwner t = none ∧
      (if isRegistered m t then (unRegisterTimer m (some t)).2 else m) = m₁ := by
    by_cases hr : isRegistered m t = true
    · refine ⟨remove m t, remove_spares k m t, by rw [remove_owner, if_pos rfl], ?_⟩
      simp only [hr, if_true, unRegisterTimer]
    · refine ⟨m, .refl k m, ?_, by rw [if_neg hr]⟩
      by_contra hne
      exact hr ((isRegistered_iff m t).mpr hne)
  obtain ⟨m₁, hs, hfree, he⟩ := hfree
  have hlag : ∃ timeout' m₂, lagged E m₁ timeout = (timeout', m₂) ∧ Spares k m₁ m₂ ∧ m₂.pOwner = m₁.pOwner := by
    unfold lagged
    split
    · dsimp only
      split
      · exact ⟨_, _, rfl, .of_lists rfl rfl rfl, rfl⟩
      · exact ⟨_, _, rfl, .of_lists rfl rfl rfl, rfl⟩
    · exact ⟨_, _, rfl, .refl k m₁, rfl⟩
  obtain ⟨timeout', m₂, hlag, hs2, ho2⟩ := hlag
  have hboth := hs.trans hs2
  obtain ⟨hb1, hb2⟩ := effective_bounds timeout'
  obtain ⟨left, w, s, hne, hp⟩ := place_elsewhere (m := m₂) (k := k) (by rw [hboth.cur]; exact hc) t hb1 hb2
  rw [hboth.cur] at hne
  refine ⟨m₂, left, w, s, hboth, fun _ => by rw [ho2, hfree], hne, ?_⟩
  unfold registerTimer
  simp only [he, hlag]
  exact hp

theorem registerTimer_spares (E : Env) (hc : m.cur_slot k < elementCntPerWheel k) (timer : Option TimerId)
    (timeout : UInt32) : Spares k m (registerTimer E m timer timeout).2 := by
  cases timer with
  | none => exact .refl k m
  | some t =>
    obtain ⟨m₁, left, w, s, hs, -, hne, he⟩ := registerTimer_steps E hc t timeout
    rw [he]
    exact hs.trans (put_spares (by rw [hs.cur]; exact hne) t left)

/-- The timer is not on the list of the slot where wheel `k` is. -/
theorem registerTimer_elsewhere (hl : Linked m) (hc : m.cur_slot k < elementCntPerWheel k) (t : TimerId) (timeout : UInt32) :
    t ∉ (registerTimer E m (some t) timeout).2.tlist k (m.cur_slot k) := by
  obtain ⟨m₁, left, w, s, hs, hfree, hne, he⟩ := registerTimer_steps E hc t timeout
  rw [he]
  have hsub := (put_spares (m := m₁) (by rw [hs.cur]; exact hne) t left).shrinks
  rw [hs.cur] at hsub
  intro hmem
  have howner := ((hs.linked hl).owner t k (m.cur_slot k)).mp (hsub.subset hmem)
  rw [hfree hl] at howner
  cases howner

/-! ## What one turn of the loop does -/

theorem act_steps (E : Env) (origin : Origin) (m : Mgr) (t : TimerId) (timeout : UInt32) :
    ∃ m₁, Spares k m m₁ ∧ act E origin m (.registerTimer (some t) timeout) = (registerTimer E m₁ (some t) timeout).2 := by
  refine ⟨(if isRegistered m t then m.note (.unregistered t) else m).note (.registered t timeout.toNat origin), ?_, rfl⟩
  split
  · exact .of_lists rfl rfl rfl
  · exact .of_lists rfl rfl rfl

theorem act_spares (E : Env) (origin : Origin) (hc : m.cur_slot k < elementCntPerWheel k) (a : Act) :
    Spares k m (act E origin m a) := by
  cases a with
  | registerTimer timer timeout =>
    cases timer with
    | none => exact .refl k m
    | some t =>
      obtain ⟨m₁, hs, he⟩ := act_steps (k := k) E origin m t timeout
      rw [he]
      exact hs.trans (registerTimer_spares E (by rw [hs.cur]; exact hc) (some t) timeout)
  | unRegisterTimer timer =>
    cases timer with
    | none => exact .refl k m
    | some t =>
      have hnote : Spares k m (if isRegistered m t then m.note (.unregistered t) else m) := by
        split
        · exact .of_lists rfl rfl rfl
        · exact .refl k m
      exact hnote.trans (unRegisterTimer_spares k _ (some t))

theorem acts_spares (E : Env) (origin : Origin) (acts : List Act) :
    ∀ m : Mgr, m.cur_slot k < elementCntPerWheel k → Spares k m (acts.foldl (act E origin) m) := by
  induction acts with
  | nil =>
    intro m _
    exact .refl k m
  | cons a acts ih =>
    intro m hc
    have hs := act_spares E origin hc a
    exact hs.trans (ih _ (by rw [hs.cur]; exact hc))

/-- What the loop does with the timer it has popped. -/
def serve (E : Env) (k : Nat) (m : Mgr) (t : TimerId) : Mgr :=
  if k = 0 ∨ m.timeout_ t = 0 then onTimeOut E k m t else (registerTimer E m (some t) (m.timeout_ t)).2

theorem called_spares (k : Nat) (m : Mgr) (t : TimerId) : Spares k m (m.called t) := .of_lists rfl rfl rfl

theorem serve_spares (E : Env) (hc : m.cur_slot k < elementCntPerWheel k) (t : TimerId) : Spares k m (serve E k m t) := by
  unfold serve
  split
  · exact (called_spares k m t).trans (acts_spares E _ _ _ hc)
  · exact registerTimer_spares E hc (some t) _

/-! ## The loop over a list -/

/-- The states at the head of the loop over the list of the slot where wheel `k` is, and the turns taken to come there. -/
inductive Loops (E : Env) (k : Nat) (m₀ : Mgr) : Nat → Mgr → Prop
  | head : Loops E k m₀ 0 m₀
  | turn {n : Nat} {m m₁ : Mgr} {t : TimerId} : Loops E k m₀ n m → pop m k (m₀.cur_slot k) = (some t, m₁) →
      Loops E k m₀ (n + 1) (serve E k m₁ t)

/-- The loop comes to an end, with this state. -/
def Drains (E : Env) (k : Nat) (m₀ m : Mgr) : Prop := (∃ n, Loops E k m₀ n m) ∧ m.tlist k (m₀.cur_slot k) = []

/-- The calls of `registerTimer` while the list is drained: that of the loop itself, and those of a callback. -/
inductive Registers (E : Env) (k : Nat) (m₀ : Mgr) : Mgr → TimerId → Mgr → Prop
  | cascade {n : Nat} {m m₁ : Mgr} {t : TimerId} : Loops E k m₀ n m → pop m k (m₀.cur_slot k) = (some t, m₁) →
      ¬ (k = 0 ∨ m₁.timeout_ t = 0) → Registers E k m₀ m₁ t (registerTimer E m₁ (some t) (m₁.timeout_ t)).2
  | callback {n : Nat} {m m₁ : Mgr} {t u : TimerId} {timeout : UInt32} {before behind : List Act} : Loops E k m₀ n m →
      pop m k (m₀.cur_slot k) = (some t, m₁) → (k = 0 ∨ m₁.timeout_ t = 0) →
      E.onTimeOut m₁.calls t = before ++ .registerTimer (some u) timeout :: behind →
      Registers E k m₀ (before.foldl (act E (.callback k (m₁.cur_slot k))) (m₁.called t)) u
        (act E (.callback k (m₁.cur_slot k)) (before.foldl (act E (.callback k (m₁.cur_slot k))) (m₁.called t))
          (.registerTimer (some u) timeout))

theorem pop_some {w s : Nat} {t : TimerId} (h : pop m w s = (some t, m₁)) :
    ∃ rest, m.tlist w s = t :: rest ∧ m₁ = remove m t := by
  unfold pop at h
  split at h
  · cases h
  · rename_i u rest hl
    cases h
    exact ⟨rest, hl, rfl⟩

/-- A turn takes a timer off the list, and nothing comes onto it. -/
theorem loops_spares {m₀ : Mgr} {n : Nat} (hl : Linked m₀) (hc : m₀.cur_slot k < elementCntPerWheel k)
    (h : Loops E k m₀ n m) :
    Spares k m₀ m ∧ n + (m.tlist k (m₀.cur_slot k)).length ≤ (m₀.tlist k (m₀.cur_slot k)).length := by
  induction h with
  | head => exact ⟨.refl k m₀, by omega⟩
  | @turn n m m₁ t _ hp ih =>
    obtain ⟨hs, hn⟩ := ih
    obtain ⟨rest, hlist, rfl⟩ := pop_some hp
    have hpop := hs.trans (remove_spares k m t)
    have hserve := serve_spares E (m := remove m t) (k := k) (by rw [hpop.cur]; exact hc) t
    refine ⟨hpop.trans hserve, ?_⟩
    have hle := hserve.shrinks.length_le
    rw [hpop.cur, remove_head (hs.linked hl) hlist] at hle
    rw [hlist, List.length_cons] at hn
    omega

/-- However many turns the loop takes, the list had a timer for each of them when it began. -/
theorem drains_bounded {m₀ : Mgr} {n : Nat} (hl : Linked m₀) (hc : m₀.cur_slot k < elementCntPerWheel k)
    (h : Loops E k m₀ n m) : n ≤ (m₀.tlist k (m₀.cur_slot k)).length := by
  have := (loops_spares hl hc h).2
  omega

theorem registers_spares {m₀ : Mgr} {t : TimerId} (hl : Linked m₀) (hc : m₀.cur_slot k < elementCntPerWheel k)
    (h : Registers E k m₀ m t m') :
    t ∉ m'.tlist k (m₀.cur_slot k) ∧ List.Sublist (m'.tlist k (m₀.cur_slot k)) (m.tlist k (m₀.cur_slot k)) := by
  cases h with
  | @cascade n m₁ _ _ hloop hp _ =>
    obtain ⟨_, _, rfl⟩ := pop_some hp
    have hs := (loops_spares hl hc hloop).1.trans (remove_spares k m₁ t)
    have hc' : (remove m₁ t).cur_slot k < elementCntPerWheel k := by rw [hs.cur]; exact hc
    have hout := registerTimer_elsewhere (E := E) (hs.linked hl) hc' t ((remove m₁ t).timeout_ t)
    have hsub := (registerTimer_spares E hc' (some t) ((remove m₁ t).timeout_ t)).shrinks
    rw [hs.cur] at hout hsub
    exact ⟨hout, hsub⟩
  | @callback n m₁ _ u _ timeout before behind hloop hp _ _ =>
    obtain ⟨_, _, rfl⟩ := pop_some hp
    have hpop := (loops_spares hl hc hloop).1.trans (remove_spares k m₁ u)
    have hcalled := hpop.trans (called_spares k _ u)
    have hacts := hcalled.trans
      (acts_spares E (.callback k ((remove m₁ u).cur_slot k)) before _ (by rw [hcalled.cur]; exact hc))
    generalize before.foldl (act E (.callback k ((remove m₁ u).cur_slot k))) ((remove m₁ u).called u) = m₂ at hacts ⊢
    obtain ⟨m₃, hs, he⟩ := act_steps (k := k) E (.callback k ((remove m₁ u).cur_slot k)) m₂ t timeout
    have hboth := hacts.trans hs
    have hc' : m₃.cur_slot k < elementCntPerWheel k := by rw [hboth.cur]; exact hc
    have hout := registerTimer_elsewhere (E := E) (hboth.linked hl) hc' t timeout
    have hsub := (hs.trans (registerTimer_spares E hc' (some t) timeout)).shrinks
    rw [hboth.cur] at hout
    rw [hacts.cur] at hsub
    rw [he]
    exact ⟨hout, hsub⟩

/-- With a turn for every timer on the list, `drain` takes the loop to its end. -/
theorem loops_drain {m₀ : Mgr} (hl : Linked m₀) (hc : m₀.cur_slot k < elementCntPerWheel k) (fuel : Nat) :
    ∀ {n : Nat} {m : Mgr}, Loops E k m₀ n m → (m.tlist k (m₀.cur_slot k)).length ≤ fuel →
      Drains E k m₀ (drain E k fuel m) := by
  induction fuel with
  | zero =>
    intro n m h hle
    exact ⟨⟨n, h⟩, List.eq_nil_of_length_eq_zero (Nat.le_zero.mp hle)⟩
  | succ fuel ih =>
    intro n m h hle
    have hcur := (loops_spares hl hc h).1.cur
    unfold drain
    rw [hcur]
    rcases hp : pop m k (m₀.cur_slot k) with ⟨_ | t, m₁⟩
    · have hnil : m.tlist k (m₀.cur_slot k) = [] ∧ m₁ = m := by
        unfold pop at hp
        split at hp
        · rename_i hnil
          cases hp
          exact ⟨hnil, rfl⟩
        · cases hp
      rw [hnil.2]
      exact ⟨⟨n, h⟩, hnil.1⟩
    · have hnext := Loops.turn h hp
      have hserve : (if k = 0 ∨ m₁.timeout_ t = 0 then drain E k fuel (onTimeOut E k m₁ t)
          else drain E k fuel (registerTimer E m₁ (some t) (m₁.timeout_ t)).2) = drain E k fuel (serve E k m₁ t) := by
        unfold serve
        split <;> rfl
      dsimp only
      rw [hserve]
      refine ih hnext ?_
      obtain ⟨rest, hlist, rfl⟩ := pop_some hp
      have hs := (loops_spares hl hc h).1
      have hpop := hs.trans (remove_spares k m t)
      have hle' := (serve_spares E (m := remove m t) (k := k) (by rw [hpop.cur]; exact hc) t).shrinks.length_le
      rw [hpop.cur, remove_head (hs.linked hl) hlist] at hle'
      rw [hlist, List.length_cons] at hle
      omega

theorem drains_drain {m₀ : Mgr} (hl : Linked m₀) (hc : m₀.cur_slot k < elementCntPerWheel k) :
    Drains E k m₀ (drain E k (m₀.tlist k (m₀.cur_slot k)).length m₀) :=
  loops_drain hl hc _ .head (Nat.le_refl _)

/-! ## The loop over the wheels -/

def move (w : Nat) (m : Mgr) : Mgr := m.setSlot w ((m.cur_slot w + 1) % elementCntPerWheel w)

theorem move_linked {w : Nat} (h : Linked m) : Linked (move w m) := ⟨h.owner, h.nodup⟩

theorem move_slot (w : Nat) (m : Mgr) : (move w m).cur_slot w < elementCntPerWheel w := by
  simp only [move, Mgr.setSlot, if_true]
  exact Nat.mod_lt _ (cnt_pos w)

/-- The `for` loop of `step` from wheel `wheel_no` on, with every list drained to its end. -/
inductive Turns (E : Env) : Nat → Mgr → Mgr → Prop
  | finished (m : Mgr) : Turns E wheelCnt m m
  | stop {w : Nat} {m m₁ : Mgr} : w < wheelCnt → Drains E w (move w m) m₁ → m₁.cur_slot w ≠ 0 → Turns E w m m₁
  | next {w : Nat} {m m₁ m' : Mgr} : w < wheelCnt → Drains E w (move w m) m₁ → m₁.cur_slot w = 0 → Turns E (w + 1) m₁ m' →
      Turns E w m m'

/-- The states in which a step begins to drain the list of a wheel. -/
inductive Begins (E : Env) (m : Mgr) : Nat → Mgr → Prop
  | first : Begins E m 0 (move 0 (m.note .stepped))
  | next {w : Nat} {m₁ m₂ : Mgr} : Begins E m w m₁ → Drains E w m₁ m₂ → m₂.cur_slot w = 0 → w + 1 < wheelCnt →
      Begins E m (w + 1) (move (w + 1) m₂)

theorem drains_linked {m₀ : Mgr} (hl : Linked m₀) (hc : m₀.cur_slot k < elementCntPerWheel k) (h : Drains E k m₀ m) :
    Linked m := by
  obtain ⟨⟨n, hloop⟩, -⟩ := h
  exact (loops_spares hl hc hloop).1.linked hl

theorem begins_linked {w : Nat} (hl : Linked m) (h : Begins E m w m₁) :
    Linked m₁ ∧ m₁.cur_slot w < elementCntPerWheel w := by
  induction h with
  | first => exact ⟨move_linked ⟨hl.owner, hl.nodup⟩, move_slot 0 _⟩
  | @next w _ m₂ _ hd _ _ ih => exact ⟨move_linked (drains_linked ih.1 ih.2 hd), move_slot (w + 1) m₂⟩

theorem turns_turns (n : Nat) : ∀ (w : Nat) (m : Mgr), n + w = wheelCnt → Linked m →
    Turns E w m (turns E n w m) ∧ Linked (turns E n w m) := by
  induction n with
  | zero =>
    intro w m hw hl
    obtain rfl : w = wheelCnt := by omega
    exact ⟨.finished m, hl⟩
  | succ n ih =>
    intro w m hw hl
    have hd : Drains E w (move w m) (turn E w m) := drains_drain (move_linked hl) (move_slot w m)
    have hl₁ := drains_linked (move_linked hl) (move_slot w m) hd
    unfold turns
    dsimp only
    split
    · rename_i hne
      exact ⟨.stop (by omega) hd hne, hl₁⟩
    · rename_i heq
      obtain ⟨hrest, hl₂⟩ := ih (w + 1) (turn E w m) (by omega) hl₁
      exact ⟨.next (by omega) hd (not_not.mp heq) hrest, hl₂⟩

/-- The states a program brings its manager to, whatever the clock and the callbacks do. -/
inductive Comes : Mgr → Prop
  | make : Comes make
  | initTick {m : Mgr} (now : Nat) : Comes m → Comes (initTick m now)
  | act {m : Mgr} (E : Env) (a : Act) : Comes m → Comes (act E .outside m a)
  | tickInternal {m : Mgr} (E : Env) (cur_tick : Nat) : Comes m → Comes (tickInternal E m cur_tick)

structure Sound (m : Mgr) : Prop where
  linked : Linked m
  slots : ∀ j, m.cur_slot j < elementCntPerWheel j

theorem turns_sound {w : Nat} (h : Turns E w m m') : Sound m → Sound m' := by
  -- a wheel that has moved is in range, and draining moves none
  have hdrained : ∀ {w m m₁}, Drains E w (move w m) m₁ → Sound m → Sound m₁ := by
    intro w m m₁ hd hs
    refine ⟨drains_linked (move_linked hs.linked) (move_slot w m) hd, ?_⟩
    obtain ⟨⟨n, hloop⟩, -⟩ := hd
    intro j
    rw [(loops_spares (move_linked hs.linked) (move_slot w m) hloop).1.cur]
    by_cases hj : j = w
    · rw [hj]
      exact move_slot w m
    · simp only [move, Mgr.setSlot, if_neg hj]
      exact hs.slots j
  induction h with
  | finished m => exact id
  | stop _ hd _ => exact hdrained hd
  | next _ hd _ _ ih => exact fun hs => ih (hdrained hd hs)

theorem step_sound (hs : Sound m) : Sound (step E m) :=
  turns_sound (turns_turns (E := E) wheelCnt 0 (m.note .stepped) rfl ⟨hs.linked.owner, hs.linked.nodup⟩).1
    ⟨⟨hs.linked.owner, hs.linked.nodup⟩, hs.slots⟩

theorem catchUp_sound (count : Nat) : ∀ m : Mgr, Sound m → Sound (catchUp E count m) := by
  induction count with
  | zero =>
    intro m hs
    exact hs
  | succ count ih =>
    intro m hs
    exact ih _ (step_sound ⟨⟨hs.linked.owner, hs.linked.nodup⟩, hs.slots⟩)

theorem comes_sound (h : Comes m) : Sound m := by
  induction h with
  | make => exact ⟨⟨fun _ _ _ => by simp [make], fun _ _ => List.nodup_nil⟩, cnt_pos⟩
  | initTick now _ ih => exact ⟨⟨ih.linked.owner, ih.linked.nodup⟩, cnt_pos⟩
  | act E a _ ih =>
    have hs := act_spares (k := 0) E .outside (ih.slots 0) a
    exact ⟨hs.linked ih.linked, by rw [hs.cur]; exact ih.slots⟩
  | tickInternal E cur_tick _ ih =>
    unfold TimerWheel.tickInternal
    split
    · exact ih
    · exact catchUp_sound _ _ ih

/-- In every loop of a step no registration puts its timer onto the drained list or adds to it, so the loop ends, after no
    more turns than the list had timers when it began; and the step ends, as `step` does. -/
theorem step_terminates (E : Env) {m : Mgr} (hl : Linked m) :
    (∀ w m₁, Begins E m w m₁ →
      (∀ m₂ t m₃, Registers E w m₁ m₂ t m₃ → t ∉ m₃.tlist w (m₁.cur_slot w) ∧
        List.Sublist (m₃.tlist w (m₁.cur_slot w)) (m₂.tlist w (m₁.cur_slot w))) ∧
      (∃ m₂, Drains E w m₁ m₂) ∧ ∀ n m₂, Loops E w m₁ n m₂ → n ≤ (m₁.tlist w (m₁.cur_slot w)).length) ∧
    Turns E 0 (m.note .stepped) (step E m) := by
  have hnote : Linked (m.note .stepped) := ⟨hl.owner, hl.nodup⟩
  refine ⟨?_, (turns_turns wheelCnt 0 (m.note .stepped) rfl hnote).1⟩
  intro w m₁ hb
  obtain ⟨hl₁, hc₁⟩ := begins_linked hl hb
  refine ⟨fun m₂ t m₃ hr => registers_spares hl₁ hc₁ hr, ⟨_, drains_drain hl₁ hc₁⟩, ?_⟩
  intro n m₂ hloop
  exact drains_bounded hl₁ hc₁ hloop

/-- A callback that registers its timer again, as far ahead as can be asked for. -/
def again : Env where
  getNow := fun _ => 7
  onTimeOut := fun _ t => [.registerTimer (some t) 4294967295]

def armed : Mgr := act again .outside (initTick make 7) (.registerTimer (some 5) 1)

theorem step_terminates_again :
    Turns again 0 (armed.note .stepped) (step again armed) ∧
      ¬ ∃ m₂, Loops again 0 (move 0 (armed.note .stepped)) 2 m₂ := by
  have hl : Linked armed := (comes_sound (.act again _ (.initTick 7 .make))).linked
  obtain ⟨hloops, hturns⟩ := step_terminates again hl
  refine ⟨hturns, ?_⟩
  rintro ⟨m₂, hloop⟩
  have hlen : ((move 0 (armed.note .stepped)).tlist 0 ((move 0 (armed.note .stepped)).cur_slot 0)).length = 1 := by decide
  have hle := (hloops 0 _ .first).2.2 2 m₂ hloop
  rw [hlen] at hle
  omega

end Dbase.Time.TimerWheel
