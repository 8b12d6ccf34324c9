/-
  Dbase.Memory.ObjectPoolProofs — what holds of a live `ObjectPool` at every moment of every run.

  The bound rests on the two locked sections that insert, each of which looks at the number of
  idle objects again. That an idle object is clean rests on where the objects are: an object
  has one place, so while a `release` owns it nobody hands it out.

  Proved, over every order of the steps of any number of calls:
  - `Effect.inv` / `Inv.outside`: what a step of a call, and a label outside the calls, keeps.
  - `go_effect`: what each step of a call does, once for all of them.
  - `hygiene`: the idle objects are within the limit, every object is in one place, every idle
    object has never been handed out or has since passed the reset callback its release
    copied, and `totalCreated` counts the objects that left `createObject`.
-/

import Dbase.Lib.Crew
import Dbase.Memory.ObjectPool

namespace Dbase.Memory.ObjectPool

open Dbase.Lib

/-! ## What happened to an object -/

def Fresh (h : List Event) (o : Obj) : Prop := .handedOut o ∉ h

/-- What happened since the object was last handed out, newest first. -/
def since (o : Obj) (h : List Event) : List Event := h.takeWhile (· ≠ .handedOut o)

/-- A release of the object, since it was last handed out, copied `cb`. -/
def Released (h : List Event) (o : Obj) (cb : Option Callback) : Prop := .released o cb ∈ since o h

/-- And after that the object passed `cb` without an exception. -/
def Passed (h : List Event) (o : Obj) : Prop :=
  ∃ cb newer older, since o h = newer ++ .passed o cb :: older ∧ .released o cb ∈ older

def Clean (h : List Event) (o : Obj) : Prop := Fresh h o ∨ Passed h o

/-- The objects made for the pool. -/
def madeIn (h : List Event) : Nat := h.countP fun e => match e with | .made _ => true | _ => false

section History

variable {es h : List Event} {o : Obj}

theorem since_append (hn : .handedOut o ∉ es) : since o (es ++ h) = es ++ since o h := by
  unfold since
  refine List.takeWhile_append_of_pos fun e he => ?_
  simp only [ne_eq, decide_not, Bool.not_eq_eq_eq_not, Bool.not_true, decide_eq_false_iff_not]
  rintro rfl
  exact hn he

theorem Fresh.append (hf : Fresh h o) (hn : .handedOut o ∉ es) : Fresh (es ++ h) o :=
  fun hm => (List.mem_append.mp hm).elim hn hf

theorem Released.append {cb : Option Callback} (hr : Released h o cb) (hn : .handedOut o ∉ es) :
    Released (es ++ h) o cb := by
  unfold Released
  rw [since_append hn]
  exact List.mem_append_right _ hr

theorem Passed.append (hp : Passed h o) (hn : .handedOut o ∉ es) : Passed (es ++ h) o := by
  obtain ⟨cb, newer, older, he, hr⟩ := hp
  exact ⟨cb, es ++ newer, older, by rw [since_append hn, he, List.append_assoc], hr⟩

theorem Clean.append (hc : Clean h o) (hn : .handedOut o ∉ es) : Clean (es ++ h) o :=
  hc.imp (Fresh.append · hn) (Passed.append · hn)

end History

/-- What is known of the objects a call owns. -/
def PcOk (h : List Event) : Pc → Prop
  | .factoryCallbackCopy c | .factory _ c | .makeUnique c => ∀ o ∈ c.held, Fresh h o
  | .count o c => ∀ x ∈ o :: c.held, Fresh h x
  | .insert created => ∀ o ∈ created, Fresh h o
  | .reset o cb _ => Released h o cb
  | .released o | .store o => Passed h o
  | .acquire _ | .take _ | .reserve _ | .reserveCreated _ | .share _ | .release _ _ | .leave _ => True

theorem PcOk.append {es h : List Event} {pc : Pc} (hp : PcOk h pc) (hn : ∀ o ∈ pc.held, .handedOut o ∉ es) :
    PcOk (es ++ h) pc := by
  cases pc with
  | factoryCallbackCopy c => exact fun o ho => (hp o ho).append (hn o ho)
  | factory _ c => exact fun o ho => (hp o ho).append (hn o ho)
  | makeUnique c => exact fun o ho => (hp o ho).append (hn o ho)
  | count _ c => exact fun o ho => (hp o ho).append (hn o ho)
  | insert created => exact fun o ho => (hp o ho).append (hn o ho)
  | reset o cb _ => exact Released.append hp (hn o List.mem_cons_self)
  | released o => exact Passed.append hp (hn o List.mem_cons_self)
  | store o => exact Passed.append hp (hn o List.mem_cons_self)
  | _ => trivial

/-! ## Where the objects are -/

/-- The places of an object outside the calls in progress. -/
def atRest (s : State) (o : Obj) : Nat :=
  s.idle.count o + s.owned.count o + s.shared.count o + s.destroyed.count o

def heldBy (calls : List Pc) (o : Obj) : Nat := (calls.map fun pc => pc.held.count o).sum

/-- The call has an object of `createObject` that is not counted yet. -/
def Pc.creating : Pc → Nat
  | .count _ _ => 1
  | _ => 0

def creatingIn (calls : List Pc) : Nat := (calls.map Pc.creating).sum

structure Inv (s : State) : Prop where
  bound : s.idle.length ≤ s.maxIdle
  place : ∀ o : Nat, atRest s o + heldBy s.calls o = if o < s.objects then 1 else 0
  known : ∀ o : Nat, .handedOut o ∈ s.history → o < s.objects
  clean : ∀ o ∈ s.idle, Clean s.history o
  calls : ∀ pc ∈ s.calls, PcOk s.history pc
  counted : s.totalCreated + creatingIn s.calls = madeIn s.history

section Places

variable {s : State} (hi : Inv s) {k : Nat} {pc : Pc} (hk : s.calls[k]? = some pc) {o : Obj}
include hi hk

theorem Inv.not_idle (ho : o ∈ pc.held) : o ∉ s.idle := by
  intro hidle
  have hplace := hi.place o
  have hcalls := Crew.le_sum_of_mem (fun pc => pc.held.count o) (List.mem_of_getElem? hk)
  have h1 : 0 < pc.held.count o := List.count_pos_iff.mpr ho
  have h2 : 0 < s.idle.count o := List.count_pos_iff.mpr hidle
  unfold atRest heldBy at hplace
  split at hplace <;> omega

theorem Inv.not_held (ho : o ∈ s.idle ∨ o ∈ pc.held) {j : Nat} (hne : j ≠ k) {pc' : Pc} (hj : s.calls[j]? = some pc') :
    o ∉ pc'.held := by
  intro hheld
  rcases ho with ho | ho
  · exact hi.not_idle hj hheld ho
  · have hplace := hi.place o
    have hcalls := Crew.add_le_sum_of_getElem? (fun pc => pc.held.count o) hk hj hne.symm
    have h1 : 0 < pc.held.count o := List.count_pos_iff.mpr ho
    have h2 : 0 < pc'.held.count o := List.count_pos_iff.mpr hheld
    unfold heldBy at hplace
    split at hplace <;> omega

end Places

/-- What a step of the `k`-th call does: it goes from `pc` to `pc'` and moves objects between
    its locals and the places outside; an object it hands out was idle or its own. -/
structure Effect (s t : State) (k : Nat) (pc pc' : Pc) (es : List Event) : Prop where
  calls : t.calls = s.calls.set k pc'
  maxIdle : t.maxIdle = s.maxIdle
  history : t.history = es ++ s.history
  objects : s.objects ≤ t.objects
  moved : ∀ o : Nat, atRest t o + pc'.held.count o =
    atRest s o + pc.held.count o + if s.objects ≤ o ∧ o < t.objects then 1 else 0
  out : ∀ o, .handedOut o ∈ es → o ∈ s.idle ∨ o ∈ pc.held
  bound : t.idle.length ≤ t.maxIdle
  clean : ∀ o ∈ t.idle, (o ∈ s.idle ∧ .handedOut o ∉ es) ∨ Clean t.history o
  ok : PcOk t.history pc'
  counted : t.totalCreated + pc'.creating + madeIn s.history = s.totalCreated + pc.creating + madeIn t.history

theorem Effect.inv {s t : State} {k : Nat} {pc pc' : Pc} {es : List Event} (e : Effect s t k pc pc' es) (hi : Inv s)
    (hk : s.calls[k]? = some pc) : Inv t := by
  refine ⟨e.bound, fun o => ?_, fun o ho => ?_, fun o ho => ?_, fun x hx => ?_, ?_⟩
  · have hset : heldBy (s.calls.set k pc') o + pc.held.count o = heldBy s.calls o + pc'.held.count o :=
      Crew.sum_set_of (fun pc => pc.held.count o) hk pc'
    have hplace := hi.place o
    have hmoved := e.moved o
    have hobj := e.objects
    rw [e.calls]
    split_ifs at hplace hmoved ⊢ <;> omega
  · rw [e.history] at ho
    rcases List.mem_append.mp ho with ho | ho
    · have hplace := hi.place o
      have hpos : 0 < atRest s o + heldBy s.calls o := by
        rcases e.out o ho with hidle | hheld
        · have : 0 < s.idle.count o := List.count_pos_iff.mpr hidle
          unfold atRest
          omega
        · have : 0 < pc.held.count o := List.count_pos_iff.mpr hheld
          have := Crew.le_sum_of_mem (fun pc => pc.held.count o) (List.mem_of_getElem? hk)
          unfold heldBy
          omega
      have hobj := e.objects
      split at hplace <;> omega
    · exact Nat.lt_of_lt_of_le (hi.known o ho) e.objects
  · rcases e.clean o ho with ⟨hidle, hn⟩ | hc
    · rw [e.history]
      exact (hi.clean o hidle).append hn
    · exact hc
  · -- what another call owns was not handed out
    obtain ⟨j, hj⟩ := List.mem_iff_getElem?.mp hx
    rw [e.calls, Crew.getElem?_set_of hk] at hj
    split at hj
    · cases hj
      exact e.ok
    · rename_i hne
      rw [e.history]
      exact (hi.calls x (List.mem_of_getElem? hj)).append fun o ho hout => hi.not_held hk (e.out o hout) hne hj ho
  · have hset := Crew.sum_set_of Pc.creating hk pc'
    have h1 := hi.counted
    have h2 := e.counted
    unfold creatingIn at h1 ⊢
    rw [e.calls]
    omega

/-- What happens outside the steps of the calls: calls begin, objects come and go. -/
theorem Inv.outside {s t : State} (hi : Inv s) {new : List Pc} (hcalls : t.calls = s.calls ++ new)
    (hhist : t.history = s.history) (hcount : t.totalCreated = s.totalCreated) (hobj : s.objects ≤ t.objects)
    (hidle : t.idle ⊆ s.idle) (hbound : t.idle.length ≤ t.maxIdle) (hok : ∀ pc ∈ new, PcOk s.history pc)
    (hnew : creatingIn new = 0)
    (hmoved : ∀ o : Nat, atRest t o + heldBy new o = atRest s o + if s.objects ≤ o ∧ o < t.objects then 1 else 0) :
    Inv t := by
  refine ⟨hbound, fun o => ?_, fun o ho => ?_, fun o ho => ?_, fun x hx => ?_, ?_⟩
  · have hplace := hi.place o
    have hm := hmoved o
    have happ : heldBy (s.calls ++ new) o = heldBy s.calls o + heldBy new o := by simp [heldBy]
    rw [hcalls, happ]
    split_ifs at hplace hm ⊢ <;> omega
  · rw [hhist] at ho
    exact Nat.lt_of_lt_of_le (hi.known o ho) hobj
  · rw [hhist]
    exact hi.clean o (hidle ho)
  · rw [hcalls] at hx
    rw [hhist]
    exact (List.mem_append.mp hx).elim (hi.calls x) (hok x)
  · have h1 := hi.counted
    unfold creatingIn at h1 hnew ⊢
    rw [hcalls, List.map_append, List.sum_append, hhist, hcount]
    omega

/-! ## The steps of a call -/

/-- The object comes from the idle ones or from the call, and goes out clean or not. -/
theorem Effect.handOut (s s' : State) (k : Nat) (pc : Pc) {o : Obj} (shared : Bool)
    (hcalls : s'.calls = s.calls) (hmax : s'.maxIdle = s.maxIdle) (hhist : s'.history = s.history)
    (hobj : s'.objects = s.objects) (hfrom : ∀ x, atRest s' x + [o].count x = atRest s x + pc.held.count x)
    (ho : o ∈ s.idle ∨ o ∈ pc.held) (hbound : s'.idle.length ≤ s'.maxIdle) (hidle : ∀ x ∈ s'.idle, x ∈ s.idle ∧ x ≠ o)
    (hcount : s'.totalCreated = s.totalCreated + pc.creating) :
    ∃ pc', Effect s (handOut k shared o s') k pc pc' [.handedOut o] := by
  have hne : ∀ x, x ≠ o → Event.handedOut x ∉ [Event.handedOut o] := by
    intro x hx h
    simp only [List.mem_singleton, Event.handedOut.injEq] at h
    exact hx h
  have hclean : ∀ x ∈ s'.idle,
      (x ∈ s.idle ∧ Event.handedOut x ∉ [Event.handedOut o]) ∨ Clean (.handedOut o :: s'.history) x :=
    fun x hx => Or.inl ⟨(hidle x hx).1, hne x (hidle x hx).2⟩
  have hout : ∀ x, Event.handedOut x ∈ [Event.handedOut o] → x ∈ s.idle ∨ x ∈ pc.held := by
    intro x hx
    simp only [List.mem_singleton, Event.handedOut.injEq] at hx
    exact hx ▸ ho
  have hmade : madeIn (.handedOut o :: s'.history) = madeIn s.history := by
    rw [hhist]
    simp [madeIn]
  have hsame : ∀ x : Nat, ¬ (s.objects ≤ x ∧ x < s'.objects) := by
    intro x
    omega
  cases shared with
  | true =>
    refine ⟨.share o, ?_, hmax, ?_, hobj.ge, fun x => ?_, hout, hbound, hclean, trivial, ?_⟩
    · show s'.calls.set k _ = _
      rw [hcalls]
    · show _ :: s'.history = _
      rw [hhist]
      rfl
    · show atRest s' x + [o].count x = _ + if s.objects ≤ x ∧ x < s'.objects then 1 else 0
      rw [if_neg (hsame x)]
      exact hfrom x
    · show s'.totalCreated + 0 + _ = _ + madeIn (.handedOut o :: s'.history)
      rw [hcount, hmade, Nat.add_zero]
  | false =>
    refine ⟨.leave [], ?_, hmax, ?_, hobj.ge, fun x => ?_, hout, hbound, hclean, trivial, ?_⟩
    · show s'.calls.set k _ = _
      rw [hcalls]
    · show _ :: s'.history = _
      rw [hhist]
      rfl
    · have hx := hfrom x
      show s'.idle.count x + (o :: s'.owned).count x + s'.shared.count x + s'.destroyed.count x + 0 =
        _ + if s.objects ≤ x ∧ x < s'.objects then 1 else 0
      rw [if_neg (hsame x)]
      unfold atRest at hx ⊢
      simp only [List.count_cons, List.count_nil] at hx ⊢
      omega
    · show s'.totalCreated + 0 + _ = _ + madeIn (.handedOut o :: s'.history)
      rw [hcount, hmade, Nat.add_zero]

section Steps

variable {s : State} (hi : Inv s) {k : Nat} {pc : Pc}
include hi

omit hi in
/-- Objects change places, and nothing is recorded. -/
theorem Effect.moves {pc pc' : Pc} {idle shared destroyed : List Obj}
    (hplace : ∀ o : Nat, idle.count o + s.owned.count o + shared.count o + destroyed.count o + pc'.held.count o =
      atRest s o + pc.held.count o)
    (hcount : pc'.creating = pc.creating) (hbound : idle.length ≤ s.maxIdle)
    (hclean : ∀ o ∈ idle, o ∈ s.idle ∨ Clean s.history o) (hok : PcOk s.history pc') :
    Effect s (put k pc' { s with idle := idle, shared := shared, destroyed := destroyed }) k pc pc' [] where
  calls := rfl
  maxIdle := rfl
  history := rfl
  objects := Nat.le_refl _
  moved o := by
    rw [if_neg (by simp only [put]; omega)]
    exact hplace o
  out o ho := absurd ho List.not_mem_nil
  bound := hbound
  clean o ho := (hclean o ho).imp (fun h => ⟨h, List.not_mem_nil⟩) id
  ok := hok
  counted := by
    rw [hcount]
    rfl

/-- The call goes on with the objects it has. -/
theorem Effect.quiet (pc pc' : Pc) (hheld : pc'.held = pc.held) (hcount : pc'.creating = pc.creating)
    (hok : PcOk s.history pc') (acquired released : Nat) :
    Effect s (put k pc' { s with totalAcquired := acquired, totalReleased := released }) k pc pc' [] where
  calls := rfl
  maxIdle := rfl
  history := rfl
  objects := Nat.le_refl _
  moved o := by
    rw [hheld, if_neg (by simp only [put]; omega)]
    rfl
  out o ho := absurd ho List.not_mem_nil
  bound := hi.bound
  clean o ho := Or.inl ⟨ho, List.not_mem_nil⟩
  ok := hok
  counted := by rw [hcount]; rfl

theorem Effect.made {c : Caller} (hheld : pc.held = c.held) (hcount : pc.creating = 0)
    (hfresh : ∀ o ∈ c.held, Fresh s.history o) :
    Effect s (made k c s) k pc (.count s.objects c) [.made s.objects] where
  calls := rfl
  maxIdle := rfl
  history := rfl
  objects := Nat.le_succ _
  moved o := by
    show atRest s o + (s.objects :: c.held).count o = _ + if s.objects ≤ o ∧ o < s.objects + 1 then 1 else 0
    rw [hheld, List.count_cons]
    simp only [beq_iff_eq]
    split_ifs <;> omega
  out o ho := by simp at ho
  bound := hi.bound
  clean o ho := Or.inl ⟨ho, by simp⟩
  ok := by
    have hn : ∀ o, Event.handedOut o ∉ [Event.made s.objects] := by simp
    intro o ho
    rcases List.mem_cons.mp ho with rfl | ho
    · exact Fresh.append (fun h => Nat.lt_irrefl _ (hi.known _ h)) (hn _)
    · exact (hfresh o ho).append (hn _)
  counted := by
    have hmade : madeIn (.made s.objects :: s.history) = madeIn s.history + 1 := by simp [madeIn]
    show s.totalCreated + 1 + _ = _ + madeIn (.made s.objects :: s.history)
    rw [hcount, hmade]
    omega

/-- The call goes on with an event that hands nothing out. -/
theorem Effect.logged {pc' : Pc} {e : Event} (hheld : pc'.held = pc.held) (hcount : pc'.creating = pc.creating)
    (hout : ∀ o, e ≠ .handedOut o) (hmade : madeIn [e] = 0) (hok : PcOk (e :: s.history) pc') :
    Effect s (put k pc' (log e s)) k pc pc' [e] where
  calls := rfl
  maxIdle := rfl
  history := rfl
  objects := Nat.le_refl _
  moved o := by
    rw [hheld, if_neg (by simp only [put, log]; omega)]
    rfl
  out o ho := absurd (List.mem_singleton.mp ho).symm (hout o)
  bound := hi.bound
  clean o ho := Or.inl ⟨ho, fun h => hout o (List.mem_singleton.mp h).symm⟩
  ok := hok
  counted := by
    have happ : madeIn (e :: s.history) = madeIn [e] + madeIn s.history := by
      unfold madeIn
      rw [← List.countP_append]
      rfl
    show s.totalCreated + pc'.creating + _ = _ + madeIn (e :: s.history)
    rw [hcount, happ, hmade, Nat.zero_add]

end Steps

/-! ### The loops of `reserve` -/

@[simp] theorem held_reserveLoop (target : Nat) (created : List Obj) : (reserveLoop target created).held = created := by
  unfold reserveLoop
  split <;> rfl

@[simp] theorem creating_reserveLoop (target : Nat) (created : List Obj) : (reserveLoop target created).creating = 0 := by
  unfold reserveLoop
  split <;> rfl

theorem reserveLoop_ok {h : List Event} {created : List Obj} (hf : ∀ o ∈ created, Fresh h o) (target : Nat) :
    PcOk h (reserveLoop target created) := by
  unfold reserveLoop
  split
  · exact hf
  · exact hf

theorem length_insertCreated_le {maxIdle : Nat} {idle : List Obj} (created : List Obj) (h : idle.length ≤ maxIdle) :
    (insertCreated maxIdle idle created).1.length ≤ maxIdle := by
  induction created generalizing idle with
  | nil => exact h
  | cons o created ih =>
    unfold insertCreated
    split
    · exact h
    · exact ih (by simp only [List.length_cons]; omega)

theorem count_insertCreated (maxIdle : Nat) (idle created : List Obj) (o : Obj) :
    (insertCreated maxIdle idle created).1.count o + (insertCreated maxIdle idle created).2.count o =
      idle.count o + created.count o := by
  induction created generalizing idle with
  | nil => rfl
  | cons x created ih =>
    unfold insertCreated
    split
    · rfl
    · rw [ih, List.count_cons, List.count_cons]
      omega

theorem mem_insertCreated {maxIdle : Nat} {idle created : List Obj} {o : Obj}
    (h : o ∈ (insertCreated maxIdle idle created).1) : o ∈ idle ∨ o ∈ created := by
  have hcount := count_insertCreated maxIdle idle created o
  have hpos := List.count_pos_iff.mpr h
  rcases Nat.eq_zero_or_pos (idle.count o) with h0 | h0
  · exact Or.inr (List.count_pos_iff.mp (by omega))
  · exact Or.inl (List.count_pos_iff.mp h0)

/-! ### Every step -/

section Every

variable {s : State} (hi : Inv s) {k : Nat}
include hi

/-- An exception out of `release`. -/
theorem unwind_effect {pc : Pc} {o : Obj} (hheld : pc.held = [o]) (hcount : pc.creating = 0) (deleter : Bool) :
    unwind k o deleter s = { s with terminated := true } ∨ ∃ pc' es, Effect s (unwind k o deleter s) k pc pc' es := by
  cases deleter with
  | true => exact Or.inl rfl
  | false => exact Or.inr ⟨_, _, .quiet hi pc (.leave [o]) hheld.symm hcount.symm trivial s.totalAcquired s.totalReleased⟩

theorem take_effect {shared : Bool} {o : Obj} {idle : List Obj} (heq : s.idle = o :: idle) :
    ∃ pc' es, Effect s (handOut k shared o { s with idle := idle }) k (.take shared) pc' es := by
  have hplace : ∀ x, atRest { s with idle := idle } x + [o].count x = atRest s x + 0 := by
    intro x
    unfold atRest
    simp only [heq, List.count_cons, List.count_nil]
    omega
  have hone : o ∉ idle := by
    intro hmem
    have hpos : 0 < idle.count o := List.count_pos_iff.mpr hmem
    have hsum := hi.place o
    unfold atRest at hsum
    rw [heq, List.count_cons_self] at hsum
    split at hsum <;> omega
  have hbound := hi.bound
  rw [heq, List.length_cons] at hbound
  obtain ⟨pc', e⟩ := Effect.handOut s { s with idle := idle } k (.take shared) shared rfl rfl rfl rfl hplace
    (Or.inl (heq ▸ List.mem_cons_self)) (show idle.length ≤ s.maxIdle by omega)
    (fun x hx => ⟨heq ▸ List.mem_cons_of_mem _ hx, fun h => hone (h ▸ hx)⟩) rfl
  exact ⟨pc', _, e⟩

theorem count_effect {o : Obj} {c : Caller} (hk : s.calls[k]? = some (.count o c)) {t : State}
    (h : go k s (.count o c) .returns = some t) : ∃ pc' es, Effect s t k (.count o c) pc' es := by
  have hok := hi.calls _ (List.mem_of_getElem? hk)
  cases c with
  | acquire shared =>
    cases h
    obtain ⟨pc', e⟩ := Effect.handOut s { s with totalCreated := s.totalCreated + 1 } k (.count o (.acquire shared))
      shared rfl rfl rfl rfl (fun _ => rfl) (Or.inr List.mem_cons_self) hi.bound
      (fun x hx => ⟨hx, fun h => hi.not_idle hk List.mem_cons_self (h ▸ hx)⟩) rfl
    exact ⟨pc', _, e⟩
  | reserve target created =>
    cases h
    refine ⟨reserveLoop target (created ++ [o]), [], rfl, rfl, rfl, Nat.le_refl _, fun x => ?_,
      fun _ ho => absurd ho List.not_mem_nil, hi.bound, fun x hx => Or.inl ⟨hx, List.not_mem_nil⟩, ?_, ?_⟩
    · rw [held_reserveLoop, if_neg (by simp only [put]; omega)]
      show atRest s x + (created ++ [o]).count x = atRest s x + (o :: created).count x + 0
      simp only [List.count_append, List.count_cons, List.count_nil]
      omega
    · refine reserveLoop_ok (fun x hx => hok x ?_) target
      simp only [List.mem_append, List.mem_singleton] at hx
      rcases hx with hx | rfl
      · exact List.mem_cons_of_mem _ hx
      · exact List.mem_cons_self
    · rw [creating_reserveLoop]
      rfl

theorem insert_effect {created : List Obj} (hok : ∀ o ∈ created, Fresh s.history o) :
    Effect s (put k (.leave (insertCreated s.maxIdle s.idle created).2)
      { s with idle := (insertCreated s.maxIdle s.idle created).1 }) k (.insert created)
      (.leave (insertCreated s.maxIdle s.idle created).2) [] := by
  refine .moves (fun o => ?_) rfl (length_insertCreated_le created hi.bound) (fun o ho => ?_) trivial
  · have hcount := count_insertCreated s.maxIdle s.idle created o
    simp only [atRest, Pc.held]
    omega
  · exact (mem_insertCreated ho).imp id fun h => Or.inl (hok o h)

theorem share_effect (o : Obj) :
    Effect s (put k (.leave []) { s with shared := o :: s.shared }) k (.share o) (.leave []) [] := by
  refine .moves (fun x => ?_) rfl hi.bound (fun _ => Or.inl) trivial
  simp only [atRest, Pc.held, List.count_cons, List.count_nil]
  omega

omit hi in
theorem store_effect {o : Obj} (hok : Passed s.history o) (hroom : s.idle.length < s.maxIdle) :
    Effect s (put k (.leave []) { s with idle := o :: s.idle }) k (.store o) (.leave []) [] := by
  refine .moves (fun x => ?_) rfl hroom (fun x hx => ?_) trivial
  · simp only [atRest, Pc.held, List.count_cons, List.count_nil]
    omega
  · rcases List.mem_cons.mp hx with rfl | hx
    · exact Or.inr (Or.inr hok)
    · exact Or.inl hx

theorem leave_effect (o : Obj) (objs : List Obj) :
    Effect s (put k (.leave objs) { s with destroyed := o :: s.destroyed }) k (.leave (o :: objs)) (.leave objs) [] := by
  refine .moves (fun x => ?_) rfl hi.bound (fun _ => Or.inl) trivial
  simp only [atRest, Pc.held, List.count_cons]
  omega

/-- The release copies the callback: from here on it is the one current at the release. -/
theorem release_effect (o : Obj) (deleter : Bool) :
    Effect s (put k (.reset o s.resetCallback deleter) (log (.released o s.resetCallback) s)) k (.release o deleter)
      (.reset o s.resetCallback deleter) [.released o s.resetCallback] := by
  refine .logged hi rfl rfl (fun _ => Event.noConfusion) rfl ?_
  show Released _ _ _
  simp [Released, since]

theorem reset_effect {o : Obj} {cb : Option Callback} (hok : Released s.history o cb) (deleter : Bool) :
    Effect s (put k (.released o) (log (.passed o cb) s)) k (.reset o cb deleter) (.released o) [.passed o cb] := by
  refine .logged hi rfl rfl (fun _ => Event.noConfusion) rfl ⟨cb, [], since o s.history, ?_, hok⟩
  exact @since_append [.passed o cb] s.history o (by simp)

theorem go_effect {pc : Pc} (hk : s.calls[k]? = some pc) {ans : Answer} {t : State} (h : go k s pc ans = some t) :
    t = { s with terminated := true } ∨ ∃ pc' es, Effect s t k pc pc' es := by
  have hok := hi.calls pc (List.mem_of_getElem? hk)
  -- a step that only moves the call on
  have quiet : ∀ pc', pc'.held = pc.held → pc'.creating = pc.creating → PcOk s.history pc' →
      ∃ next es, Effect s (put k pc' s) k pc next es := fun pc' hheld hcount hok' =>
    ⟨pc', _, .quiet hi pc pc' hheld hcount hok' s.totalAcquired s.totalReleased⟩
  cases pc with
  | acquire shared =>
    cases ans with
    | returns =>
      cases h
      exact Or.inr ⟨.take shared, _, .quiet hi (.acquire shared) (.take shared) rfl rfl trivial _ _⟩
    | null | throws => cases h
  | take shared =>
    cases ans with
    | returns =>
      simp only [go] at h
      split at h
      · rename_i heq
        cases h
        exact Or.inr (take_effect hi heq)
      · cases h
        exact Or.inr (quiet (.factoryCallbackCopy (.acquire shared)) rfl rfl fun o ho => absurd ho List.not_mem_nil)
    | null | throws => cases h
  | factoryCallbackCopy c =>
    cases ans with
    | returns => cases h; exact Or.inr (quiet (.factory s.factoryCallback c) rfl rfl hok)
    | throws => cases h; exact Or.inr (quiet (.leave c.held) rfl rfl trivial)
    | null => cases h
  | factory cb c =>
    cases cb with
    | none =>
      cases ans with
      | returns => cases h; exact Or.inr (quiet (.makeUnique c) rfl rfl hok)
      | null | throws => cases h
    | some cb =>
      cases ans with
      | returns => cases h; exact Or.inr ⟨_, _, .made hi rfl rfl hok⟩
      | null => cases h; exact Or.inr (quiet (.makeUnique c) rfl rfl hok)
      | throws => cases h; exact Or.inr (quiet (.leave c.held) rfl rfl trivial)
  | makeUnique c =>
    cases ans with
    | returns => cases h; exact Or.inr ⟨_, _, .made hi rfl rfl hok⟩
    | throws => cases h; exact Or.inr (quiet (.leave c.held) rfl rfl trivial)
    | null => cases h
  | count o c =>
    cases ans with
    | returns => exact Or.inr (count_effect hi hk h)
    | null | throws => cases c <;> cases h
  | reserve count =>
    cases ans with
    | returns =>
      simp only [go] at h
      split at h
      · cases h
        exact Or.inr (quiet (.leave []) rfl rfl trivial)
      · split at h
        · cases h
          exact Or.inr (quiet (.leave []) rfl rfl trivial)
        · cases h
          exact Or.inr (quiet (.reserveCreated _) rfl rfl trivial)
    | null | throws => cases h
  | reserveCreated target =>
    cases ans with
    | returns =>
      cases h
      exact Or.inr (quiet (reserveLoop target []) (held_reserveLoop _ _) (creating_reserveLoop _ _)
        (reserveLoop_ok (fun o ho => absurd ho List.not_mem_nil) _))
    | throws => cases h; exact Or.inr (quiet (.leave []) rfl rfl trivial)
    | null => cases h
  | insert created =>
    cases ans with
    | returns => cases h; exact Or.inr ⟨_, _, insert_effect hi hok⟩
    | null | throws => cases h
  | share o =>
    cases ans with
    | returns => cases h; exact Or.inr ⟨_, _, share_effect hi o⟩
    | throws => cases h; exact Or.inr (quiet (.release o false) rfl rfl trivial)
    | null => cases h
  | release o deleter =>
    cases ans with
    | returns => cases h; exact Or.inr ⟨_, _, release_effect hi o deleter⟩
    | throws => cases h; exact unwind_effect hi rfl rfl deleter
    | null => cases h
  | reset o cb deleter =>
    cases ans with
    | returns => cases h; exact Or.inr ⟨_, _, reset_effect hi hok deleter⟩
    | throws =>
      cases cb with
      | none => cases h
      | some cb => cases h; exact unwind_effect hi rfl rfl deleter
    | null => cases h
  | released o =>
    cases ans with
    | returns =>
      simp only [go] at h
      split at h
      · cases h
        exact Or.inr ⟨.leave [o], _, .quiet hi (.released o) (.leave [o]) rfl rfl trivial _ _⟩
      · cases h
        exact Or.inr ⟨.store o, _, .quiet hi (.released o) (.store o) rfl rfl hok _ _⟩
    | null | throws => cases h
  | store o =>
    cases ans with
    | returns =>
      simp only [go] at h
      split at h
      · rename_i hroom
        cases h
        exact Or.inr ⟨_, _, store_effect hok hroom⟩
      · cases h
        exact Or.inr (quiet (.leave [o]) rfl rfl trivial)
    | null | throws => cases h
  | leave objs =>
    cases objs with
    | nil => cases ans <;> cases h
    | cons o objs =>
      cases ans with
      | returns => cases h; exact Or.inr ⟨_, _, leave_effect hi o objs⟩
      | null | throws => cases h

end Every

/-! ## Every run -/

/-- A call begins with what it is given. -/
theorem Inv.call {s t : State} (hi : Inv s) {pc : Pc} (hcalls : t.calls = s.calls ++ [pc]) (hidle : t.idle = s.idle)
    (hmax : t.maxIdle = s.maxIdle) (hobj : t.objects = s.objects) (hhist : t.history = s.history)
    (hcount : t.totalCreated = s.totalCreated) (hok : PcOk s.history pc) (hnew : pc.creating = 0)
    (hmoved : ∀ o, atRest t o + pc.held.count o = atRest s o) : Inv t := by
  refine hi.outside hcalls hhist hcount hobj.ge (hidle ▸ List.Subset.refl _) ?_ ?_ ?_ ?_
  · rw [hidle, hmax]
    exact hi.bound
  · exact fun x hx => List.mem_singleton.mp hx ▸ hok
  · simp [creatingIn, hnew]
  · intro o
    rw [if_neg (by omega)]
    simpa [heldBy] using hmoved o

/-- What is taken from a list is in one place less. -/
theorem count_erase_add {objs : List Obj} {o : Obj} (h : o ∈ objs) (x : Obj) :
    (objs.erase o).count x + [o].count x = objs.count x := by
  have hperm := (List.perm_cons_erase h).count_eq x
  simp only [List.count_cons, List.count_nil] at hperm ⊢
  omega

theorem step_inv {s t : State} (hi : Inv s) {a : Label} (h : step s a = some t) : Inv t ∧ t.maxIdle = s.maxIdle := by
  unfold step at h
  split at h
  · cases h
  cases a with
  | acquire =>
    cases h
    exact ⟨hi.call rfl rfl rfl rfl rfl rfl trivial rfl fun _ => rfl, rfl⟩
  | makeShared =>
    cases h
    exact ⟨hi.call rfl rfl rfl rfl rfl rfl trivial rfl fun _ => rfl, rfl⟩
  | reserve count =>
    cases h
    exact ⟨hi.call rfl rfl rfl rfl rfl rfl trivial rfl fun _ => rfl, rfl⟩
  | release obj =>
    cases obj with
    | none => cases h; exact ⟨hi, rfl⟩
    | some o =>
      simp only at h
      split at h
      · rename_i hmem
        cases h
        refine ⟨hi.call (show _ = s.calls ++ [.release o false] from rfl) rfl rfl rfl rfl rfl trivial rfl fun x => ?_, rfl⟩
        have hcount := count_erase_add hmem x
        simp only [atRest, ObjectPool.call, Pc.held]
        omega
      · cases h
  | dropLast o =>
    simp only at h
    split at h
    · rename_i hmem
      cases h
      refine ⟨hi.call (show _ = s.calls ++ [.release o true] from rfl) rfl rfl rfl rfl rfl trivial rfl fun x => ?_, rfl⟩
      have hcount := count_erase_add hmem x
      simp only [atRest, ObjectPool.call, Pc.held]
      omega
    · cases h
  | clear =>
    cases h
    refine ⟨hi.outside (List.append_nil _).symm rfl rfl (Nat.le_refl _) (List.nil_subset _) (Nat.zero_le _)
      (fun _ hx => absurd hx List.not_mem_nil) rfl fun x => ?_, rfl⟩
    rw [if_neg (by simp only; omega)]
    simp only [atRest, heldBy, List.count_append, List.count_nil, List.map_nil, List.sum_nil]
    omega
  | setResetCallback cb =>
    cases h
    exact ⟨⟨hi.bound, hi.place, hi.known, hi.clean, hi.calls, hi.counted⟩, rfl⟩
  | setFactoryCallback cb =>
    cases h
    exact ⟨⟨hi.bound, hi.place, hi.known, hi.clean, hi.calls, hi.counted⟩, rfl⟩
  | makeOutside =>
    cases h
    refine ⟨hi.outside (List.append_nil _).symm rfl rfl (Nat.le_succ _) (List.Subset.refl _) hi.bound
      (fun _ hx => absurd hx List.not_mem_nil) rfl fun x => ?_, rfl⟩
    show s.idle.count x + (s.objects :: s.owned).count x + s.shared.count x + s.destroyed.count x + 0 =
      s.idle.count x + s.owned.count x + s.shared.count x + s.destroyed.count x +
        if s.objects ≤ x ∧ x < s.objects + 1 then 1 else 0
    rw [List.count_cons]
    simp only [beq_iff_eq]
    split_ifs <;> omega
  | destroyOutside o =>
    simp only at h
    split at h
    · rename_i hmem
      cases h
      refine ⟨hi.outside (List.append_nil _).symm rfl rfl (Nat.le_refl _) (List.Subset.refl _) hi.bound
        (fun _ hx => absurd hx List.not_mem_nil) rfl fun x => ?_, rfl⟩
      have hcount := count_erase_add hmem x
      rw [if_neg (by simp only; omega)]
      simp only [atRest, heldBy, List.count_cons, List.count_nil, List.map_nil, List.sum_nil] at hcount ⊢
      omega
    · cases h
  | go k ans =>
    obtain ⟨pc, hk, hgo⟩ := Option.bind_eq_some_iff.mp h
    rcases go_effect hi hk hgo with rfl | ⟨pc', es, e⟩
    · exact ⟨⟨hi.bound, hi.place, hi.known, hi.clean, hi.calls, hi.counted⟩, rfl⟩
    · exact ⟨e.inv hi hk, e.maxIdle⟩

/-- What is promised of a live pool at any moment. -/
structure Hygienic (maxIdle : Nat) (s : State) : Prop where
  bound : s.idle.length ≤ maxIdle
  /-- Idle, held by one holder (a call, a `unique_ptr`, the references of a `shared_ptr`), or destroyed. -/
  onePlace : ∀ o : Nat, o < s.objects →
    s.idle.count o + (heldBy s.calls o + s.owned.count o + s.shared.count o) + s.destroyed.count o = 1
  clean : ∀ o ∈ s.idle, Clean s.history o
  /-- Every object made for the pool is counted, once it has left `createObject`. -/
  counted : s.totalCreated + creatingIn s.calls = madeIn s.history

theorem hygiene {maxIdle : Nat} {s : State} (h : (pool maxIdle).Reach (fun _ _ => True) s) : Hygienic maxIdle s := by
  have hinv : Inv s ∧ s.maxIdle = maxIdle := by
    refine h.inv (I := fun s => Inv s ∧ s.maxIdle = maxIdle) ?_ ?_
    · exact ⟨⟨Nat.zero_le _, fun _ => rfl, fun _ ho => absurd ho List.not_mem_nil,
        fun _ ho => absurd ho List.not_mem_nil, fun _ hx => absurd hx List.not_mem_nil, rfl⟩, rfl⟩
    · intro s a t ⟨hi, hmax⟩ _ hstep
      obtain ⟨ht, hsame⟩ := step_inv hi hstep
      exact ⟨ht, hsame.trans hmax⟩
  obtain ⟨hi, hmax⟩ := hinv
  refine ⟨hmax ▸ hi.bound, fun o ho => ?_, hi.clean, hi.counted⟩
  have hplace := hi.place o
  rw [if_pos ho] at hplace
  unfold atRest at hplace
  omega

/-- An object acquired and released, past a reset callback, in a pool of one. -/
theorem hygiene_one : ∃ s, Hygienic 1 s ∧ s.idle = [0] ∧ s.totalCreated = 1 := by
  obtain ⟨s, hs, hp⟩ := Lib.Machine.Reach.of_run (pool 1) (fun _ _ => True)
    (fun s => decide (s.idle = [0] ∧ s.totalCreated = 1))
    ([Label.setResetCallback (some 7), .acquire] ++ List.replicate 6 (Label.go 0 .returns) ++ [Label.release (some 0)] ++
      List.replicate 4 (Label.go 1 .returns)) (by decide)
  exact ⟨s, hygiene hs, of_decide_eq_true hp⟩

end Dbase.Memory.ObjectPool
