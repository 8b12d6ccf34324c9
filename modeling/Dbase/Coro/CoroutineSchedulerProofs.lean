/-
  Dbase.Coro.CoroutineSchedulerProofs — what `current` designates between two `Resume`s.

  `current` is written by a yield and looked at when control is back in `Resume`. In between
  frames may finish, one after another. As long as the root has not finished, control comes
  back only by a yield, so `current` is the innermost frame. Where the root finishes, `current`
  is the frame that yielded last, which is gone if its `Task` was a local of a frame above.

  Proved:
  - `step_inv_iff`: a step keeps the invariant exactly when it is not the end of a root whose
    last yield came from a frame that ends with it (`keeps`).
  - `current_is_innermost`: in every run of such steps, `current` of a coroutine that is not
    running is null when its root has finished and otherwise its innermost frame, and no
    destroyed frame is touched.
  - `a_yield_in_a_child_then_the_end`: two frames and two `Resume`s are enough for the rest.
-/

import Dbase.Coro.CoroutineScheduler

namespace Dbase.Coro.CoroutineScheduler

open Dbase.Lib

/-! ## The invariant -/

/-- The frames from the innermost down to the root, each with the next as its continuation. -/
def Chain (r : Handle) : List Frame → Prop
  | [] => False
  | [f] => f.handle = r ∧ f.continuation = none
  | f :: g :: below => f.continuation = some g.handle ∧ Chain r (g :: below)

structure Whole (e : Entry) : Prop where
  noRoot : e.root = none → e.stack = [] ∧ e.current = none
  rooted : ∀ r, e.root = some r → e.stack = [] ∧ r ∈ e.finished ∨ Chain r e.stack

/-- A frame is left, so the root is, at the bottom. -/
theorem Whole.chain {e : Entry} {f : Frame} {below : List Frame} (hw : Whole e) (hs : e.stack = f :: below) :
    ∃ r, e.root = some r ∧ Chain r (f :: below) := by
  rcases hr : e.root with _ | r
  · have hnil := (hw.noRoot hr).1
    rw [hs] at hnil
    cases hnil
  · rcases hw.rooted r hr with ⟨hnil, _⟩ | hchain
    · rw [hs] at hnil
      cases hnil
    · exact ⟨r, rfl, hs ▸ hchain⟩

theorem Whole.of_chain {e : Entry} {r : Nat} (hr : e.root = some r) (h : Chain r e.stack) : Whole e := by
  refine ⟨fun hn => ?_, fun q hq => Or.inr ?_⟩
  · rw [hr] at hn
    cases hn
  · rw [hr] at hq
    cases hq
    exact h

/-- `current` is the innermost frame, and null where there is none left. -/
def Parked (e : Entry) : Prop := e.current = e.stack.head?.map Frame.handle

def Control.runs : Control → Option Nat
  | .running id _ => some id
  | .outside | .draining _ => none

structure Base (s : State) : Prop where
  untouched : s.fault = false
  nextId : 0 < s.nextId
  ids : ∀ id e, s.coros id = some e → 0 < id ∧ id < s.nextId
  whole : ∀ id e, s.coros id = some e → Whole e

structure Inv (s : State) : Prop extends Base s where
  parked : ∀ id e, s.coros id = some e → s.control.runs ≠ some id → Parked e
  running : ∀ id, s.control.runs = some id → ∃ e, s.coros id = some e ∧ e.stack ≠ []

/-- The step is not the end of a root whose `current` designates a frame that is gone then. -/
def rootKeeps (e : Entry) : Bool :=
  match e.stack, e.current with
  | [f], some h => decide (h = f.handle ∨ h ∈ f.params)
  | _, _ => true

def keeps (s : State) : Label → Bool
  | .act .finish => (s.control.runs.bind s.coros).all rootKeeps
  | _ => true

/-! ## Frames and entries -/

theorem Chain.ne_nil {r : Handle} {l : List Frame} (h : Chain r l) : l ≠ [] := by
  rintro rfl
  exact h

/-- A chain under the same handles and continuations. -/
theorem Chain.head {r : Handle} {f g : Frame} {below : List Frame} (h : Chain r (f :: below)) (hh : g.handle = f.handle)
    (hc : g.continuation = f.continuation) : Chain r (g :: below) := by
  cases below with
  | nil => exact ⟨hh.trans h.1, hc.trans h.2⟩
  | cons x below => exact ⟨hc.trans h.1, h.2⟩

theorem Chain.root_mem {r : Handle} {l : List Frame} (h : Chain r l) : r ∈ l.map Frame.handle := by
  induction l with
  | nil => exact h.elim
  | cons f below ih =>
    cases below with
    | nil => exact List.mem_map.mpr ⟨f, List.mem_cons_self, h.1⟩
    | cons g below => exact List.mem_cons_of_mem _ (ih h.2)

theorem done_of_mem_stack {e : Entry} {h : Handle} (hm : h ∈ e.stack.map Frame.handle) : e.done h = some false :=
  if_pos hm

theorem done_of_finished {e : Entry} {h : Handle} (hs : e.stack = []) (hm : h ∈ e.finished) : e.done h = some true := by
  unfold Entry.done
  rw [hs]
  simp [hm]

theorem done_of_gone {e : Entry} {h : Handle} (hs : e.stack = []) (hm : h ∉ e.finished) : e.done h = none := by
  unfold Entry.done
  rw [hs]
  simp [hm]

theorem fresh_whole (h : Handle) : Whole (fresh h) :=
  ⟨fun hr => (by cases hr), fun r hr => Or.inr ⟨Option.some.inj hr, rfl⟩⟩

section SetEntry

variable {s : State} {id : Nat} {e : Entry}

@[simp] theorem coros_setEntry (o : Option Entry) : (setEntry id o s).coros id = o := Function.update_self ..

theorem coros_setEntry_of_ne {o : Option Entry} {j : Nat} (h : j ≠ id) : (setEntry id o s).coros j = s.coros j :=
  Function.update_of_ne h ..

/-- The entries are whole, whatever the rest of the state is. -/
theorem Base.of_coros {t : State} (hb : Base s) (hf : t.fault = false) (hn : s.nextId ≤ t.nextId)
    (hc : t.coros = s.coros) : Base t :=
  ⟨hf, Nat.lt_of_lt_of_le hb.nextId hn, fun id e h => by
    have := hb.ids id e (hc ▸ h)
    exact ⟨this.1, Nat.lt_of_lt_of_le this.2 hn⟩, fun id e h => hb.whole id e (hc ▸ h)⟩

theorem Base.setEntry {o : Option Entry} (hb : Base s) (hid : o ≠ none → 0 < id ∧ id < s.nextId)
    (ho : ∀ e, o = some e → Whole e) : Base (setEntry id o s) := by
  refine ⟨hb.untouched, hb.nextId, fun j e h => ?_, fun j e h => ?_⟩
  · by_cases hj : j = id
    · subst hj
      rw [coros_setEntry] at h
      exact hid (by rw [h]; simp)
    · rw [coros_setEntry_of_ne hj] at h
      exact hb.ids j e h
  · by_cases hj : j = id
    · subst hj
      rw [coros_setEntry] at h
      exact ho e h
    · rw [coros_setEntry_of_ne hj] at h
      exact hb.whole j e h

end SetEntry

/-! ## Outside the coroutines -/

section Outside

variable {s : State} {id : Nat}

/-- No frame runs: every coroutine is parked. -/
theorem Inv.idle (hb : Base s) (hc : s.control.runs = none) (hp : ∀ id e, s.coros id = some e → Parked e) : Inv s :=
  ⟨hb, fun id e h _ => hp id e h, fun id h => by rw [hc] at h; cases h⟩

theorem Inv.all_parked (hi : Inv s) (hc : s.control.runs = none) (id : Nat) (e : Entry) (h : s.coros id = some e) :
    Parked e :=
  hi.parked id e h (by rw [hc]; simp)

theorem ret_inv (hb : Base s) (hp : ∀ id e, s.coros id = some e → Parked e) (r : Int) : Inv (ret r s) :=
  .idle (hb.of_coros hb.untouched (Nat.le_refl _) rfl) rfl hp

theorem resumed_inv (hb : Base s) (hp : ∀ id e, s.coros id = some e → Parked e) (caller : Caller) (r : Int) :
    Inv (resumed caller r s) := by
  cases caller with
  | resume => exact ret_inv hb hp r
  | runOnce => exact ret_inv hb hp 1
  | runAll n => exact .idle (hb.of_coros hb.untouched (Nat.le_refl _) rfl) rfl hp

theorem Inv.withReady (hi : Inv s) (ready : List Nat) : Inv { s with ready := ready } :=
  ⟨hi.toBase.of_coros hi.untouched (Nat.le_refl _) rfl, hi.parked, hi.running⟩

theorem parked_setEntry {o : Option Entry} (hp : ∀ j e, j ≠ id → s.coros j = some e → Parked e)
    (ho : ∀ e, o = some e → Parked e) (j : Nat) (e : Entry) (h : (setEntry id o s).coros j = some e) : Parked e := by
  by_cases hj : j = id
  · subst hj
    rw [coros_setEntry] at h
    exact ho e h
  · rw [coros_setEntry_of_ne hj] at h
    exact hp j e hj h

/-- Control is back: `current` is the frame that yielded, or the root has finished and keeps the frame. -/
theorem afterResume_inv (hb : Base s) (hp : ∀ j e, j ≠ id → s.coros j = some e → Parked e) {e : Entry}
    (he : s.coros id = some e) (hs : e.stack ≠ [] → Parked e)
    (hf : e.stack = [] → ∀ h, e.current = some h → h ∈ e.finished) (caller : Caller) :
    Inv (afterResume id caller s) := by
  have hw := hb.whole id e he
  have hall : Parked e → ∀ j e, s.coros j = some e → Parked e := by
    intro hpe j x hx
    by_cases hj : j = id
    · subst hj
      rw [he] at hx
      exact Option.some.inj hx ▸ hpe
    · exact hp j x hj hx
  unfold afterResume
  rw [he]
  simp only
  by_cases hstack : e.stack = []
  · rcases hcur : e.current with _ | h
    · exact resumed_inv hb (hall (by rw [Parked, hcur, hstack]; rfl)) caller 0
    · simp only
      rw [done_of_finished hstack (hf hstack h hcur)]
      refine resumed_inv (hb.setEntry (fun _ => hb.ids id e he) fun x hx => ?_) (parked_setEntry hp fun x hx => ?_) caller 0
      · cases hx
        exact ⟨fun hr => ⟨(hw.noRoot hr).1, rfl⟩, hw.rooted⟩
      · cases hx
        simp [Parked, hstack]
  · have hpe := hs hstack
    obtain ⟨f, below, hstack⟩ := List.exists_cons_of_ne_nil hstack
    have hcur : e.current = some f.handle := by rw [hpe, hstack]; rfl
    rw [hcur]
    simp only
    rw [done_of_mem_stack (by rw [hstack]; exact List.mem_cons_self)]
    exact resumed_inv hb (hall hpe) caller 0

theorem resume_inv (hi : Inv s) (hc : s.control.runs = none) (caller : Caller) (id : Nat) : Inv (resume caller id s) := by
  have hp := hi.all_parked hc
  unfold resume
  split
  · exact resumed_inv hi.toBase hp caller _
  · rename_i e he
    have hpe := hp id e he
    split
    · exact resumed_inv hi.toBase hp caller _
    · rename_i h hcur
      -- a parked coroutine that can be resumed has an innermost frame
      rcases hstack : e.stack with _ | ⟨f, below⟩
      · rw [Parked, hcur, hstack] at hpe
        cases hpe
      · have hh : f.handle = h := by
          rw [Parked, hcur, hstack] at hpe
          exact (Option.some.inj hpe).symm
        rw [done_of_mem_stack (by rw [hstack, hh.symm]; exact List.mem_cons_self)]
        simp only [List.head?_cons, Option.map_some, hh, if_true]
        refine ⟨hi.toBase.of_coros hi.untouched (Nat.le_refl _) rfl, fun j x hx _ => hp j x hx, fun j hj => ?_⟩
        cases hj
        exact ⟨e, he, by rw [hstack]; simp⟩

theorem outside_inv (hi : Inv s) (hc : s.control.runs = none) {a : Label} {t : State} (h : outside s a = some t) :
    Inv t := by
  have hp := hi.all_parked hc
  cases a with
  | create valid =>
    cases h
    unfold create
    split
    · exact ret_inv hi.toBase hp _
    · have hb : Base { s with nextId := s.nextId + 1, frames := s.frames + 1 } :=
        hi.toBase.of_coros hi.untouched (Nat.le_succ _) rfl
      simp only
      split
      · refine ret_inv (hb.setEntry (fun _ => ⟨hi.nextId, Nat.lt_succ_self _⟩) fun x hx => ?_)
          (parked_setEntry (fun j e _ => hp j e) fun x hx => ?_) _
        · cases hx
          exact fresh_whole _
        · cases hx
          rfl
      · exact ret_inv hb hp _
  | schedule id =>
    cases h
    unfold schedule
    split
    · exact hi
    · exact hi.withReady _
  | resume id =>
    cases h
    exact resume_inv hi hc _ id
  | runOnce =>
    cases h
    unfold runOnce
    split
    · exact ret_inv (hi.withReady []).toBase hp _
    · rename_i id ready _
      exact resume_inv (hi.withReady ready) hc _ _
  | runAll =>
    cases h
    exact .idle (hi.toBase.of_coros hi.untouched (Nat.le_refl _) rfl) rfl hp
  | restart id valid =>
    cases h
    unfold restart
    split
    · exact ret_inv hi.toBase hp _
    · rename_i e he
      have hid := hi.ids id e he
      split
      · refine ret_inv (hi.toBase.setEntry (fun _ => hid) fun x hx => ?_)
          (parked_setEntry (fun j e _ => hp j e) fun x hx => ?_) _
        · cases hx
          exact ⟨fun _ => ⟨rfl, rfl⟩, fun r hr => (by cases hr)⟩
        · cases hx
          rfl
      · have hb : Base { s with frames := s.frames + 1 } := hi.toBase.of_coros hi.untouched (Nat.le_refl _) rfl
        refine ret_inv (hb.setEntry (fun _ => hid) fun x hx => ?_) (parked_setEntry (fun j e _ => hp j e) fun x hx => ?_) _
        · cases hx
          exact fresh_whole _
        · cases hx
          rfl
  | destroy id =>
    cases h
    unfold destroy
    split
    · exact ret_inv hi.toBase hp _
    · exact ret_inv (hi.toBase.setEntry (fun h => absurd rfl h) fun x hx => (by cases hx))
        (parked_setEntry (fun j e _ => hp j e) fun x hx => (by cases hx)) _
  | turn => cases h
  | act a => cases h

theorem runAll_inv (hi : Inv s) (hc : s.control.runs = none) (n : Int) : Inv (runAll n s) := by
  have hp := hi.all_parked hc
  unfold runAll
  split
  · exact ret_inv (hi.withReady []).toBase hp _
  · rename_i id ready _
    exact resume_inv (hi.withReady ready) hc _ _

end Outside

/-! ## Inside a coroutine -/

section Frames

variable {s : State} {id : Nat} {caller : Caller} {e : Entry} {f : Frame} {below : List Frame}

/-- The running coroutine goes on in another frame. -/
theorem Inv.goes_on {t : State} (hi : Inv s) (hc : s.control = .running id caller) (hb : Base t)
    (htc : t.control = s.control) (hother : ∀ j, j ≠ id → t.coros j = s.coros j) (he : t.coros id = some e)
    (hs : e.stack ≠ []) : Inv t := by
  have hruns : t.control.runs = some id := by rw [htc, hc]; rfl
  refine ⟨hb, fun j x hx hj => ?_, fun j hj => ?_⟩
  · have hne : j ≠ id := by
      rintro rfl
      exact hj hruns
    rw [hother j hne] at hx
    exact hi.parked j x hx (by rw [← htc]; exact hj)
  · rw [hruns] at hj
    cases hj
    exact ⟨e, he, hs⟩

theorem Inv.others_parked (hi : Inv s) (hc : s.control = .running id caller) (j : Nat) (x : Entry) (hj : j ≠ id)
    (hx : s.coros j = some x) : Parked x :=
  hi.parked j x hx (by rw [hc]; simpa [Control.runs] using hj.symm)

theorem await_inv (hi : Inv s) (hc : s.control = .running id caller) (he : s.coros id = some e)
    (hs : e.stack = f :: below) (param : Bool) :
    Inv (setEntry id (some { e with stack := ⟨s.frames, some f.handle, param, []⟩ :: f :: below })
      { s with frames := s.frames + 1 }) := by
  have hb : Base { s with frames := s.frames + 1 } := hi.toBase.of_coros hi.untouched (Nat.le_refl _) rfl
  obtain ⟨r, hr, hchain⟩ := (hi.whole id e he).chain hs
  refine hi.goes_on hc (hb.setEntry (fun _ => hi.ids id e he) fun x hx => ?_) rfl
    (fun j hj => coros_setEntry_of_ne hj) (coros_setEntry _) (List.cons_ne_nil _ _)
  cases hx
  exact .of_chain hr ⟨rfl, hchain⟩

theorem drop_inv (hi : Inv s) (hc : s.control = .running id caller) (he : s.coros id = some e)
    (hs : e.stack = f :: below) (i : Nat) :
    Inv (setEntry id (some { e with stack := { f with kept := f.kept.eraseIdx i } :: below }) s) := by
  obtain ⟨r, hr, hchain⟩ := (hi.whole id e he).chain hs
  refine hi.goes_on hc (hi.toBase.setEntry (fun _ => hi.ids id e he) fun x hx => ?_) rfl
    (fun j hj => coros_setEntry_of_ne hj) (coros_setEntry _) (List.cons_ne_nil _ _)
  cases hx
  exact .of_chain hr (hchain.head rfl rfl)

/-- A yield records the frame that yields, and control is back. -/
theorem yield_inv (hi : Inv s) (hc : s.control = .running id caller) (he : s.coros id = some e)
    (hs : e.stack = f :: below) : Inv (afterResume id caller (updateCurrent id f.handle s)) := by
  have hid := hi.ids id e he
  have hu : updateCurrent id f.handle s = setEntry id (some { e with current := some f.handle }) s := by
    unfold updateCurrent
    rw [if_neg (by omega), he]
  rw [hu]
  refine afterResume_inv (hi.toBase.setEntry (fun _ => hid) fun x hx => ?_)
    (fun j x hj hx => hi.others_parked hc j x hj (by rwa [coros_setEntry_of_ne hj] at hx)) (coros_setEntry _)
    (fun _ => ?_) (fun h => ?_) caller
  · cases hx
    obtain ⟨r, hr, hchain⟩ := (hi.whole id e he).chain hs
    exact .of_chain hr (hs ▸ hchain)
  · simp [Parked, hs]
  · simp only [hs] at h
    cases h

/-- A frame above another finishes: its continuation goes on. -/
theorem finish_child_inv {g : Frame} (hi : Inv s) (hc : s.control = .running id caller) (he : s.coros id = some e)
    (hs : e.stack = f :: g :: below) : Inv (finish id caller e f (g :: below) s) := by
  obtain ⟨r, hr, hchain⟩ := (hi.whole id e he).chain hs
  unfold finish
  rw [hchain.1]
  simp only [if_true]
  refine hi.goes_on hc (hi.toBase.setEntry (fun _ => hi.ids id e he) fun x hx => ?_) rfl
    (fun j hj => coros_setEntry_of_ne hj) (coros_setEntry _) (List.cons_ne_nil _ _)
  cases hx
  exact .of_chain hr (hchain.2.head rfl rfl)

/-- The root finishes, with the frame that yielded last still there or not. -/
theorem finish_root_iff (hi : Inv s) (hc : s.control = .running id caller) (he : s.coros id = some e)
    (hs : e.stack = [f]) : Inv (finish id caller e f [] s) ↔ rootKeeps e = true := by
  have hw := hi.whole id e he
  obtain ⟨r, hr, hchain⟩ := hw.chain hs
  have hfin : finish id caller e f [] s =
      afterResume id caller (setEntry id (some { e with stack := [], finished := f.handle :: f.params }) s) := by
    unfold finish
    rw [hchain.2]
  have hkeeps : rootKeeps e = true ↔ ∀ h, e.current = some h → h ∈ f.handle :: f.params := by
    unfold rootKeeps
    rw [hs]
    rcases e.current with _ | h
    · simp
    · simp
  rw [hfin, hkeeps]
  constructor
  · intro ht h hcur
    by_contra hgone
    have hfault : (afterResume id caller
        (setEntry id (some { e with stack := [], finished := f.handle :: f.params }) s)).fault = true := by
      unfold afterResume
      rw [coros_setEntry]
      simp only [hcur]
      rw [done_of_gone rfl hgone]
      rfl
    rw [ht.untouched] at hfault
    cases hfault
  · intro hk
    refine afterResume_inv (hi.toBase.setEntry (fun _ => hi.ids id e he) fun x hx => ?_)
      (fun j x hj hx => hi.others_parked hc j x hj (by rwa [coros_setEntry_of_ne hj] at hx)) (coros_setEntry _)
      (fun h => absurd rfl h) (fun _ => hk) caller
    cases hx
    refine ⟨fun h => ?_, fun q hq => Or.inl ⟨rfl, ?_⟩⟩
    · rw [hr] at h
      cases h
    · rw [hr] at hq
      cases hq
      rw [hchain.1]
      exact List.mem_cons_self

end Frames

/-! ## Every run -/

theorem act_inv_iff {s t : State} (hi : Inv s) {id : Nat} {caller : Caller} (hc : s.control = .running id caller)
    {e : Entry} (he : s.coros id = some e) {a : Act} (h : act id caller e s a = some t) :
    Inv t ↔ keeps s (.act a) = true := by
  unfold act at h
  rcases hs : e.stack with _ | ⟨f, below⟩
  · rw [hs] at h
    cases h
  · rw [hs] at h
    cases a with
    | await param =>
      cases h
      exact iff_of_true (await_inv hi hc he hs param) rfl
    | drop i =>
      cases h
      exact iff_of_true (drop_inv hi hc he hs i) rfl
    | yield =>
      cases h
      exact iff_of_true (yield_inv hi hc he hs) rfl
    | finish =>
      cases h
      have hk : keeps s (.act .finish) = rootKeeps e := by
        simp only [keeps, hc, Control.runs, Option.bind_some, he, Option.all_some]
      rw [hk]
      cases below with
      | nil => exact finish_root_iff hi hc he hs
      | cons g below =>
        refine iff_of_true (finish_child_inv hi hc he hs) ?_
        unfold rootKeeps
        rw [hs]

theorem step_inv_iff {s t : State} (hi : Inv s) {a : Label} (h : step s a = some t) : Inv t ↔ keeps s a = true := by
  unfold step at h
  rw [hi.untouched, if_neg Bool.false_ne_true] at h
  cases hc : s.control with
  | outside =>
    rw [hc] at h
    have ha : keeps s a = true := by
      cases a with
      | act x => cases h
      | _ => rfl
    exact iff_of_true (outside_inv hi (by rw [hc]; rfl) h) ha
  | draining n =>
    rw [hc] at h
    cases a with
    | turn =>
      cases h
      exact iff_of_true (runAll_inv hi (by rw [hc]; rfl) n) rfl
    | _ => cases h
  | running id caller =>
    rw [hc] at h
    cases a with
    | act a =>
      obtain ⟨e, he, h⟩ := Option.bind_eq_some_iff.mp h
      exact act_inv_iff hi hc he h
    | _ => cases h

/-- What is promised of a coroutine that is not running. -/
def CurrentOk (e : Entry) : Prop :=
  match e.root with
  | none => e.current = none
  | some r =>
    if e.done r = some true then e.current = none
    else ∃ f below, e.stack = f :: below ∧ Chain r (f :: below) ∧ e.current = some f.handle ∧ e.done f.handle = some false

structure Sound (s : State) : Prop where
  untouched : s.fault = false
  current : ∀ id e, s.coros id = some e → s.control.runs ≠ some id → CurrentOk e

theorem currentOk_of_parked {e : Entry} (hw : Whole e) (hp : Parked e) : CurrentOk e := by
  unfold CurrentOk
  rcases hr : e.root with _ | r
  · exact (hw.noRoot hr).2
  · simp only
    rcases hw.rooted r hr with ⟨hs, hfin⟩ | hchain
    · rw [if_pos (done_of_finished hs hfin), hp, hs]
      rfl
    · obtain ⟨f, below, hs⟩ := List.exists_cons_of_ne_nil hchain.ne_nil
      rw [if_neg (by rw [done_of_mem_stack hchain.root_mem]; simp)]
      refine ⟨f, below, hs, hs ▸ hchain, by rw [hp, hs]; rfl, done_of_mem_stack ?_⟩
      rw [hs]
      exact List.mem_cons_self

/-- In every run in which a root finishes only while the frame that yielded last is still there. -/
theorem current_is_innermost {s : State} (h : scheduler.Reach (fun s a => keeps s a = true) s) : Sound s := by
  have hi : Inv s := by
    refine h.inv (I := Inv) ?_ fun s a t hi hk hstep => (step_inv_iff hi hstep).mpr hk
    exact .idle ⟨rfl, Nat.one_pos, fun id e h => (by cases h), fun id e h => (by cases h)⟩ rfl
      fun id e h => (by cases h)
  exact ⟨hi.untouched, fun id e he hr => currentOk_of_parked (hi.whole id e he) (hi.parked id e he hr)⟩

/-- A root that yields between two ends of a child, and `RunAll` to the end of it. -/
theorem current_is_innermost_two : ∃ s, Sound s ∧ s.control = .outside ∧ s.returned = 2 := by
  obtain ⟨s, hs, hp⟩ := Machine.Reach.of_run scheduler (fun s a => keeps s a = true)
    (fun s => decide (s.control = .outside ∧ s.returned = 2))
    [.create true, .schedule 1, .schedule 1, .schedule 1, .runAll, .turn, .act (.await false), .act .finish, .act .yield,
      .turn, .act (.await false), .act .finish, .act (.drop 0), .act .finish, .turn] (by decide)
  exact ⟨s, current_is_innermost hs, of_decide_eq_true hp⟩

/-- The child of the root yields; resumed, it finishes and so does the root. -/
theorem a_yield_in_a_child_then_the_end : ∃ s, scheduler.Reach (fun _ _ => True) s ∧ ¬ Sound s := by
  obtain ⟨s, hs, hp⟩ := Machine.Reach.of_run scheduler (fun _ _ => True) (fun s => s.fault)
    [.create true, .resume 1, .act (.await false), .act .yield, .resume 1, .act .finish, .act .finish] (by decide)
  refine ⟨s, hs, fun hok => ?_⟩
  rw [hok.untouched] at hp
  cases hp

end Dbase.Coro.CoroutineScheduler
