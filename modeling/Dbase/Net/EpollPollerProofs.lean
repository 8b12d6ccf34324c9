/-
  Dbase.Net.EpollPollerProofs — whether the map of the poller is the list of the kernel.

  A channel is deleted in the kernel first and erased from the map if that has succeeded; but it is entered in the map
  before it is added in the kernel, and stays there if that fails.

  Proved:
  - `inStep_iff`: a call keeps map and list in step, changes neither if it throws, and issues the operation that the list
    asks for, if and only if it is no addition that fails.
  - `mirrors_kernel`: so it is in every run without such a call.
  - `out_of_step_forever`: after one, nothing but a new instance helps the descriptor.
-/

import Dbase.Net.EpollPoller

namespace Dbase.Net.EpollPoller

open Dbase.Lib

variable {s : Poller} {answer : Answer} {channel : Channel} {call : Call}

/-- The map has the descriptors that the kernel has. -/
def Mirrors (s : Poller) : Prop := ∀ fd, (s.channels fd).isSome = (s.kernel fd).isSome

/-- The operation that the list of the kernel asks for. -/
def required (kernel : InterestList) : Call → List (Operation × Int)
  | .updateChannel none => []
  | .updateChannel (some channel) =>
    match channel.isNoneEvent, (kernel channel.fd).isSome with
    | true, true => [(.del, channel.fd)]
    | true, false => []
    | false, true => [(.mod, channel.fd)]
    | false, false => [(.add, channel.fd)]
  | .removeChannel none => []
  | .removeChannel (some channel) => if (kernel channel.fd).isSome then [(.del, channel.fd)] else []

/-- What is asked of a call. -/
structure InStep (s : Poller) (call : Call) (answer : Answer) : Prop where
  mirrors : Mirrors (perform answer s call).2
  unchanged : ∀ e, (perform answer s call).1 = .error e →
    (perform answer s call).2.channels = s.channels ∧ (perform answer s call).2.kernel = s.kernel
  issues : (perform answer s call).2.issued = s.issued ++ required s.kernel call

/-- The call has to add a descriptor, and the kernel refuses. -/
def FailedAdd (s : Poller) : Call × Answer → Prop
  | (.updateChannel (some channel), answer) =>
    channel.isNoneEvent = false ∧ s.channels channel.fd = none ∧ answer.isSome
  | _ => False

instance (s : Poller) (l : Call × Answer) : Decidable (FailedAdd s l) := by
  unfold FailedAdd
  split <;> infer_instance

/-! ## What the kernel makes of an operation -/

/-- An operation that the list allows is done, or refused for another reason. -/
theorem update_cases (answer : Answer) (operation : Operation)
    (hallowed : (s.kernel channel.fd).isSome = (operation != .add)) :
    (answer = none ∧ update answer operation channel s = (.ok (), { s with
        kernel := Function.update s.kernel channel.fd
          (if operation = .del then none else some ⟨toEpollEvents channel, channel.address⟩)
        issued := s.issued ++ [(operation, channel.fd)] })) ∨
      ∃ errno, answer = some errno ∧ update answer operation channel s =
        (.error (.runtimeError "EpollPoller::update epoll_ctl failed: " errno), { s with
          issued := s.issued ++ [(operation, channel.fd)] }) := by
  unfold update epollCtl
  cases answer with
  | some errno => exact Or.inr ⟨errno, rfl, rfl⟩
  | none =>
    refine Or.inl ⟨rfl, ?_⟩
    cases operation with
    | add =>
      have hnone : s.kernel channel.fd = none := by simpa using hallowed
      simp [hnone]
    | mod =>
      obtain ⟨ev, hev⟩ := Option.isSome_iff_exists.mp hallowed
      simp [hev]
    | del =>
      obtain ⟨ev, hev⟩ := Option.isSome_iff_exists.mp hallowed
      simp [hev]

theorem deleteAndErase_cases (answer : Answer) (hm : Mirrors s) (hin : (s.channels channel.fd).isSome) :
    deleteAndErase answer channel s = (.ok (), ⟨Function.update s.channels channel.fd none,
        Function.update s.kernel channel.fd none, s.issued ++ [(.del, channel.fd)]⟩) ∨
      ∃ e, deleteAndErase answer channel s = (.error e, { s with issued := s.issued ++ [(.del, channel.fd)] }) := by
  unfold deleteAndErase
  rcases update_cases answer .del (by rw [← hm]; exact hin) with ⟨-, h⟩ | ⟨errno, -, h⟩
  · rw [h]
    exact Or.inl rfl
  · rw [h]
    exact Or.inr ⟨_, rfl⟩

theorem Mirrors.update {x : Option Nat} {y : Option EpollEvent} (hm : Mirrors s) (fd : Int) (h : x.isSome = y.isSome) :
    Mirrors ⟨Function.update s.channels fd x, Function.update s.kernel fd y, s.issued⟩ := by
  intro fd'
  by_cases hfd : fd' = fd
  · subst hfd
    simp only [Function.update_self, h]
  · simp only [Function.update_of_ne hfd]
    exact hm fd'

/-! ## One call -/

theorem InStep.of_same {r : Except Thrown Unit} (hm : Mirrors s) (h : perform answer s call = (r, s))
    (hr : required s.kernel call = []) : InStep s call answer where
  mirrors := by
    rw [h]
    exact hm
  unchanged := by
    rw [h]
    exact fun _ _ => ⟨rfl, rfl⟩
  issues := by
    rw [h, hr, List.append_nil]

theorem InStep.of_ok {s' : Poller} (h : perform answer s call = (.ok (), s')) (hm : Mirrors s')
    (hi : s'.issued = s.issued ++ required s.kernel call) : InStep s call answer where
  mirrors := by
    rw [h]
    exact hm
  unchanged := by
    rw [h]
    intro e he
    cases he
  issues := by
    rw [h]
    exact hi

theorem InStep.of_error {e : Thrown} {ops : List (Operation × Int)} (hm : Mirrors s)
    (h : perform answer s call = (.error e, { s with issued := s.issued ++ ops })) (hr : required s.kernel call = ops) :
    InStep s call answer where
  mirrors := by
    rw [h]
    exact hm
  unchanged := by
    rw [h]
    exact fun _ _ => ⟨rfl, rfl⟩
  issues := by
    rw [h, hr]

/-- Deleted first and erased then: both or neither. -/
theorem InStep.of_delete (hm : Mirrors s) (hin : (s.channels channel.fd).isSome)
    (h : perform answer s call = deleteAndErase answer channel s) (hr : required s.kernel call = [(.del, channel.fd)]) :
    InStep s call answer := by
  rcases deleteAndErase_cases answer hm hin with hd | ⟨e, hd⟩
  · exact .of_ok (h.trans hd) (hm.update channel.fd rfl) (by rw [hr])
  · exact .of_error hm (h.trans hd) hr

theorem InStep.of_modify (hm : Mirrors s) (hin : (s.channels channel.fd).isSome)
    (h : perform answer s call = EpollPoller.update answer .mod channel s)
    (hr : required s.kernel call = [(.mod, channel.fd)]) : InStep s call answer := by
  have hk : (s.kernel channel.fd).isSome := by rw [← hm]; exact hin
  rcases update_cases answer .mod hk with ⟨-, hu⟩ | ⟨errno, -, hu⟩
  · refine .of_ok (h.trans hu) ?_ (by rw [hr])
    intro fd
    have hmirror := hm.update (y := some ⟨toEpollEvents channel, channel.address⟩) channel.fd hin fd
    rwa [Function.update_eq_self] at hmirror
  · exact .of_error hm (h.trans hu) hr

/-- Entered first and added then: if the kernel refuses, the map alone has it. -/
theorem add_iff (hm : Mirrors s) (hout : s.channels channel.fd = none) (h : perform answer s call =
      EpollPoller.update answer .add channel
        { s with channels := Function.update s.channels channel.fd (some channel.address) })
    (hr : required s.kernel call = [(.add, channel.fd)]) : InStep s call answer ↔ answer = none := by
  have hk : (s.kernel channel.fd).isSome = false := by
    rw [← hm, hout]
    rfl
  rcases update_cases (s := { s with channels := Function.update s.channels channel.fd (some channel.address) }) answer
    .add hk with ⟨hans, hu⟩ | ⟨errno, hans, hu⟩
  · exact iff_of_true (.of_ok (h.trans hu) (hm.update channel.fd rfl) (by rw [hr])) hans
  · refine iff_of_false ?_ (by rw [hans]; exact Option.some_ne_none errno)
    rw [hu] at h
    intro hin
    have hmirror := hin.mirrors channel.fd
    rw [h] at hmirror
    simp [hk] at hmirror

theorem inStep_iff (hm : Mirrors s) (call : Call) (answer : Answer) :
    InStep s call answer ↔ ¬ FailedAdd s (call, answer) := by
  match call with
  | .updateChannel none => exact iff_of_true (.of_same hm rfl rfl) id
  | .removeChannel none => exact iff_of_true (.of_same hm rfl rfl) id
  | .removeChannel (some channel) =>
    refine iff_of_true ?_ id
    have hk := hm channel.fd
    cases hit : (s.channels channel.fd).isSome with
    | true =>
      rw [hit] at hk
      refine .of_delete hm hit ?_ (by simp [required, ← hk])
      simp [perform, removeChannel, Option.isSome_iff_ne_none.mp hit]
    | false =>
      rw [hit] at hk
      have hnone : s.channels channel.fd = none := by simpa using hit
      exact .of_same (r := .ok ()) hm (by simp [perform, removeChannel, hnone]) (by simp [required, ← hk])
  | .updateChannel (some channel) =>
    have hk := hm channel.fd
    cases hev : channel.isNoneEvent with
    | true =>
      refine iff_of_true ?_ (by simp [FailedAdd, hev])
      cases hit : (s.channels channel.fd).isSome with
      | true =>
        rw [hit] at hk
        exact .of_delete hm hit (by simp [perform, updateChannel, hev, hit]) (by simp [required, hev, ← hk])
      | false =>
        rw [hit] at hk
        exact .of_same (r := .ok ()) hm (by simp [perform, updateChannel, hev, hit]) (by simp [required, hev, ← hk])
    | false =>
      cases hit : (s.channels channel.fd).isSome with
      | true =>
        rw [hit] at hk
        have hne := Option.isSome_iff_ne_none.mp hit
        refine iff_of_true (.of_modify hm hit ?_ (by simp [required, hev, ← hk])) (by simp [FailedAdd, hne])
        simp [perform, updateChannel, hev, hne]
      | false =>
        rw [hit] at hk
        have hnone : s.channels channel.fd = none := by simpa using hit
        rw [add_iff hm hnone (by simp [perform, updateChannel, hev, hnone]) (by simp [required, hev, ← hk])]
        simp [FailedAdd, hev, hnone]

/-! ## Every run -/

/-- In a run without an addition that fails, map and list are in step before every call; and the next call keeps them so,
changes neither if it throws, and issues what the list asks for, unless it is an addition that fails. -/
theorem mirrors_kernel (h : machine.Reach (fun s l => ¬ FailedAdd s l) s) :
    Mirrors s ∧ ∀ call answer, InStep s call answer ↔ ¬ FailedAdd s (call, answer) := by
  have hm : Mirrors s := by
    refine h.inv (I := Mirrors) (fun _ => rfl) ?_
    intro s l s' hI hok hstep
    obtain rfl := Option.some.inj hstep
    exact ((inStep_iff hI l.1 l.2).mpr hok).mirrors
  exact ⟨hm, fun call answer => inStep_iff hm call answer⟩

def listening : Channel := ⟨1, 3, kReadEvent, false⟩

/-- A channel is added, changed, deleted (which fails once), and added again. -/
theorem mirrors_kernel_one : ∃ s, (Mirrors s ∧ ∀ call answer, InStep s call answer ↔ ¬ FailedAdd s (call, answer)) ∧
    (s.kernel 3).isSome = true := by
  obtain ⟨s, hs, hp⟩ := Machine.Reach.of_run machine (fun s l => ¬ FailedAdd s l) (fun s => (s.kernel 3).isSome)
    [(.updateChannel (some listening), none), (.updateChannel (some { listening with events := kWriteEvent }), none),
      (.removeChannel (some listening), some 9), (.updateChannel (some { listening with events := kNoneEvent }), none),
      (.updateChannel (some listening), none)] (by decide)
  exact ⟨s, mirrors_kernel hs, hp⟩

/-- The kernel has no room for one more descriptor, and the map has it all the same. -/
theorem a_failed_add_stays_in_the_map : ¬ ∀ s, machine.Reach (fun _ _ => True) s → Mirrors s := by
  intro h
  have hr : machine.Reach (fun _ _ => True) (perform (some 28) make (.updateChannel (some listening))).2 :=
    Machine.Reach.init.step (a := (.updateChannel (some listening), some 28)) trivial rfl
  have hm := h _ hr listening.fd
  revert hm
  decide

/-! ## After an addition that failed -/

/-- The map has the descriptor, and the kernel has it not. -/
def OutOfStep (fd : Int) (s : Poller) : Prop := (s.channels fd).isSome ∧ s.kernel fd = none

/-- An operation on one descriptor leaves what the kernel has of another. -/
theorem update_elsewhere {fd : Int} (answer : Answer) (operation : Operation) (s : Poller) (hfd : fd ≠ channel.fd) :
    (EpollPoller.update answer operation channel s).2.channels = s.channels ∧
      (EpollPoller.update answer operation channel s).2.kernel fd = s.kernel fd := by
  unfold EpollPoller.update epollCtl
  cases answer with
  | some errno => exact ⟨rfl, rfl⟩
  | none => cases operation <;> cases s.kernel channel.fd <;> simp [Function.update_of_ne hfd]

/-- What the list has not cannot be changed or deleted. -/
theorem update_missing (answer : Answer) {operation : Operation} (hop : operation ≠ .add) (hk : s.kernel channel.fd = none) :
    ∃ e issued, EpollPoller.update answer operation channel s = (.error e, { s with issued := issued }) := by
  unfold EpollPoller.update epollCtl
  cases answer with
  | some errno => exact ⟨_, _, rfl⟩
  | none =>
    cases operation with
    | add => exact absurd rfl hop
    | mod =>
      rw [hk]
      exact ⟨_, _, rfl⟩
    | del =>
      rw [hk]
      exact ⟨_, _, rfl⟩

theorem OutOfStep.deleteAndErase {fd : Int} (h : OutOfStep fd s) (answer : Answer) (channel : Channel) :
    OutOfStep fd (deleteAndErase answer channel s).2 := by
  unfold EpollPoller.deleteAndErase
  by_cases hfd : fd = channel.fd
  · subst hfd
    obtain ⟨e, issued, hu⟩ := update_missing answer (show Operation.del ≠ .add by decide) h.2
    rw [hu]
    exact h
  · obtain ⟨hc, hk⟩ := update_elsewhere answer .del s hfd
    generalize EpollPoller.update answer .del channel s = r at hc hk
    obtain ⟨_ | _, s'⟩ := r
    · exact ⟨by rw [hc]; exact h.1, hk.trans h.2⟩
    · refine ⟨?_, hk.trans h.2⟩
      show (Function.update s'.channels channel.fd none fd).isSome
      rw [Function.update_of_ne hfd, hc]
      exact h.1

/-- Whatever is called from then on, the descriptor stays in the map alone: it is changed or deleted where it would have to
be added. -/
theorem out_of_step_forever {fd : Int} (h : OutOfStep fd s) (call : Call) (answer : Answer) :
    OutOfStep fd (perform answer s call).2 := by
  match call with
  | .updateChannel none => exact h
  | .removeChannel none => exact h
  | .removeChannel (some channel) =>
    simp only [perform, removeChannel]
    split
    · exact h
    · exact h.deleteAndErase answer channel
  | .updateChannel (some channel) =>
    simp only [perform, updateChannel]
    by_cases hfd : fd = channel.fd
    · subst hfd
      have hne := Option.isSome_iff_ne_none.mp h.1
      split
      · split
        · exact h.deleteAndErase answer channel
        · exact h
      · obtain ⟨e, issued, hu⟩ := update_missing answer (show Operation.mod ≠ .add by decide) h.2
        rw [if_neg (by simpa using hne), hu]
        exact h
    · split
      · split
        · exact h.deleteAndErase answer channel
        · exact h
      · split
        · obtain ⟨hc, hk⟩ := update_elsewhere answer .add
            { s with channels := Function.update s.channels channel.fd (some channel.address) } hfd
          refine ⟨?_, hk.trans h.2⟩
          rw [hc]
          show (Function.update s.channels channel.fd (some channel.address) fd).isSome
          rw [Function.update_of_ne hfd]
          exact h.1
        · obtain ⟨hc, hk⟩ := update_elsewhere answer .mod s hfd
          exact ⟨by rw [hc]; exact h.1, hk.trans h.2⟩

end Dbase.Net.EpollPoller
