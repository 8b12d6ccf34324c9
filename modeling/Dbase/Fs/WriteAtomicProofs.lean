/-
  Dbase.Fs.WriteAtomicProofs — what concurrent atomic writers leave at the target.

  The temporary file is `path + ".tmp"` for every call. A call that opens it while another is at work on it truncates what
  the other has written, and the other's `rename` then moves the shared file over the target.

  A call that is not going to rename does no harm there: its temporary file may be opened by another, and the `remove` of
  a refused `rename` may take the other's away, which then fails. Only a stream that has failed must not write what it
  holds back into a file that has become another call's.

  Proved:
  - `writers_are_atomic`: while no call gets the temporary file open before another has renamed what it writes (`Alone`),
    the target is the original or the complete content of a call at every moment, and every successful call's content
    was there.
  - `a_second_open_tears_the_target`: two calls, the second of which opens when the first has closed: the target is
    empty, which is neither, and the first has reported success.
-/

import Dbase.Fs.WriteAtomic

namespace Dbase.Fs.WriteAtomic

open Dbase.Lib Dbase.Lib.Machine

variable {W : Type} {target : Option Bytes} {s s' : State W} {w : W}

/-! ## The pieces -/

/-- The next piece, written where the last one ended. -/
theorem writeAt_piece {c : Bytes} {offset length : Nat} (h : offset ≤ c.length) :
    writeAt (c.take offset) offset (piece c offset length) = c.take (offset + (piece c offset length).length) := by
  have hl : (c.take offset).length = offset := by rw [List.length_take, Nat.min_eq_left h]
  have hd : (c.take offset).drop (offset + (piece c offset length).length) = [] := by
    rw [List.drop_eq_nil_iff, hl]
    omega
  unfold writeAt
  rw [hl, Nat.sub_self, List.replicate_zero, List.append_nil, List.take_take, Nat.min_self, hd, List.append_nil]
  rw [List.take_add, piece, List.length_take, List.length_drop]
  congr 1
  rw [List.take_eq_take_iff, List.length_drop]
  omega

/-- Writing to the temporary file leaves the target alone. -/
theorem content_write {d : Disk} {file : Nat} (h : d.target ≠ some file) (offset : Nat) (p : Bytes) :
    (d.write file offset p).content = d.content := by
  unfold Disk.content Disk.write
  cases ht : d.target with
  | none => rfl
  | some t =>
    have e : t ≠ file := fun e => h (by rw [ht, e])
    simp [Function.update_of_ne e]

/-- The file that is opened is empty, and not the target's. -/
theorem openTemp_spec {d : Disk} (h1 : ∀ file, d.temp = some file → file < d.next)
    (h2 : ∀ file, d.target = some file → file < d.next) (h3 : ∀ file, d.temp = some file → d.target ≠ some file) :
    d.openTemp.2.temp = some d.openTemp.1 ∧ d.openTemp.2.files d.openTemp.1 = [] ∧ d.openTemp.2.target = d.target ∧
      d.target ≠ some d.openTemp.1 ∧ d.openTemp.1 < d.openTemp.2.next ∧ d.next ≤ d.openTemp.2.next := by
  unfold Disk.openTemp
  cases ht : d.temp with
  | none =>
    refine ⟨rfl, Function.update_self .., rfl, ?_, Nat.lt_succ_self _, Nat.le_succ _⟩
    intro hg
    exact Nat.lt_irrefl _ (h2 _ hg)
  | some file => exact ⟨rfl, Function.update_self .., rfl, h3 file ht, h1 file ht, Nat.le_refl _⟩

theorem content_openTemp {d : Disk} (h : d.target ≠ some d.openTemp.1) : d.openTemp.2.content = d.content := by
  unfold Disk.openTemp at h ⊢
  unfold Disk.content
  cases hg : d.target with
  | none => cases d.temp <;> simp
  | some t =>
    cases ht : d.temp with
    | none =>
      have e : t ≠ d.next := by
        rintro rfl
        simp [ht, hg] at h
      simp [Function.update_of_ne e]
    | some file =>
      have e : t ≠ file := by
        rintro rfl
        simp [ht, hg] at h
      simp [Function.update_of_ne e]

/-! ## One call at a time -/

/-- A call that is writing its content, or has written it and not renamed it. -/
def Phase.active : Phase → Bool
  | .writing _ _ _ => true
  | .written _ => true
  | _ => false

/-- The file that a stream which has failed may still write to. -/
def Phase.late : Phase → Option Nat
  | .failing _ file _ => some file
  | _ => none

/-- What a call was called with. -/
def Phase.content : Phase → Option Bytes
  | .idle => none
  | .started c => some c
  | .writing c _ _ => some c
  | .failing c _ _ => some c
  | .written c => some c
  | .removing c => some c
  | .returned c _ => some c

/-- `file` is not the target, and nobody is at work on it as the temporary file. -/
def Own (s : State W) (file : Nat) : Prop :=
  s.disk.target ≠ some file ∧ (s.disk.temp = some file → ∀ w, (s.phase w).active = false)

/-- No call gets the temporary file open while another is writing it or has yet to rename it, and a stream that has failed
writes no more to a file that has become another call's. -/
def Alone (s : State W) : Label W → Prop
  | .openTemp _ true => ∀ w, (s.phase w).active = false
  | .write w _ => ∀ file ∈ (s.phase w).late, Own s file
  | _ => True

instance [Fintype W] (s : State W) (file : Nat) : Decidable (Own s file) := inferInstanceAs (Decidable (_ ∧ _))

instance [Fintype W] (s : State W) (a : Label W) : Decidable (Alone s a) :=
  match a with
  | .openTemp _ true => inferInstanceAs (Decidable (∀ w, (s.phase w).active = false))
  | .openTemp _ false => isTrue trivial
  | .write w _ => inferInstanceAs (Decidable (∀ file ∈ (s.phase w).late, Own s file))
  | .call _ _ _ => isTrue trivial
  | .fail _ => isTrue trivial
  | .close _ => isTrue trivial
  | .rename _ _ => isTrue trivial
  | .remove _ _ => isTrue trivial

/-- What the temporary file, unless another call has removed it, holds for a call at work on it. -/
def Prepared (d : Disk) : Phase → Prop
  | .writing c file offset =>
    (∀ t, d.temp = some t → t = file ∧ d.files file = c.take offset) ∧ d.target ≠ some file ∧ offset ≤ c.length
  | .written c => ∀ t, d.temp = some t → d.files t = c
  | _ => True

/-- The target is as it was, or as one of the calls wants it. -/
def Whole (target : Option Bytes) (s : State W) : Prop :=
  s.disk.content = target ∨ ∃ w c, (s.phase w).content = some c ∧ s.disk.content = some c

structure Inv (target : Option Bytes) (s : State W) : Prop where
  alone : ∀ w w', (s.phase w).active = true → (s.phase w').active = true → w = w'
  prepared : ∀ w, Prepared s.disk (s.phase w)
  tempFresh : ∀ file, s.disk.temp = some file → file < s.disk.next
  targetFresh : ∀ file, s.disk.target = some file → file < s.disk.next
  apart : ∀ file, s.disk.temp = some file → s.disk.target ≠ some file
  whole : Whole target s

theorem prepared_of_inactive {d : Disk} {p : Phase} (h : p.active = false) : Prepared d p := by
  cases p with
  | writing c file offset => cases h
  | written c => cases h
  | _ => trivial

/-- A call whose temporary file is taken away has nothing to keep. -/
theorem Prepared.removeTemp {d : Disk} {p : Phase} (h : Prepared d p) : Prepared d.removeTemp p := by
  cases p with
  | writing c file offset => exact ⟨fun _ ht => (nomatch ht), h.2.1, h.2.2⟩
  | written c => exact fun _ ht => (nomatch ht)
  | _ => trivial

/-- Nor does a write elsewhere touch what it has written. -/
theorem Prepared.write {d : Disk} {p : Phase} (h : Prepared d p) {file : Nat} (hfile : d.temp ≠ some file) (offset : Nat)
    (piece : Bytes) : Prepared (d.write file offset piece) p := by
  have hkeep : ∀ t, d.temp = some t → (d.write file offset piece).files t = d.files t := by
    intro t ht
    refine Function.update_of_ne ?_ ..
    rintro rfl
    exact hfile ht
  cases p with
  | writing c own offset' =>
    refine ⟨fun t ht => ?_, h.2.1, h.2.2⟩
    obtain ⟨rfl, hown⟩ := h.1 t ht
    exact ⟨rfl, (hkeep t ht).trans hown⟩
  | written c => exact fun t ht => (hkeep t ht).trans (h t ht)
  | _ => trivial

/-- A content stays known as long as the phases keep theirs. -/
theorem Whole.keep (h : Whole target s) (hd : s'.disk.content = s.disk.content)
    (hp : ∀ w c, (s.phase w).content = some c → (s'.phase w).content = some c) : Whole target s' := by
  rcases h with h | ⟨w, c, hc, h⟩
  · exact Or.inl (hd.trans h)
  · exact Or.inr ⟨w, c, hp w c hc, hd.trans h⟩

theorem Inv.others (h : Inv target s) (hw : (s.phase w).active = true) : ∀ w' ≠ w, (s.phase w').active = false := by
  intro w' hne
  by_contra hc
  exact hne (h.alone w' w (by simpa using hc) hw)

variable [DecidableEq W]

theorem phase_self (s : State W) (d : Disk) (w : W) (p : Phase) : ((s.setDisk d).setPhase w p).phase w = p :=
  Function.update_self ..

theorem phase_other {s : State W} {d : Disk} {w v : W} {p : Phase} (h : v ≠ w) :
    ((s.setDisk d).setPhase w p).phase v = s.phase v :=
  Function.update_of_ne h ..

/-- A step of one call: what the others have prepared is still there. -/
theorem Inv.move {p : Phase} {d : Disk} (h : Inv target s)
    (halone : p.active = true → ∀ w' ≠ w, (s.phase w').active = false) (hp : Prepared d p)
    (hothers : ∀ w' ≠ w, Prepared d (s.phase w')) (htemp : ∀ file, d.temp = some file → file < d.next)
    (htarget : ∀ file, d.target = some file → file < d.next) (hapart : ∀ file, d.temp = some file → d.target ≠ some file)
    (hw : Whole target ((s.setDisk d).setPhase w p)) : Inv target ((s.setDisk d).setPhase w p) := by
  refine ⟨?_, ?_, htemp, htarget, hapart, hw⟩
  · intro v v' hv hv'
    by_cases e : v = w
    · by_cases e' : v' = w
      · rw [e, e']
      · rw [e, phase_self] at hv
        rw [phase_other e', halone hv v' e'] at hv'
        cases hv'
    · rw [phase_other e] at hv
      by_cases e' : v' = w
      · rw [e', phase_self] at hv'
        rw [halone hv' v e] at hv
        cases hv
      · rw [phase_other e'] at hv'
        exact h.alone v v' hv hv'
  · intro v
    by_cases e : v = w
    · subst e
      rw [phase_self]
      exact hp
    · rw [phase_other e]
      exact hothers v e

/-- A step of the one call that may be at work. -/
theorem Inv.moveAlone {p : Phase} {d : Disk} (h : Inv target s) (hothers : ∀ w' ≠ w, (s.phase w').active = false)
    (hp : Prepared d p) (htemp : ∀ file, d.temp = some file → file < d.next)
    (htarget : ∀ file, d.target = some file → file < d.next) (hapart : ∀ file, d.temp = some file → d.target ≠ some file)
    (hw : Whole target ((s.setDisk d).setPhase w p)) : Inv target ((s.setDisk d).setPhase w p) :=
  h.move (fun _ => hothers) hp (fun w' e => prepared_of_inactive (hothers w' e)) htemp htarget hapart hw

/-- A call that is not at work on the temporary file afterwards moves on whatever the others do. -/
theorem Inv.outside (h : Inv target s) {p : Phase} (hp : p.active = false)
    (hc : ∀ v c, (s.phase v).content = some c → ((s.setPhase w p).phase v).content = some c) :
    Inv target (s.setPhase w p) :=
  h.move (d := s.disk) (fun hactive => absurd hactive (by simp [hp])) (prepared_of_inactive hp)
    (fun w' _ => h.prepared w') h.tempFresh h.targetFresh h.apart (h.whole.keep rfl hc)

/-! ## Steps -/

/-- What each step finds and what it does. -/
inductive Moves (s : State W) : Label W → State W → Prop
  | call (w : W) (c : Bytes) (parent : Bool) : s.phase w = .idle →
      Moves s (.call w c parent) (s.setPhase w (if parent then .started c else .returned c false))
  | opened (w : W) (c : Bytes) : s.phase w = .started c →
      Moves s (.openTemp w true) ((s.setDisk s.disk.openTemp.2).setPhase w (.writing c s.disk.openTemp.1 0))
  | refused (w : W) (c : Bytes) : s.phase w = .started c → Moves s (.openTemp w false) (s.setPhase w (.returned c false))
  | wrote (w : W) (length : Nat) (c : Bytes) (file offset : Nat) : s.phase w = .writing c file offset →
      Moves s (.write w length) ((s.setDisk (s.disk.write file offset (piece c offset length))).setPhase w
        (.writing c file (offset + (piece c offset length).length)))
  | wroteLate (w : W) (length : Nat) (c : Bytes) (file offset : Nat) : s.phase w = .failing c file offset →
      Moves s (.write w length) ((s.setDisk (s.disk.write file offset (piece c offset length))).setPhase w
        (.failing c file (offset + (piece c offset length).length)))
  | failed (w : W) (c : Bytes) (file offset : Nat) : s.phase w = .writing c file offset →
      Moves s (.fail w) (s.setPhase w (.failing c file offset))
  | closed (w : W) (c : Bytes) (file : Nat) : s.phase w = .writing c file c.length →
      Moves s (.close w) (s.setPhase w (.written c))
  | gaveUp (w : W) (c : Bytes) (file offset : Nat) : s.phase w = .failing c file offset →
      Moves s (.close w) (s.setPhase w (.returned c false))
  | renamed (w : W) (c : Bytes) (d : Disk) : s.phase w = .written c → s.disk.rename = some d →
      Moves s (.rename w true) ((s.setDisk d).setPhase w (.returned c true))
  | stayed (w : W) (c : Bytes) (allowed : Bool) : s.phase w = .written c →
      Moves s (.rename w allowed) (s.setPhase w (.removing c))
  | removed (w : W) (c : Bytes) : s.phase w = .removing c →
      Moves s (.remove w true) ((s.setDisk s.disk.removeTemp).setPhase w (.returned c false))
  | threw (w : W) (c : Bytes) : s.phase w = .removing c → Moves s (.remove w false) (s.setPhase w (.returned c false))

theorem step_moves {a : Label W} (h : step s a = some s') : Moves s a s' := by
  cases a with
  | call w c parent =>
    cases hp : s.phase w <;> simp only [step, hp, Option.some.injEq, reduceCtorEq] at h
    exact h ▸ .call w c parent hp
  | openTemp w isOpen =>
    cases hp : s.phase w <;> simp only [step, hp, reduceCtorEq] at h
    rename_i c
    cases isOpen with
    | true => exact Option.some.inj h ▸ .opened w c hp
    | false => exact Option.some.inj h ▸ .refused w c hp
  | write w length =>
    cases hp : s.phase w <;> simp only [step, hp, Option.some.injEq, reduceCtorEq] at h
    · exact h ▸ .wrote w length _ _ _ hp
    · exact h ▸ .wroteLate w length _ _ _ hp
  | fail w =>
    cases hp : s.phase w <;> simp only [step, hp, Option.some.injEq, reduceCtorEq] at h
    exact h ▸ .failed w _ _ _ hp
  | close w =>
    cases hp : s.phase w <;> simp only [step, hp, Option.some.injEq, reduceCtorEq] at h
    · split at h
      · rename_i e
        subst e
        exact Option.some.inj h ▸ .closed w _ _ hp
      · cases h
    · exact h ▸ .gaveUp w _ _ _ hp
  | rename w allowed =>
    cases hp : s.phase w <;> simp only [step, hp, reduceCtorEq] at h
    split at h
    · rename_i d hd
      exact Option.some.inj h ▸ .renamed w _ d hp hd
    · exact Option.some.inj h ▸ .stayed w _ _ hp
  | remove w allowed =>
    cases hp : s.phase w <;> simp only [step, hp, reduceCtorEq] at h
    cases allowed with
    | true => exact Option.some.inj h ▸ .removed w _ hp
    | false => exact Option.some.inj h ▸ .threw w _ hp

theorem Inv.start (target temp : Option Bytes) : Inv target (machine W target temp).init where
  alone w w' hw := by cases hw
  prepared w := trivial
  tempFresh file h := by
    cases temp with
    | none => cases h
    | some t =>
      cases h
      show 1 < 2
      decide
  targetFresh file h := by
    cases target with
    | none => cases h
    | some t =>
      cases h
      show 0 < 2
      decide
  apart file ht hg := by
    cases temp with
    | none => cases ht
    | some t =>
      cases target with
      | none => cases hg
      | some g =>
        cases ht
        cases hg
  whole := by
    refine Or.inl ?_
    cases target <;> rfl

theorem Inv.step {a : Label W} (h : Inv target s) (hk : Alone s a) (hs : Moves s a s') : Inv target s' := by
  -- the phase of a call that moves carries its content on
  have carry : ∀ {w : W} {p q : Phase} {d : Disk}, s.phase w = p → (∀ c, p.content = some c → q.content = some c) →
      ∀ v c, (s.phase v).content = some c → (((s.setDisk d).setPhase w q).phase v).content = some c := by
    intro w p q d hp hq v c hv
    by_cases e : v = w
    · subst e
      rw [hp] at hv
      rw [phase_self]
      exact hq c hv
    · rw [phase_other e]
      exact hv
  cases hs with
  | call w c parent hp =>
    refine h.outside (by cases parent <;> rfl) (carry (d := s.disk) hp ?_)
    intro c' hc
    cases hc
  | opened w c hp =>
    obtain ⟨ht, hf, hg, hne, hlt, hle⟩ := openTemp_spec h.tempFresh h.targetFresh h.apart
    refine h.moveAlone (fun w' _ => hk w') ⟨?_, ?_, Nat.zero_le _⟩ ?_ ?_ ?_
      (h.whole.keep (content_openTemp hne) (carry hp (fun _ hc => hc)))
    · intro t he
      exact ⟨Option.some.inj (he.symm.trans ht), hf⟩
    · rw [hg]
      exact hne
    · intro file he
      rw [ht] at he
      exact Option.some.inj he ▸ hlt
    · intro file he
      rw [hg] at he
      exact Nat.lt_of_lt_of_le (h.targetFresh file he) hle
    · intro file he
      rw [ht] at he
      rw [hg]
      exact Option.some.inj he ▸ hne
  | refused w c hp => exact h.outside rfl (carry (d := s.disk) hp (fun _ hc => hc))
  | wrote w length c file offset hp =>
    obtain ⟨ht, hg, ho⟩ : Prepared s.disk (.writing c file offset) := hp ▸ h.prepared w
    refine h.moveAlone (h.others (by rw [hp]; rfl)) ⟨?_, hg, ?_⟩ h.tempFresh h.targetFresh h.apart
      (h.whole.keep (content_write hg _ _) (carry hp (fun _ hc => hc)))
    · intro t he
      obtain ⟨rfl, hf⟩ := ht t he
      refine ⟨rfl, ?_⟩
      show Function.update s.disk.files t _ t = _
      rw [Function.update_self, hf, writeAt_piece ho]
    · rw [piece, List.length_take, List.length_drop]
      omega
  | wroteLate w length c file offset hp =>
    obtain ⟨hg, hown⟩ : Own s file := hk file (by rw [hp]; exact rfl)
    refine h.move (fun hactive => nomatch hactive) trivial (fun w' _ => ?_) h.tempFresh h.targetFresh h.apart
      (h.whole.keep (content_write hg _ _) (carry hp (fun _ hc => hc)))
    by_cases ht : s.disk.temp = some file
    · exact prepared_of_inactive (hown ht w')
    · exact (h.prepared w').write ht _ _
  | failed w c file offset hp => exact h.outside rfl (carry (d := s.disk) hp (fun _ hc => hc))
  | closed w c file hp =>
    obtain ⟨ht, -, -⟩ : Prepared s.disk (.writing c file c.length) := hp ▸ h.prepared w
    refine h.moveAlone (d := s.disk) (h.others (by rw [hp]; rfl)) (fun t he => ?_) h.tempFresh h.targetFresh h.apart
      (h.whole.keep rfl (carry hp (fun _ hc => hc)))
    obtain ⟨rfl, hf⟩ := ht t he
    rwa [List.take_length] at hf
  | gaveUp w c file offset hp => exact h.outside rfl (carry (d := s.disk) hp (fun _ hc => hc))
  | renamed w c d hp hd =>
    have hf : Prepared s.disk (.written c) := hp ▸ h.prepared w
    cases ht : s.disk.temp with
    | none =>
      rw [Disk.rename, ht] at hd
      cases hd
    | some file =>
      rw [Disk.rename, ht] at hd
      cases hd
      refine h.moveAlone (h.others (by rw [hp]; rfl)) trivial (fun _ he => nomatch he) ?_ (fun _ he => nomatch he) ?_
      · intro t he
        exact Option.some.inj he ▸ h.tempFresh file ht
      · refine Or.inr ⟨w, c, ?_, congrArg some (hf file ht)⟩
        rw [phase_self]
        rfl
  | stayed w c allowed hp => exact h.outside rfl (carry (d := s.disk) hp (fun _ hc => hc))
  | removed w c hp =>
    exact h.move (fun hactive => nomatch hactive) trivial (fun w' _ => (h.prepared w').removeTemp) (fun _ he => nomatch he)
      h.targetFresh (fun _ he => nomatch he) (h.whole.keep rfl (carry hp (fun _ hc => hc)))
  | threw w c hp => exact h.outside rfl (carry (d := s.disk) hp (fun _ hc => hc))

/-- A call comes to success by renaming what it has prepared. -/
theorem Inv.success {a : Label W} (h : Inv target s) (hs : Moves s a s') {w : W} {c : Bytes}
    (hw : s'.phase w = .returned c true) : s.phase w = .returned c true ∨ s'.disk.content = some c := by
  have moved : ∀ {v : W} {p : Phase} {d : Disk}, ((s.setDisk d).setPhase v p).phase w = .returned c true →
      p ≠ .returned c true → s.phase w = .returned c true := by
    intro v p d hv hp
    by_cases e : w = v
    · subst e
      rw [phase_self] at hv
      exact absurd hv hp
    · rwa [phase_other e] at hv
  cases hs with
  | call v c' parent hp => exact Or.inl (moved (d := s.disk) hw (by cases parent <;> simp))
  | opened v c' hp => exact Or.inl (moved hw (by simp))
  | refused v c' hp => exact Or.inl (moved (d := s.disk) hw (by simp))
  | wrote v length c' file offset hp => exact Or.inl (moved hw (by simp))
  | wroteLate v length c' file offset hp => exact Or.inl (moved hw (by simp))
  | failed v c' file offset hp => exact Or.inl (moved (d := s.disk) hw (by simp))
  | closed v c' file hp => exact Or.inl (moved (d := s.disk) hw (by simp))
  | gaveUp v c' file offset hp => exact Or.inl (moved (d := s.disk) hw (by simp))
  | renamed v c' d hp hd =>
    by_cases e : Phase.returned c' true = .returned c true
    · cases e
      have hf : Prepared s.disk (.written c) := hp ▸ h.prepared v
      cases ht : s.disk.temp with
      | none =>
        rw [Disk.rename, ht] at hd
        cases hd
      | some file =>
        rw [Disk.rename, ht] at hd
        cases hd
        exact Or.inr (congrArg some (hf file ht))
    · exact Or.inl (moved hw e)
  | stayed v c' allowed hp => exact Or.inl (moved (d := s.disk) hw (by simp))
  | removed v c' hp => exact Or.inl (moved hw (by simp))
  | threw v c' hp => exact Or.inl (moved (d := s.disk) hw (by simp))

/-! ## Runs -/

/-- The moments of a run: the states before its steps, and the last. -/
def moments {W : Type} (tr : List (State W × Label W)) (s : State W) : List (State W) := tr.map Prod.fst ++ [s]

/-- While no two calls are at work on the temporary file, the target is as it was or holds the complete content of one of
the calls, and what a call has written with success has been there. -/
theorem writers_are_atomic (W : Type) [DecidableEq W] (target temp : Option Bytes) (tr : List (State W × Label W))
    (s : State W) (h : Trace (machine W target temp) Alone tr s) :
    (s.disk.content = target ∨ ∃ w c, (s.phase w).content = some c ∧ s.disk.content = some c) ∧
      ∀ w c, s.phase w = .returned c true → ∃ t ∈ moments tr s, t.disk.content = some c := by
  have hboth := h.inv (I := fun tr s => Inv target s ∧
    ∀ w c, s.phase w = .returned c true → ∃ t ∈ moments tr s, t.disk.content = some c) ?_ ?_
  · exact ⟨hboth.1.whole, hboth.2⟩
  · exact ⟨Inv.start target temp, fun w c h => nomatch h⟩
  · intro tr s a s' ⟨hi, hr⟩ hk hs
    have hm := step_moves hs
    refine ⟨hi.step hk hm, ?_⟩
    intro w c hw
    have hsplit : moments (tr ++ [(s, a)]) s' = moments tr s ++ [s'] := by simp [moments]
    rw [hsplit]
    rcases hi.success hm hw with hw | hc
    · obtain ⟨t, ht, hc⟩ := hr w c hw
      exact ⟨t, List.mem_append_left _ ht, hc⟩
    · exact ⟨s', by simp, hc⟩

/-- Two calls, one after the other. -/
theorem writers_are_atomic_two : ∃ s : State Bool, s.phase true = .returned [1, 2] true ∧ s.disk.content = some [3] ∧
    ((s.disk.content = none ∨ ∃ w c, (s.phase w).content = some c ∧ s.disk.content = some c) ∧
      ∃ tr, ∀ w c, s.phase w = .returned c true → ∃ t ∈ moments tr s, t.disk.content = some c) := by
  obtain ⟨tr, s, ht, hs⟩ := Trace.of_run (machine Bool none (some [9])) Alone
    (fun _ s => s.phase true = .returned [1, 2] true ∧ s.disk.content = some [3])
    [.call true [1, 2] true, .call false [3] true, .openTemp true true, .write true 1, .write true 1, .close true,
      .rename true true, .openTemp false true, .write false 5, .close false, .rename false true] (by decide)
  obtain ⟨h1, h2⟩ := of_decide_eq_true hs
  obtain ⟨h3, h4⟩ := writers_are_atomic Bool none (some [9]) tr s ht
  exact ⟨s, h1, h2, h3, tr, h4⟩

/-- The second call opens the temporary file when the first has closed it: the first renames an empty file, and reports
success. -/
theorem a_second_open_tears_the_target : ∃ tr s, Trace (machine Bool (some [7, 7]) none) (fun _ _ => True) tr s ∧
    s.disk.content = some [] ∧ s.phase true = .returned [1, 2] true ∧
    (∀ w c, (s.phase w).content = some c → c ≠ []) ∧ ∀ t ∈ moments tr s, t.disk.content ≠ some [1, 2] := by
  obtain ⟨tr, s, ht, hs⟩ := Trace.of_run (machine Bool (some [7, 7]) none) (fun _ _ => True)
    (fun tr s => s.disk.content = some [] ∧ s.phase true = .returned [1, 2] true ∧ s.phase false = .writing [3] 2 0 ∧
      ∀ t ∈ moments tr s, t.disk.content ≠ some [1, 2])
    [.call true [1, 2] true, .call false [3] true, .openTemp true true, .write true 2, .close true, .openTemp false true,
      .rename true true] (by decide)
  obtain ⟨h1, h2, h3, h4⟩ := of_decide_eq_true hs
  refine ⟨tr, s, ht, h1, h2, ?_, h4⟩
  intro w c hc
  cases w with
  | true =>
    rw [h2] at hc
    cases hc
    decide
  | false =>
    rw [h3] at hc
    cases hc
    decide

end Dbase.Fs.WriteAtomic
