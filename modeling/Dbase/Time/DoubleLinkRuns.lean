/-
  Dbase.Time.DoubleLinkRuns — the timer lists under every sequence of calls, with nodes that are constructed, copied,
  assigned to and destroyed.

  Proved:
  - `Intact.pop_cons`, `Intact.clear`: `Pop` takes the first node, and `Clear` ends.
  - `Intact.assign_breaks`: a linked node that is assigned to drops its links without leaving its list, and no reading of
    the memory as lists is left.
  - `lists_stay_intact`: every run that assigns to no linked node, and fills no list with `2^32` nodes, keeps the lists
    intact, and a step keeps them intact exactly if it meets that condition.
  - `an_assignment_stops_clear`: after such an assignment `Pop` returns the node for ever.
-/

import Dbase.Time.DoubleLinkProofs

namespace Dbase.Time.DoubleLink

open Dbase.Lib Dbase.Lib.Machine Dbase.Lib.Chain

variable {L N : Type} [DecidableEq L] [DecidableEq N] {m m' : Mem L N} {l : L}

/-! ## Intact lists -/

/-- The shape, and the counts. -/
def Intact (m : Mem L N) (chain : L → List N) : Prop :=
  Shape m chain ∧ ∀ l, (m.count l).toNat = (chain l).length

namespace Intact

variable {chain : L → List N}

/-- Taking a node out of a list takes one from its count, which is not 0 then. -/
theorem remove (h : Intact m chain) {l : L} {xs ys : List N} {n : N} (hc : chain l = xs ++ n :: ys) :
    ∃ m', DoubleLink.remove (some (.node n)) m = some m' ∧ Intact m' (Function.update chain l (xs ++ ys)) ∧
      m'.alive = m.alive := by
  obtain ⟨m', e, hs, hcount, ha⟩ := h.1.remove hc
  refine ⟨m', e, ⟨hs, ?_⟩, ha⟩
  intro l'
  have hl := h.2 l'
  rw [hcount]
  by_cases e : l' = l
  · subst e
    rw [hc, List.length_append, List.length_cons] at hl
    rw [Function.update_self, Function.update_self, List.length_append]
    have h1 : (1 : UInt32) ≤ m.count l' := by
      rw [UInt32.le_iff_toNat_le, hl]
      show 1 ≤ _
      omega
    rw [UInt32.toNat_sub_of_le _ _ h1, hl]
    simp
  · rw [Function.update_of_ne e, Function.update_of_ne e]
    exact hl

theorem pop_nil (h : Intact m chain) {l : L} (hc : chain l = []) : pop l m = some (none, m) := by
  have hf := h.1.forward l
  rw [hc] at hf
  have e : empty m l = true := by
    simpa [empty] using (List.isChain_cons_cons.mp hf).1
  unfold pop
  rw [if_pos e]

/-- `Pop` takes the first node. -/
theorem pop_cons (h : Intact m chain) {l : L} {n : N} {xs : List N} (hc : chain l = n :: xs) :
    ∃ m', pop l m = some (some (.node n), m') ∧ Intact m' (Function.update chain l xs) ∧ m'.alive = m.alive := by
  have hf := h.1.forward l
  rw [hc] at hf
  have hn : (m.links (.head l)).pNext = some (.node n) := (List.isChain_cons_cons.mp hf).1
  have e : empty m l = false := by simp [empty, hn]
  obtain ⟨m', hm, hi, ha⟩ := h.remove (show chain l = [] ++ n :: xs from hc)
  refine ⟨m', ?_, hi, ha⟩
  unfold pop
  simp [e, hn, hm]

/-- `Clear` ends, after as many turns as the list has nodes and one more. -/
theorem clear (h : Intact m chain) (l : L) {bound : Nat} (hb : (chain l).length < bound) :
    ∃ m', DoubleLink.clear l bound m = some m' ∧ Intact m' (Function.update chain l []) ∧ m'.alive = m.alive := by
  induction hx : chain l generalizing m chain bound with
  | nil =>
    obtain ⟨b, rfl⟩ := Nat.exists_eq_succ_of_ne_zero (Nat.ne_of_gt (Nat.zero_lt_of_lt hb))
    refine ⟨m, ?_, ?_, rfl⟩
    · simp [DoubleLink.clear, h.pop_nil hx]
    · rw [← hx, Function.update_eq_self]
      exact h
  | cons n xs ih =>
    obtain ⟨b, rfl⟩ := Nat.exists_eq_succ_of_ne_zero (Nat.ne_of_gt (Nat.zero_lt_of_lt hb))
    obtain ⟨m', hm, hi, ha⟩ := h.pop_cons hx
    rw [hx, List.length_cons] at hb
    obtain ⟨m'', hm', hi', ha'⟩ := ih hi (show _ < b by rw [Function.update_self]; omega) (Function.update_self ..)
    refine ⟨m'', ?_, ?_, ha'.trans ha⟩
    · simp [DoubleLink.clear, hm, hm']
    · rwa [Function.update_idem] at hi'

omit [DecidableEq L] in
/-- A node that is in no list may come to be or cease to be. -/
theorem mark (h : Intact m chain) {n : N} (hn : ∀ l, n ∉ chain l) (b : Bool) : Intact (m.setAlive n b) chain := by
  obtain ⟨hs, hc⟩ := h
  refine ⟨⟨hs.forward, hs.backward, hs.owner, hs.others, hs.nodup, ?_, hs.ends⟩, hc⟩
  intro l x hx
  have e : x ≠ n := fun e => hn l (e ▸ hx)
  simpa [Mem.setAlive, Function.update_of_ne e] using hs.alive l x hx

omit [DecidableEq L] [DecidableEq N] in
theorem not_mem_of_no_owner (h : Intact m chain) {n : N} (ho : (m.links (.node n)).pOwner = none) (l : L) : n ∉ chain l := by
  intro hn
  rw [h.1.owner l n hn] at ho
  cases ho

omit [DecidableEq N] in
/-- A list grows by one node, and its count with it unless it is at its largest. -/
theorem grow (h : Intact m chain) {m' : Mem L N} {l : L} {xs : List N} (hs : Shape m' (Function.update chain l xs))
    (hx : xs.length = (chain l).length + 1) (hc : m'.count = Function.update m.count l (m.count l + 1)) :
    Intact m' (Function.update chain l xs) ↔ m.count l ≠ 4294967295 := by
  have hl := h.2 l
  have hlt := (m.count l).toNat_lt
  have hmax : m.count l ≠ 4294967295 ↔ (m.count l).toNat ≠ 4294967295 := by
    rw [ne_eq, ne_eq, ← UInt32.toNat_inj]
    rfl
  have hadd : (m.count l + 1).toNat = ((m.count l).toNat + 1) % 4294967296 := by
    rw [UInt32.toNat_add]
    rfl
  rw [hmax]
  constructor
  · intro hi
    have := hi.2 l
    rw [hc, Function.update_self, Function.update_self, hx, hadd] at this
    omega
  · intro hne
    refine ⟨hs, ?_⟩
    intro l'
    rw [hc]
    by_cases e : l' = l
    · subst e
      rw [Function.update_self, Function.update_self, hx, hadd]
      omega
    · rw [Function.update_of_ne e, Function.update_of_ne e]
      exact h.2 l'

end Intact

/-! ## Runs -/

/-- The condition on a call: a node that is assigned to is not in a list, and a list that takes a node has less than
`2^32 - 1`. -/
def Kept (m : Mem L N) : Op L N → Prop
  | .push l p => ∀ a, p = some a → isDetached m a = true → m.count l ≠ 4294967295
  | .pushFront l p => ∀ a, p = some a → isDetached m a = true → m.count l ≠ 4294967295
  | .copyAssign n _ => (m.links (.node n)).pOwner = none
  | _ => True

instance (m : Mem L N) (op : Op L N) : Decidable (Kept m op) :=
  match op with
  | .push _ none => isTrue (fun _ h => nomatch h)
  | .pushFront _ none => isTrue (fun _ h => nomatch h)
  | .push l (some a) =>
    decidable_of_iff (isDetached m a = true → m.count l ≠ 4294967295) ⟨fun h _ e => Option.some.inj e ▸ h, fun h => h a rfl⟩
  | .pushFront l (some a) =>
    decidable_of_iff (isDetached m a = true → m.count l ≠ 4294967295) ⟨fun h _ e => Option.some.inj e ▸ h, fun h => h a rfl⟩
  | .copyAssign n _ => inferInstanceAs (Decidable ((m.links (.node n)).pOwner = none))
  | .pop _ => isTrue trivial
  | .remove _ => isTrue trivial
  | .clear _ _ => isTrue trivial
  | .construct _ => isTrue trivial
  | .copyConstruct _ _ => isTrue trivial
  | .destroy _ => isTrue trivial

/-- The caller's part: a pointer is null or leads to a node, and `Clear` is given the time it needs. -/
def Callable (m : Mem L N) : Op L N → Prop
  | .push _ p => m.deref p = p
  | .pushFront _ p => m.deref p = p
  | .pop _ => True
  | .remove p => m.deref p = p
  | .clear l bound => (m.count l).toNat < bound
  | .construct n => m.alive n = false
  | .copyConstruct n source => m.alive n = false ∧ m.deref (some source) = some source
  | .copyAssign n source => m.alive n = true ∧ m.deref (some source) = some source
  | .destroy n => m.alive n = true

omit [DecidableEq L] [DecidableEq N] in
theorem start_intact : Intact (start : Mem L N) (fun _ => []) := by
  refine ⟨⟨?_, ?_, ?_, ?_, ?_, ?_, ?_⟩, ?_⟩
  · intro l
    exact List.isChain_pair.mpr rfl
  · intro l
    exact List.isChain_pair.mpr rfl
  · intro l n hn
    cases hn
  · intro n _
    rfl
  · intro l
    exact List.nodup_nil
  · intro l n hn
    cases hn
  · intro l
    exact ⟨rfl, rfl⟩
  · intro l
    rfl

/-! ## What may follow a call -/

namespace Intact

variable {chain chain' : L → List N}

omit [DecidableEq L] [DecidableEq N] in
/-- What the memory holds determines the members of every list. -/
theorem of_shape (h : Intact m chain') (hs : Shape m chain) : Intact m chain := by
  refine ⟨hs, ?_⟩
  intro l
  have hp : (chain' l).Perm (chain l) := by
    rw [List.perm_ext_iff_of_nodup (h.1.nodup l) (hs.nodup l)]
    intro n
    rw [h.1.mem_iff, hs.mem_iff]
  rw [h.2 l, hp.length_eq]

omit [DecidableEq L] [DecidableEq N] in
theorem alive_of_deref {n : N} (h : m.deref (some (.node n)) = some (.node n)) : m.alive n = true := by
  simp only [Mem.deref] at h
  by_contra hn
  simp [hn] at h

omit [DecidableEq N] in
/-- A call that links a node in, where `op` is `push` or `pushFront`. -/
theorem grow_iff (h : Intact m chain) {n : N} (hd : isDetached m (.node n) = true) {xs : List N}
    (hs : Shape m' (Function.update chain l xs)) (hx : xs.length = (chain l).length + 1)
    (hc : m'.count = Function.update m.count l (m.count l + 1)) :
    (∃ chain', Intact m' chain') ↔ ∀ a, some (.node n) = some a → isDetached m a = true → m.count l ≠ 4294967295 := by
  have hg := h.grow hs hx hc
  constructor
  · intro ⟨chain', hi⟩ a _ _
    exact hg.mp (hi.of_shape hs)
  · intro hk
    exact ⟨_, hg.mpr (hk _ rfl hd)⟩

omit [DecidableEq L] [DecidableEq N] in
/-- Either a detached node of the user is given, or nothing that could be linked in. -/
theorem node_or_skips (h : Intact m chain) (p : Option (Addr L N)) :
    (∃ n, p = some (.node n) ∧ isDetached m (.node n) = true) ∨ ∀ a, p = some a → isDetached m a = false := by
  by_cases hd : ∃ n, p = some (.node n) ∧ isDetached m (.node n) = true
  · exact Or.inl hd
  · refine Or.inr ?_
    intro a ha
    by_contra hc
    have hc : isDetached m a = true := by simpa using hc
    cases a with
    | head k => exact absurd hc (by simp [(h.1.not_linked_end (a := .head k) (by simp)).1])
    | tail k => exact absurd hc (by simp [(h.1.not_linked_end (a := .tail k) (by simp)).1])
    | node n => exact hd ⟨n, ha, hc⟩

theorem push_iff (h : Intact m chain) {p : Option (Addr L N)} (hp : m.deref p = p) :
    ∃ m', DoubleLink.push l p m = some m' ∧ ((∃ chain', Intact m' chain') ↔ Kept m (.push l p)) := by
  rcases h.node_or_skips p with ⟨n, rfl, hd⟩ | hd
  · obtain ⟨m', e, hs, hc⟩ := h.1.push l (alive_of_deref hp) hd
    exact ⟨m', e, h.grow_iff hd hs (by simp) hc⟩
  · refine ⟨m, (h.1.push_skips l hp (fun n hn => hd _ hn)).1, iff_of_true ⟨chain, h⟩ ?_⟩
    intro a ha hda
    simp [hd a ha] at hda

theorem pushFront_iff (h : Intact m chain) {p : Option (Addr L N)} (hp : m.deref p = p) :
    ∃ m', DoubleLink.pushFront l p m = some m' ∧ ((∃ chain', Intact m' chain') ↔ Kept m (.pushFront l p)) := by
  rcases h.node_or_skips p with ⟨n, rfl, hd⟩ | hd
  · obtain ⟨m', e, hs, hc⟩ := h.1.pushFront l (alive_of_deref hp) hd
    exact ⟨m', e, h.grow_iff hd hs (by simp) hc⟩
  · refine ⟨m, (h.1.push_skips l hp (fun n hn => hd _ hn)).2, iff_of_true ⟨chain, h⟩ ?_⟩
    intro a ha hda
    simp [hd a ha] at hda

/-- `Remove` takes a node out of the list it is in, and leaves alone what is in none. -/
theorem remove_any (h : Intact m chain) {p : Option (Addr L N)} (hp : m.deref p = p) :
    ∃ m' chain', DoubleLink.remove p m = some m' ∧ Intact m' chain' ∧ m'.alive = m.alive ∧
      ∀ n, p = some (.node n) → ∀ l, n ∉ chain' l := by
  by_cases hn : ∃ n l, p = some (.node n) ∧ n ∈ chain l
  · obtain ⟨n, l, rfl, hn⟩ := hn
    obtain ⟨xs, ys, hc⟩ := List.append_of_mem hn
    obtain ⟨m', e, hi, ha⟩ := h.remove hc
    refine ⟨m', _, e, hi, ha, ?_⟩
    intro k hk l'
    cases hk
    have hnd := h.1.nodup l
    rw [hc] at hnd
    by_cases e : l' = l
    · subst e
      rw [Function.update_self]
      exact (List.nodup_cons.mp (List.nodup_middle.mp hnd)).1
    · rw [Function.update_of_ne e]
      exact fun hk => e (h.1.apart hk hn)
  · have hn' : ∀ n, p = some (.node n) → ∀ l, n ∉ chain l := fun n hp l hl => hn ⟨n, l, hp, hl⟩
    exact ⟨m, chain, h.1.remove_skips hp hn', h, rfl, hn'⟩

/-- The links of a node that is in no list are null already. -/
theorem detach (h : Intact m chain) {n : N} (hn : ∀ l, n ∉ chain l) : m.setLinks (.node n) detached = m := by
  refine mem_ext ?_ rfl rfl
  intro x
  rw [setLinks_links]
  by_cases hx : x = .node n
  · rw [if_pos hx, hx, h.1.others n hn]
  · rw [if_neg hx]

theorem construct (h : Intact m chain) {n : N} (hn : m.alive n = false) :
    ∃ m', DoubleLink.construct n m = some m' ∧ Intact m' chain := by
  have hc : ∀ l, n ∉ chain l := by
    intro l hl
    rw [h.1.alive l n hl] at hn
    cases hn
  refine ⟨m.setAlive n true, ?_, h.mark hc true⟩
  unfold DoubleLink.construct
  simp [hn, h.detach hc]

theorem destroy (h : Intact m chain) {n : N} (hn : m.alive n = true) :
    ∃ m' chain', DoubleLink.destroy n m = some m' ∧ Intact m' chain' := by
  have hd : m.deref (some (.node n)) = some (.node n) := by simp [Mem.deref, hn]
  unfold DoubleLink.destroy
  rw [hd]
  by_cases ho : (m.links (.node n)).pOwner = none
  · refine ⟨m.setAlive n false, chain, ?_, h.mark (h.not_mem_of_no_owner ho) false⟩
    simp [ho]
  · obtain ⟨m', chain', e, hi, -, hc⟩ := h.remove_any hd
    refine ⟨m'.setAlive n false, chain', ?_, hi.mark (hc n rfl) false⟩
    simp [ho, e]

/-- A node that is in a list loses its links to an assignment, and the list its chain: what leads to the node is not undone. -/
theorem assign_breaks (h : Intact m chain) {n : N} (hn : n ∈ chain l) :
    ¬ ∃ chain', Intact (m.setLinks (.node n) detached) chain' := by
  intro ⟨chain', hi⟩
  obtain ⟨xs, ys, hc⟩ := List.append_of_mem hn
  obtain ⟨us, z, e⟩ := exists_last l xs
  have hnd := h.1.nodup l
  rw [hc] at hnd
  have hnx : n ∉ xs := fun hx => (List.nodup_cons.mp (List.nodup_middle.mp hnd)).1 (List.mem_append_left ys hx)
  have hzm : z ∈ Addr.head l :: xs.map Addr.node := by simp [e]
  have hzn : z ≠ .node n := by
    rintro rfl
    simp [hnx] at hzm
  have hnext : (m.links z).pNext = some (.node n) := by
    have hl := h.1.linked l
    rw [hc, ring_append, e, List.append_assoc] at hl
    exact (linked_seam.mp hl).2.1.1
  -- the cell before it is still a cell of the list
  have hz : z ∈ Addr.head l :: (chain' l).map Addr.node := by
    rcases List.mem_cons.mp hzm with rfl | hx
    · simp
    · obtain ⟨x, hxs, rfl⟩ := List.mem_map.mp hx
      have hxo : x ∈ chain' l := by
        rw [hi.1.mem_iff, setLinks_links, if_neg hzn]
        exact h.1.owner l x (by simp [hc, hxs])
      exact List.mem_cons_of_mem _ (List.mem_map_of_mem hxo)
  obtain ⟨us', vs', y, hr, hy⟩ := exists_next (hi.1.forward l) hz
  rw [setLinks_links, if_neg hzn, hnext] at hy
  obtain rfl := Option.some.inj hy
  have hmem : n ∈ chain' l := by
    have hm : Addr.node n ∈ ring l (chain' l) := by
      rw [ring, hr]
      simp
    exact node_mem_ring.mp hm
  have ho := hi.1.owner l n hmem
  rw [setLinks_links, if_pos rfl] at ho
  cases ho

theorem copyAssign_iff (h : Intact m chain) {n : N} {source : Addr L N} (hn : m.alive n = true)
    (hs : m.deref (some source) = some source) :
    ∃ m', DoubleLink.copyAssign n source m = some m' ∧
      ((∃ chain', Intact m' chain') ↔ (m.links (.node n)).pOwner = none) := by
  refine ⟨m.setLinks (.node n) detached, ?_, ?_⟩
  · have hd : m.deref (some (.node n)) = some (.node n) := by simp [Mem.deref, hn]
    unfold DoubleLink.copyAssign
    rw [hs, hd]
    rfl
  · by_cases ho : (m.links (.node n)).pOwner = none
    · have hc := h.not_mem_of_no_owner ho
      refine iff_of_true ⟨chain, ?_⟩ ho
      rw [h.detach hc]
      exact h
    · obtain ⟨l, hl⟩ := Option.ne_none_iff_exists'.mp ho
      exact iff_of_false (h.assign_breaks (h.1.mem_iff.mpr hl)) ho

/-- A call that the caller makes rightly is defined, and the lists are intact after it exactly if the condition is met. -/
theorem step_iff (h : Intact m chain) {op : Op L N} (hc : Callable m op) :
    ∃ m', step m op = some m' ∧ ((∃ chain', Intact m' chain') ↔ Kept m op) := by
  cases op with
  | push l p => exact h.push_iff hc
  | pushFront l p => exact h.pushFront_iff hc
  | pop l =>
    cases hx : chain l with
    | nil => exact ⟨m, by simp [step, h.pop_nil hx], iff_of_true ⟨chain, h⟩ trivial⟩
    | cons n xs =>
      obtain ⟨m', e, hi, -⟩ := h.pop_cons hx
      exact ⟨m', by simp [step, e], iff_of_true ⟨_, hi⟩ trivial⟩
  | remove p =>
    obtain ⟨m', chain', e, hi, -⟩ := h.remove_any hc
    exact ⟨m', e, iff_of_true ⟨_, hi⟩ trivial⟩
  | clear l bound =>
    obtain ⟨m', e, hi, -⟩ := h.clear l (show (chain l).length < bound by rw [← h.2 l]; exact hc)
    exact ⟨m', e, iff_of_true ⟨_, hi⟩ trivial⟩
  | construct n =>
    obtain ⟨m', e, hi⟩ := h.construct hc
    exact ⟨m', e, iff_of_true ⟨_, hi⟩ trivial⟩
  | copyConstruct n source =>
    obtain ⟨m', e, hi⟩ := h.construct hc.1
    refine ⟨m', ?_, iff_of_true ⟨_, hi⟩ trivial⟩
    show (do let _ ← m.deref (some source); DoubleLink.construct n m) = _
    rw [hc.2]
    exact e
  | copyAssign n source => exact h.copyAssign_iff hc.1 hc.2
  | destroy n =>
    obtain ⟨m', chain', e, hi⟩ := h.destroy hc
    exact ⟨m', e, iff_of_true ⟨_, hi⟩ trivial⟩

/-- A call that has an outcome was made rightly, but for the time that `Clear` is given, which it may need less of. -/
theorem callable_of_step {op : Op L N} (hs : step m op = some m') (hcl : ∀ l b, op ≠ .clear l b) :
    Callable m op := by
  have follows : ∀ {p : Option (Addr L N)} {f : Addr L N → Option (Mem L N)},
      (if p = none then some m else (m.deref p).bind f) = some m' → m.deref p = p := by
    intro p f hf
    by_cases hp : p = none
    · rw [hp]
      rfl
    · rw [if_neg hp] at hf
      obtain ⟨a, ha, -⟩ := Option.bind_eq_some_iff.mp hf
      rw [ha, deref_some ha]
  cases op with
  | push l p => exact follows hs
  | pushFront l p => exact follows hs
  | pop l => trivial
  | remove p => exact follows hs
  | clear l bound => exact absurd rfl (hcl l bound)
  | construct n =>
    by_contra hn
    simp [step, DoubleLink.construct, show m.alive n = true by simpa [Callable] using hn] at hs
  | copyConstruct n source =>
    obtain ⟨a, ha, hs⟩ := Option.bind_eq_some_iff.mp hs
    refine ⟨?_, by rw [ha, deref_some ha]⟩
    by_contra hn
    simp [DoubleLink.construct, show m.alive n = true by simpa using hn] at hs
  | copyAssign n source =>
    obtain ⟨a, ha, hs⟩ := Option.bind_eq_some_iff.mp hs
    obtain ⟨b, hb, hs⟩ := Option.bind_eq_some_iff.mp hs
    have e := deref_some hb
    refine ⟨?_, by rw [ha, deref_some ha]⟩
    rw [← e] at hb
    exact alive_of_deref hb
  | destroy n =>
    obtain ⟨b, hb, hs⟩ := Option.bind_eq_some_iff.mp hs
    have e := deref_some hb
    rw [← e] at hb
    exact alive_of_deref hb

theorem clear_of_le {b b' : Nat} (hb : b ≤ b') (h : DoubleLink.clear l b m = some m') : DoubleLink.clear l b' m = some m' := by
  induction b generalizing m b' with
  | zero => cases h
  | succ b ih =>
    obtain ⟨k, rfl⟩ := Nat.exists_eq_succ_of_ne_zero (show b' ≠ 0 by omega)
    rw [DoubleLink.clear] at h ⊢
    obtain ⟨⟨ret, m1⟩, hp, hr⟩ := Option.bind_eq_some_iff.mp h
    refine Option.bind_eq_some_iff.mpr ⟨⟨ret, m1⟩, hp, ?_⟩
    dsimp only at hr ⊢
    by_cases hn : ret = none
    · rwa [if_pos hn] at hr ⊢
    · rw [if_neg hn] at hr ⊢
      exact ih (by omega) hr

theorem step_keeps_iff (h : Intact m chain) {op : Op L N} (hs : step m op = some m') :
    (∃ chain', Intact m' chain') ↔ Kept m op := by
  by_cases hcl : ∃ l b, op = .clear l b
  · obtain ⟨l, b, rfl⟩ := hcl
    obtain ⟨m'', e, hi, -⟩ := h.clear l (show (chain l).length < max b ((chain l).length + 1) by omega)
    have e' := clear_of_le (Nat.le_max_left b ((chain l).length + 1)) hs
    rw [e] at e'
    cases e'
    exact iff_of_true ⟨_, hi⟩ trivial
  · have hc := callable_of_step hs (fun l b e => hcl ⟨l, b, e⟩)
    obtain ⟨m'', e, hk⟩ := h.step_iff hc
    rw [hs] at e
    cases e
    exact hk

end Intact

/-- In every state of a run that meets the condition the lists are intact: the two chains of a list visit the same nodes in
opposite order, the count is their number, a node is in one list at most, and is linked only there. `Pop` takes the first
node, `Clear` ends, and every call that the caller makes rightly has an outcome. A next call keeps the lists intact
exactly if it meets the condition. -/
theorem lists_stay_intact (L N : Type) [DecidableEq L] [DecidableEq N] (m : Mem L N) (h : Reach (machine L N) Kept m) :
    ∃ chain : L → List N,
      (∀ l, (ring l (chain l)).IsChain (fun x y => (m.links x).pNext = some y) ∧
        (ring l (chain l)).reverse.IsChain (fun x y => (m.links x).pPrev = some y) ∧ (chain l).Nodup ∧
        (m.count l).toNat = (chain l).length ∧ ∀ n ∈ chain l, (m.links (.node n)).pOwner = some l) ∧
      (∀ n, (∀ l, n ∉ chain l) → m.links (.node n) = detached) ∧
      (∀ l l' n, n ∈ chain l → n ∈ chain l' → l = l') ∧
      (∀ l, match chain l with
        | [] => pop l m = some (none, m)
        | n :: xs => ∃ m', pop l m = some (some (.node n), m') ∧ Intact m' (Function.update chain l xs)) ∧
      (∀ l, ∃ m', ∀ bound > (chain l).length,
        DoubleLink.clear l bound m = some m' ∧ Intact m' (Function.update chain l [])) ∧
      (∀ op, Callable m op → ∃ m', step m op = some m') ∧
      ∀ op m', step m op = some m' → ((∃ chain', Intact m' chain') ↔ Kept m op) := by
  obtain ⟨chain, hi⟩ : ∃ chain, Intact m chain := by
    refine h.inv (I := fun m => ∃ chain, Intact m chain) ⟨fun _ => [], start_intact⟩ ?_
    intro m op m' ⟨chain, hi⟩ hk hs
    exact (hi.step_keeps_iff hs).mpr hk
  have hs := hi.1
  refine ⟨chain, ?_, hs.others, fun l l' n h1 h2 => hs.apart h1 h2, ?_, ?_, ?_, ?_⟩
  · intro l
    exact ⟨hs.forward l, hs.backward l, hs.nodup l, hi.2 l, hs.owner l⟩
  · intro l
    cases hx : chain l with
    | nil => exact hi.pop_nil hx
    | cons n xs =>
      obtain ⟨m', e, hi', -⟩ := hi.pop_cons hx
      exact ⟨m', e, hi'⟩
  · intro l
    obtain ⟨m', e, hi', -⟩ := hi.clear l (Nat.lt_succ_self _)
    exact ⟨m', fun bound hb => ⟨Intact.clear_of_le hb e, hi'⟩⟩
  · intro op hc
    obtain ⟨m', e, -⟩ := hi.step_iff hc
    exact ⟨m', e⟩
  · intro op m' e
    exact hi.step_keeps_iff e

/-- Two nodes, one before the other; the first has been a copy of the second. -/
theorem lists_stay_intact_two : ∃ m : Mem Unit Bool, m.count () = 2 ∧ ∃ chain : Unit → List Bool,
    (m.count ()).toNat = (chain ()).length ∧ ∃ m', ∀ bound > (chain ()).length,
      DoubleLink.clear () bound m = some m' ∧ Intact m' (Function.update chain () []) := by
  obtain ⟨m, hr, hm⟩ := Reach.of_run (machine Unit Bool) Kept (fun m => m.count () == 2)
    [.construct true, .push () (some (.node true)), .copyConstruct false (.node true), .pushFront () (some (.node false))]
    (by decide)
  obtain ⟨chain, h1, -, -, -, h2, -⟩ := lists_stay_intact Unit Bool m hr
  exact ⟨m, eq_of_beq hm, chain, (h1 ()).2.2.2.1, h2 ()⟩

/-- A linked node that is assigned to stays first in its list: `Pop` returns it each time, and `Clear` never ends. -/
theorem an_assignment_stops_clear : ∃ m : Mem Unit Bool, Reach (machine Unit Bool) (fun _ _ => True) m ∧
    (¬ ∃ chain, Intact m chain) ∧ pop () m = some (some (.node true), m) ∧ ∀ bound, DoubleLink.clear () bound m = none := by
  obtain ⟨m, hr, hm⟩ := Reach.of_run (machine Unit Bool) (fun _ _ => True)
    (fun m => (m.links (.head ())).pNext = some (.node true) ∧ m.links (.node true) = detached ∧ m.alive true = true)
    [.construct true, .push () (some (.node true)), .construct false, .copyAssign true (.node false)] (by decide)
  obtain ⟨hn, hd, ha⟩ := of_decide_eq_true hm
  have hpop : pop () m = some (some (.node true), m) := by
    have he : empty m () = false := by simp [empty, hn]
    have hr : remove (some (.node true)) m = some m := by simp [remove, Mem.deref, ha, isLinked, hd, detached]
    unfold pop
    simp [he, hn, hr]
  refine ⟨m, hr, ?_, hpop, ?_⟩
  · intro hlist
    obtain ⟨chain, hi⟩ := hlist
    obtain ⟨us, vs, y, e, hy⟩ := exists_next (hi.1.forward ()) (List.mem_cons_self (a := Addr.head ()))
    rw [hn] at hy
    obtain rfl := Option.some.inj hy
    have hmem : true ∈ chain () := by
      have hm : Addr.node true ∈ ring () (chain ()) := by
        rw [ring, e]
        simp
      exact node_mem_ring.mp hm
    have ho := hi.1.owner () true hmem
    rw [hd] at ho
    cases ho
  · intro bound
    induction bound with
    | zero => rfl
    | succ b ih => simp [DoubleLink.clear, hpop, ih]

end Dbase.Time.DoubleLink
