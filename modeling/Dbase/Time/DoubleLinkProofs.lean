/-
  Dbase.Time.DoubleLinkProofs — what `Push`, `PushFront` and `Remove` do to the chains.

  `Shape m chain` says what the memory `m` looks like when list `l` holds the nodes `chain l`: the pointers forward and
  back, the owners, and null links everywhere else. Both ways of linking in are one edit (`linkIn`), between the last
  node and the end or between the head and the first; removal is the other (`linkOut`).

  Proved:
  - `Shape.mem_iff`, `Shape.apart`: the owner of a node is the one list it is in.
  - `push_eq`, `pushFront_eq`, `remove_eq`: the assignments of the source, one after the other, come to the edit.
  - `Shape.linkIn`, `Shape.linkOut`: the edits keep the shape, of the list concerned and of every other.
  - `Shape.push_skips`, `Shape.remove_skips`: null pointers, the ends of a list, and nodes that are linked already or
    not linked are left alone.
-/

import Dbase.Lib.Chain
import Dbase.Time.DoubleLink
namespace Dbase.Time.DoubleLink
open Dbase.Lib Dbase.Lib.Chain
variable {L N : Type} {m m' : Mem L N} {l : L} {z a t : Addr L N}

/-! ## The shape of the lists -/

/-- A list with its two ends. -/
def ring (l : L) (xs : List N) : List (Addr L N) := .head l :: xs.map .node ++ [.tail l]

/-- The lists hold the nodes of `chain`, and no other node is linked. -/
structure Shape (m : Mem L N) (chain : L → List N) : Prop where
  forward : ∀ l, (ring l (chain l)).IsChain fun x y => (m.links x).pNext = some y
  backward : ∀ l, (ring l (chain l)).reverse.IsChain fun x y => (m.links x).pPrev = some y
  owner : ∀ l, ∀ n ∈ chain l, (m.links (.node n)).pOwner = some l
  others : ∀ n, (∀ l, n ∉ chain l) → m.links (.node n) = detached
  nodup : ∀ l, (chain l).Nodup
  alive : ∀ l, ∀ n ∈ chain l, m.alive n = true
  ends : ∀ l, (m.links (.head l)).pOwner = none ∧ (m.links (.tail l)).pOwner = none

theorem ring_append (l : L) (xs ys : List N) :
    ring l (xs ++ ys) = (.head l :: xs.map .node) ++ (ys.map .node ++ [.tail l]) := by
  simp [ring]

theorem exists_last (l : L) (xs : List N) : ∃ us z, (.head l :: xs.map .node : List (Addr L N)) = us ++ [z] := by
  exact ⟨_, _, (List.dropLast_append_getLast (List.cons_ne_nil (Addr.head l) (xs.map .node))).symm⟩

theorem exists_first (l : L) (ys : List N) : ∃ t vs, (ys.map .node ++ [.tail l] : List (Addr L N)) = t :: vs := by
  cases ys with
  | nil => exact ⟨_, _, rfl⟩
  | cons y ys => exact ⟨_, _, rfl⟩

theorem node_mem_ring {l : L} {xs : List N} {n : N} : .node n ∈ ring l xs ↔ n ∈ xs := by
  simp [ring]

theorem ring_nodup {xs : List N} (h : xs.Nodup) : (ring l xs).Nodup := by
  have hn : (xs.map (Addr.node (L := L))).Nodup := h.map (fun _ _ e => Addr.node.inj e)
  simp [ring, List.nodup_append, hn]

namespace Shape

variable {chain : L → List N}

theorem linked (h : Shape m chain) (l : L) :
    Linked (fun x => (m.links x).pNext) (fun x => (m.links x).pPrev) (ring l (chain l)) :=
  linked_iff.mpr ⟨h.forward l, h.backward l⟩

theorem apart (h : Shape m chain) {l l' : L} {n : N} (h1 : n ∈ chain l) (h2 : n ∈ chain l') : l = l' := by
  have e := h.owner l n h1
  rw [h.owner l' n h2] at e
  exact (Option.some.inj e).symm

theorem mem_iff (h : Shape m chain) {l : L} {n : N} : n ∈ chain l ↔ (m.links (.node n)).pOwner = some l := by
  refine ⟨h.owner l n, fun ho => ?_⟩
  by_contra hn
  by_cases hf : ∀ l, n ∉ chain l
  · rw [h.others n hf] at ho
    cases ho
  · obtain ⟨l', hl'⟩ := not_forall.mp hf
    rw [not_not] at hl'
    rw [h.owner l' n hl'] at ho
    exact hn (Option.some.inj ho ▸ hl')

theorem ring_apart (h : Shape m chain) {l l' : L} {x : Addr L N} (h1 : x ∈ ring l (chain l)) (h2 : x ∈ ring l' (chain l')) :
    l = l' := by
  cases x with
  | head k =>
    simp [ring] at h1 h2
    rw [← h1, ← h2]
  | tail k =>
    simp [ring] at h1 h2
    rw [← h1, ← h2]
  | node n => exact h.apart (node_mem_ring.mp h1) (node_mem_ring.mp h2)

theorem deref (h : Shape m chain) {l : L} {x : Addr L N} (hx : x ∈ ring l (chain l)) : m.deref (some x) = some x := by
  cases x with
  | head k => rfl
  | tail k => rfl
  | node n => simp [Mem.deref, h.alive l n (node_mem_ring.mp hx)]

theorem not_linked_end (h : Shape m chain) {a : Addr L N} (ha : ∀ n, a ≠ .node n) :
    isDetached m a = false ∧ isLinked m a = false := by
  cases a with
  | head l =>
    obtain ⟨t, vs, e⟩ := exists_first l (chain l)
    have hf := h.forward l
    rw [ring, List.cons_append, e] at hf
    have hn := (List.isChain_cons_cons.mp hf).1
    simp [isDetached, isLinked, (h.ends l).1, hn]
  | tail l =>
    obtain ⟨us, z, e⟩ := exists_last l (chain l)
    have hl := h.linked l
    rw [ring, e, List.append_assoc] at hl
    have hp := (linked_seam.mp hl).2.1.2
    simp [isDetached, isLinked, (h.ends l).2, hp]
  | node n => exact absurd rfl (ha n)

theorem not_mem_of_detached (h : Shape m chain) {n : N} (hd : isDetached m (.node n) = true) (l : L) : n ∉ chain l := by
  intro hn
  simp [isDetached, h.owner l n hn] at hd

end Shape

/-! ## Memory -/

theorem deref_congr (h : m'.alive = m.alive) (p : Option (Addr L N)) : m'.deref p = m.deref p := by
  cases p with
  | none => rfl
  | some a => cases a <;> simp [Mem.deref, h]

theorem links_ext {x y : Links L N} (h1 : x.pOwner = y.pOwner) (h2 : x.pNext = y.pNext) (h3 : x.pPrev = y.pPrev) :
    x = y := by
  cases x
  cases y
  simp_all

theorem mem_ext {m m' : Mem L N} (h1 : ∀ x, m.links x = m'.links x) (h2 : m.count = m'.count) (h3 : m.alive = m'.alive) :
    m = m' := by
  cases m
  cases m'
  obtain rfl : _ = _ := funext h1
  obtain rfl : _ = _ := h2
  obtain rfl : _ = _ := h3
  rfl

variable [DecidableEq L] [DecidableEq N]

section Setters
variable (m : Mem L N) (a x : Addr L N)

@[simp] theorem setNext_links (p : Option (Addr L N)) :
    (m.setNext a p).links x = if x = a then ⟨(m.links a).pOwner, p, (m.links a).pPrev⟩ else m.links x := by
  simp [Mem.setNext, Function.update_apply]

@[simp] theorem setPrev_links (p : Option (Addr L N)) :
    (m.setPrev a p).links x = if x = a then ⟨(m.links a).pOwner, (m.links a).pNext, p⟩ else m.links x := by
  simp [Mem.setPrev, Function.update_apply]

@[simp] theorem setOwner_links (o : Option L) :
    (m.setOwner a o).links x = if x = a then ⟨o, (m.links a).pNext, (m.links a).pPrev⟩ else m.links x := by
  simp [Mem.setOwner, Function.update_apply]

@[simp] theorem setLinks_links (y : Links L N) : (m.setLinks a y).links x = if x = a then y else m.links x := by
  simp [Mem.setLinks, Function.update_apply]

omit [DecidableEq N] in
@[simp] theorem setCount_links (l : L) (c : UInt32) : (m.setCount l c).links = m.links := rfl

omit [DecidableEq L] in
@[simp] theorem setAlive_links (n : N) (b : Bool) : (m.setAlive n b).links = m.links := rfl

@[simp] theorem setNext_count (p : Option (Addr L N)) : (m.setNext a p).count = m.count := rfl

@[simp] theorem setPrev_count (p : Option (Addr L N)) : (m.setPrev a p).count = m.count := rfl

@[simp] theorem setOwner_count (o : Option L) : (m.setOwner a o).count = m.count := rfl

@[simp] theorem setNext_alive (p : Option (Addr L N)) : (m.setNext a p).alive = m.alive := rfl

@[simp] theorem setPrev_alive (p : Option (Addr L N)) : (m.setPrev a p).alive = m.alive := rfl

@[simp] theorem setOwner_alive (o : Option L) : (m.setOwner a o).alive = m.alive := rfl

end Setters

omit [DecidableEq L] [DecidableEq N] in
theorem deref_some {p : Option (Addr L N)} {a : Addr L N} (h : m.deref p = some a) : p = some a := by
  cases p with
  | none => cases h
  | some b =>
    cases b with
    | head l => exact h
    | tail l => exact h
    | node n =>
      simp only [Mem.deref] at h
      split at h
      · exact h
      · cases h

/-- `a`, linked in between `z` and `t` as a node of `l`. -/
def linkIn (m : Mem L N) (l : L) (z a t : Addr L N) : Mem L N :=
  (((m.setNext z (some a)).setPrev t (some a)).setLinks a ⟨some l, some t, some z⟩).setCount l (m.count l + 1)

/-- `a`, a node of `l`, taken out from between `z` and `t`. -/
def linkOut (m : Mem L N) (l : L) (z a t : Addr L N) : Mem L N :=
  (((m.setNext z (some t)).setPrev t (some z)).setLinks a detached).setCount l (m.count l - 1)

theorem push_eq (ha : m.deref (some a) = some a) (hd : isDetached m a = true) (hz : (m.links (.tail l)).pPrev = some z)
    (hz' : m.deref (some z) = some z) (hza : z ≠ a) (hzt : z ≠ .tail l) (hat : a ≠ .tail l) :
    push l (some a) m = some (linkIn m l z a (.tail l)) := by
  unfold push
  rw [if_neg (by simp), ha]
  simp only [Option.bind_eq_bind, Option.bind_some, hd, hz, hz']
  refine congrArg some (mem_ext ?_ ?_ ?_)
  · intro x
    simp only [linkIn, setCount_links, setPrev_links, setOwner_links, setNext_links, setLinks_links]
    by_cases h1 : x = .tail l
    · subst h1
      simp [hzt.symm, hat.symm]
    · by_cases h2 : x = a
      · subst h2
        simp [h1, hza.symm, hz, hzt.symm]
      · simp [h1, h2]
  · simp [linkIn, Mem.setCount, Mem.setLinks]
  · rfl

theorem pushFront_eq (ha : m.deref (some a) = some a) (hd : isDetached m a = true)
    (ht : (m.links (.head l)).pNext = some t) (ht' : m.deref (some t) = some t) (hta : t ≠ a) (hht : .head l ≠ t)
    (hha : .head l ≠ a) : pushFront l (some a) m = some (linkIn m l (.head l) a t) := by
  have hd' : ∀ m' : Mem L N, m'.alive = m.alive → m'.deref (some t) = some t := by
    intro m' h
    rw [deref_congr h, ht']
  unfold pushFront
  rw [if_neg (by simp), ha]
  simp only [Option.bind_eq_bind, Option.bind_some, hd, setNext_links, setPrev_links, if_neg hha, ht]
  rw [hd' ((m.setPrev a (some (.head l))).setNext a (some t)) rfl]
  refine congrArg some (mem_ext ?_ ?_ ?_)
  · intro x
    simp only [linkIn, setCount_links, setPrev_links, setOwner_links, setNext_links, setLinks_links]
    by_cases h1 : x = a
    · subst h1
      simp [hta.symm, hha.symm]
    · by_cases h2 : x = .head l
      · subst h2
        simp [h1, hht]
      · simp [h1, h2, hta, hht.symm]
  · simp [linkIn, Mem.setCount, Mem.setLinks]
  · rfl

theorem remove_eq (ha : m.deref (some a) = some a) (ho : (m.links a).pOwner = some l) (hz : (m.links a).pPrev = some z)
    (ht : (m.links a).pNext = some t) (hz' : m.deref (some z) = some z) (ht' : m.deref (some t) = some t) (hza : z ≠ a)
    (hta : t ≠ a) : remove (some a) m = some (linkOut m l z a t) := by
  have hl : isLinked m a = true := by simp [isLinked, ho, hz, ht]
  have hd' : ∀ m' : Mem L N, m'.alive = m.alive → m'.deref (some t) = some t := by
    intro m' h
    rw [deref_congr h, ht']
  unfold remove
  rw [if_neg (by simp), ha]
  simp only [Option.bind_eq_bind, Option.bind_some, hl, hz, hz', ht, setNext_links, setPrev_links, if_neg hza.symm]
  rw [hd' (m.setNext z (some t)) rfl]
  simp only [Option.bind_some, if_neg hta.symm, ho]
  refine congrArg some (mem_ext ?_ ?_ ?_)
  · intro x
    simp only [linkOut, setCount_links, setPrev_links, setOwner_links, setNext_links, setLinks_links, detached]
    by_cases h1 : x = a
    · simp [h1]
    · simp [h1]
  · simp [linkOut, Mem.setCount, Mem.setLinks, Mem.setOwner, Mem.setNext, Mem.setPrev]
  · rfl

@[simp] theorem linkIn_next (x : Addr L N) :
    ((linkIn m l z a t).links x).pNext = if x = a then some t else if x = z then some a else (m.links x).pNext := by
  simp only [linkIn, setCount_links, setLinks_links, setPrev_links, setNext_links]
  split_ifs <;> simp_all

@[simp] theorem linkIn_prev (x : Addr L N) :
    ((linkIn m l z a t).links x).pPrev = if x = a then some z else if x = t then some a else (m.links x).pPrev := by
  simp only [linkIn, setCount_links, setLinks_links, setPrev_links, setNext_links]
  split_ifs <;> simp_all

@[simp] theorem linkIn_owner (x : Addr L N) :
    ((linkIn m l z a t).links x).pOwner = if x = a then some l else (m.links x).pOwner := by
  simp only [linkIn, setCount_links, setLinks_links, setPrev_links, setNext_links]
  split_ifs <;> simp_all

@[simp] theorem linkOut_next (x : Addr L N) :
    ((linkOut m l z a t).links x).pNext = if x = a then none else if x = z then some t else (m.links x).pNext := by
  simp only [linkOut, setCount_links, setLinks_links, setPrev_links, setNext_links, detached]
  split_ifs <;> simp_all

@[simp] theorem linkOut_prev (x : Addr L N) :
    ((linkOut m l z a t).links x).pPrev = if x = a then none else if x = t then some z else (m.links x).pPrev := by
  simp only [linkOut, setCount_links, setLinks_links, setPrev_links, setNext_links, detached]
  split_ifs <;> simp_all

@[simp] theorem linkOut_owner (x : Addr L N) :
    ((linkOut m l z a t).links x).pOwner = if x = a then none else (m.links x).pOwner := by
  simp only [linkOut, setCount_links, setLinks_links, setPrev_links, setNext_links, detached]
  split_ifs <;> simp_all

/-! ## The two edits -/

namespace Shape

variable {chain : L → List N}

omit [DecidableEq N] in
/-- Every ring is linked both ways when list `l` is, and no link of the others has changed. -/
theorem linked_edit (h : Shape m chain) {ws : List N} {n : N} (hz : z ∈ ring l (chain l)) (ht : t ∈ ring l (chain l))
    (hapart : ∀ l', l' ≠ l → n ∉ chain l')
    (hnext : ∀ x, x ≠ .node n → x ≠ z → (m'.links x).pNext = (m.links x).pNext)
    (hprev : ∀ x, x ≠ .node n → x ≠ t → (m'.links x).pPrev = (m.links x).pPrev)
    (hlinked : Linked (fun x => (m'.links x).pNext) (fun x => (m'.links x).pPrev) (ring l ws)) (l' : L) :
    Linked (fun x => (m'.links x).pNext) (fun x => (m'.links x).pPrev) (ring l' (Function.update chain l ws l')) := by
  by_cases e : l' = l
  · subst e
    rw [Function.update_self]
    exact hlinked
  · rw [Function.update_of_ne e]
    have hne : ∀ x ∈ ring l' (chain l'), x ≠ .node n := by
      rintro x hx rfl
      exact hapart l' e (node_mem_ring.mp hx)
    refine (h.linked l').congr ?_ ?_
    · intro x hx
      exact hnext x (hne x hx) fun ez => e (h.ring_apart hx (ez ▸ hz))
    · intro x hx
      exact hprev x (hne x hx) fun et => e (h.ring_apart hx (et ▸ ht))

/-- Node `n` is put into list `l` between `z` and `t`, or taken out there; the others keep their links. -/
theorem edit (h : Shape m chain) {ws : List N} {n : N} (hz : z ∈ ring l (chain l)) (ht : t ∈ ring l (chain l))
    (hapart : ∀ l', l' ≠ l → n ∉ chain l')
    (hnext : ∀ x, x ≠ .node n → x ≠ z → (m'.links x).pNext = (m.links x).pNext)
    (hprev : ∀ x, x ≠ .node n → x ≠ t → (m'.links x).pPrev = (m.links x).pPrev)
    (howner : ∀ x, x ≠ .node n → (m'.links x).pOwner = (m.links x).pOwner) (halive : m'.alive = m.alive)
    (hlinked : Linked (fun x => (m'.links x).pNext) (fun x => (m'.links x).pPrev) (ring l ws)) (hnd : ws.Nodup)
    (hmem : ∀ x, x ≠ n → (x ∈ ws ↔ x ∈ chain l))
    (hnode : n ∈ ws ∧ (m'.links (.node n)).pOwner = some l ∧ m.alive n = true ∨
      n ∉ ws ∧ m'.links (.node n) = detached) :
    Shape m' (Function.update chain l ws) := by
  have linked := h.linked_edit hz ht hapart hnext hprev hlinked
  -- a node of the edited lists is the one linked in, or was there
  have hfrom : ∀ {l' x}, x ∈ Function.update chain l ws l' → (x = n ∧ l' = l ∧ n ∈ ws) ∨ (x ≠ n ∧ x ∈ chain l') := by
    intro l' x hx
    by_cases e : l' = l
    · subst e
      rw [Function.update_self] at hx
      by_cases hxn : x = n
      · exact Or.inl ⟨hxn, rfl, hxn ▸ hx⟩
      · exact Or.inr ⟨hxn, (hmem x hxn).mp hx⟩
    · rw [Function.update_of_ne e] at hx
      refine Or.inr ⟨?_, hx⟩
      rintro rfl
      exact hapart l' e hx
  have hstays : ∀ {l' x}, x ≠ n → x ∈ chain l' → x ∈ Function.update chain l ws l' := by
    intro l' x hxn hx
    by_cases e : l' = l
    · subst e
      rw [Function.update_self]
      exact (hmem x hxn).mpr hx
    · rw [Function.update_of_ne e]
      exact hx
  refine ⟨fun l' => (linked_iff.mp (linked l')).1, fun l' => (linked_iff.mp (linked l')).2, ?_, ?_, ?_, ?_, ?_⟩
  · intro l' x hx
    rcases hfrom hx with ⟨rfl, rfl, hin⟩ | ⟨hxn, hx⟩
    · rcases hnode with ⟨-, ho, -⟩ | ⟨hout, -⟩
      · exact ho
      · exact absurd hin hout
    · rw [howner (.node x) (by simpa using hxn)]
      exact h.owner l' x hx
  · intro x hx
    by_cases hxn : x = n
    · subst hxn
      rcases hnode with ⟨hin, -, -⟩ | ⟨-, hd⟩
      · exact absurd ((Function.update_self l ws chain).symm ▸ hin) (hx l)
      · exact hd
    · have hxc : ∀ l', x ∉ chain l' := fun l' h => hx l' (hstays hxn h)
      have hxz : .node x ≠ z := fun e => hxc l (node_mem_ring.mp (e ▸ hz))
      have hxt : .node x ≠ t := fun e => hxc l (node_mem_ring.mp (e ▸ ht))
      have hne : Addr.node x ≠ (.node n : Addr L N) := by simpa using hxn
      rw [← h.others x hxc]
      exact links_ext (howner _ hne) (hnext _ hne hxz) (hprev _ hne hxt)
  · intro l'
    by_cases e : l' = l
    · subst e
      rw [Function.update_self]
      exact hnd
    · rw [Function.update_of_ne e]
      exact h.nodup l'
  · intro l' x hx
    rw [halive]
    rcases hfrom hx with ⟨rfl, -, hin⟩ | ⟨-, hx⟩
    · rcases hnode with ⟨-, -, ha⟩ | ⟨hout, -⟩
      · exact ha
      · exact absurd hin hout
    · exact h.alive l' x hx
  · intro l'
    rw [howner (.head l') (by simp), howner (.tail l') (by simp)]
    exact h.ends l'

/-- Node `n` linked in: its list has it there, and the others are as they were. -/
theorem linkIn (h : Shape m chain) {us vs : List (Addr L N)} {xs ys : List N} {n : N} (hc : chain l = xs ++ ys)
    (hr : ring l (xs ++ ys) = us ++ z :: t :: vs) (hr' : ring l (xs ++ n :: ys) = us ++ z :: .node n :: t :: vs)
    (hn : ∀ l, n ∉ chain l) (hl : m.alive n = true) :
    Shape (linkIn m l z (.node n) t) (Function.update chain l (xs ++ n :: ys)) := by
  have hnd : (xs ++ n :: ys).Nodup := by
    rw [List.nodup_middle, ← hc]
    exact List.nodup_cons.mpr ⟨hn l, h.nodup l⟩
  have hz : z ∈ ring l (chain l) := by simp [hc, hr]
  have ht : t ∈ ring l (chain l) := by simp [hc, hr]
  have hza : z ≠ .node n := fun e => hn l (node_mem_ring.mp (e ▸ hz))
  have hta : t ≠ .node n := fun e => hn l (node_mem_ring.mp (e ▸ ht))
  refine h.edit hz ht (fun l' _ => hn l') ?_ ?_ ?_ rfl ?_ hnd ?_ (Or.inl ⟨by simp, by simp, hl⟩)
  · intro x h1 h2
    simp [h1, h2]
  · intro x h1 h2
    simp [h1, h2]
  · intro x h1
    simp [h1]
  · have hring := ring_nodup (l := l) hnd
    have hold := h.linked l
    rw [hr'] at hring ⊢
    rw [hc, hr] at hold
    refine hold.insert hring ?_ ?_ ?_ ?_ ?_ ?_
    · simp [hza]
    · simp
    · simp
    · simp [hta]
    · intro x h1 h2
      simp [h1, h2]
    · intro x h1 h2
      simp [h1, h2]
  · intro x hxn
    rw [hc]
    simp [hxn]

/-- Node `n` taken out: it is not linked any more, and the others are as they were. -/
theorem linkOut (h : Shape m chain) {us vs : List (Addr L N)} {xs ys : List N} {n : N} (hc : chain l = xs ++ n :: ys)
    (hr : ring l (xs ++ n :: ys) = us ++ z :: .node n :: t :: vs) (hr' : ring l (xs ++ ys) = us ++ z :: t :: vs) :
    Shape (linkOut m l z (.node n) t) (Function.update chain l (xs ++ ys)) := by
  have hnl : n ∈ chain l := by simp [hc]
  have hnd := h.nodup l
  rw [hc] at hnd
  have hring := ring_nodup (l := l) hnd
  rw [hr] at hring
  obtain ⟨hnm, hnd'⟩ := List.nodup_cons.mp (List.nodup_middle.mp hnd)
  have hz : z ∈ ring l (chain l) := by simp [hc, hr]
  have ht : t ∈ ring l (chain l) := by simp [hc, hr]
  have hza : z ≠ .node n := by
    rintro rfl
    simp [List.nodup_append] at hring
  have hta : t ≠ .node n := by
    rintro rfl
    simp [List.nodup_append] at hring
  have hgone : (DoubleLink.linkOut m l z (.node n) t).links (.node n) = detached :=
    links_ext (by simp [detached]) (by simp [detached]) (by simp [detached])
  refine h.edit hz ht (fun l' e hx => e (h.apart hx hnl)) ?_ ?_ ?_ rfl ?_ hnd' ?_ (Or.inr ⟨hnm, hgone⟩)
  · intro x h1 h2
    simp [h1, h2]
  · intro x h1 h2
    simp [h1, h2]
  · intro x h1
    simp [h1]
  · have hold := h.linked l
    rw [hc, hr] at hold
    rw [hr']
    refine hold.remove hring ?_ ?_ ?_ ?_
    · simp [hza]
    · simp [hta]
    · intro x h1 h2
      simp [h1, h2]
    · intro x h1 h2
      simp [h1, h2]
  · intro x hxn
    rw [hc]
    simp [hxn]

/-! ## The operations -/

/-- What cannot be linked in is left alone: a null pointer, an end of a list, or a linked node. -/
theorem push_skips (h : Shape m chain) (l : L) {p : Option (Addr L N)} (hp : m.deref p = p)
    (hd : ∀ n, p = some (.node n) → isDetached m (.node n) = false) :
    push l p m = some m ∧ pushFront l p m = some m := by
  cases p with
  | none => exact ⟨rfl, rfl⟩
  | some a =>
    have hf : isDetached m a = false := by
      cases a with
      | node n => exact hd n rfl
      | head k => exact (h.not_linked_end (by simp)).1
      | tail k => exact (h.not_linked_end (by simp)).1
    unfold push pushFront
    rw [if_neg (by simp), if_neg (by simp), hp]
    simp [hf]

theorem push (h : Shape m chain) (l : L) {n : N} (hl : m.alive n = true) (hd : isDetached m (.node n) = true) :
    ∃ m', DoubleLink.push l (some (.node n)) m = some m' ∧ Shape m' (Function.update chain l (chain l ++ [n])) ∧
      m'.count = Function.update m.count l (m.count l + 1) := by
  obtain ⟨us, z, e⟩ := exists_last l (chain l)
  have hn := h.not_mem_of_detached hd
  have hr : ring l (chain l ++ []) = us ++ z :: .tail l :: [] := by
    rw [ring_append, e]
    simp
  have hr' : ring l (chain l ++ [n]) = us ++ z :: .node n :: .tail l :: [] := by
    rw [ring_append, e]
    simp
  have hz : z ∈ ring l (chain l) := by
    rw [← List.append_nil (chain l), hr]
    simp
  have hnd := ring_nodup (l := l) (h.nodup l)
  rw [← List.append_nil (chain l), hr] at hnd
  have hl' := h.linked l
  rw [← List.append_nil (chain l), hr] at hl'
  refine ⟨_, push_eq (z := z) ?_ hd (linked_seam.mp hl').2.1.2 (h.deref hz) ?_ ?_ ?_,
    h.linkIn (List.append_nil _).symm hr hr' hn hl, rfl⟩
  · simp [Mem.deref, hl]
  · rintro rfl
    exact hn l (node_mem_ring.mp hz)
  · rintro rfl
    simp [List.nodup_append] at hnd
  · simp

theorem pushFront (h : Shape m chain) (l : L) {n : N} (hl : m.alive n = true) (hd : isDetached m (.node n) = true) :
    ∃ m', DoubleLink.pushFront l (some (.node n)) m = some m' ∧ Shape m' (Function.update chain l (n :: chain l)) ∧
      m'.count = Function.update m.count l (m.count l + 1) := by
  obtain ⟨t, vs, e⟩ := exists_first l (chain l)
  have hn := h.not_mem_of_detached hd
  have hr : ring l ([] ++ chain l) = [] ++ .head l :: t :: vs := by
    rw [ring_append, e]
    rfl
  have hr' : ring l ([] ++ n :: chain l) = [] ++ .head l :: .node n :: t :: vs := by
    show Addr.head l :: Addr.node n :: ((chain l).map Addr.node ++ [Addr.tail l]) = _
    rw [e]
    rfl
  have ht : t ∈ ring l (chain l) := by
    rw [← List.nil_append (chain l), hr]
    simp
  have hnd := ring_nodup (l := l) (h.nodup l)
  rw [← List.nil_append (chain l), hr] at hnd
  have hl' := h.linked l
  rw [← List.nil_append (chain l), hr] at hl'
  refine ⟨_, pushFront_eq (t := t) ?_ hd (linked_seam.mp hl').2.1.1 (h.deref ht) ?_ ?_ ?_,
    h.linkIn (List.nil_append _).symm hr hr' hn hl, rfl⟩
  · simp [Mem.deref, hl]
  · rintro rfl
    exact hn l (node_mem_ring.mp ht)
  · rintro rfl
    simp at hnd
  · simp

/-- What is not linked is left alone. -/
theorem remove_skips (h : Shape m chain) {p : Option (Addr L N)} (hp : m.deref p = p)
    (hd : ∀ n, p = some (.node n) → ∀ l, n ∉ chain l) : DoubleLink.remove p m = some m := by
  cases p with
  | none => rfl
  | some a =>
    have hf : isLinked m a = false := by
      cases a with
      | node n => simp [isLinked, h.others n (hd n rfl), detached]
      | head k => exact (h.not_linked_end (by simp)).2
      | tail k => exact (h.not_linked_end (by simp)).2
    unfold DoubleLink.remove
    rw [if_neg (by simp), hp]
    simp [hf]

theorem remove (h : Shape m chain) {l : L} {xs ys : List N} {n : N} (hc : chain l = xs ++ n :: ys) :
    ∃ m', DoubleLink.remove (some (.node n)) m = some m' ∧ Shape m' (Function.update chain l (xs ++ ys)) ∧
      m'.count = Function.update m.count l (m.count l - 1) ∧ m'.alive = m.alive := by
  obtain ⟨us, z, e1⟩ := exists_last l xs
  obtain ⟨t, vs, e2⟩ := exists_first l ys
  have hr : ring l (xs ++ n :: ys) = us ++ z :: .node n :: t :: vs := by
    rw [ring_append, e1, List.map_cons, List.cons_append, e2]
    simp
  have hr' : ring l (xs ++ ys) = us ++ z :: t :: vs := by
    rw [ring_append, e1, e2]
    simp
  have hnd := ring_nodup (l := l) (h.nodup l)
  rw [hc, hr] at hnd
  have hl := h.linked l
  rw [hc, hr] at hl
  have hz : z ∈ ring l (chain l) := by simp [hc, hr]
  have ht : t ∈ ring l (chain l) := by simp [hc, hr]
  have hn : n ∈ chain l := by simp [hc]
  have hm := (linked_seam.mp hl).2
  refine ⟨_, remove_eq (z := z) (t := t) (h.deref (node_mem_ring.mpr hn)) (h.owner l n hn) hm.1.2
    (List.isChain_cons_cons.mp hm.2).1.1 (h.deref hz) (h.deref ht) ?_ ?_, h.linkOut hc hr hr', rfl, rfl⟩
  · rintro rfl
    simp [List.nodup_append] at hnd
  · rintro rfl
    simp [List.nodup_append] at hnd

end Shape

end Dbase.Time.DoubleLink
