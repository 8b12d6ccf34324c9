/-
  Dbase.Cache.LruCacheProofs — the cache keeps a recency list.

  `Linked` ties the index to the nodes: one entry for each node, which points at it. Under it no
  operation follows an iterator that is gone, and each does to the list of entries what the
  reference list does; the exception of an evict callback is the one thing that sets the two apart.
-/

import Dbase.Lib.Recency
import Dbase.Cache.LruCache

namespace Dbase.Cache.LruCache

open Dbase.Lib
open Dbase.Lib.Recency (find?_split eraseP_split)

variable {K V : Type} {c : Lru K V}

/-! ## The index and the list -/

def Node.entry (n : Node K V) : K × V := (n.key, n.value)

/-- The entry of the index for a node. -/
def Node.link (n : Node K V) : K × Nat := (n.key, n.addr)

def entries (c : Lru K V) : List (K × V) := c.items.map Node.entry

theorem make_eq {capacity : Nat} (h : 1 ≤ capacity) :
    make capacity = .ok (⟨capacity, [], [], false, 0⟩ : Lru K V) := if_neg (by omega)

variable [BEq K]

/-- The index has an entry for each node, which points at it, and no other. -/
structure Linked (c : Lru K V) : Prop where
  index : c.index.Perm (c.items.map Node.link)
  addrs : (c.items.map (·.addr)).Nodup
  below : ∀ n ∈ c.items, n.addr < c.nextAddr
  keys : c.items.Pairwise fun a b => (a.key == b.key) = false

theorem make_linked (capacity : Nat) : Linked (⟨capacity, [], [], false, 0⟩ : Lru K V) :=
  ⟨List.Perm.nil, List.nodup_nil, by simp, List.Pairwise.nil⟩

theorem Linked.size (h : Linked c) : size c = c.items.length := by
  rw [LruCache.size, h.index.length_eq, List.length_map]

/-- A node with a key, and what is before and behind it. -/
structure At (c : Lru K V) (k : K) (pre : List (Node K V)) (n : Node K V) (post : List (Node K V)) : Prop where
  items : c.items = pre ++ n :: post
  key : (n.key == k) = true
  others : ∀ x ∈ pre ++ post, (x.key == k) = false
  addrs : ∀ x ∈ pre ++ post, x.addr ≠ n.addr
  found : find k c = some n.addr

variable {k : K} {n : Node K V} {pre post : List (Node K V)}

theorem At.perm (h : At c k pre n post) : (n :: (pre ++ post)).Perm c.items := by
  rw [h.items]
  exact List.perm_middle.symm

theorem At.node? (h : At c k pre n post) : node? n.addr c = some n := by
  rw [LruCache.node?, h.items]
  exact find?_split (fun x hx => by simpa using h.addrs x (List.mem_append_left _ hx)) (by simp)

/-- The node is spliced to the front. -/
theorem At.touch (h : At c k pre n post) : touch n.addr c = some { c with items := n :: (pre ++ post) } := by
  rw [LruCache.touch, h.node?, Option.map_some]
  cases pre with
  | nil =>
    rw [if_pos (by simp [h.items])]
    have hitems : c.items = n :: ([] ++ post) := h.items
    rw [← hitems]
  | cons x pre =>
    have hne : x.addr ≠ n.addr := h.addrs x (by simp)
    have herase : c.items.eraseP (fun y => decide (y.addr = n.addr)) = x :: pre ++ post := by
      rw [h.items]
      exact eraseP_split (fun y hy => by simpa using h.addrs y (List.mem_append_left _ hy)) (by simp)
    rw [if_neg (by simp [h.items, hne]), herase]

/-! ## The reference list -/

structure Ref (K V : Type) where
  entries : List (K × V)
  evictCallback : Bool

def refStep (capacity : Nat) (r : Ref K V) : Op K V → Ref K V × Ret K V
  | .put key value _ =>
    ({ r with entries := (Recency.put capacity key value r.entries).1 },
      .put (if r.evictCallback then (Recency.put capacity key value r.entries).2.toList else []) false)
  | .get key =>
    ({ r with entries := Recency.touch key r.entries }, .value ((Recency.find? key r.entries).map (·.2)))
  | .getOrError key =>
    ({ r with entries := Recency.touch key r.entries },
      .valueOrError
        (match Recency.find? key r.entries with
        | some e => .ok e.2
        | none => .error ⟨.notFound, "cache key not found", 0⟩))
  | .peek key => (r, .value ((Recency.find? key r.entries).map (·.2)))
  | .contains key => (r, .bool (Recency.find? key r.entries).isSome)
  | .remove key =>
    ({ r with entries := Recency.remove key r.entries }, .bool (Recency.find? key r.entries).isSome)
  | .popLru => ({ r with entries := r.entries.dropLast }, .entry r.entries.getLast?)
  | .popMru => ({ r with entries := r.entries.tail }, .entry r.entries.head?)
  | .lru => (r, .entry r.entries.getLast?)
  | .mru => (r, .entry r.entries.head?)
  | .clear => ({ r with entries := [] }, .nothing)
  | .setEvictCallback set => ({ r with evictCallback := set }, .nothing)
  | .size => (r, .count r.entries.length)
  | .empty => (r, .bool r.entries.isEmpty)

def refRun (capacity : Nat) : Ref K V → List (Op K V) → Ref K V × List (Ret K V)
  | r, [] => (r, [])
  | r, op :: ops =>
    let (r, x) := refStep capacity r op
    let (r, xs) := refRun capacity r ops
    (r, x :: xs)

theorem At.find? (h : At c k pre n post) : Recency.find? k (entries c) = some n.entry := by
  rw [Recency.find?, entries, h.items, List.map_append, List.map_cons]
  refine find?_split (fun e he => ?_) h.key
  obtain ⟨x, hx, rfl⟩ := List.mem_map.mp he
  exact h.others x (List.mem_append_left _ hx)

theorem At.remove (h : At c k pre n post) : Recency.remove k (entries c) = (pre ++ post).map Node.entry := by
  rw [Recency.remove, entries, h.items, List.map_append, List.map_cons, List.map_append]
  refine eraseP_split (fun e he => ?_) h.key
  obtain ⟨x, hx, rfl⟩ := List.mem_map.mp he
  exact h.others x (List.mem_append_left _ hx)

theorem find?_entries_none (h : ∀ n ∈ c.items, (n.key == k) = false) : Recency.find? k (entries c) = none := by
  rw [Recency.find?, List.find?_eq_none]
  intro e he
  obtain ⟨n, hn, rfl⟩ := List.mem_map.mp he
  simp [Node.entry, h n hn]

theorem remove_entries_none (h : ∀ n ∈ c.items, (n.key == k) = false) : Recency.remove k (entries c) = entries c := by
  refine List.eraseP_of_forall_not fun e he => ?_
  obtain ⟨n, hn, rfl⟩ := List.mem_map.mp he
  simp [Node.entry, h n hn]

/-- Nothing to evict. -/
theorem evictLoop_within (faults : Nat → Bool) (m : Nat) (called : List (K × V)) (h : size c ≤ c.capacity) :
    evictLoop faults m called c = some (c, called, false) := by
  cases m with
  | zero => rw [evictLoop, if_neg (by omega)]
  | succ m => rw [evictLoop, if_neg (by omega)]

/-- A key that is not there: a node at the front and an entry of the index, then `evictIfNeeded`. -/
theorem putImpl_new (hf : find k c = none) (v : V) (faults : Nat → Bool) :
    putImpl k v faults c =
      evictIfNeeded faults
        { c with items := ⟨c.nextAddr, k, v⟩ :: c.items, index := (k, c.nextAddr) :: c.index,
                 nextAddr := c.nextAddr + 1 } := by
  have hnone (items : List (Node K V)) (next : Nat) : find k { c with items := items, nextAddr := next } = none := hf
  rw [putImpl, hf]
  simp [emplaceIndex, hnone]

/-! ## What a cache stands for -/

/-- A cache that stands for a list. -/
structure Stands (c c' : Lru K V) (l : List (K × V)) : Prop where
  linked : Linked c'
  entries : entries c' = l
  capacity : c'.capacity = c.capacity
  evictCallback : c'.evictCallback = c.evictCallback

/-- What a cache stands for. -/
def ref (c : Lru K V) : Ref K V := ⟨entries c, c.evictCallback⟩

theorem Stands.ref {c' : Lru K V} {l : List (K × V)} (h : Stands c c' l) :
    ref c' = ⟨l, c.evictCallback⟩ := by
  rw [LruCache.ref, h.entries, h.evictCallback]

/-- The operation puts a new key into a full cache, and the evict callback throws. -/
def Spills (c : Lru K V) : Op K V → Prop
  | .put key _ faults => contains key c = false ∧ c.capacity ≤ size c ∧ c.evictCallback = true ∧ faults 0 = true
  | _ => False

/-- The evict callback does not throw. -/
def Quiet : Op K V → Prop
  | .put _ _ faults => ∀ n, faults n = false
  | _ => True

theorem Quiet.not_spills {op : Op K V} (h : Quiet op) : ¬ Spills c op := by
  cases op with
  | put key v faults => exact fun hs => by simpa [h 0] using hs.2.2.2
  | _ => exact fun hs => hs

theorem length_entries (h : Linked c) : (entries c).length = size c := by rw [h.size, entries, List.length_map]

theorem refStep_length_le {capacity : Nat} (hcap : 0 < capacity) {r : Ref K V} (h : r.entries.length ≤ capacity)
    (op : Op K V) : (refStep capacity r op).1.entries.length ≤ capacity := by
  have htouch (key : K) : (Recency.touch key r.entries).length ≤ capacity := by
    rw [Recency.touch_length]
    exact h
  cases op with
  | put key v faults => exact Recency.put_length_le hcap h
  | get key => exact htouch key
  | getOrError key => exact htouch key
  | remove key => exact (List.eraseP_sublist.length_le).trans h
  | popLru => exact (List.dropLast_sublist _).length_le.trans h
  | popMru => exact (List.tail_sublist _).length_le.trans h
  | clear => exact Nat.zero_le _
  | _ => exact h

theorem run_cons_iff {c₁ c' : Lru K V} {op : Op K V} {r : Ret K V} (h : step c op = some (c₁, r))
    {ops : List (Op K V)} {rs : List (Ret K V)} :
    run c (op :: ops) = some (c', rs) ↔ ∃ rs', run c₁ ops = some (c', rs') ∧ rs = r :: rs' := by
  rw [run, h]
  simp only [Option.bind_some, Option.map_eq_some_iff, Prod.exists, Prod.mk.injEq]
  constructor
  · rintro ⟨_, rs', hrun, rfl, rfl⟩
    exact ⟨rs', hrun, rfl⟩
  · rintro ⟨rs', hrun, rfl⟩
    exact ⟨c', rs', hrun, rfl, rfl⟩

/-! ## The invariant -/

variable [EquivBEq K]

theorem beq_false_trans {a b k : K} (hab : (a == b) = false) (hb : (b == k) = true) : (a == k) = false := by
  by_contra h
  have : (a == b) = true := BEq.trans (by simpa using h) (BEq.symm hb)
  rw [hab] at this
  cases this

/-- Every node is found under its key. -/
theorem Linked.at (h : Linked c) (hitems : c.items = pre ++ n :: post) (hkey : (n.key == k) = true) :
    At c k pre n post := by
  have hperm : (pre ++ n :: post).Perm (n :: (pre ++ post)) := List.perm_middle
  have hkeys : ∀ x ∈ pre ++ post, (x.key == n.key) = false := by
    have hall := h.keys
    rw [hitems, hperm.pairwise_iff fun hab => by rw [BEq.comm]; exact hab] at hall
    intro x hx
    rw [BEq.comm]
    exact (List.pairwise_cons.mp hall).1 x hx
  have haddrs : ∀ x ∈ pre ++ post, x.addr ≠ n.addr := by
    have hall := h.addrs
    rw [hitems, (hperm.map _).nodup_iff, List.map_cons, List.nodup_cons] at hall
    exact fun x hx heq => hall.1 (heq ▸ List.mem_map_of_mem hx)
  have hothers : ∀ x ∈ pre ++ post, (x.key == k) = false := fun x hx => beq_false_trans (hkeys x hx) hkey
  refine ⟨hitems, hkey, hothers, haddrs, ?_⟩
  -- what the index finds is the link of a node with the key, and there is one such node
  have hmem : n.link ∈ c.index := h.index.mem_iff.mpr (List.mem_map_of_mem (by rw [hitems]; simp))
  have hsome : (c.index.find? fun e => e.1 == k).isSome := List.find?_isSome.mpr ⟨n.link, hmem, hkey⟩
  obtain ⟨e, he⟩ := Option.isSome_iff_exists.mp hsome
  obtain ⟨m, hm, rfl⟩ := List.mem_map.mp (h.index.mem_iff.mp (List.mem_of_find?_eq_some he))
  have hmkey : (m.link.1 == k) = true := List.find?_some (p := fun e : K × Nat => e.1 == k) he
  rw [hitems, hperm.mem_iff, List.mem_cons] at hm
  rcases hm with rfl | hm
  · rw [find, he]
    rfl
  · have := hothers m hm
    rw [show (m.key == k) = true from hmkey] at this
    cases this

theorem Linked.lookup (h : Linked c) (k : K) :
    (find k c = none ∧ ∀ n ∈ c.items, (n.key == k) = false) ∨ ∃ pre n post, At c k pre n post := by
  by_cases hex : ∃ n ∈ c.items, (n.key == k) = true
  · obtain ⟨n, hn, hkey⟩ := hex
    obtain ⟨pre, post, hitems⟩ := List.append_of_mem hn
    exact Or.inr ⟨pre, n, post, h.at hitems hkey⟩
  · have hnone : ∀ n ∈ c.items, (n.key == k) = false := fun n hn => by
      by_contra hk
      exact hex ⟨n, hn, by simpa using hk⟩
    refine Or.inl ⟨?_, hnone⟩
    rw [find, Option.map_eq_none_iff, List.find?_eq_none]
    intro e he
    obtain ⟨n, hn, rfl⟩ := List.mem_map.mp (h.index.mem_iff.mp he)
    simp [Node.link, hnone n hn]

/-- The list in another order. -/
theorem Linked.reorder (h : Linked c) {items : List (Node K V)} (hp : items.Perm c.items) :
    Linked { c with items := items } where
  index := h.index.trans (hp.symm.map _)
  addrs := (hp.map _).nodup_iff.mpr h.addrs
  below n hn := h.below n (hp.mem_iff.mp hn)
  keys := (hp.pairwise_iff fun hab => by rw [BEq.comm]; exact hab).mpr h.keys

/-- The node and its link are taken out. -/
theorem Linked.drop (h : Linked c) (ha : At c k pre n post) :
    Linked { c with index := eraseIndex k c.index, items := pre ++ post } := by
  have hr := h.reorder ha.perm
  have hlinks : (c.items.map Node.link).Pairwise fun a b => (a.1 == k) = true → (b.1 == k) = true → False := by
    refine List.pairwise_map.mpr (h.keys.imp fun {a b} hab hak hbk => ?_)
    have hsame : (a.key == b.key) = true := BEq.trans hak (BEq.symm hbk)
    rw [hab] at hsame
    cases hsame
  have hindex : (eraseIndex k c.index).Perm ((pre ++ post).map Node.link) := by
    refine ((h.index.symm.eraseP _ hlinks).symm).trans ?_
    rw [ha.items, List.map_append, List.map_cons, eraseP_split, List.map_append]
    · intro e he
      obtain ⟨x, hx, rfl⟩ := List.mem_map.mp he
      exact ha.others x (List.mem_append_left _ hx)
    · exact ha.key
  refine ⟨hindex, ?_, ?_, ?_⟩
  · exact (List.nodup_cons.mp hr.addrs).2
  · exact fun x hx => hr.below x (List.mem_cons_of_mem _ hx)
  · exact (List.pairwise_cons.mp hr.keys).2

/-- The last node and its link are taken out. -/
theorem Linked.dropLast (h : Linked c) {n : Node K V} (hn : c.items.getLast? = some n) :
    Linked { c with index := eraseIndex n.key c.index, items := c.items.dropLast } := by
  have hitems : c.items = c.items.dropLast ++ n :: [] := (List.dropLast_append_getLast? n hn).symm
  have := h.drop (h.at hitems BEq.rfl)
  rwa [List.append_nil] at this

/-- A new node at the front, and its link. -/
theorem Linked.insert (h : Linked c) (hk : ∀ n ∈ c.items, (n.key == k) = false) (v : V) :
    Linked { c with items := ⟨c.nextAddr, k, v⟩ :: c.items, index := (k, c.nextAddr) :: c.index,
                    nextAddr := c.nextAddr + 1 } where
  index := h.index.cons _
  addrs := by
    refine List.nodup_cons.mpr ⟨fun hin => ?_, h.addrs⟩
    obtain ⟨n, hn, heq⟩ := List.mem_map.mp hin
    exact absurd heq (h.below n hn).ne
  below n hn := by
    rcases List.mem_cons.mp hn with rfl | hn
    · exact Nat.lt_succ_self _
    · exact (h.below n hn).trans (Nat.lt_succ_self _)
  keys := List.pairwise_cons.mpr ⟨fun n hn => by rw [BEq.comm]; exact hk n hn, h.keys⟩

/-! ## One operation -/

theorem get_stands (h : Linked c) (key : K) :
    ∃ c', get key c = some (c', (Recency.find? key (entries c)).map (·.2)) ∧
      Stands c c' (Recency.touch key (entries c)) := by
  rcases h.lookup key with ⟨hf, hk⟩ | ⟨pre, n, post, ha⟩
  · refine ⟨c, ?_, h, ?_, rfl, rfl⟩
    · rw [get, hf, find?_entries_none hk]
      rfl
    · rw [Recency.touch, find?_entries_none hk]
  · have hr := h.reorder ha.perm
    refine ⟨{ c with items := n :: (pre ++ post) }, ?_, hr, ?_, rfl, rfl⟩
    · have hfront : At { c with items := n :: (pre ++ post) } key [] n (pre ++ post) := hr.at rfl ha.key
      rw [get, ha.found, ha.find?]
      simp only [ha.touch, Option.bind_some, hfront.node?, Option.map_some]
      rfl
    · rw [Recency.touch, ha.find?, ha.remove]
      rfl

theorem peek_eq (h : Linked c) (key : K) : peek key c = some ((Recency.find? key (entries c)).map (·.2)) := by
  rcases h.lookup key with ⟨hf, hk⟩ | ⟨pre, n, post, ha⟩
  · rw [peek, hf, find?_entries_none hk]
    rfl
  · rw [peek, ha.found, ha.find?]
    simp only [ha.node?, Option.map_some]
    rfl

theorem contains_eq (h : Linked c) (key : K) : contains key c = (Recency.find? key (entries c)).isSome := by
  rcases h.lookup key with ⟨hf, hk⟩ | ⟨pre, n, post, ha⟩
  · rw [contains, hf, find?_entries_none hk]
    rfl
  · rw [contains, ha.found, ha.find?]
    rfl

theorem remove_stands (h : Linked c) (key : K) :
    ∃ c', remove key c = some (c', (Recency.find? key (entries c)).isSome) ∧
      Stands c c' (Recency.remove key (entries c)) := by
  rcases h.lookup key with ⟨hf, hk⟩ | ⟨pre, n, post, ha⟩
  · refine ⟨c, ?_, h, ?_, rfl, rfl⟩
    · rw [remove, hf, find?_entries_none hk]
      rfl
    · rw [remove_entries_none hk]
  · refine ⟨{ c with items := pre ++ post, index := eraseIndex key c.index }, ?_, h.drop ha, ?_, rfl, rfl⟩
    · have herase : c.items.eraseP (fun y => decide (y.addr = n.addr)) = pre ++ post := by
        rw [ha.items]
        exact eraseP_split (fun y hy => by simpa using ha.addrs y (List.mem_append_left _ hy)) (by simp)
      rw [remove, ha.found, ha.find?]
      simp only [ha.node?, Option.map_some, herase]
      rfl
    · rw [ha.remove]
      rfl

theorem popLru_stands (h : Linked c) :
    (popLru c).2 = (entries c).getLast? ∧ Stands c (popLru c).1 (entries c).dropLast := by
  unfold popLru
  split
  · rename_i hn
    have hnil : c.items = [] := by simpa using hn
    exact ⟨by simp [entries, hnil], h, by simp [entries, hnil], rfl, rfl⟩
  · rename_i n hn
    refine ⟨?_, h.dropLast hn, ?_, rfl, rfl⟩
    · rw [entries, List.getLast?_map, hn]
      rfl
    · exact (List.map_dropLast ..)

theorem popMru_stands (h : Linked c) :
    (popMru c).2 = (entries c).head? ∧ Stands c (popMru c).1 (entries c).tail := by
  unfold popMru
  split
  · rename_i hn
    have hnil : c.items = [] := by simpa using hn
    exact ⟨by simp [entries, hnil], h, by simp [entries, hnil], rfl, rfl⟩
  · rename_i n hn
    obtain ⟨rest, hitems⟩ : ∃ rest, c.items = n :: rest := List.head?_eq_some_iff.mp hn
    have hat : At c n.key [] n rest := h.at hitems BEq.rfl
    have hd := h.drop hat
    refine ⟨?_, ?_, ?_, rfl, rfl⟩
    · rw [entries, List.head?_map, hn]
      rfl
    · have htail : c.items.tail = [] ++ rest := by rw [hitems]; rfl
      change Linked { c with index := eraseIndex n.key c.index, items := c.items.tail }
      rw [htail]
      exact hd
    · exact List.map_tail ..

/-- A key that is there gets the value, and its node goes to the front. -/
theorem putImpl_found (h : Linked c) {pre post : List (Node K V)} (ha : At c k pre n post) (v : V)
    (faults : Nat → Bool) :
    ∃ c', putImpl k v faults c = some (c', [], false) ∧ Stands c c' ((n.key, v) :: (pre ++ post).map Node.entry) := by
  have hset : c.items.map (fun x => if x.addr = n.addr then { x with value := v } else x) =
      pre ++ { n with value := v } :: post := by
    have hsame : ∀ l : List (Node K V), (∀ x ∈ l, x.addr ≠ n.addr) →
        l.map (fun x => if x.addr = n.addr then { x with value := v } else x) = l := fun l hl =>
      (List.map_congr_left fun x hx => if_neg (hl x hx)).trans (List.map_id _)
    rw [ha.items, List.map_append, List.map_cons, if_pos rfl,
      hsame pre fun x hx => ha.addrs x (List.mem_append_left _ hx),
      hsame post fun x hx => ha.addrs x (List.mem_append_right _ hx)]
  have hl : Linked { c with items := pre ++ { n with value := v } :: post } := by
    refine ⟨?_, ?_, ?_, ?_⟩
    · have := h.index
      simpa [ha.items, Node.link] using this
    · have := h.addrs
      simpa [ha.items] using this
    · intro x hx
      rcases List.mem_append.mp hx with hx | hx
      · exact h.below x (by rw [ha.items]; exact List.mem_append_left _ hx)
      · rcases List.mem_cons.mp hx with rfl | hx
        · exact h.below n (by rw [ha.items]; simp)
        · exact h.below x (by rw [ha.items]; simp [hx])
    · have := h.keys
      simpa [ha.items, List.pairwise_append] using this
  have hat := hl.at (k := k) (n := { n with value := v }) rfl ha.key
  refine ⟨{ c with items := { n with value := v } :: (pre ++ post) }, ?_, hl.reorder hat.perm, rfl, rfl, rfl⟩
  rw [putImpl, ha.found]
  simp only [ha.node?, Option.bind_some, hset]
  rw [hat.touch]
  rfl

/-- One entry too many: the last one is the victim. -/
theorem evictIfNeeded_over (faults : Nat → Bool) (h : Linked c) (hsize : size c = c.capacity + 1)
    {n : Node K V} (hn : c.items.getLast? = some n) :
    evictIfNeeded faults c =
      if c.evictCallback && faults 0 then some (c, [n.entry], true)
      else some ({ c with index := eraseIndex n.key c.index, items := c.items.dropLast },
        if c.evictCallback then [n.entry] else [], false) := by
  have hd := h.dropLast hn
  have hlen : c.items.length = c.capacity + 1 := by rw [← h.size, hsize]
  have hfit : size { c with index := eraseIndex n.key c.index, items := c.items.dropLast } ≤ c.capacity := by
    rw [hd.size, List.length_dropLast]
    omega
  rw [evictIfNeeded, hlen, evictLoop, if_pos (by omega), hn, Option.bind_some]
  cases hcb : c.evictCallback with
  | true =>
    cases hf : faults 0 with
    | true => simp [Node.entry]
    | false => simpa [hcb, Node.entry] using evictLoop_within faults _ _ hfit
  | false => simpa [hcb] using evictLoop_within faults _ _ hfit

theorem putImpl_stands (h : Linked c) (hcap : 0 < c.capacity) (hsize : size c ≤ c.capacity) {v : V}
    {faults : Nat → Bool} (hq : ¬ Spills c (.put k v faults)) :
    ∃ c', putImpl k v faults c =
        some (c', if c.evictCallback then (Recency.put c.capacity k v (entries c)).2.toList else [], false) ∧
      Stands c c' (Recency.put c.capacity k v (entries c)).1 := by
  rcases h.lookup k with ⟨hf, hk⟩ | ⟨pre, n, post, ha⟩
  · have hins := h.insert hk v
    have hput : Recency.put c.capacity k v (entries c) =
        if (entries c).length < c.capacity then ((k, v) :: entries c, none)
        else ((k, v) :: (entries c).dropLast, (entries c).getLast?) := by
      rw [Recency.put, find?_entries_none hk]
    have hlen : (entries c).length = size c := by rw [h.size, entries, List.length_map]
    rw [putImpl_new hf, hput, hlen]
    by_cases hroom : size c < c.capacity
    · refine ⟨_, ?_, hins, ?_, rfl, rfl⟩
      · rw [if_pos hroom, evictIfNeeded, evictLoop_within]
        · simp
        · exact hroom
      · rw [if_pos hroom]
        rfl
    · have hfull : size c = c.capacity := by omega
      have hcall : (c.evictCallback && faults 0) = false := by
        by_contra hcf
        simp only [Bool.not_eq_false, Bool.and_eq_true] at hcf
        exact hq ⟨by rw [contains, hf]; rfl, hfull.ge, hcf.1, hcf.2⟩
      have hne : c.items ≠ [] := fun hnil => by
        rw [h.size, hnil, List.length_nil] at hfull
        omega
      obtain ⟨n, hn⟩ : ∃ n, c.items.getLast? = some n := ⟨_, List.getLast?_eq_some_getLast hne⟩
      have hlast : (⟨c.nextAddr, k, v⟩ :: c.items).getLast? = some n := by
        rw [List.getLast?_cons, hn]
        rfl
      have hover := evictIfNeeded_over faults hins (congrArg (· + 1) hfull) hlast
      refine ⟨_, ?_, hins.dropLast hlast, ?_, rfl, rfl⟩
      · rw [hover, if_neg hroom, if_neg (by simp [hcall]), entries, List.getLast?_map, hn]
        rfl
      · rw [if_neg hroom]
        simp [entries, List.dropLast_cons_of_ne_nil hne, List.map_dropLast, Node.entry]
  · obtain ⟨c', hc', hs⟩ := putImpl_found h ha v faults
    have hput : Recency.put c.capacity k v (entries c) =
        ((n.key, v) :: (pre ++ post).map Node.entry, none) := by
      rw [Recency.put, ha.find?, ha.remove]
      rfl
    rw [hput]
    exact ⟨c', by rw [hc']; simp, hs⟩

/-! ## The exception of a callback -/

/-- The exception leaves the new entry and the old ones: one too many. -/
theorem putImpl_spills (h : Linked c) (hsize : size c ≤ c.capacity) {v : V}
    {faults : Nat → Bool} (hs : Spills c (.put k v faults)) :
    ∃ c' called, putImpl k v faults c = some (c', called, true) ∧ size c' = c.capacity + 1 := by
  obtain ⟨hnew, hfull, hcall, hthrow⟩ := hs
  have hf : find k c = none := by simpa [contains] using hnew
  rcases h.lookup k with ⟨-, hk⟩ | ⟨pre, n, post, ha⟩
  · have hins := h.insert hk v
    have hover : size c + 1 = c.capacity + 1 := by omega
    obtain ⟨n, hn⟩ : ∃ n, (⟨c.nextAddr, k, v⟩ :: c.items).getLast? = some n :=
      ⟨_, List.getLast?_eq_some_getLast (List.cons_ne_nil _ _)⟩
    refine ⟨{ c with items := ⟨c.nextAddr, k, v⟩ :: c.items, index := (k, c.nextAddr) :: c.index,
                     nextAddr := c.nextAddr + 1 }, [n.entry], ?_, hover⟩
    rw [putImpl_new hf, evictIfNeeded_over faults hins hover hn, if_pos (by simp [hcall, hthrow])]
  · rw [ha.found] at hf
    cases hf

/-! ## Histories -/

/-- Every operation but `put`. -/
theorem step_refines_of_ne_put (h : Linked c) {op : Op K V} (hop : ∀ key v faults, op ≠ .put key v faults)
    (capacity : Nat) :
    ∃ c', step c op = some (c', (refStep capacity (ref c) op).2) ∧ Linked c' ∧ c'.capacity = c.capacity ∧
      ref c' = (refStep capacity (ref c) op).1 := by
  cases op with
  | put key v faults => exact absurd rfl (hop key v faults)
  | get key =>
    obtain ⟨c', hc', hs⟩ := get_stands h key
    exact ⟨c', by rw [step, hc']; rfl, hs.linked, hs.capacity, hs.ref⟩
  | getOrError key =>
    obtain ⟨c', hc', hs⟩ := get_stands h key
    refine ⟨c', ?_, hs.linked, hs.capacity, hs.ref⟩
    rw [step, getOrError, hc', refStep, ref]
    cases Recency.find? key (entries c) <;> rfl
  | peek key => exact ⟨c, by rw [step, peek_eq h key]; rfl, h, rfl, rfl⟩
  | contains key => exact ⟨c, by rw [step, contains_eq h key]; rfl, h, rfl, rfl⟩
  | remove key =>
    obtain ⟨c', hc', hs⟩ := remove_stands h key
    exact ⟨c', by rw [step, hc']; rfl, hs.linked, hs.capacity, hs.ref⟩
  | popLru =>
    obtain ⟨hret, hs⟩ := popLru_stands h
    exact ⟨_, by rw [step, hret]; rfl, hs.linked, hs.capacity, hs.ref⟩
  | popMru =>
    obtain ⟨hret, hs⟩ := popMru_stands h
    exact ⟨_, by rw [step, hret]; rfl, hs.linked, hs.capacity, hs.ref⟩
  | lru => exact ⟨c, by rw [step, lru, ← List.getLast?_map]; rfl, h, rfl, rfl⟩
  | mru => exact ⟨c, by rw [step, mru, ← List.head?_map]; rfl, h, rfl, rfl⟩
  | clear => exact ⟨_, rfl, ⟨List.Perm.nil, List.nodup_nil, by simp [clear], List.Pairwise.nil⟩, rfl, rfl⟩
  | setEvictCallback set => exact ⟨_, rfl, ⟨h.index, h.addrs, h.below, h.keys⟩, rfl, rfl⟩
  | size => exact ⟨c, by simp [step, refStep, ref, entries, h.size], h, rfl, rfl⟩
  | empty =>
    refine ⟨c, ?_, h, rfl, rfl⟩
    have hempty : empty c = (entries c).isEmpty := by
      rw [empty, h.index.isEmpty_eq, entries, List.isEmpty_map, List.isEmpty_map]
    rw [step, hempty]
    rfl

theorem step_refines (h : Linked c) (hcap : 0 < c.capacity) (hsize : size c ≤ c.capacity) {op : Op K V}
    (hq : ¬ Spills c op) :
    ∃ c', step c op = some (c', (refStep c.capacity (ref c) op).2) ∧ Linked c' ∧ c'.capacity = c.capacity ∧
      ref c' = (refStep c.capacity (ref c) op).1 ∧ size c' ≤ c.capacity := by
  have hfits {c' : Lru K V} (hl : Linked c') (hr : ref c' = (refStep c.capacity (ref c) op).1) :
      size c' ≤ c.capacity := by
    have hle := refStep_length_le hcap (r := ref c) ((length_entries h).trans_le hsize) op
    rw [← hr] at hle
    exact (length_entries hl).symm.trans_le hle
  by_cases hop : ∃ key v faults, op = .put key v faults
  · obtain ⟨key, v, faults, rfl⟩ := hop
    obtain ⟨c', hc', hs⟩ := putImpl_stands h hcap hsize hq
    exact ⟨c', by rw [step, hc']; rfl, hs.linked, hs.capacity, hs.ref, hfits hs.linked hs.ref⟩
  · obtain ⟨c', hc', hl, hcap', hr⟩ :=
      step_refines_of_ne_put h (fun key v faults heq => hop ⟨key, v, faults, heq⟩) c.capacity
    exact ⟨c', hc', hl, hcap', hr, hfits hl hr⟩

theorem run_refines (ops : List (Op K V)) :
    ∀ c : Lru K V, Linked c → 0 < c.capacity → size c ≤ c.capacity → (∀ op ∈ ops, Quiet op) →
      ∃ c', run c ops = some (c', (refRun c.capacity (ref c) ops).2) ∧ Linked c' ∧ c'.capacity = c.capacity ∧
        ref c' = (refRun c.capacity (ref c) ops).1 ∧ size c' ≤ c.capacity := by
  induction ops with
  | nil => exact fun c h _ hsize _ => ⟨c, rfl, h, rfl, rfl, hsize⟩
  | cons op ops ih =>
    intro c h hcap hsize hq
    obtain ⟨c₁, hc₁, hl₁, hcap₁, hr₁, hsize₁⟩ :=
      step_refines h hcap hsize (hq op List.mem_cons_self).not_spills
    have hrest := ih c₁ hl₁ (by omega) (by omega) fun op' hop' => hq op' (List.mem_cons_of_mem _ hop')
    rw [hcap₁, hr₁] at hrest
    obtain ⟨c₂, hc₂, hl₂, hcap₂, hr₂, hsize₂⟩ := hrest
    exact ⟨c₂, (run_cons_iff hc₁).mpr ⟨_, hc₂, rfl⟩, hl₂, hcap₂, hr₂, hsize₂⟩

/-- Every history without an exception is one of the reference list, and a full cache gives up its last entry. -/
theorem lru_refines_recency_list {capacity : Nat} (hcap : 1 ≤ capacity) :
    ∃ c : Lru K V, make capacity = .ok c ∧ ∀ ops : List (Op K V), (∀ op ∈ ops, Quiet op) →
      ∃ c', run c ops = some (c', (refRun capacity ⟨[], false⟩ ops).2) ∧
        entries c' = (refRun capacity ⟨[], false⟩ ops).1.entries ∧
        Recency.Distinct (entries c') ∧ Linked c' ∧ size c' ≤ capacity ∧
        ∀ (key : K) (v : V) (faults : Nat → Bool), (∀ n, faults n = false) → contains key c' = false →
          size c' = capacity → ∃ e c'', (entries c').getLast? = some e ∧
            step c' (.put key v faults) = some (c'', .put (if c'.evictCallback then [e] else []) false) ∧
            entries c'' = (key, v) :: (entries c').dropLast := by
  refine ⟨_, make_eq hcap, fun ops hq => ?_⟩
  obtain ⟨c', hrun, hl, hcap', hr, hsize⟩ :=
    run_refines ops (⟨capacity, [], [], false, 0⟩ : Lru K V) (make_linked capacity) hcap (Nat.zero_le _) hq
  refine ⟨c', hrun, congrArg Ref.entries hr, List.pairwise_map.mpr hl.keys, hl, hsize, ?_⟩
  intro key v faults hf hnew hfull
  have hcap'' : c'.capacity = capacity := hcap'
  have hlen := length_entries hl
  have hfind : Recency.find? key (entries c') = none := by
    rw [contains_eq hl] at hnew
    simpa using hnew
  have hput : Recency.put c'.capacity key v (entries c') =
      ((key, v) :: (entries c').dropLast, (entries c').getLast?) := by
    rw [Recency.put, hfind]
    exact if_neg (by omega)
  obtain ⟨e, he⟩ : ∃ e, (entries c').getLast? = some e :=
    ⟨_, List.getLast?_eq_some_getLast (List.ne_nil_of_length_pos (by omega))⟩
  have hquiet : Quiet (.put key v faults : Op K V) := hf
  obtain ⟨c'', hstep, -, -, hr'', -⟩ := step_refines hl (by omega) (by omega) hquiet.not_spills
  refine ⟨e, c'', he, ?_, ?_⟩
  · rw [hstep, refStep, ref, hput, he]
    rfl
  · rw [show entries c'' = (ref c'').entries from rfl, hr'', refStep, ref, hput]

theorem lru_refines_recency_list_evicts :
    ∃ c : Lru Nat Nat, make 2 = .ok c ∧
      ∃ c', run c [.setEvictCallback true, .put 1 10 fun _ => false, .put 2 20 fun _ => false, .get 1,
          .put 3 30 fun _ => false, .peek 2] =
        some (c', [.nothing, .put [] false, .put [] false, .value (some 10), .put [(2, 20)] false, .value none]) ∧
        entries c' = [(3, 30), (1, 10)] := by
  obtain ⟨c, hmake, h⟩ := lru_refines_recency_list (K := Nat) (V := Nat) (show 1 ≤ 2 by decide)
  obtain ⟨c', hrun, hentries, -⟩ := h [.setEvictCallback true, .put 1 10 fun _ => false,
    .put 2 20 fun _ => false, .get 1, .put 3 30 fun _ => false, .peek 2] (by simp [Quiet])
  exact ⟨c, hmake, c', hrun, hentries⟩

/-- The index and the list have the same keys. -/
def SameKeys (c : Lru K V) : Prop := (c.index.map (·.1)).Perm (c.items.map (·.key))

omit [EquivBEq K] in
theorem Linked.sameKeys (h : Linked c) : SameKeys c := by
  have := h.index.map (·.1)
  rwa [List.map_map] at this

/-- After each operation the cache is within its capacity, if and only if none spills. -/
theorem run_bounded_iff (ops : List (Op K V)) :
    ∀ c : Lru K V, Linked c → 0 < c.capacity → size c ≤ c.capacity →
      ((∀ pre, pre <+: ops → ∃ c' rs, run c pre = some (c', rs) ∧ size c' ≤ c.capacity ∧ SameKeys c') ↔
        ∀ pre op, pre ++ [op] <+: ops → ∀ c' rs, run c pre = some (c', rs) → ¬ Spills c' op) := by
  induction ops with
  | nil =>
    intro c h _ hsize
    refine ⟨fun _ pre op hpre => by simp at hpre, fun _ pre hpre => ?_⟩
    rw [List.prefix_nil.mp hpre]
    exact ⟨c, [], rfl, hsize, h.sameKeys⟩
  | cons op ops ih =>
    intro c h hcap hsize
    by_cases hs : Spills c op
    · -- the first operation spills: both sides are false
      refine iff_of_false (fun hall => ?_) fun hnone => hnone [] op (by simp) c [] rfl hs
      cases op with
      | put key v faults =>
        obtain ⟨c₁, called, hput, hover⟩ := putImpl_spills h hsize hs
        obtain ⟨c', rs, hrun, hle, -⟩ := hall [.put key v faults] (by simp)
        have hstep : step c (.put key v faults) = some (c₁, .put called true) := by rw [step, hput]; rfl
        obtain ⟨rs', hrs', -⟩ := (run_cons_iff hstep).mp hrun
        obtain rfl : c₁ = c' := congrArg Prod.fst (Option.some.inj hrs')
        omega
      | _ => exact hs
    · obtain ⟨c₁, hc₁, hl₁, hcap₁, -, hsize₁⟩ := step_refines h hcap hsize hs
      have hrest := ih c₁ hl₁ (by omega) (by omega)
      rw [hcap₁] at hrest
      constructor
      · intro hall pre op' hpre c' rs hrun
        rcases List.prefix_cons_iff.mp hpre with hnil | ⟨t, ht, hpre'⟩
        · simp at hnil
        · cases pre with
          | nil =>
            obtain ⟨rfl, rfl⟩ : op' = op ∧ t = [] := by simpa [eq_comm] using ht
            obtain rfl : c = c' := congrArg Prod.fst (Option.some.inj hrun)
            exact hs
          | cons o pre =>
            obtain ⟨rfl, rfl⟩ : o = op ∧ t = pre ++ [op'] := by simpa [eq_comm] using ht
            obtain ⟨rs', hrs', -⟩ := (run_cons_iff hc₁).mp hrun
            refine hrest.mp (fun pre₁ hpre₁ => ?_) pre op' hpre' c' rs' hrs'
            obtain ⟨c₂, rs₂, hrun₂, hfit⟩ := hall (o :: pre₁) (List.cons_prefix_cons.mpr ⟨rfl, hpre₁⟩)
            obtain ⟨rs₂', hrs₂', -⟩ := (run_cons_iff hc₁).mp hrun₂
            exact ⟨c₂, rs₂', hrs₂', hfit⟩
      · intro hnone pre hpre
        rcases List.prefix_cons_iff.mp hpre with rfl | ⟨t, rfl, hpre'⟩
        · exact ⟨c, [], rfl, hsize, h.sameKeys⟩
        · have hnone₁ : ∀ pre₁ op₁, pre₁ ++ [op₁] <+: ops → ∀ c₃ rs₃, run c₁ pre₁ = some (c₃, rs₃) → ¬ Spills c₃ op₁ :=
            fun pre₁ op₁ hpre₁ c₃ rs₃ hrun₃ => hnone (op :: pre₁) op₁ (List.cons_prefix_cons.mpr ⟨rfl, hpre₁⟩) c₃ _
              ((run_cons_iff hc₁).mpr ⟨rs₃, hrun₃, rfl⟩)
          obtain ⟨c₂, rs₂, hrun₂, hfit⟩ := hrest.mpr hnone₁ t hpre'
          exact ⟨c₂, _, (run_cons_iff hc₁).mpr ⟨rs₂, hrun₂, rfl⟩, hfit⟩

/-- With callbacks that may throw: the cache stays within its capacity after every operation of a history, if
    and only if the callback throws in no `put` of a new key into a full cache. -/
theorem lru_bounded_iff_no_spill {capacity : Nat} (hcap : 1 ≤ capacity) :
    ∃ c : Lru K V, make capacity = .ok c ∧ ∀ ops : List (Op K V),
      ((∀ pre, pre <+: ops → ∃ c' rs, run c pre = some (c', rs) ∧ size c' ≤ capacity ∧ SameKeys c') ↔
        ∀ pre op, pre ++ [op] <+: ops → ∀ c' rs, run c pre = some (c', rs) → ¬ Spills c' op) :=
  ⟨_, make_eq hcap, fun ops => run_bounded_iff ops _ (make_linked capacity) hcap (Nat.zero_le _)⟩

theorem lru_bounded_iff_no_spill_fits :
    ∃ c : Lru Nat Nat, make 1 = .ok c ∧
      ∃ c' rs, run c [.setEvictCallback true, .put 1 10 fun _ => false, .put 2 20 fun _ => false] = some (c', rs) ∧
        size c' ≤ 1 ∧ SameKeys c' := by
  obtain ⟨c, hmake, h⟩ := lru_bounded_iff_no_spill (K := Nat) (V := Nat) (show 1 ≤ 1 by decide)
  refine ⟨c, hmake, (h _).mpr (fun pre op hpre c' rs _ => Quiet.not_spills ?_) _ (List.prefix_refl _)⟩
  have hop := hpre.subset (List.mem_append_right pre (List.mem_singleton_self op))
  simp only [List.mem_cons, List.not_mem_nil, or_false] at hop
  rcases hop with rfl | rfl | rfl <;> simp [Quiet]

/-- Capacity one, and the callback throws when the second key comes: both stay. -/
theorem lru_unbounded_after_throw :
    ∃ c : Lru Nat Nat, make 1 = .ok c ∧
      ∃ c' rs, run c [.setEvictCallback true, .put 1 10 fun _ => false, .put 2 20 fun _ => true] = some (c', rs) ∧
        ¬ size c' ≤ 1 :=
  ⟨_, rfl, _, _, rfl, by decide⟩

end Dbase.Cache.LruCache
