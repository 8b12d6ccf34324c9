/-
  Dbase.Net.EventLoopTimers — the timers of an event loop: the heap with its lazily deleted
  entries, the map, and the callbacks that add and cancel timers in the middle of a pass.

  `Table` is what of a loop concerns its timers: the heap, the task whose callback runs, the
  tasks on their way from another thread (`queued`, `created`), the map, the cancelled ids and,
  during `processTimers`, the time the pass began at. `Move` says once what a step can do to it.

  Proved of every move: the map holds exactly the ids of the tasks in the heap or running that are
  not cancelled (`Move.inStep`); a one-shot timer that has started cannot start again, and what a
  pass has started comes before what it will start (`Move.started`); an id that is gone stays
  gone (`Move.gone`). `EventLoopTimerRuns` takes these to the runs of a loop.
-/

import Dbase.Net.EventLoopProofs

namespace Dbase.Net.EventLoop

variable {F : Type} {capacity : ℕ+} {s s' : Loop F}

/-! ## The heap -/

theorem notAfter_trans {a b c : TimerTask F} (hab : notAfter a b) (hbc : notAfter b c) : notAfter a c := by
  simp only [notAfter] at *
  omega

theorem notAfter_total (a b : TimerTask F) : notAfter a b ∨ notAfter b a := by
  simp only [notAfter]
  omega

instance : IsTrans (TimerTask F) notAfter := ⟨fun _ _ _ => notAfter_trans⟩

instance : Std.Total (notAfter (F := F)) := ⟨notAfter_total⟩

theorem push_sorted {heap : List (TimerTask F)} (h : heap.Pairwise notAfter) (task : TimerTask F) :
    (push task heap).Pairwise notAfter := h.orderedInsert task heap

theorem push_perm (task : TimerTask F) (heap : List (TimerTask F)) : (push task heap).Perm (task :: heap) :=
  List.perm_orderedInsert notAfter task heap

theorem mem_push {t task : TimerTask F} {heap : List (TimerTask F)} : t ∈ push task heap ↔ t = task ∨ t ∈ heap :=
  List.mem_orderedInsert notAfter

/-- Strictly in the order of `TimerCompare`. -/
def before (a b : TimerTask F) : Prop :=
  a.expiration < b.expiration ∨ (a.expiration = b.expiration ∧ a.id < b.id)

/-- How many of the tasks have the id `i`. -/
def holds (l : List (TimerTask F)) (i : Nat) : Nat := (l.map (·.id)).count i

@[simp] theorem holds_nil (i : Nat) : holds ([] : List (TimerTask F)) i = 0 := rfl

@[simp] theorem holds_cons (t : TimerTask F) (l : List (TimerTask F)) (i : Nat) :
    holds (t :: l) i = holds l i + if t.id = i then 1 else 0 := by
  simp [holds, List.count_cons]

@[simp] theorem holds_append (l r : List (TimerTask F)) (i : Nat) : holds (l ++ r) i = holds l i + holds r i := by
  simp [holds]

@[simp] theorem holds_push (t : TimerTask F) (l : List (TimerTask F)) (i : Nat) :
    holds (push t l) i = holds l i + if t.id = i then 1 else 0 := by
  rw [← holds_cons]
  exact ((push_perm t l).map (·.id)).count_eq i

theorem holds_pos {l : List (TimerTask F)} {t : TimerTask F} (h : t ∈ l) : 0 < holds l t.id :=
  List.count_pos_iff.mpr (List.mem_map_of_mem h)

theorem holds_pos_iff {l : List (TimerTask F)} {i : Nat} : 0 < holds l i ↔ ∃ t ∈ l, t.id = i := by
  rw [holds, List.count_pos_iff, List.mem_map]

theorem holds_sublist {l r : List (TimerTask F)} (h : l.Sublist r) (i : Nat) : holds l i ≤ holds r i :=
  (h.map _).count_le i

theorem holds_eraseIdx {l : List (TimerTask F)} {k : Nat} {t : TimerTask F} (h : l[k]? = some t) (i : Nat) :
    holds l i = holds (l.eraseIdx k) i + if t.id = i then 1 else 0 := by
  obtain ⟨hk, rfl⟩ := List.getElem?_eq_some_iff.mp h
  rw [← holds_cons]
  exact (((List.getElem_cons_eraseIdx_perm hk).map (·.id)).count_eq i).symm

/-! ## The table -/

structure Table (F : Type) where
  heap : List (TimerTask F)
  running : List (TimerTask F)
  queued : List (TimerTask F)
  created : List (TimerTask F)
  map : List Nat
  cancelled : List Nat
  next : Nat
  clock : Nat
  /-- when the pass of `processTimers` that is under way began -/
  pass : Option Nat

namespace Table

/-- How many tasks of an id are in the heap or running. -/
def here (m : Table F) (i : Nat) : Nat := holds m.heap i + holds m.running i

/-- How many tasks of an id are on their way from another thread. -/
def away (m : Table F) (i : Nat) : Nat := holds m.queued i + holds m.created i

def tasks (m : Table F) : List (TimerTask F) := m.heap ++ m.running ++ m.queued ++ m.created

/-- What a step says of timers: a pass begins, a callback starts. -/
inductive Event (F : Type) where
  | silent
  | begins
  | starts (task : TimerTask F)

/-- A new task: a fresh id, not due before now, and an interval if it repeats. -/
structure Fresh (m : Table F) (t : TimerTask F) : Prop where
  id : t.id = m.next
  due : m.clock ≤ t.expiration
  periodic : t.repeats = true → 0 < t.interval

/-- What a step can do to the timers. -/
inductive Move (m : Table F) : Event F → Table F → Prop
  | still {clock : Nat} : m.clock ≤ clock → Move m .silent { m with clock := clock }
  | begins : m.pass = none → Move m .begins { m with pass := some m.clock }
  | ends : Move m .silent { m with pass := none }
  /-- a cancelled task, or one that is no longer in the map, is dropped -/
  | pop {t : TimerTask F} {rest : List (TimerTask F)} : m.heap = t :: rest → t.id ∈ m.cancelled ∨ t.id ∉ m.map →
      Move m .silent { m with heap := rest }
  | starts {t : TimerTask F} {rest : List (TimerTask F)} {now : Nat} : m.heap = t :: rest → m.running = [] →
      m.pass = some now → t.expiration ≤ now → t.id ∉ m.cancelled → t.id ∈ m.map →
      Move m (.starts t) { m with heap := rest, running := [t] }
  | again {t : TimerTask F} : m.running = [t] → m.pass.isSome → t.repeats = true → t.id ∉ m.cancelled →
      Move m .silent { m with heap := push { t with expiration := m.clock + t.interval } m.heap, running := [] }
  | done {t : TimerTask F} : m.running = [t] → m.pass.isSome → (t.repeats = true → t.id ∈ m.cancelled) →
      Move m .silent { m with map := m.map.erase t.id, running := [] }
  | add {t : TimerTask F} : Fresh m t →
      Move m .silent { m with heap := push t m.heap, map := m.map.insert t.id, next := m.next + 1 }
  | create {t : TimerTask F} : Fresh m t →
      Move m .silent { m with created := m.created ++ [t], next := m.next + 1 }
  | queue {k : Nat} {t : TimerTask F} : m.created[k]? = some t →
      Move m .silent { m with created := m.created.eraseIdx k, queued := m.queued ++ [t] }
  | enter {t : TimerTask F} {rest : List (TimerTask F)} : m.queued = t :: rest → m.pass = none →
      Move m .silent { m with queued := rest, heap := push t m.heap, map := m.map.insert t.id }
  | cancel {i : Nat} : i ∈ m.map → Move m .silent { m with cancelled := i :: m.cancelled, map := m.map.erase i }
  /-- an exception leaves `loop()`, from a callback or in the middle of a batch -/
  | lose {queued : List (TimerTask F)} : queued.Sublist m.queued →
      Move m .silent { m with queued := queued, pass := none }

/-! ## The invariant -/

/-- What the heap, the map and the flags keep. -/
structure InStep (m : Table F) : Prop where
  once : ∀ i, m.here i + m.away i ≤ 1
  below : ∀ i, 0 < m.here i + m.away i → i < m.next
  sorted : m.heap.Pairwise notAfter
  mapNodup : m.map.Nodup
  live : ∀ i, 0 < m.here i → i ∉ m.cancelled → i ∈ m.map
  known : ∀ i ∈ m.map, 0 < m.here i
  uncancelled : ∀ i ∈ m.map, i ∉ m.cancelled
  settled : ∀ i, i ∈ m.map ∨ i ∈ m.cancelled → i < m.next ∧ m.away i = 0
  periodic : ∀ t ∈ m.tasks, t.repeats = true → 0 < t.interval
  passed : ∀ now, m.pass = some now → now ≤ m.clock

variable {m m' : Table F} {e : Event F}

theorem InStep.notMem_next (hm : InStep m) : m.next ∉ m.cancelled :=
  fun h => absurd (hm.settled _ (Or.inr h)).1 (Nat.lt_irrefl _)

theorem InStep.none_next (hm : InStep m) : m.here m.next + m.away m.next = 0 := by
  by_contra h
  exact absurd (hm.below m.next (Nat.pos_of_ne_zero h)) (Nat.lt_irrefl _)

/-- Tasks move on or leave, and none that is still in the map is lost. -/
theorem InStep.less (hm : InStep m) (hmap : m'.map = m.map) (hcan : m'.cancelled = m.cancelled)
    (hnext : m'.next = m.next) (hhere : ∀ i, m'.here i ≤ m.here i) (haway : ∀ i, m'.away i ≤ m.away i)
    (hkeep : ∀ i ∈ m.map, m.here i ≤ m'.here i) (hsorted : m'.heap.Pairwise notAfter)
    (hper : ∀ t ∈ m'.tasks, t.repeats = true → 0 < t.interval) (hpass : ∀ now, m'.pass = some now → now ≤ m'.clock) :
    InStep m' where
  once i := (Nat.add_le_add (hhere i) (haway i)).trans (hm.once i)
  below i hi := by
    rw [hnext]
    exact hm.below i (hi.trans_le (Nat.add_le_add (hhere i) (haway i)))
  sorted := hsorted
  mapNodup := hmap ▸ hm.mapNodup
  live i hi hc := by
    rw [hmap]
    exact hm.live i (hi.trans_le (hhere i)) (hcan ▸ hc)
  known i hi := by
    rw [hmap] at hi
    exact (hm.known i hi).trans_le (hkeep i hi)
  uncancelled i hi := by
    rw [hcan]
    exact hm.uncancelled i (hmap ▸ hi)
  settled i hi := by
    rw [hmap, hcan] at hi
    obtain ⟨hlt, h0⟩ := hm.settled i hi
    refine ⟨by rw [hnext]; exact hlt, ?_⟩
    have := haway i
    omega
  periodic := hper
  passed := hpass

theorem pop_inStep (hm : InStep m) {t : TimerTask F} {rest : List (TimerTask F)} (hheap : m.heap = t :: rest)
    (hdrop : t.id ∈ m.cancelled ∨ t.id ∉ m.map) : InStep { m with heap := rest } := by
  have hout : t.id ∉ m.map := fun h => hdrop.elim (hm.uncancelled _ h) fun h' => h' h
  have hhere : ∀ i, m.here i = holds rest i + (if t.id = i then 1 else 0) + holds m.running i := fun i => by
    rw [here, hheap, holds_cons]
  refine hm.less rfl rfl rfl ?_ (fun i => le_rfl) ?_ ?_ ?_ hm.passed
  · intro i
    rw [hhere]
    simp only [here]
    omega
  · intro i hi
    have hne : t.id ≠ i := fun h => hout (h ▸ hi)
    rw [hhere, if_neg hne]
    exact le_rfl
  · exact (hheap ▸ hm.sorted).of_cons
  · intro x hx
    apply hm.periodic
    rw [tasks, hheap]
    exact List.mem_cons_of_mem _ hx

theorem starts_inStep (hm : InStep m) {t : TimerTask F} {rest : List (TimerTask F)} (hheap : m.heap = t :: rest)
    (hrun : m.running = []) : InStep { m with heap := rest, running := [t] } := by
  have hhere : ∀ i, m.here i = here { m with heap := rest, running := [t] } i := fun i => by
    simp [here, hheap, hrun]
  refine hm.less rfl rfl rfl (fun i => (hhere i).ge) (fun i => le_rfl) (fun i _ => (hhere i).le)
    ?_ ?_ hm.passed
  · exact (hheap ▸ hm.sorted).of_cons
  · intro x hx
    apply hm.periodic
    simp only [tasks, hheap, hrun, List.mem_append, List.mem_cons, List.not_mem_nil, or_false] at hx ⊢
    tauto

theorem again_inStep (hm : InStep m) {t : TimerTask F} (hrun : m.running = [t]) (e : Nat) :
    InStep { m with heap := push { t with expiration := e } m.heap, running := [] } := by
  have hhere : ∀ i, m.here i = here { m with heap := push { t with expiration := e } m.heap, running := [] } i :=
    fun i => by simp [here, hrun]
  refine hm.less rfl rfl rfl (fun i => (hhere i).ge) (fun i => le_rfl) (fun i _ => (hhere i).le)
    (push_sorted hm.sorted _) ?_ hm.passed
  intro x hx
  have hper := hm.periodic
  simp only [tasks, hrun, List.mem_append, mem_push, List.not_mem_nil, List.mem_singleton, or_false] at hx hper
  rcases hx with ((rfl | hx) | hx) | hx
  · exact hper t (by tauto)
  · exact hper x (by tauto)
  · exact hper x (by tauto)
  · exact hper x (by tauto)

theorem queue_inStep (hm : InStep m) {k : Nat} {t : TimerTask F} (hk : m.created[k]? = some t) :
    InStep { m with created := m.created.eraseIdx k, queued := m.queued ++ [t] } := by
  refine hm.less rfl rfl rfl (fun i => le_rfl) (fun i => ?_) (fun i _ => le_rfl) hm.sorted ?_ hm.passed
  · have := holds_eraseIdx hk i
    simp only [away, holds_append, holds_cons, holds_nil]
    omega
  · intro x hx
    apply hm.periodic
    simp only [tasks, List.mem_append, List.mem_singleton] at hx ⊢
    rcases hx with (hx | (hx | rfl)) | hx
    · tauto
    · tauto
    · exact Or.inr (List.mem_of_getElem? hk)
    · exact Or.inr (List.mem_of_mem_eraseIdx hx)

theorem dequeue_inStep (hm : InStep m) {queued : List (TimerTask F)} (hq : queued.Sublist m.queued) :
    InStep { m with queued := queued } := by
  refine hm.less rfl rfl rfl (fun i => le_rfl) (fun i => ?_) (fun i _ => le_rfl) hm.sorted ?_ hm.passed
  · exact Nat.add_le_add_right (holds_sublist hq i) _
  · intro x hx
    apply hm.periodic
    simp only [tasks, List.mem_append] at hx ⊢
    rcases hx with (hx | hx) | hx
    · tauto
    · exact Or.inl (Or.inr (hq.subset hx))
    · tauto

theorem lose_inStep (hm : InStep m) {queued : List (TimerTask F)} (hq : queued.Sublist m.queued) :
    InStep { m with queued := queued, pass := none } :=
  { dequeue_inStep hm hq with passed := fun now h => by cases h }

theorem done_inStep (hm : InStep m) {t : TimerTask F} (hrun : m.running = [t]) :
    InStep { m with map := m.map.erase t.id, running := [] } := by
  have hhere : ∀ i, m.here i = holds m.heap i + if t.id = i then 1 else 0 := fun i => by simp [here, hrun]
  refine { hm with once := ?_, below := ?_, mapNodup := ?_, live := ?_, known := ?_, uncancelled := ?_, settled := ?_,
                   periodic := ?_ }
  · intro i
    have := hm.once i
    rw [hhere] at this
    simp only [here, away, holds_nil] at *
    omega
  · intro i hi
    apply hm.below
    rw [hhere]
    simp only [here, away, holds_nil] at *
    omega
  · exact hm.mapNodup.erase _
  · intro i hi hc
    -- the running task is the only one of its id
    have hne : i ≠ t.id := by
      rintro rfl
      have := hm.once t.id
      rw [hhere, if_pos rfl] at this
      simp only [here, holds_nil] at hi
      omega
    refine (List.mem_erase_of_ne hne).mpr (hm.live i ?_ hc)
    rw [hhere]
    simp only [here, holds_nil] at hi
    omega
  · intro i hi
    obtain ⟨hne, hi⟩ := hm.mapNodup.mem_erase_iff.mp hi
    have := hm.known i hi
    rw [hhere, if_neg (Ne.symm hne)] at this
    exact this
  · exact fun i hi => hm.uncancelled i (List.mem_of_mem_erase hi)
  · exact fun i hi => hm.settled i (hi.imp_left List.mem_of_mem_erase)
  · intro x hx
    apply hm.periodic
    simp only [tasks, List.append_nil, List.mem_append] at hx ⊢
    tauto

/-- An id is handed out. -/
theorem nextId_inStep (hm : InStep m) : InStep { m with next := m.next + 1 } :=
  { hm with
    below := fun i hi => (hm.below i hi).trans (Nat.lt_succ_self _)
    settled := fun i hi => (hm.settled i hi).imp_left fun h => h.trans (Nat.lt_succ_self _) }

/-- A task whose id is in no place gets into the heap and the map. -/
theorem insert_inStep (hm : InStep m) {t : TimerTask F} (hlt : t.id < m.next) (hnone : m.here t.id + m.away t.id = 0)
    (hnew : t.id ∉ m.cancelled) (hper : t.repeats = true → 0 < t.interval) :
    InStep { m with heap := push t m.heap, map := m.map.insert t.id } := by
  have hhere : ∀ i, here { m with heap := push t m.heap, map := m.map.insert t.id } i =
      m.here i + if t.id = i then 1 else 0 := fun i => by
    simp only [here, holds_push]
    omega
  refine { hm with once := ?_, below := ?_, sorted := ?_, mapNodup := ?_, live := ?_, known := ?_, uncancelled := ?_,
                   settled := ?_, periodic := ?_ }
  · intro i
    rw [hhere]
    change _ + m.away i ≤ 1
    have := hm.once i
    by_cases h : t.id = i
    · subst h
      rw [if_pos rfl]
      omega
    · rw [if_neg h]
      exact this
  · intro i hi
    rw [hhere] at hi
    by_cases h : t.id = i
    · exact h ▸ hlt
    · rw [if_neg h] at hi
      exact hm.below i hi
  · exact push_sorted hm.sorted t
  · exact hm.mapNodup.insert
  · intro i hi hc
    rw [hhere] at hi
    by_cases h : t.id = i
    · exact List.mem_insert_iff.mpr (Or.inl h.symm)
    · rw [if_neg h] at hi
      exact List.mem_insert_iff.mpr (Or.inr (hm.live i hi hc))
  · intro i hi
    rw [hhere]
    rcases List.mem_insert_iff.mp hi with rfl | hi
    · rw [if_pos rfl]
      exact Nat.succ_pos _
    · exact Nat.add_pos_left (hm.known i hi) _
  · intro i hi
    rcases List.mem_insert_iff.mp hi with rfl | hi
    · exact hnew
    · exact hm.uncancelled i hi
  · rintro i (hi | hi)
    · rcases List.mem_insert_iff.mp hi with rfl | hi
      · exact ⟨hlt, (Nat.add_eq_zero_iff.mp hnone).2⟩
      · exact hm.settled i (Or.inl hi)
    · exact hm.settled i (Or.inr hi)
  · intro x hx
    simp only [tasks, List.mem_append, mem_push] at hx
    have hold := hm.periodic
    simp only [tasks, List.mem_append] at hold
    rcases hx with (((rfl | hx) | hx) | hx) | hx
    · exact hper
    · exact hold x (by tauto)
    · exact hold x (by tauto)
    · exact hold x (by tauto)
    · exact hold x (by tauto)

theorem add_inStep (hm : InStep m) {t : TimerTask F} (ht : Fresh m t) :
    InStep { m with heap := push t m.heap, map := m.map.insert t.id, next := m.next + 1 } := by
  refine insert_inStep (m := { m with next := m.next + 1 }) (nextId_inStep hm) ?_ ?_ ?_ ht.periodic
  · rw [ht.id]
    exact Nat.lt_succ_self _
  · rw [ht.id]
    exact hm.none_next
  · rw [ht.id]
    exact hm.notMem_next

theorem create_inStep (hm : InStep m) {t : TimerTask F} (ht : Fresh m t) :
    InStep { m with created := m.created ++ [t], next := m.next + 1 } := by
  have hnone := hm.none_next
  have hnext := nextId_inStep hm
  have haway : ∀ i, away { m with created := m.created ++ [t], next := m.next + 1 } i =
      m.away i + if t.id = i then 1 else 0 := fun i => by
    simp only [away, holds_append, holds_cons, holds_nil]
    omega
  refine { hnext with once := ?_, below := ?_, settled := ?_, periodic := ?_ }
  · intro i
    rw [haway]
    have := hm.once i
    change m.here i + _ ≤ 1
    split
    · rename_i h
      rw [ht.id] at h
      subst h
      omega
    · exact this
  · intro i hi
    rw [haway] at hi
    by_cases h : t.id = i
    · rw [ht.id] at h
      exact h ▸ Nat.lt_succ_self _
    · rw [if_neg h] at hi
      exact hnext.below i hi
  · intro i hi
    obtain ⟨hlt, h0⟩ := hm.settled i hi
    refine ⟨(hnext.settled i hi).1, ?_⟩
    have hne : t.id ≠ i := by
      rw [ht.id]
      exact (Nat.ne_of_lt hlt).symm
    rw [haway, if_neg hne, h0]
  · intro x hx
    simp only [tasks, List.mem_append, List.mem_singleton] at hx
    have hper := hm.periodic
    simp only [tasks, List.mem_append] at hper
    rcases hx with hx | hx | rfl
    · exact hper x (Or.inl hx)
    · exact hper x (Or.inr hx)
    · exact ht.periodic

theorem enter_inStep (hm : InStep m) {t : TimerTask F} {rest : List (TimerTask F)} (hq : m.queued = t :: rest) :
    InStep { m with queued := rest, heap := push t m.heap, map := m.map.insert t.id } := by
  have haway : m.away t.id = holds rest t.id + 1 + holds m.created t.id := by
    rw [away, hq, holds_cons, if_pos rfl]
  have hrest : rest.Sublist m.queued := hq ▸ List.sublist_cons_self t rest
  refine insert_inStep (m := { m with queued := rest }) (dequeue_inStep hm hrest) ?_ ?_ ?_ ?_
  · exact hm.below t.id (by omega)
  · have := hm.once t.id
    change m.here t.id + (holds rest t.id + holds m.created t.id) = 0
    omega
  · intro hc
    have := (hm.settled t.id (Or.inr hc)).2
    omega
  · exact hm.periodic t (by simp [tasks, hq])

theorem cancel_inStep (hm : InStep m) {i : Nat} (hi : i ∈ m.map) :
    InStep { m with cancelled := i :: m.cancelled, map := m.map.erase i } := by
  refine { hm with mapNodup := ?_, live := ?_, known := ?_, uncancelled := ?_, settled := ?_ }
  · exact hm.mapNodup.erase _
  · intro j hj hc
    rw [List.mem_cons, not_or] at hc
    exact (List.mem_erase_of_ne hc.1).mpr (hm.live j hj hc.2)
  · exact fun j hj => hm.known j (List.mem_of_mem_erase hj)
  · intro j hj
    obtain ⟨hne, hj⟩ := hm.mapNodup.mem_erase_iff.mp hj
    rw [List.mem_cons, not_or]
    exact ⟨hne, hm.uncancelled j hj⟩
  · rintro j (hj | hj)
    · exact hm.settled j (Or.inl (List.mem_of_mem_erase hj))
    · rcases List.mem_cons.mp hj with rfl | hj
      · exact hm.settled j (Or.inl hi)
      · exact hm.settled j (Or.inr hj)

theorem Move.inStep (h : Move m e m') (hm : InStep m) : InStep m' := by
  cases h with
  | still hc => exact { hm with passed := fun now hn => (hm.passed now hn).trans hc }
  | begins => exact { hm with passed := fun now hn => Nat.le_of_eq (Option.some.inj hn).symm }
  | ends => exact { hm with passed := fun now hn => by cases hn }
  | pop hheap hdrop => exact pop_inStep hm hheap hdrop
  | starts hheap hrun => exact starts_inStep hm hheap hrun
  | again hrun => exact again_inStep hm hrun _
  | done hrun => exact done_inStep hm hrun
  | add ht => exact add_inStep hm ht
  | create ht => exact create_inStep hm ht
  | queue hk => exact queue_inStep hm hk
  | enter hq => exact enter_inStep hm hq
  | cancel hi => exact cancel_inStep hm hi
  | lose hq => exact lose_inStep hm hq

/-! ## The callbacks that have started -/

def Event.started : Event F → Option (TimerTask F)
  | .starts t => some t
  | _ => none

/-- The tasks of the pass that is under way, in the order they started. -/
def inPass (l : List (TimerTask F)) : Event F → List (TimerTask F)
  | .silent => l
  | .begins => []
  | .starts t => l ++ [t]

/-- A one-shot timer that has started will not again: it is in no place it could start from. -/
def Spent (m : Table F) (t : TimerTask F) : Prop :=
  holds m.heap t.id = 0 ∧ m.away t.id = 0 ∧ t.id < m.next ∧ ∀ x ∈ m.running, x.id = t.id → x.repeats = false

/-- What is left in the heap comes after `t` in this pass, or is not due in it. -/
def Behind (m : Table F) (t : TimerTask F) : Prop :=
  ∀ now, m.pass = some now → t.expiration ≤ now ∧ t.id < m.next ∧ ∀ x ∈ m.heap, before t x ∨ now < x.expiration

theorem Move.spent (h : Move m e m') {t : TimerTask F} (ht : Spent m t) : Spent m' t := by
  obtain ⟨hheap, haway, hlt, hrun⟩ := ht
  cases h with
  | still => exact ⟨hheap, haway, hlt, hrun⟩
  | begins => exact ⟨hheap, haway, hlt, hrun⟩
  | ends => exact ⟨hheap, haway, hlt, hrun⟩
  | pop hp =>
    rw [hp, holds_cons] at hheap
    exact ⟨(Nat.add_eq_zero_iff.mp hheap).1, haway, hlt, hrun⟩
  | @starts u rest _ hp =>
    rw [hp, holds_cons] at hheap
    have hne : u.id ≠ t.id := fun h => by simp [h] at hheap
    refine ⟨(Nat.add_eq_zero_iff.mp hheap).1, haway, hlt, fun x hx hid => ?_⟩
    rw [List.mem_singleton.mp hx] at hid
    exact absurd hid hne
  | @again u hr _ hrep =>
    have hne : u.id ≠ t.id := fun hid => by
      have := hrun u (by simp [hr]) hid
      rw [this] at hrep
      cases hrep
    refine ⟨?_, haway, hlt, fun x hx => by cases hx⟩
    change holds (push { u with expiration := m.clock + u.interval } m.heap) t.id = 0
    rw [holds_push, if_neg hne, hheap]
  | done => exact ⟨hheap, haway, hlt, fun x hx => by cases hx⟩
  | @add u hu =>
    have hne : u.id ≠ t.id := by
      rw [hu.id]
      exact (Nat.ne_of_lt hlt).symm
    refine ⟨?_, haway, hlt.trans (Nat.lt_succ_self _), hrun⟩
    change holds (push u m.heap) t.id = 0
    rw [holds_push, if_neg hne, hheap]
  | @create u hu =>
    have hne : u.id ≠ t.id := by
      rw [hu.id]
      exact (Nat.ne_of_lt hlt).symm
    refine ⟨hheap, ?_, hlt.trans (Nat.lt_succ_self _), hrun⟩
    simp only [away, holds_append, holds_cons, holds_nil, if_neg hne] at haway ⊢
    exact haway
  | @queue k u hk =>
    refine ⟨hheap, ?_, hlt, hrun⟩
    have := holds_eraseIdx hk t.id
    simp only [away, holds_append, holds_cons, holds_nil] at haway ⊢
    omega
  | @enter u rest hq =>
    simp only [away, hq, holds_cons] at haway
    have hne : u.id ≠ t.id := fun h => by simp [h] at haway
    refine ⟨?_, ?_, hlt, hrun⟩
    · change holds (push u m.heap) t.id = 0
      rw [holds_push, if_neg hne, hheap]
    · simp only [away]
      omega
  | cancel => exact ⟨hheap, haway, hlt, hrun⟩
  | @lose queued hq =>
    refine ⟨hheap, ?_, hlt, hrun⟩
    have := holds_sublist hq t.id
    simp only [away] at haway ⊢
    omega

theorem starts_spent (hm : InStep m) {t : TimerTask F} {rest : List (TimerTask F)} (hheap : m.heap = t :: rest)
    (ht : t.repeats = false) : Spent { m with heap := rest, running := [t] } t := by
  have hone := hm.once t.id
  have hlt := hm.below t.id
  simp only [here, hheap, holds_cons, if_true] at hone hlt
  refine ⟨?_, ?_, hlt (by omega), fun x hx _ => ?_⟩
  · change holds rest t.id = 0
    omega
  · change m.away t.id = 0
    omega
  · rw [List.mem_singleton.mp hx]
    exact ht

theorem Move.behind (h : Move m e m') (hm : InStep m) (he : e ≠ .begins) {t : TimerTask F} (ht : Behind m t) :
    Behind m' t := by
  cases h with
  | still => exact ht
  | begins => exact absurd rfl he
  | ends => exact fun now hn => by cases hn
  | pop hp =>
    intro now hn
    obtain ⟨hexp, hlt, hx⟩ := ht now hn
    rw [hp] at hx
    exact ⟨hexp, hlt, fun x h => hx x (List.mem_cons_of_mem _ h)⟩
  | starts hp =>
    intro now hn
    obtain ⟨hexp, hlt, hx⟩ := ht now hn
    rw [hp] at hx
    exact ⟨hexp, hlt, fun x h => hx x (List.mem_cons_of_mem _ h)⟩
  | @again u hr _ hrep =>
    intro now hn
    obtain ⟨hexp, hlt, hx⟩ := ht now hn
    refine ⟨hexp, hlt, fun x h => ?_⟩
    rcases mem_push.mp h with rfl | h
    · -- the interval is positive: a repeating timer is not due again in the pass it ran in
      have := hm.passed now hn
      have := hm.periodic u (by simp [tasks, hr]) hrep
      refine Or.inr ?_
      change now < m.clock + u.interval
      omega
    · exact hx x h
  | done => exact ht
  | @add u hu =>
    intro now hn
    obtain ⟨hexp, hlt, hx⟩ := ht now hn
    refine ⟨hexp, hlt.trans (Nat.lt_succ_self _), fun x h => ?_⟩
    rcases mem_push.mp h with rfl | h
    · have := hm.passed now hn
      have := hu.due
      have := hu.id
      simp only [before]
      omega
    · exact hx x h
  | create => exact fun now hn => ⟨(ht now hn).1, (ht now hn).2.1.trans (Nat.lt_succ_self _), (ht now hn).2.2⟩
  | queue => exact ht
  | enter _ hp =>
    intro now hn
    rw [hp] at hn
    cases hn
  | cancel => exact ht
  | lose => exact fun now hn => by cases hn

theorem starts_behind (hm : InStep m) {t : TimerTask F} {rest : List (TimerTask F)} {now : Nat}
    (hheap : m.heap = t :: rest) (hpass : m.pass = some now) (hdue : t.expiration ≤ now) :
    Behind { m with heap := rest, running := [t] } t := by
  intro now' hn
  obtain rfl : now = now' := Option.some.inj (hpass.symm.trans hn)
  have hone := hm.once t.id
  have hlt := hm.below t.id
  simp only [here, hheap, holds_cons, if_true] at hone hlt
  refine ⟨hdue, hlt (by omega), fun x hx => Or.inl ?_⟩
  have hafter : notAfter t x := List.rel_of_pairwise_cons (hheap ▸ hm.sorted) hx
  have hne : x.id ≠ t.id := fun h => by
    have hpos : 0 < holds rest x.id := holds_pos hx
    rw [h] at hpos
    omega
  simp only [notAfter, before] at *
  omega

/-- What the callbacks that have started (`all`, and `pass` of them in this pass) leave behind. -/
structure Started (all pass : List (TimerTask F)) (m : Table F) : Prop where
  spent : ∀ t ∈ all, t.repeats = false → Spent m t
  once : ((all.filter fun t => !t.repeats).map (·.id)).Nodup
  behind : ∀ t ∈ pass, Behind m t
  ordered : pass.Pairwise before

theorem Move.started (h : Move m e m') (hm : InStep m) {all pass : List (TimerTask F)} (hs : Started all pass m) :
    Started (all ++ e.started.toList) (inPass pass e) m' := by
  have hspent : ∀ t ∈ all, t.repeats = false → Spent m' t := fun t ht hr => h.spent (hs.spent t ht hr)
  cases e with
  | silent =>
    have hsame : all ++ (Event.silent (F := F)).started.toList = all := List.append_nil all
    rw [hsame]
    exact ⟨hspent, hs.once, fun t ht => h.behind hm (fun h => by cases h) (hs.behind t ht), hs.ordered⟩
  | begins =>
    have hsame : all ++ (Event.begins (F := F)).started.toList = all := List.append_nil all
    rw [hsame]
    exact ⟨hspent, hs.once, fun t ht => (by cases ht), List.Pairwise.nil⟩
  | starts t =>
    have hbehind : ∀ x ∈ pass, Behind m' x := fun x hx => h.behind hm (fun h => by cases h) (hs.behind x hx)
    obtain _ | _ | _ | _ | @⟨_, rest, now, hheap, hrun, hpass, hdue, -, -⟩ := h
    have htop : t ∈ m.heap := by simp [hheap]
    refine ⟨?_, ?_, ?_, ?_⟩
    · intro x hx hr
      rcases List.mem_append.mp hx with hx | hx
      · exact hspent x hx hr
      · obtain rfl : x = t := by simpa [Event.started] using hx
        exact starts_spent hm hheap hr
    · cases hr : t.repeats with
      | true => simpa [Event.started, hr] using hs.once
      | false =>
        -- the task was in the heap, so it has not started before
        have hnew : t.id ∉ (all.filter fun t => !t.repeats).map (·.id) := by
          intro hid
          obtain ⟨x, hx, hid⟩ := List.mem_map.mp hid
          obtain ⟨hx, hxr⟩ := List.mem_filter.mp hx
          have h0 := (hs.spent x hx (by simpa using hxr)).1
          have := holds_pos htop
          rw [hid] at h0
          omega
        have hone : Event.started (.starts t) = some t := rfl
        simp only [hone, Option.toList_some, List.filter_append, List.filter_singleton, hr, Bool.not_false,
          List.map_append]
        exact List.Nodup.append hs.once (List.nodup_singleton _) (List.disjoint_singleton.mpr hnew)
    · intro x hx
      rcases List.mem_append.mp hx with hx | hx
      · exact hbehind x hx
      · obtain rfl := List.mem_singleton.mp hx
        exact starts_behind hm hheap hpass hdue
    · refine List.pairwise_append.mpr ⟨hs.ordered, List.pairwise_singleton _ _, fun x hx y hy => ?_⟩
      obtain rfl := List.mem_singleton.mp hy
      exact ((hs.behind x hx now hpass).2.2 y htop).resolve_right (by omega)

/-- What runs elsewhere is none of a move's business. -/
theorem Move.frame (h : Move m e m') (hrun : m.running = []) (hrun' : m'.running = []) (r : List (TimerTask F)) :
    Move { m with running := r } e { m' with running := r } := by
  cases h with
  | still hc => exact Move.still (m := { m with running := r }) hc
  | begins hp => exact Move.begins (m := { m with running := r }) hp
  | ends => exact Move.ends (m := { m with running := r })
  | pop hp hd => exact Move.pop (m := { m with running := r }) hp hd
  | starts => cases hrun'
  | again hr => rw [hrun] at hr; cases hr
  | done hr => rw [hrun] at hr; cases hr
  | add ht => exact Move.add (m := { m with running := r }) ⟨ht.id, ht.due, ht.periodic⟩
  | create ht => exact Move.create (m := { m with running := r }) ⟨ht.id, ht.due, ht.periodic⟩
  | queue hk => exact Move.queue (m := { m with running := r }) hk
  | enter hq hp => exact Move.enter (m := { m with running := r }) hq hp
  | cancel hi => exact Move.cancel (m := { m with running := r }) hi
  | lose hq => exact Move.lose (m := { m with running := r }) hq

/-! ## Cancellation -/

theorem Move.cancelled (h : Move m e m') {i : Nat} (hi : i ∈ m.cancelled) : i ∈ m'.cancelled := by
  cases h with
  | cancel => exact List.mem_cons_of_mem _ hi
  | _ => exact hi

/-- The id is in use, and no task of it is registered or on its way. -/
structure Gone (m : Table F) (i : Nat) : Prop where
  used : i < m.next
  away : m.away i = 0
  unknown : i ∉ m.map

/-- An id in use is not created again. -/
theorem Move.uncreated (h : Move m e m') {i : Nat} (hlt : i < m.next) (h0 : holds m.created i = 0) :
    i < m'.next ∧ holds m'.created i = 0 := by
  cases h with
  | add => exact ⟨hlt.trans (Nat.lt_succ_self _), h0⟩
  | @create t ht =>
    have hne : t.id ≠ i := by
      rw [ht.id]
      exact (Nat.ne_of_lt hlt).symm
    refine ⟨hlt.trans (Nat.lt_succ_self _), ?_⟩
    simp only [holds_append, holds_cons, holds_nil, if_neg hne, h0]
  | queue hk =>
    have := holds_eraseIdx hk i
    exact ⟨hlt, by simp only; omega⟩
  | _ => exact ⟨hlt, h0⟩

theorem Move.gone (h : Move m e m') {i : Nat} (hg : Gone m i) : Gone m' i := by
  obtain ⟨hlt, haway, hmap⟩ := hg
  cases h with
  | @add t ht =>
    have hne : i ≠ t.id := by
      rw [ht.id]
      exact Nat.ne_of_lt hlt
    refine ⟨hlt.trans (Nat.lt_succ_self _), haway, fun hi => ?_⟩
    exact hmap ((List.mem_insert_iff.mp hi).resolve_left hne)
  | @create t ht =>
    have hne : t.id ≠ i := by
      rw [ht.id]
      exact (Nat.ne_of_lt hlt).symm
    refine ⟨hlt.trans (Nat.lt_succ_self _), ?_, hmap⟩
    simp only [Table.away, holds_append, holds_cons, holds_nil, if_neg hne] at haway ⊢
    exact haway
  | queue hk =>
    refine ⟨hlt, ?_, hmap⟩
    have := holds_eraseIdx hk i
    simp only [Table.away, holds_append, holds_cons, holds_nil] at haway ⊢
    omega
  | @enter t rest hq =>
    simp only [Table.away, hq, holds_cons] at haway
    have hne : i ≠ t.id := fun h => by simp [h] at haway
    refine ⟨hlt, ?_, fun hi => hmap ((List.mem_insert_iff.mp hi).resolve_left hne)⟩
    simp only [Table.away]
    omega
  | lose hq =>
    refine ⟨hlt, ?_, hmap⟩
    have := holds_sublist hq i
    simp only [Table.away] at haway ⊢
    omega
  | done => exact ⟨hlt, haway, fun hi => hmap (List.mem_of_mem_erase hi)⟩
  | cancel => exact ⟨hlt, haway, fun hi => hmap (List.mem_of_mem_erase hi)⟩
  | _ => exact ⟨hlt, haway, hmap⟩

/-- Only a registered timer that is not cancelled starts. -/
theorem Move.registered {t : TimerTask F} (h : Move m (.starts t) m') : t.id ∈ m.map ∧ t.id ∉ m.cancelled := by
  obtain _ | _ | _ | _ | ⟨-, -, -, -, hc, hmap⟩ := h
  exact ⟨hmap, hc⟩

theorem Move.due {t : TimerTask F} (h : Move m (.starts t) m') (hm : InStep m) : t.expiration ≤ m.clock := by
  obtain _ | _ | _ | _ | ⟨-, -, hpass, hdue, -, -⟩ := h
  exact hdue.trans (hm.passed _ hpass)

end Table

end Dbase.Net.EventLoop
