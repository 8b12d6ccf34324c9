/-
  Dbase.Config.ConfigProofs — what is read after a write, which element an index is, and when the flat view is stale.

  A segment comes to a step (`stepOf`), and the loops of `getByPathConst`, `getByPathMutable` and `assignPath` to `get` and
  `set` along a path of steps, where no index is 2^64 - 1.
-/

import Dbase.Config.Config

namespace Dbase.Config

open Dbase.Lib

/-! ## Reading and writing along steps -/

def stepOf (segment : Str) : Step :=
  if isIndexSegment segment then .index (parseIndex segment) else .key segment

theorem stepOf_index {segment : Str} (h : isIndexSegment segment = true) : stepOf segment = .index (parseIndex segment) :=
  if_pos h

theorem stepOf_key {segment : Str} (h : isIndexSegment segment = false) : stepOf segment = .key segment :=
  if_neg (by simp [h])

theorem child_index (i : Nat) (node : ConfigValue) :
    child (.index i) node = if node.isArray then node.asArray[i]? else none := by
  cases node <;> rfl

theorem child_key (k : Str) (node : ConfigValue) :
    child (.key k) node = if node.isObject then node.asObject.lookup k else none := by
  cases node <;> rfl

theorem walk_eq (node : ConfigValue) (parts : List Str) : walk node parts = nodes.get (parts.map stepOf) node := by
  induction parts generalizing node with
  | nil => rfl
  | cons part parts ih =>
    rw [walk, List.map_cons, Nodes.get]
    cases hseg : isIndexSegment part with
    | true =>
      rw [stepOf_index hseg]
      simp only [nodes, child_index, if_true]
      cases node.isArray with
      | false => rfl
      | true =>
        cases node.asArray[parseIndex part]? with
        | none => rfl
        | some c => exact ih c
    | false =>
      rw [stepOf_key hseg]
      simp only [nodes, child_key, Bool.false_eq_true, if_false]
      cases node.isObject with
      | false => rfl
      | true =>
        cases node.asObject.lookup part with
        | none => rfl
        | some c => exact ih c

/-- The pointer is the path, step by step. -/
theorem locate_eq (node : ConfigValue) (parts : List Str) :
    locate node parts = (walk node parts).map fun _ => parts.map stepOf := by
  induction parts generalizing node with
  | nil => rfl
  | cons part parts ih =>
    rw [locate, walk, List.map_cons]
    cases hseg : isIndexSegment part with
    | true =>
      rw [stepOf_index hseg]
      simp only [if_true]
      cases node.isArray with
      | false => rfl
      | true =>
        cases node.asArray[parseIndex part]? with
        | none => rfl
        | some c =>
          simp only [Bool.not_true, Bool.false_eq_true, if_false, ih c, Option.map_map]
          rfl
    | false =>
      rw [stepOf_key hseg]
      simp only [Bool.false_eq_true, if_false]
      cases node.isObject with
      | false => rfl
      | true =>
        cases node.asObject.lookup part with
        | none => rfl
        | some c =>
          simp only [Bool.not_true, Bool.false_eq_true, if_false, ih c, Option.map_map]
          rfl

theorem length_resize (items : List ConfigValue) (n : Nat) : (resize items n).length = n := by
  simp only [resize, List.length_append, List.length_take, List.length_replicate]
  omega

theorem getElem?_resize {items : List ConfigValue} {n j : Nat} {x : ConfigValue} (hn : items.length ≤ n)
    (h : items[j]? = some x) : (resize items n)[j]? = some x := by
  obtain ⟨hlt, -⟩ := List.getElem?_eq_some_iff.mp h
  rw [resize, List.take_of_length_le hn, List.getElem?_append_left hlt, h]

/-- The array that an index is put into. -/
def grown (i : Nat) (node : ConfigValue) : List ConfigValue :=
  if node.asArray.length ≤ i then resize node.asArray (i + 1) else node.asArray

theorem place_index (i : Nat) (node x : ConfigValue) : place (.index i) node x = .array ((grown i node).set i x) := rfl

theorem lt_length_grown (i : Nat) (node : ConfigValue) : i < (grown i node).length := by
  unfold grown
  split
  · rw [length_resize]
    omega
  · omega

theorem getElem?_grown {i j : Nat} {node x : ConfigValue} (h : node.asArray[j]? = some x) :
    (grown i node)[j]? = some x := by
  unfold grown
  split
  · exact getElem?_resize (by omega) h
  · exact h

theorem grown_place (i : Nat) (node x : ConfigValue) : grown i (place (.index i) node x) = (grown i node).set i x := by
  have hlt := lt_length_grown i node
  rw [place_index, grown]
  exact if_neg (by simpa [ConfigValue.asArray] using hlt)

theorem nodes_lawful : nodes.Lawful where
  child_place step node x := by
    cases step with
    | index i =>
      have hlt := lt_length_grown i node
      show ((grown i node).set i x)[i]? = some x
      rw [List.getElem?_set_self hlt]
    | key k => exact Entries.lookup_put k x _
  place_place step node x y := by
    cases step with
    | index i =>
      show place (.index i) (place (.index i) node x) y = place (.index i) node y
      rw [place_index, grown_place, List.set_set, ← place_index]
    | key k => exact congrArg ConfigValue.object (Entries.put_put k x y _)

/-- An array loses no item when another is put into it, and an object no member. -/
theorem place_spares {step other : Step} {node x y : ConfigValue}
    (hindex : ∀ i, step = .index i → node.isObject = false) (hkey : ∀ k, step = .key k → node.isArray = false)
    (hne : other ≠ step) (h : child other node = some y) : child other (place step node x) = some y := by
  cases step with
  | index i =>
    cases other with
    | index j =>
      rw [child_index] at h
      have hij : i ≠ j := fun heq => hne (heq ▸ rfl)
      split at h
      · show ((grown i node).set i x)[j]? = some y
        rw [List.getElem?_set_ne hij]
        exact getElem?_grown h
      · cases h
    | key k =>
      rw [child_key, hindex i rfl] at h
      cases h
  | key k =>
    cases other with
    | index j =>
      rw [child_index, hkey k rfl] at h
      cases h
    | key k' =>
      rw [child_key] at h
      have hkk : k' ≠ k := fun heq => hne (heq ▸ rfl)
      split at h
      · show (Entries.put k x node.asObject).lookup k' = some y
        rw [Entries.lookup_put_ne hkk, h]
      · cases h

theorem getElem?_grown_self (i : Nat) (node : ConfigValue) :
    (grown i node)[i]? = some ((child (.index i) node).getD .null) := by
  have hin := lt_length_grown i node
  by_cases hle : node.asArray.length ≤ i
  · have hnone : child (.index i) node = none := by
      rw [child_index]
      split
      · exact List.getElem?_eq_none hle
      · rfl
    rw [hnone, Option.getD_none, grown, if_pos hle, resize, List.getElem?_append_right (by simp [hle])]
    simp only [List.length_take, List.getElem?_replicate]
    rw [if_pos (by omega)]
  · have hsome : child (.index i) node = node.asArray[i]? := by
      rw [child_index]
      split
      · rfl
      · rename_i harray
        have hempty : node.asArray = [] := by
          cases node with
          | array => exact absurd rfl harray
          | _ => rfl
        simp [hempty] at hle
    obtain ⟨x, hx⟩ := Option.isSome_iff_exists.mp (show (node.asArray[i]?).isSome by simp; omega)
    rw [hsome, hx, Option.getD_some, grown, if_neg hle, hx]

theorem lookup_getD (k : Str) (node : ConfigValue) :
    (node.asObject.lookup k).getD .null = (child (.key k) node).getD .null := by
  cases node <;> rfl

/-- Along segments whose indices stay below 2^64 - 1, `assignPath` is a `set`. -/
theorem assignPath_eq (node : ConfigValue) {parts : List Str} (hparts : parts ≠ [])
    (hindex : ∀ segment ∈ parts, isIndexSegment segment = true → parseIndex segment < 2 ^ 64 - 1) (value : ConfigValue) :
    assignPath node parts value = some (nodes.set (parts.map stepOf) node value) := by
  induction parts generalizing node with
  | nil => exact absurd rfl hparts
  | cons part parts ih =>
    have hrest (c : ConfigValue) : (if parts.isEmpty then some value else assignPath c parts value) =
        some (nodes.set (parts.map stepOf) c value) := by
      cases parts with
      | nil => rfl
      | cons next parts => exact ih c (by simp) fun segment hseg => hindex segment (List.mem_cons_of_mem _ hseg)
    rw [assignPath, List.map_cons, Nodes.set]
    cases hseg : isIndexSegment part with
    | true =>
      have hlt := hindex part List.mem_cons_self hseg
      have hmod : (parseIndex part + 1) % 2 ^ 64 = parseIndex part + 1 := Nat.mod_eq_of_lt (by omega)
      simp only [stepOf_index hseg, if_true, hmod]
      rw [show (if node.asArray.length ≤ parseIndex part then resize node.asArray (parseIndex part + 1) else node.asArray) =
        grown (parseIndex part) node from rfl, getElem?_grown_self]
      simp only [hrest, Option.map_some]
      rfl
    | false =>
      simp only [stepOf_key hseg, Bool.false_eq_true, if_false, hrest, Option.map_some, lookup_getD]
      rfl

/-! ## Reading and writing a configuration -/

theorem splitPath_ne_nil {path : Str} (h : path ≠ []) : splitPath path ≠ [] := by
  rw [splitPath, if_neg (by simpa using h)]
  exact List.splitOn_ne_nil _ _

/-- The steps of a path. -/
def steps (path : Str) : List Step := (splitPath path).map stepOf

theorem getByPathConst_eq (root : ConfigValue) (path : Str) : getByPathConst root path = nodes.get (steps path) root := by
  unfold getByPathConst
  split
  · rename_i hempty
    obtain rfl : path = [] := by simpa using hempty
    rfl
  · exact walk_eq _ _

theorem getByPathMutable_eq (root : ConfigValue) (path : Str) :
    getByPathMutable root path = (getByPathConst root path).map fun _ => steps path := by
  unfold getByPathMutable getByPathConst
  split
  · rename_i hempty
    obtain rfl : path = [] := by simpa using hempty
    rfl
  · exact locate_eq _ _

theorem get_ok_iff {c : Config} {path : Str} {v : ConfigValue} :
    get c path = .ok v ↔ nodes.get (steps path) c.root = some v := by
  rw [get, getByPathConst_eq]
  cases nodes.get (steps path) c.root with
  | none => simp
  | some w => simp

theorem set_eq {path : Str} (hpath : path ≠ [])
    (hindex : ∀ segment ∈ splitPath path, isIndexSegment segment = true → parseIndex segment < 2 ^ 64 - 1) (c : Config)
    (v : ConfigValue) : set c path v = some { c with root := nodes.set (steps path) c.root v, flatCacheDirty := true } := by
  have hparts := splitPath_ne_nil hpath
  rw [set, if_neg (by simpa using hpath)]
  simp only
  rw [if_neg (by simpa using hparts), assignPath_eq c.root hparts hindex v]
  rfl

/-- `get` and `get` of a `const Config` find the same node, or neither does. -/
def Agree (c : Config) (path : Str) : Prop := (getMutable c path).map (deref c.root) = (get c path).map some

theorem get_agrees (c : Config) (path : Str) : Agree c path := by
  unfold Agree getMutable get
  rw [getByPathMutable_eq]
  cases hget : getByPathConst c.root path with
  | none => rfl
  | some v =>
    rw [getByPathConst_eq] at hget
    exact congrArg Except.ok hget

/-- No node on the way is a container of the other kind: an object addressed by an index, or an array by a key. -/
def FitsKinds (root : ConfigValue) (path : Str) : Prop :=
  ∀ before segment after node, splitPath path = before ++ segment :: after → walk root before = some node →
    (isIndexSegment segment = true → node.isObject = false) ∧ (isIndexSegment segment = false → node.isArray = false)

/-- Neither path is a prefix of the other, segment by segment. -/
def Apart (p q : Str) : Prop := ¬ steps p <+: steps q ∧ ¬ steps q <+: steps p

theorem FitsKinds.spares {root : ConfigValue} {path : Str} (h : FitsKinds root path) : nodes.Spares (steps path) root := by
  refine Nodes.spares_of fun before i after node hsplit hwalk j x y hne hj => ?_
  obtain ⟨pre, rest, hpath, rfl, hrest⟩ := List.map_eq_append_iff.mp hsplit
  obtain ⟨segment, post, rfl, rfl, rfl⟩ := List.map_eq_cons_iff.mp hrest
  rw [← walk_eq] at hwalk
  obtain ⟨hindex, hkey⟩ := h pre segment post node hpath hwalk
  refine place_spares (fun i hi => hindex ?_) (fun k hk => hkey ?_) hne hj
  · by_contra hno
    rw [stepOf_key (by simpa using hno)] at hi
    cases hi
  · by_contra hno
    rw [stepOf_index (by simpa using hno)] at hk
    cases hk

theorem set_get_laws :
    (∀ c path, Agree c path) ∧
      ∀ (c : Config) (path : Str) (v : ConfigValue), path ≠ [] →
        (∀ segment ∈ splitPath path, isIndexSegment segment = true → parseIndex segment < 2 ^ 64 - 1) →
        ∃ c', set c path v = some c' ∧ get c' path = .ok v ∧ (∀ w, set c' path w = set c path w) ∧
          (FitsKinds c.root path → ∀ q y, Apart path q → get c q = .ok y → get c' q = .ok y) := by
  refine ⟨get_agrees, ?_⟩
  intro c path v hpath hindex
  refine ⟨_, set_eq hpath hindex c v, ?_, ?_, ?_⟩
  · rw [get_ok_iff]
    exact Nodes.get_set nodes_lawful _ _ _
  · intro w
    rw [set_eq hpath hindex, set_eq hpath hindex]
    simp only [Nodes.set_set nodes_lawful]
  · intro hfits q y hapart hq
    rw [get_ok_iff] at hq ⊢
    exact Nodes.get_set_of_apart nodes_lawful v hfits.spares hapart.1 hapart.2 hq

/-- An array is grown beside a scalar that stays. -/
theorem set_get_laws_two :
    ∃ c', set { make with root := .object [("b".toList, .bool true)] } "a.01".toList (.int 5) = some c' ∧
      get c' "a.1".toList = .ok (.int 5) ∧ get c' "b".toList = .ok (.bool true) := by
  have hfits : FitsKinds (.object [("b".toList, .bool true)]) "a.01".toList := by
    have hparts : splitPath "a.01".toList = ["a".toList, "01".toList] := by decide
    intro before segment after node hsplit hwalk
    rw [hparts] at hsplit
    cases before with
    | nil =>
      obtain ⟨rfl, -⟩ := List.cons.inj hsplit
      cases hwalk
      exact ⟨fun hindex => absurd hindex (by decide), fun _ => rfl⟩
    | cons part before =>
      obtain ⟨rfl, -⟩ := List.cons.inj hsplit
      cases hwalk
  obtain ⟨c', hset, hget, -, hframe⟩ := set_get_laws.2 { make with root := .object [("b".toList, .bool true)] }
    "a.01".toList (.int 5) (by decide) (by decide)
  refine ⟨c', hset, ?_, ?_⟩
  · rw [get_ok_iff] at hget ⊢
    rwa [show steps "a.1".toList = steps "a.01".toList from by decide]
  · exact hframe hfits "b".toList (.bool true) ⟨by decide, by decide⟩ rfl

/-! ## The number of an index -/

/-- The number that a segment of digits spells. -/
def spelled (segment : Str) : Nat := segment.foldl (fun value c => value * 10 + (c.toNat - '0'.toNat)) 0

/-- What a segment means: the index it spells, or a key. -/
def spelledStep (segment : Str) : Step := if isIndexSegment segment then .index (spelled segment) else .key segment

/-- What `get` means. -/
def spelledGet (c : Config) (path : Str) : Except Error ConfigValue :=
  match nodes.get ((splitPath path).map spelledStep) c.root with
  | none => .error (makeNotFoundError path)
  | some value => .ok value

theorem parseIndex_eq (segment : Str) : parseIndex segment = spelled segment % 2 ^ 64 := by
  have hfold (n : Nat) : segment.foldl (fun value c => (value * 10 + (c.toNat - '0'.toNat)) % 2 ^ 64) (n % 2 ^ 64) =
      segment.foldl (fun value c => value * 10 + (c.toNat - '0'.toNat)) n % 2 ^ 64 := by
    induction segment generalizing n with
    | nil => rfl
    | cons c segment ih =>
      rw [List.foldl_cons, List.foldl_cons, ← ih]
      congr 1
      omega
  exact hfold 0

theorem spelledStep_eq {segment : Str} (h : isIndexSegment segment = true → spelled segment < 2 ^ 64) :
    spelledStep segment = stepOf segment := by
  unfold spelledStep stepOf
  split
  · rename_i hseg
    rw [parseIndex_eq, Nat.mod_eq_of_lt (h hseg)]
  · rfl

/-- A value that is no container, or an empty one. -/
def Bare (node : ConfigValue) : Prop := node.asArray = [] ∧ node.asObject = []

theorem Bare.child {node : ConfigValue} (h : Bare node) (s : Step) : child s node = none := by
  cases s with
  | index i =>
    rw [child_index, h.1]
    simp
  | key k =>
    rw [child_key, h.2]
    simp

theorem bare_null : Bare .null := ⟨rfl, rfl⟩

theorem grown_bare {node : ConfigValue} (h : Bare node) (i : Nat) : grown i node = resize [] (i + 1) := by
  rw [grown, h.1, List.length_nil, if_pos (Nat.zero_le i)]

/-- A path with the index 2^64 - 1 is written out of bounds where nothing is yet. -/
theorem index_lt_of_assignPath {node value : ConfigValue} {parts : List Str} (hbare : Bare node)
    (h : (assignPath node parts value).isSome = true) :
    ∀ segment ∈ parts, isIndexSegment segment = true → parseIndex segment < 2 ^ 64 - 1 := by
  induction parts generalizing node with
  | nil => simp
  | cons part parts ih =>
    have hrest (hsome : (if parts.isEmpty then some value else assignPath .null parts value).isSome = true) :
        ∀ segment ∈ parts, isIndexSegment segment = true → parseIndex segment < 2 ^ 64 - 1 := by
      cases parts with
      | nil => simp
      | cons next parts => exact ih bare_null hsome
    rw [assignPath] at h
    cases hseg : isIndexSegment part with
    | true =>
      simp only [hseg, if_true, hbare.1, List.length_nil, Nat.zero_le] at h
      have hlt : parseIndex part < 2 ^ 64 - 1 := by
        by_contra hge
        have hmod := parseIndex_eq part
        have hwrap : (parseIndex part + 1) % 2 ^ 64 = 0 := by omega
        rw [hwrap] at h
        cases h
      have hmod : (parseIndex part + 1) % 2 ^ 64 = parseIndex part + 1 := Nat.mod_eq_of_lt (by omega)
      have hgrown := getElem?_grown_self (parseIndex part) node
      rw [hbare.child, Option.getD_none, grown_bare hbare] at hgrown
      rw [hmod, hgrown] at h
      refine List.forall_mem_cons.mpr ⟨fun _ => hlt, hrest ?_⟩
      simpa using h
    | false =>
      simp only [hseg, Bool.false_eq_true, if_false, hbare.2, List.lookup_nil, Option.getD_none] at h
      refine List.forall_mem_cons.mpr ⟨fun hindex => by simp [hseg] at hindex, hrest ?_⟩
      simpa using h

/-- An index from 2^64 on is behind the end of every array that a `set` has made. -/
theorem get_spelled_none {node value : ConfigValue} {parts : List Str} (hbare : Bare node) {segment : Str}
    (hmem : segment ∈ parts) (hseg : isIndexSegment segment = true) (hbig : 2 ^ 64 ≤ spelled segment) :
    nodes.get (parts.map spelledStep) (nodes.set (parts.map stepOf) node value) = none := by
  induction parts generalizing node with
  | nil => cases hmem
  | cons part parts ih =>
    have hblank : (nodes.child (stepOf part) node).getD nodes.blank = .null := by
      show (child (stepOf part) node).getD .null = .null
      rw [hbare.child, Option.getD_none]
    rw [List.map_cons, List.map_cons, Nodes.get, Nodes.set, hblank]
    by_cases hpart : isIndexSegment part = true ∧ 2 ^ 64 ≤ spelled part
    · obtain ⟨hindex, hpartBig⟩ := hpart
      have hlength : (grown (parseIndex part) node).length = parseIndex part + 1 := by
        rw [grown_bare hbare, length_resize]
      have hnone : nodes.child (spelledStep part) (nodes.place (stepOf part) node
          (nodes.set (parts.map stepOf) .null value)) = none := by
        rw [spelledStep, if_pos hindex, stepOf_index hindex]
        refine List.getElem?_eq_none ?_
        have hmod := parseIndex_eq part
        rw [List.length_set]
        change (grown (parseIndex part) node).length ≤ _
        omega
      rw [hnone, Option.bind_none]
    · have hne : segment ≠ part := by
        rintro rfl
        exact hpart ⟨hseg, hbig⟩
      have heq : spelledStep part = stepOf part := spelledStep_eq fun hindex => by
        by_contra hge
        exact hpart ⟨hindex, by omega⟩
      rw [heq, nodes_lawful.child_place, Option.bind_some]
      exact ih bare_null ((List.mem_cons.mp hmem).resolve_left hne)

theorem spelledGet_ok {c : Config} {path : Str} {v : ConfigValue} :
    spelledGet c path = .ok v ↔ nodes.get ((splitPath path).map spelledStep) c.root = some v := by
  rw [spelledGet]
  cases nodes.get ((splitPath path).map spelledStep) c.root with
  | none => simp
  | some w => simp

/-- `get` takes the indices of a path for what they spell, in every configuration, if and only if a `size_t` holds them. -/
theorem get_spelled_iff (path : Str) :
    (∀ c, get c path = spelledGet c path) ↔
      ∀ segment ∈ splitPath path, isIndexSegment segment = true → spelled segment < 2 ^ 64 := by
  constructor
  · intro hget segment hmem hseg
    by_contra hge
    -- what was written there is read back through the wrapped indices
    have hread : get { make with root := nodes.set (steps path) make.root .null } path = .ok .null :=
      get_ok_iff.mpr (Nodes.get_set nodes_lawful _ _ _)
    rw [hget, spelledGet_ok] at hread
    have hnone : nodes.get ((splitPath path).map spelledStep) (nodes.set (steps path) make.root .null) = none :=
      get_spelled_none ⟨rfl, rfl⟩ hmem hseg (by omega)
    have habsurd : (none : Option ConfigValue) = some .null := hnone.symm.trans hread
    cases habsurd
  · intro hsmall c
    have hsteps : (splitPath path).map spelledStep = steps path :=
      List.map_congr_left fun segment hmem => spelledStep_eq (hsmall segment hmem)
    unfold get spelledGet
    rw [hsteps]
    cases hfound : nodes.get (steps path) c.root with
    | none => simp only [getByPathConst_eq, hfound]
    | some v => simp only [getByPathConst_eq, hfound]

/-- `set` stays in bounds, for every configuration and value, if and only if no index of the path wraps to 2^64 - 1. -/
theorem set_in_bounds_iff (path : Str) :
    (∀ c value, (set c path value).isSome = true) ↔
      ∀ segment ∈ splitPath path, isIndexSegment segment = true → spelled segment % 2 ^ 64 ≠ 2 ^ 64 - 1 := by
  constructor
  · intro hset segment hmem hseg
    have hpath : path ≠ [] := by
      rintro rfl
      cases hmem
    have hsome := hset make .null
    rw [set, if_neg (by simpa using hpath)] at hsome
    simp only [List.isEmpty_iff, splitPath_ne_nil hpath, if_false, Option.isSome_map] at hsome
    have hlt := index_lt_of_assignPath ⟨rfl, rfl⟩ hsome segment hmem hseg
    rw [parseIndex_eq] at hlt
    omega
  · intro hsmall c value
    by_cases hpath : path = []
    · subst hpath
      rfl
    · rw [set_eq hpath fun segment hmem hseg => ?_]
      · rfl
      · have hne := hsmall segment hmem hseg
        have hparse := parseIndex_eq segment
        omega

/-- Each of the two, and both together: every index is below 2^64 - 1. -/
theorem indices_are_spelled (path : Str) :
    ((∀ c, get c path = spelledGet c path) ↔
      ∀ segment ∈ splitPath path, isIndexSegment segment = true → spelled segment < 2 ^ 64) ∧
    ((∀ c value, (set c path value).isSome = true) ↔
      ∀ segment ∈ splitPath path, isIndexSegment segment = true → spelled segment % 2 ^ 64 ≠ 2 ^ 64 - 1) ∧
    (((∀ c, get c path = spelledGet c path) ∧ ∀ c value, (set c path value).isSome = true) ↔
      ∀ segment ∈ splitPath path, isIndexSegment segment = true → spelled segment < 2 ^ 64 - 1) := by
  refine ⟨get_spelled_iff path, set_in_bounds_iff path, ?_⟩
  rw [get_spelled_iff, set_in_bounds_iff]
  constructor
  · rintro ⟨hget, hset⟩ segment hmem hseg
    have hlt := hget segment hmem hseg
    have hne := hset segment hmem hseg
    omega
  · intro hsmall
    refine ⟨fun segment hmem hseg => ?_, fun segment hmem hseg => ?_⟩
    · have hlt := hsmall segment hmem hseg
      omega
    · have hlt := hsmall segment hmem hseg
      omega

/-- The index 2^64 is read as 0, and the index 2^64 - 1 is written out of bounds. -/
theorem an_index_wraps :
    (∃ c, get c "18446744073709551616".toList = .ok (.int 1) ∧
        spelledGet c "18446744073709551616".toList = .error (makeNotFoundError "18446744073709551616".toList)) ∧
      set make "18446744073709551615".toList .null = none := by
  have hparts : splitPath "18446744073709551616".toList = ["18446744073709551616".toList] := by decide
  have hparts' : splitPath "18446744073709551615".toList = ["18446744073709551615".toList] := by decide
  have hindex : isIndexSegment "18446744073709551616".toList = true := by decide
  have hindex' : isIndexSegment "18446744073709551615".toList = true := by decide
  have hparse : parseIndex "18446744073709551616".toList = 0 := by decide
  have hparse' : parseIndex "18446744073709551615".toList = 2 ^ 64 - 1 := by decide
  have hspelled : spelled "18446744073709551616".toList = 2 ^ 64 := by decide
  refine ⟨⟨{ make with root := .array [.int 1] }, ?_, ?_⟩, ?_⟩
  · rw [get_ok_iff, steps, hparts, List.map_singleton, stepOf_index hindex, hparse]
    rfl
  · rw [spelledGet, hparts, List.map_singleton, spelledStep, if_pos hindex, hspelled]
    rfl
  · rw [set, hparts', if_neg (by decide)]
    simp only [List.isEmpty_cons, Bool.false_eq_true, if_false, assignPath, hindex', if_true, hparse']
    rfl

/-! ## The flat view -/

/-- No write through the pointer of `get` while the flat view is taken to be up to date. -/
def noted (c : Config) : Act → Bool
  | .writeGet _ _ => c.flatCacheDirty
  | _ => true

/-- A flat view that is taken to be up to date is. -/
def UpToDate (c : Config) : Prop := c.flatCacheDirty = false → c.flatValues = flatten c.root

theorem UpToDate.step {c c' : Config} {a : Act} (h : UpToDate c) (hok : noted c a = true)
    (hstep : step c a = some c') : UpToDate c' := by
  cases a with
  | set path value =>
    simp only [Config.step, set] at hstep
    split at hstep
    · obtain rfl := Option.some.inj hstep
      exact fun hclean => by cases hclean
    · split at hstep
      · obtain rfl := Option.some.inj hstep
        exact fun hclean => by cases hclean
      · obtain ⟨root, -, rfl⟩ := Option.map_eq_some_iff.mp hstep
        exact fun hclean => by cases hclean
  | setRoot root =>
    obtain rfl := Option.some.inj hstep
    exact fun hclean => by cases hclean
  | writeRoot value =>
    obtain rfl := Option.some.inj hstep
    exact fun hclean => by cases hclean
  | writeGet path value =>
    simp only [Config.step, writeGet] at hstep
    split at hstep
    · cases hstep
    · obtain rfl := Option.some.inj hstep
      intro hclean
      rw [noted, show c.flatCacheDirty = false from hclean] at hok
      cases hok
  | values =>
    obtain rfl := Option.some.inj hstep
    unfold values
    split
    · exact fun _ => rfl
    · exact h

theorem values_are_flat {c : Config} (h : machine.Reach (fun c a => noted c a = true) c) :
    (values c).flatValues = flatten c.root := by
  have hfresh : UpToDate c := h.inv (I := UpToDate) (fun hclean => by cases hclean)
    fun _ _ _ hI hok hstep => hI.step hok hstep
  unfold values
  split
  · rfl
  · rename_i hclean
    exact hfresh (by simpa using hclean)

/-- A write through `get` before the flat view is made, and one through `root()` after it. -/
theorem values_are_flat_two :
    ∃ c, machine.Reach (fun c a => noted c a = true) c ∧ c.flatCacheDirty = true ∧ c.flatValues ≠ [] ∧
      (values c).flatValues = flatten c.root := by
  have hreach : machine.Reach (fun c a => noted c a = true)
      ⟨.object [("b".toList, .null)], true, [("a".toList, .int 2)]⟩ :=
    .step (.step (.step (.step .init (a := .set "a".toList (.int 1)) rfl rfl)
      (a := .writeGet "a".toList (.int 2)) rfl rfl) (a := .values) rfl rfl)
      (a := .writeRoot (.object [("b".toList, .null)])) rfl rfl
  exact ⟨_, hreach, rfl, List.cons_ne_nil _ _, values_are_flat hreach⟩

/-- After a write through `get`, `values()` still returns what was there before it. -/
theorem a_write_is_not_noted :
    ∃ c, machine.Reach (fun _ _ => True) c ∧ (values c).flatValues ≠ flatten c.root := by
  have hreach : machine.Reach (fun _ _ => True) ⟨.object [("a".toList, .int 2)], false, [("a".toList, .int 1)]⟩ :=
    .step (.step (.step .init (a := .set "a".toList (.int 1)) trivial rfl) (a := .values) trivial rfl)
      (a := .writeGet "a".toList (.int 2)) trivial rfl
  have hstale : [("a".toList, ConfigValue.int 1)] ≠ [("a".toList, .int 2)] := by simp
  exact ⟨_, hreach, hstale⟩

end Dbase.Config
