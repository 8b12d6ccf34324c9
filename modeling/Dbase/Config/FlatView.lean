/-
  Dbase.Config.FlatView — the keys of `values()` are the paths that `get` finds, in trees whose keys a path can name.

  `flattenInto` puts one entry after another: those of `below`. A place in the tree is a path of steps; its key spells it
  (`spell`), and `splitPath` reads the steps back.
-/

import Dbase.Config.ConfigProofs

namespace Dbase.Config

open Dbase.Lib

/-! ## Trees whose keys a path can name -/

/-- Not empty, without a dot, and not of digits only. -/
def Namable (key : Str) : Prop := key ≠ [] ∧ '.' ∉ key ∧ isIndexSegment key = false

/-- Every key can be named, and comes once; a vector has no more items than a `size_t` counts. -/
inductive WellKeyed : ConfigValue → Prop
  | leaf {value : ConfigValue} : value.isArray = false → value.isObject = false → WellKeyed value
  | array {items : List ConfigValue} : (∀ x ∈ items, WellKeyed x) → items.length < 2 ^ 64 → WellKeyed (.array items)
  | object {members : List (Str × ConfigValue)} : (∀ m ∈ members, WellKeyed m.2) → (∀ m ∈ members, Namable m.1) →
      (members.map (·.1)).Nodup → WellKeyed (.object members)

/-- A step that its segment spells. -/
def Step.Spellable : Step → Prop
  | .index i => i < 2 ^ 64
  | .key k => Namable k

theorem WellKeyed.child {node c : ConfigValue} {s : Step} (h : WellKeyed node) (hc : child s node = some c) :
    WellKeyed c ∧ s.Spellable := by
  cases h with
  | @leaf node harray hobject =>
    cases s with
    | index i => simp [child_index, harray] at hc
    | key k => simp [child_key, hobject] at hc
  | @array items hitems hlength =>
    cases s with
    | index i =>
      have hc : items[i]? = some c := hc
      obtain ⟨hlt, -⟩ := List.getElem?_eq_some_iff.mp hc
      exact ⟨hitems c (List.mem_of_getElem? hc), hlt.trans hlength⟩
    | key k => cases hc
  | @object members hmembers hkeys hnodup =>
    cases s with
    | index i => cases hc
    | key k =>
      have hmem : (k, c) ∈ members := (Entries.lookup_eq_some_iff hnodup).mp hc
      exact ⟨hmembers _ hmem, hkeys _ hmem⟩

/-- By induction over the children. -/
theorem WellKeyed.of_children {P : (v : ConfigValue) → WellKeyed v → Prop}
    (node : ∀ v (h : WellKeyed v), (∀ s c (hc : Config.child s v = some c), P c (h.child hc).1) → P v h)
    {v : ConfigValue} (h : WellKeyed v) : P v h := by
  induction h with
  | @leaf v harray hobject =>
    refine node v _ fun s c hc => ?_
    cases s with
    | index i => simp [child_index, harray] at hc
    | key k => simp [child_key, hobject] at hc
  | @array items hitems hlength ih =>
    refine node _ _ fun s c hc => ?_
    cases s with
    | index i => exact ih c (List.mem_of_getElem? hc)
    | key k => cases hc
  | @object members hmembers hkeys hnodup ih =>
    refine node _ _ fun s c hc => ?_
    cases s with
    | index i => cases hc
    | key k => exact ih _ ((Entries.lookup_eq_some_iff hnodup).mp hc)

theorem WellKeyed.get {node c : ConfigValue} {p : List Step} (h : WellKeyed node) (hc : nodes.get p node = some c) :
    WellKeyed c ∧ ∀ s ∈ p, s.Spellable := by
  induction p generalizing node with
  | nil =>
    obtain rfl := Option.some.inj hc
    exact ⟨h, by simp⟩
  | cons s p ih =>
    obtain ⟨d, hd, hc⟩ := Option.bind_eq_some_iff.mp hc
    obtain ⟨hd', hs⟩ := h.child hd
    obtain ⟨hc', hp⟩ := ih hd' hc
    exact ⟨hc', List.forall_mem_cons.mpr ⟨hs, hp⟩⟩

/-! ## Spelling -/

def spellStep : Step → Str
  | .index i => Nat.toDigits 10 i
  | .key k => k

/-- The key of the node that the steps lead to from the node with a key. -/
def spellFrom (path : Str) (p : List Step) : Str := p.foldl (fun path s => joinPath path (spellStep s)) path

def spell (p : List Step) : Str := spellFrom [] p

theorem isDigit_iff (c : Char) : isDigit c = c.isDigit := by
  simp [isDigit, Char.isDigit, Char.le_def]

theorem spelled_toDigits (n : Nat) : spelled (Nat.toDigits 10 n) = n := by
  have hfold : spelled (Nat.toDigits 10 n) = Nat.ofDigitChars 10 (Nat.toDigits 10 n) 0 := by
    rw [spelled, Nat.ofDigitChars_eq_foldl]
    simp only [Nat.mul_comm]
  rw [hfold, Nat.ofDigitChars_ten_toDigits]

theorem isDigit_toDigits {n : Nat} {c : Char} (h : c ∈ Nat.toDigits 10 n) : isDigit c = true := by
  rw [isDigit_iff]
  exact Nat.isDigit_of_mem_toDigits (by decide) (by decide) h

theorem isIndexSegment_toDigits (n : Nat) : isIndexSegment (Nat.toDigits 10 n) = true := by
  have hall : (Nat.toDigits 10 n).all isDigit = true := List.all_eq_true.mpr fun c hc => isDigit_toDigits hc
  simp [isIndexSegment, hall]

theorem stepOf_spellStep {s : Step} (h : s.Spellable) : stepOf (spellStep s) = s := by
  cases s with
  | index i =>
    rw [spellStep, stepOf_index (isIndexSegment_toDigits i), parseIndex_eq, spelled_toDigits, Nat.mod_eq_of_lt h]
  | key k => exact stepOf_key h.2.2

theorem spellStep_plain {s : Step} (h : s.Spellable) : spellStep s ≠ [] ∧ '.' ∉ spellStep s := by
  cases s with
  | index i => exact ⟨Nat.toDigits_ne_nil, fun hdot => absurd (isDigit_toDigits hdot) (by decide)⟩
  | key k => exact ⟨h.1, h.2.1⟩

theorem splitPath_joinPath (path : Str) {segment : Str} (hne : segment ≠ []) (hdot : '.' ∉ segment) :
    splitPath (joinPath path segment) = splitPath path ++ [segment] := by
  have hone : segment.splitOn '.' = [segment] := List.splitOn_eq_singleton hdot
  unfold joinPath
  cases path with
  | nil => simp [splitPath, hne, hone]
  | cons c path =>
    have hsplit := List.splitOn_append_cons_self (a := '.') (c :: path) segment
    simp only [List.cons_append] at hsplit
    simp [splitPath, hsplit, hone]

theorem splitPath_spellFrom (path : Str) {p : List Step} (h : ∀ s ∈ p, s.Spellable) :
    splitPath (spellFrom path p) = splitPath path ++ p.map spellStep := by
  induction p generalizing path with
  | nil => simp [spellFrom]
  | cons s p ih =>
    obtain ⟨hs, hp⟩ := List.forall_mem_cons.mp h
    obtain ⟨hne, hdot⟩ := spellStep_plain hs
    have hrest := ih (joinPath path (spellStep s)) hp
    rw [splitPath_joinPath path hne hdot] at hrest
    simpa [spellFrom] using hrest

theorem splitPath_spell {p : List Step} (h : ∀ s ∈ p, s.Spellable) : splitPath (spell p) = p.map spellStep :=
  splitPath_spellFrom [] h

theorem steps_spell {p : List Step} (h : ∀ s ∈ p, s.Spellable) : steps (spell p) = p := by
  have hsame : p.map (stepOf ∘ spellStep) = p.map id := List.map_congr_left fun s hs => stepOf_spellStep (h s hs)
  rw [steps, splitPath_spell h, List.map_map, hsame, List.map_id]

theorem splitPath_injective : Function.Injective splitPath := by
  intro p q h
  have hjoin (path : Str) : ['.'].intercalate (splitPath path) = path := by
    unfold splitPath
    split
    · rename_i hempty
      simp only [List.isEmpty_iff] at hempty
      rw [hempty, List.intercalate_nil]
    · exact List.intercalate_splitOn '.'
  rw [← hjoin p, h, hjoin]

theorem spell_injective {p q : List Step} (hp : ∀ s ∈ p, s.Spellable) (hq : ∀ s ∈ q, s.Spellable)
    (h : spell p = spell q) : p = q := by
  rw [← steps_spell hp, h, steps_spell hq]

/-! ## What is put into the flat view -/

mutual

/-- The nodes below the node of a key, in the order of `flattenInto`. -/
def below (path : Str) : ConfigValue → List (Str × ConfigValue)
  | .object members => belowMembers path members
  | .array items => belowItems path 0 items
  | _ => []

def belowMembers (path : Str) : List (Str × ConfigValue) → List (Str × ConfigValue)
  | [] => []
  | (key, value) :: rest => (joinPath path key, value) :: below (joinPath path key) value ++ belowMembers path rest

def belowItems (path : Str) (i : Nat) : List ConfigValue → List (Str × ConfigValue)
  | [] => []
  | value :: rest =>
    (joinPath path (Nat.toDigits 10 i), value) :: below (joinPath path (Nat.toDigits 10 i)) value ++
      belowItems path (i + 1) rest

end

theorem mem_belowMembers {path : Str} {members : List (Str × ConfigValue)} {e : Str × ConfigValue} :
    e ∈ belowMembers path members ↔
      ∃ m ∈ members, e = (joinPath path m.1, m.2) ∨ e ∈ below (joinPath path m.1) m.2 := by
  induction members with
  | nil => simp [belowMembers]
  | cons m members ih =>
    obtain ⟨key, value⟩ := m
    simp [belowMembers, ih, or_assoc]

theorem mem_belowItems {path : Str} {i : Nat} {items : List ConfigValue} {e : Str × ConfigValue} :
    e ∈ belowItems path i items ↔ ∃ j c, items[j]? = some c ∧
      (e = (joinPath path (Nat.toDigits 10 (i + j)), c) ∨ e ∈ below (joinPath path (Nat.toDigits 10 (i + j))) c) := by
  induction items generalizing i with
  | nil => simp [belowItems]
  | cons value items ih =>
    rw [belowItems, List.cons_append, List.mem_cons, List.mem_append, ih]
    constructor
    · rintro (heq | hmem | ⟨j, c, hc, he⟩)
      · exact ⟨0, value, rfl, .inl heq⟩
      · exact ⟨0, value, rfl, .inr hmem⟩
      · exact ⟨j + 1, c, hc, by rwa [show i + (j + 1) = i + 1 + j by omega]⟩
    · rintro ⟨j, c, hc, he⟩
      cases j with
      | zero =>
        obtain rfl := Option.some.inj hc
        exact he.imp_right .inl
      | succ j => exact .inr (.inr ⟨j, c, hc, by rwa [show i + 1 + j = i + (j + 1) by omega]⟩)

/-- One level of a tree. -/
theorem mem_below {path : Str} {node : ConfigValue} (h : WellKeyed node) {e : Str × ConfigValue} :
    e ∈ below path node ↔ ∃ s c, child s node = some c ∧
      (e = (joinPath path (spellStep s), c) ∨ e ∈ below (joinPath path (spellStep s)) c) := by
  cases h with
  | @leaf node harray hobject =>
    have hnone (s : Step) : child s node = none := by
      cases s with
      | index i => simp [child_index, harray]
      | key k => simp [child_key, hobject]
    cases node with
    | array => cases harray
    | object => cases hobject
    | _ => simp [below, hnone]
  | @array items hitems hlength =>
    rw [below, mem_belowItems]
    constructor
    · rintro ⟨j, c, hc, he⟩
      rw [Nat.zero_add] at he
      exact ⟨.index j, c, hc, he⟩
    · rintro ⟨s, c, hc, he⟩
      cases s with
      | index j => exact ⟨j, c, hc, by rwa [Nat.zero_add]⟩
      | key k => cases hc
  | @object members hmembers hkeys hnodup =>
    rw [below, mem_belowMembers]
    constructor
    · rintro ⟨⟨k, c⟩, hmem, he⟩
      exact ⟨.key k, c, (Entries.lookup_eq_some_iff hnodup).mpr hmem, he⟩
    · rintro ⟨s, c, hc, he⟩
      cases s with
      | index j => cases hc
      | key k => exact ⟨(k, c), (Entries.lookup_eq_some_iff hnodup).mp hc, he⟩

theorem get_of_mem_below {path k : Str} {node v : ConfigValue} (h : WellKeyed node) (he : (k, v) ∈ below path node) :
    ∃ p, p ≠ [] ∧ nodes.get p node = some v ∧ spellFrom path p = k := by
  induction h using WellKeyed.of_children generalizing path with
  | node node h ih =>
    obtain ⟨s, c, hc, he⟩ := (mem_below h).mp he
    rcases he with heq | he
    · obtain ⟨rfl, rfl⟩ := Prod.mk.inj heq
      exact ⟨[s], by simp, Option.bind_eq_some_iff.mpr ⟨v, hc, rfl⟩, rfl⟩
    · obtain ⟨p, -, hp, hk⟩ := ih s c hc he
      exact ⟨s :: p, by simp, Option.bind_eq_some_iff.mpr ⟨c, hc, hp⟩, hk⟩

theorem mem_below_of_get {path : Str} {p : List Step} {node v : ConfigValue} (h : WellKeyed node) (hne : p ≠ [])
    (hv : nodes.get p node = some v) : (spellFrom path p, v) ∈ below path node := by
  induction p generalizing path node with
  | nil => exact absurd rfl hne
  | cons s p ih =>
    obtain ⟨c, hc, hv⟩ := Option.bind_eq_some_iff.mp hv
    refine (mem_below h).mpr ⟨s, c, hc, ?_⟩
    cases p with
    | nil =>
      obtain rfl := Option.some.inj hv
      exact .inl rfl
    | cons t p => exact .inr (ih (h.child hc).1 (by simp) hv)

theorem joinPath_ne_nil (path : Str) {segment : Str} (h : segment ≠ []) : joinPath path segment ≠ [] := by
  unfold joinPath
  split
  · exact h
  · simp

/-- The value itself, and what is below it. -/
def own (path : Str) (value : ConfigValue) : List (Str × ConfigValue) := if path.isEmpty then [] else [(path, value)]

theorem own_joinPath (path : Str) {segment : Str} (h : segment ≠ []) (value : ConfigValue) :
    own (joinPath path segment) value = [(joinPath path segment, value)] := by
  rw [own, if_neg (by simpa using joinPath_ne_nil path h)]

theorem puts_append (l r m : List (Str × ConfigValue)) :
    Entries.puts (l ++ r) m = Entries.puts r (Entries.puts l m) :=
  List.foldl_append

mutual

theorem flattenInto_eq (flat : List (Str × ConfigValue)) (path : Str) :
    ∀ value, WellKeyed value → flattenInto flat path value = Entries.puts (own path value ++ below path value) flat
  | .object members, h => by
    cases h with
    | leaf _ hobject => cases hobject
    | object hmembers hkeys hnodup =>
      rw [flattenInto, below, puts_append, flattenMembers_eq _ path members fun m hm => ⟨hmembers m hm, (hkeys m hm).1⟩]
      unfold own
      split <;> rfl
  | .array items, h => by
    cases h with
    | leaf harray _ => cases harray
    | array hitems hlength =>
      rw [flattenInto, below, puts_append, flattenItems_eq _ path 0 items hitems]
      unfold own
      split <;> rfl
  | .null, _ | .bool _, _ | .int _, _ | .uint _, _ | .double _, _ | .string _, _ => by
    simp only [flattenInto, below, List.append_nil]
    unfold own
    split <;> rfl

theorem flattenMembers_eq (flat : List (Str × ConfigValue)) (path : Str) :
    ∀ members : List (Str × ConfigValue), (∀ m ∈ members, WellKeyed m.2 ∧ m.1 ≠ []) →
      flattenMembers flat path members = Entries.puts (belowMembers path members) flat
  | [], _ => rfl
  | (key, value) :: rest, h => by
    obtain ⟨⟨hvalue, hkey⟩, hrest⟩ := List.forall_mem_cons.mp h
    rw [flattenMembers, flattenMembers_eq _ path rest hrest, flattenInto_eq _ _ value hvalue, own_joinPath path hkey,
      ← puts_append, belowMembers]
    rfl

theorem flattenItems_eq (flat : List (Str × ConfigValue)) (path : Str) (i : Nat) :
    ∀ items : List ConfigValue, (∀ x ∈ items, WellKeyed x) →
      flattenItems flat path i items = Entries.puts (belowItems path i items) flat
  | [], _ => rfl
  | value :: rest, h => by
    obtain ⟨hvalue, hrest⟩ := List.forall_mem_cons.mp h
    rw [flattenItems, flattenItems_eq _ path (i + 1) rest hrest, flattenInto_eq _ _ value hvalue,
      own_joinPath path Nat.toDigits_ne_nil, ← puts_append, belowItems]
    rfl

end

theorem mem_flatten {root : ConfigValue} (h : WellKeyed root) {k : Str} {v : ConfigValue} :
    (k, v) ∈ flatten root ↔ ∃ p, p ≠ [] ∧ nodes.get p root = some v ∧ spell p = k := by
  have hbelow : ∀ k v, (k, v) ∈ below [] root ↔ ∃ p, p ≠ [] ∧ nodes.get p root = some v ∧ spell p = k := by
    intro k v
    constructor
    · exact get_of_mem_below h
    · rintro ⟨p, hne, hv, rfl⟩
      exact mem_below_of_get h hne hv
  rw [flatten, flattenInto_eq [] [] root h, Entries.mem_puts, ← hbelow]
  · rfl
  · intro k a b ha hb
    obtain ⟨p, -, hp, hpk⟩ := (hbelow k a).mp ha
    obtain ⟨q, -, hq, hqk⟩ := (hbelow k b).mp hb
    obtain rfl := spell_injective (h.get hp).2 (h.get hq).2 (hpk.trans hqk.symm)
    exact Option.some.inj (hp.symm.trans hq)

theorem nodup_flatten {root : ConfigValue} (h : WellKeyed root) : ((flatten root).map (·.1)).Nodup := by
  rw [flatten, flattenInto_eq [] [] root h]
  exact Entries.nodup_puts (by simp)

/-! ## Canonical paths -/

/-- An index is written without leading zeros. -/
def canonicalSegment (segment : Str) : Str :=
  if isIndexSegment segment then Nat.toDigits 10 (parseIndex segment) else segment

def canonical (path : Str) : Str := ['.'].intercalate ((splitPath path).map canonicalSegment)

theorem canonicalSegment_eq (segment : Str) : canonicalSegment segment = spellStep (stepOf segment) := by
  unfold canonicalSegment stepOf
  split <;> rfl

theorem not_mem_splitOn {c : Char} {l segment : Str} (h : segment ∈ l.splitOn c) : c ∉ segment := by
  induction l generalizing segment with
  | nil =>
    obtain rfl := List.mem_singleton.mp h
    simp
  | cons x l ih =>
    rw [List.splitOn_cons_eq_if_modifyHead] at h
    split at h
    · rcases List.mem_cons.mp h with rfl | h
      · simp
      · exact ih h
    · rename_i hx
      obtain ⟨first, rest, hsplit⟩ := List.exists_cons_of_ne_nil (List.splitOn_ne_nil c l)
      rw [hsplit, List.modifyHead_cons] at h
      rcases List.mem_cons.mp h with rfl | h
      · have hfirst : c ∉ first := ih (by simp [hsplit])
        have hne : c ≠ x := fun heq => hx (by simp [heq])
        simp [hne, hfirst]
      · exact ih (by simp [hsplit, h])

theorem dot_not_mem_splitPath {path segment : Str} (h : segment ∈ splitPath path) : '.' ∉ segment := by
  unfold splitPath at h
  split at h
  · cases h
  · exact not_mem_splitOn h

theorem canonicalSegment_plain {segment : Str} (h : '.' ∉ segment) :
    '.' ∉ canonicalSegment segment ∧ (canonicalSegment segment = [] → segment = []) := by
  unfold canonicalSegment
  split
  · exact ⟨fun hdot => absurd (isDigit_toDigits hdot) (by decide), fun hnil => absurd hnil Nat.toDigits_ne_nil⟩
  · exact ⟨h, id⟩

theorem splitPath_canonical {path : Str} (h : path ≠ []) :
    splitPath (canonical path) = (splitPath path).map canonicalSegment := by
  have hparts := splitPath_ne_nil h
  have hsplit : (canonical path).splitOn '.' = (splitPath path).map canonicalSegment := by
    refine List.splitOn_intercalate '.' (fun l hl => ?_) (by simpa using hparts)
    obtain ⟨segment, hsegment, rfl⟩ := List.mem_map.mp hl
    exact (canonicalSegment_plain (dot_not_mem_splitPath hsegment)).1
  have hne : canonical path ≠ [] := by
    intro hnil
    rw [hnil] at hsplit
    have hone : splitPath path = [[]] := by
      obtain ⟨segment, rest, hpath⟩ := List.exists_cons_of_ne_nil hparts
      rw [hpath, List.map_cons] at hsplit
      obtain ⟨hfirst, hrest⟩ := List.cons.inj hsplit
      have hmem : segment ∈ splitPath path := by simp [hpath]
      rw [hpath, (canonicalSegment_plain (dot_not_mem_splitPath hmem)).2 hfirst.symm,
        List.map_eq_nil_iff.mp hrest.symm]
    rw [splitPath, if_neg (by simpa using h)] at hone
    have hjoin : ['.'].intercalate (path.splitOn '.') = path := List.intercalate_splitOn '.'
    rw [hone, List.intercalate_singleton] at hjoin
    exact h hjoin.symm
  rw [splitPath, if_neg (by simpa using hne), hsplit]

theorem steps_canonical {path : Str} (h : path ≠ []) : steps (canonical path) = steps path := by
  rw [steps, splitPath_canonical h, List.map_map]
  refine List.map_congr_left fun segment _ => ?_
  show stepOf (canonicalSegment segment) = stepOf segment
  rw [canonicalSegment_eq]
  cases hseg : isIndexSegment segment with
  | true =>
    rw [stepOf_index hseg, parseIndex_eq]
    exact stepOf_spellStep (s := .index _) (Nat.mod_lt _ (by decide))
  | false => rw [stepOf_key hseg, spellStep, stepOf_key hseg]

/-- A path of a node is, in canonical form, its key. -/
theorem spell_steps {path : Str} (h : path ≠ []) (hp : ∀ s ∈ steps path, s.Spellable) :
    spell (steps path) = canonical path := by
  refine splitPath_injective ?_
  rw [splitPath_spell hp, splitPath_canonical h, steps, List.map_map]
  exact List.map_congr_left fun segment _ => (canonicalSegment_eq segment).symm

/-! ## The flat view and `get` -/

/-- The entries of `values()` are the nodes below the root, and the paths to them those that `get` finds. -/
structure FlatAgrees (c : Config) : Prop where
  keys : ((values c).flatValues.map (·.1)).Nodup
  /-- an entry for each node, and no other -/
  entries : ∀ k v, (k, v) ∈ (values c).flatValues ↔ ∃ p, p ≠ [] ∧ nodes.get p c.root = some v ∧ spell p = k
  /-- no two nodes share a key -/
  apart : ∀ p q v w, nodes.get p c.root = some v → nodes.get q c.root = some w → spell p = spell q → p = q
  get : ∀ e ∈ (values c).flatValues, Config.get c e.1 = .ok e.2
  found : ∀ q, q ≠ [] → ((∃ v, Config.get c q = .ok v) ↔ canonical q ∈ (values c).flatValues.map (·.1))

theorem flatAgrees_of_upToDate {c : Config} (h : WellKeyed c.root) (hfresh : UpToDate c) : FlatAgrees c := by
  have hflat : (values c).flatValues = flatten c.root := by
    unfold values
    split
    · rfl
    · rename_i hclean
      exact hfresh (by simpa using hclean)
  refine ⟨?_, ?_, ?_, ?_, ?_⟩
  · rw [hflat]
    exact nodup_flatten h
  · intro k v
    rw [hflat]
    exact mem_flatten h
  · intro p q v w hp hq heq
    exact spell_injective (h.get hp).2 (h.get hq).2 heq
  · intro e he
    rw [hflat] at he
    obtain ⟨p, hne, hp, hk⟩ := (mem_flatten h (k := e.1) (v := e.2)).mp he
    rw [get_ok_iff, ← hk, steps_spell (h.get hp).2, hp]
  · intro q hq
    rw [hflat]
    constructor
    · rintro ⟨v, hv⟩
      rw [get_ok_iff] at hv
      have hkey : (canonical q, v) ∈ flatten c.root := (mem_flatten h).mpr
        ⟨steps q, by simpa [steps] using splitPath_ne_nil hq, hv, spell_steps hq (h.get hv).2⟩
      exact List.mem_map_of_mem (f := (·.1)) hkey
    · intro hkey
      obtain ⟨⟨k, v⟩, hmem, hk⟩ := List.mem_map.mp hkey
      obtain ⟨p, -, hp, hspell⟩ := (mem_flatten h).mp hmem
      refine ⟨v, get_ok_iff.mpr ?_⟩
      have hk : k = canonical q := hk
      rw [← steps_canonical hq, ← hk, ← hspell, steps_spell (h.get hp).2, hp]

/-! ## Trees that are built by `set` -/

/-- A value that is no container. -/
def Scalar (value : ConfigValue) : Prop := value.isArray = false ∧ value.isObject = false

theorem WellKeyed.items {node : ConfigValue} (h : WellKeyed node) :
    (∀ x ∈ node.asArray, WellKeyed x) ∧ node.asArray.length < 2 ^ 64 := by
  cases h with
  | @leaf node harray hobject =>
    cases node with
    | array => cases harray
    | _ => simp [ConfigValue.asArray]
  | array hitems hlength => exact ⟨hitems, hlength⟩
  | object => simp [ConfigValue.asArray]

theorem WellKeyed.members {node : ConfigValue} (h : WellKeyed node) :
    (∀ m ∈ node.asObject, WellKeyed m.2 ∧ Namable m.1) ∧ (node.asObject.map (·.1)).Nodup := by
  cases h with
  | @leaf node harray hobject =>
    cases node with
    | object => cases hobject
    | _ => simp [ConfigValue.asObject]
  | array => simp [ConfigValue.asObject]
  | object hmembers hkeys hnodup => exact ⟨fun m hm => ⟨hmembers m hm, hkeys m hm⟩, hnodup⟩

theorem wellKeyed_null : WellKeyed .null := .leaf rfl rfl

theorem WellKeyed.resize {items : List ConfigValue} (h : ∀ x ∈ items, WellKeyed x) (n : Nat) :
    ∀ x ∈ Config.resize items n, WellKeyed x := by
  intro x hx
  rcases List.mem_append.mp hx with hx | hx
  · exact h x (List.mem_of_mem_take hx)
  · rw [List.eq_of_mem_replicate hx]
    exact wellKeyed_null

theorem WellKeyed.put {members : List (Str × ConfigValue)} {k : Str} {x : ConfigValue}
    (h : ∀ m ∈ members, WellKeyed m.2 ∧ Namable m.1) (hnodup : (members.map (·.1)).Nodup) (hk : Namable k)
    (hx : WellKeyed x) : WellKeyed (.object (Entries.put k x members)) := by
  have hboth : ∀ m ∈ Entries.put k x members, WellKeyed m.2 ∧ Namable m.1 := by
    rintro ⟨k', y⟩ hm
    rcases (Entries.mem_put hnodup).mp hm with ⟨rfl, rfl⟩ | ⟨-, hmem⟩
    · exact ⟨hx, hk⟩
    · exact h _ hmem
  exact .object (fun m hm => (hboth m hm).1) (fun m hm => (hboth m hm).2) (Entries.nodup_put hnodup)

theorem WellKeyed.assignPath {node value t : ConfigValue} {parts : List Str} (h : WellKeyed node) (hvalue : WellKeyed value)
    (hparts : ∀ segment ∈ parts, segment ≠ [] ∧ '.' ∉ segment) (ht : Config.assignPath node parts value = some t) :
    WellKeyed t := by
  induction parts generalizing node t with
  | nil => cases ht
  | cons part parts ih =>
    obtain ⟨hpart, hrest⟩ := List.forall_mem_cons.mp hparts
    have hchild {c d : ConfigValue} (hc : WellKeyed c)
        (hd : (if parts.isEmpty then some value else Config.assignPath c parts value) = some d) : WellKeyed d := by
      split at hd
      · obtain rfl := Option.some.inj hd
        exact hvalue
      · exact ih hc hrest hd
    obtain ⟨hitems, hlength⟩ := h.items
    obtain ⟨hmembers, hnodup⟩ := h.members
    rw [Config.assignPath] at ht
    cases hseg : isIndexSegment part with
    | true =>
      simp only [hseg, if_true] at ht
      generalize harr : (if node.asArray.length ≤ parseIndex part then
        Config.resize node.asArray ((parseIndex part + 1) % 2 ^ 64) else node.asArray) = arr at ht
      have harr' : (∀ x ∈ arr, WellKeyed x) ∧ arr.length < 2 ^ 64 := by
        rw [← harr]
        split
        · rw [length_resize]
          exact ⟨WellKeyed.resize hitems _, Nat.mod_lt _ (by decide)⟩
        · exact ⟨hitems, hlength⟩
      split at ht
      · cases ht
      · rename_i c hc
        obtain ⟨d, hd, rfl⟩ := Option.map_eq_some_iff.mp ht
        refine .array (fun x hx => ?_) (by rw [List.length_set]; exact harr'.2)
        rcases List.mem_or_eq_of_mem_set hx with hx | rfl
        · exact harr'.1 x hx
        · exact hchild (harr'.1 c (List.mem_of_getElem? hc)) hd
    | false =>
      simp only [hseg, Bool.false_eq_true, if_false] at ht
      obtain ⟨d, hd, rfl⟩ := Option.map_eq_some_iff.mp ht
      refine WellKeyed.put hmembers hnodup ⟨hpart.1, hpart.2, hseg⟩ (hchild ?_ hd)
      cases hfound : node.asObject.lookup part with
      | none => exact wellKeyed_null
      | some c => exact (hmembers _ ((Entries.lookup_eq_some_iff hnodup).mp hfound)).1

/-- A `set` of a scalar along segments that are not empty, or a call of `values()`. -/
def Plain : Act → Prop
  | .set path value => (∀ segment ∈ splitPath path, segment ≠ []) ∧ Scalar value
  | .values => True
  | _ => False

theorem set_wellKeyed {c c' : Config} {path : Str} {value : ConfigValue} (h : WellKeyed c.root)
    (hparts : ∀ segment ∈ splitPath path, segment ≠ []) (hvalue : Scalar value) (hset : set c path value = some c') :
    WellKeyed c'.root := by
  have hleaf : WellKeyed value := .leaf hvalue.1 hvalue.2
  unfold set at hset
  split at hset
  · obtain rfl := Option.some.inj hset
    exact hleaf
  · simp only at hset
    split at hset
    · obtain rfl := Option.some.inj hset
      exact hleaf
    · obtain ⟨root, hroot, rfl⟩ := Option.map_eq_some_iff.mp hset
      exact h.assignPath hleaf (fun segment hseg => ⟨hparts segment hseg, dot_not_mem_splitPath hseg⟩) hroot

theorem Plain.wellKeyed {c c' : Config} {a : Act} (ha : Plain a) (h : WellKeyed c.root) (hstep : step c a = some c') :
    WellKeyed c'.root := by
  cases a with
  | set path value => exact set_wellKeyed h ha.1 ha.2 hstep
  | values =>
    obtain rfl := Option.some.inj hstep
    unfold values
    split
    · exact h
    · exact h
  | _ => exact ha.elim

theorem Plain.noted {a : Act} (ha : Plain a) (c : Config) : noted c a = true := by
  cases a with
  | set | values => rfl
  | _ => exact ha.elim

/-- Any tree in which every key can be named, and any that is built by `set` from scalars. -/
theorem flat_view_agrees :
    (∀ c root, WellKeyed root → FlatAgrees (setRoot c root)) ∧
      ∀ c, machine.Reach (fun _ a => Plain a) c → FlatAgrees c := by
  constructor
  · intro c root h
    exact flatAgrees_of_upToDate h fun hclean => by cases hclean
  · intro c h
    have hboth : WellKeyed c.root ∧ UpToDate c := by
      refine h.inv (I := fun c => WellKeyed c.root ∧ UpToDate c) ⟨?_, fun hclean => by cases hclean⟩ ?_
      · exact .object (by simp) (by simp) (by simp)
      · intro s a s' hI hok hstep
        exact ⟨hok.wellKeyed hI.1 hstep, hI.2.step (hok.noted s) hstep⟩
    exact flatAgrees_of_upToDate hboth.1 hboth.2

/-- An array of two, from one `set` of its second item. -/
theorem flat_view_agrees_two :
    FlatAgrees (setRoot make (.array [.bool true])) ∧
      ∃ c, FlatAgrees c ∧ get c "a.01".toList = .ok (.int 5) ∧ canonical "a.01".toList = "a.1".toList ∧
        (values c).flatValues.map (·.1) = ["a".toList, "a.0".toList, "a.1".toList] := by
  have hitem : WellKeyed (.bool true) := .leaf rfl rfl
  have htree : WellKeyed (.array [.bool true]) := .array (by simp [hitem]) (by simp)
  have hplain : Plain (.set "a.01".toList (.int 5)) := ⟨by decide, rfl, rfl⟩
  have hreach : machine.Reach (fun _ a => Plain a)
      ⟨.object [("a".toList, .array [.null, .int 5])], true, []⟩ := .step .init hplain rfl
  exact ⟨flat_view_agrees.1 make _ htree, _, flat_view_agrees.2 _ hreach, rfl, by decide, rfl⟩

end Dbase.Config
