/-
  Dbase.Config.IniConfigProofs — which assignments of an INI text can be read back, and when loading it has a result.

  The lines up to the first malformed one come to a list of assignments, and these, unless one faults, to writes along
  steps (`Nodes.writes`). The values are leaves, so that what is read is what was written last without a later write
  that touches it (`Nodes.get_writes`). An index and a key below one node clash.

  Loading faults if and only if an index is larger than the arrays can get: they stay below that size (`Sized`).
-/

import Dbase.Config.IniConfig
import Dbase.Lib.Writes

namespace Dbase.Config

open Dbase.Lib

/-! ## Writes of leaves -/

/-- A value that a text can stand for: no container, and not null. -/
def Leaf (v : ConfigValue) : Prop := Scalar v ∧ v ≠ .null

/-- One asks for an array and the other for an object. -/
def clash : Step → Step → Bool
  | .index _, .key _ | .key _, .index _ => true
  | _, _ => false

theorem child_scalar {v : ConfigValue} (h : Scalar v) (s : Step) : child s v = none := by
  cases s with
  | index i => simp [child_index, h.1]
  | key k => simp [child_key, h.2]

/-- An array grows by nulls. -/
theorem grown_other (i j : Nat) (node : ConfigValue) :
    (grown i node)[j]? = node.asArray[j]? ∨ (node.asArray[j]? = none ∧ (grown i node)[j]? = some .null) := by
  unfold grown
  split
  · rename_i hle
    rw [resize, List.take_of_length_le (by omega)]
    by_cases hj : j < node.asArray.length
    · exact .inl (List.getElem?_append_left hj)
    · have hnone : node.asArray[j]? = none := List.getElem?_eq_none (by omega)
      rw [List.getElem?_append_right (by omega), List.getElem?_replicate, hnone]
      split
      · exact .inr ⟨rfl, rfl⟩
      · exact .inl rfl
  · exact .inl rfl

theorem nodes_clashing : nodes.Clashing clash Leaf where
  lawful := nodes_lawful
  leaf_child s v hv := child_scalar hv.1 s
  place_leaf s node x hleaf := by
    cases s with
    | index i => cases hleaf.1.1
    | key k => cases hleaf.1.2
  blank_child s := child_scalar ⟨rfl, rfl⟩ s
  blank_leaf hleaf := hleaf.2 rfl
  lost s t node x hne hclash := by
    cases s with
    | index i =>
      cases t with
      | index j => cases hclash
      | key k => rfl
    | key k =>
      cases t with
      | index j => rfl
      | key k' => cases hclash
  kept s t node x hne hclash := by
    cases s with
    | index i =>
      cases t with
      | key k => cases hclash
      | index j =>
        have hij : i ≠ j := fun heq => hne (heq ▸ rfl)
        show ((grown i node).set i x)[j]? = child (.index j) node ∨ _ ∧ ((grown i node).set i x)[j]? = some .null
        rw [List.getElem?_set_ne hij]
        show _ ∨ child (.index j) node = none ∧ _
        have harray : child (.index j) node = node.asArray[j]? := by
          cases node <;> rfl
        rw [harray]
        exact grown_other i j node
    | key k =>
      cases t with
      | index j => cases hclash
      | key k' =>
        have hkk : k' ≠ k := fun heq => hne (heq ▸ rfl)
        left
        show (Entries.put k x node.asObject).lookup k' = child (.key k') node
        rw [Entries.lookup_put_ne hkk]
        cases node <;> rfl

theorem leaf_parseValue (strtod : Str → Option UInt64) (raw : Str) : Leaf (IniConfig.parseValue strtod raw) := by
  unfold IniConfig.parseValue
  simp only
  split
  · exact ⟨⟨rfl, rfl⟩, by simp⟩
  · split
    · exact ⟨⟨rfl, rfl⟩, by simp⟩
    · split
      · exact ⟨⟨rfl, rfl⟩, by simp⟩
      · exact ⟨⟨rfl, rfl⟩, by simp⟩

/-! ## The sizes of arrays -/

/-- Indices below it do not fault. -/
def room (limit : Nat) : Nat := min limit (2 ^ 64 - 1)

/-- No array is larger than there is room. -/
inductive Sized (limit : Nat) : ConfigValue → Prop
  | leaf {v : ConfigValue} : Scalar v → Sized limit v
  | array {items : List ConfigValue} : (∀ x ∈ items, Sized limit x) → items.length ≤ room limit →
      Sized limit (.array items)
  | object {members : List (Str × ConfigValue)} : (∀ m ∈ members, Sized limit m.2) → Sized limit (.object members)

variable {limit : Nat}

theorem Sized.items {node : ConfigValue} (h : Sized limit node) :
    (∀ x ∈ node.asArray, Sized limit x) ∧ node.asArray.length ≤ room limit := by
  cases h with
  | leaf hscalar =>
    cases node with
    | array => cases hscalar.1
    | _ => exact ⟨by simp [ConfigValue.asArray], Nat.zero_le _⟩
  | array hitems hlength => exact ⟨hitems, hlength⟩
  | object => exact ⟨by simp [ConfigValue.asArray], Nat.zero_le _⟩

theorem Sized.members {node : ConfigValue} (h : Sized limit node) : ∀ m ∈ node.asObject, Sized limit m.2 := by
  cases h with
  | leaf hscalar =>
    cases node with
    | object => cases hscalar.2
    | _ => simp [ConfigValue.asObject]
  | array => simp [ConfigValue.asObject]
  | object hmembers => exact hmembers

theorem sized_null : Sized limit .null := .leaf ⟨rfl, rfl⟩

theorem Sized.child {node : ConfigValue} (h : Sized limit node) (s : Step) :
    Sized limit ((Config.child s node).getD .null) := by
  cases hc : Config.child s node with
  | none => exact sized_null
  | some c =>
    cases s with
    | index i =>
      rw [child_index] at hc
      split at hc
      · exact h.items.1 c (List.mem_of_getElem? hc)
      · cases hc
    | key k =>
      rw [child_key] at hc
      split at hc
      · obtain ⟨before, after, hsplit, -⟩ := List.lookup_eq_some_iff.mp hc
        exact h.members (k, c) (by simp [hsplit])
      · cases hc

theorem length_grown (i : Nat) (node : ConfigValue) : (grown i node).length = max node.asArray.length (i + 1) := by
  unfold grown
  split
  · rw [length_resize]
    omega
  · omega

theorem Sized.place {node x : ConfigValue} (h : Sized limit node) (hx : Sized limit x) {s : Step}
    (hs : ∀ i, s = .index i → i < room limit) : Sized limit (Config.place s node x) := by
  cases s with
  | index i =>
    obtain ⟨hitems, hlength⟩ := h.items
    have hroom := hs i rfl
    rw [place_index]
    refine .array (fun y hy => ?_) (by rw [List.length_set, length_grown]; omega)
    rcases List.mem_or_eq_of_mem_set hy with hy | rfl
    · obtain ⟨j, hj⟩ := List.mem_iff_getElem?.mp hy
      rcases grown_other i j node with heq | ⟨-, hnull⟩
      · exact hitems y (List.mem_of_getElem? (heq ▸ hj))
      · obtain rfl := Option.some.inj (hj.symm.trans hnull)
        exact sized_null
    · exact hx
  | key k =>
    refine .object fun m hm => ?_
    rcases Entries.of_mem_put hm with heq | hmem
    · rw [heq]
      exact hx
    · exact h.members m hmem

theorem Sized.set {node v : ConfigValue} {p : List Step} (h : Sized limit node) (hv : Sized limit v)
    (hp : ∀ i, Step.index i ∈ p → i < room limit) : Sized limit (nodes.set p node v) := by
  induction p generalizing node with
  | nil => exact hv
  | cons s p ih =>
    rw [Nodes.set]
    refine Sized.place h (ih (h.child s) fun i hi => hp i (List.mem_cons_of_mem _ hi)) fun i hi => ?_
    exact hp i (by simp [hi])

/-! ## One assignment -/

/-- There is room for every index of a path. -/
def Fits (limit : Nat) (parts : List Str) : Prop :=
  ∀ segment ∈ parts, isIndexSegment segment = true → parseIndex segment < room limit

theorem Fits.steps {parts : List Str} (h : Fits limit parts) {i : Nat} (hi : Step.index i ∈ parts.map stepOf) :
    i < room limit := by
  obtain ⟨segment, hmem, hstep⟩ := List.mem_map.mp hi
  cases hseg : isIndexSegment segment with
  | true =>
    rw [stepOf_index hseg] at hstep
    obtain rfl := Step.index.inj hstep
    exact h segment hmem hseg
  | false =>
    rw [stepOf_key hseg] at hstep
    cases hstep

/-- What there is no node for is out of bounds. -/
def orFault : Option ConfigValue → Except Fault ConfigValue
  | some t => .ok t
  | none => .error .outOfBounds

/-- Where there is room, the size of a vector makes no difference. -/
theorem assignPathIn_eq (node : ConfigValue) {parts : List Str} (h : Fits limit parts) (value : ConfigValue) :
    assignPathIn limit node parts value = orFault (assignPath node parts value) := by
  induction parts generalizing node with
  | nil => rfl
  | cons part parts ih =>
    obtain ⟨hpart, hparts⟩ := List.forall_mem_cons.mp h
    have hrest (c : ConfigValue) : (if parts.isEmpty then .ok value else assignPathIn limit c parts value) =
        orFault (if parts.isEmpty then some value else assignPath c parts value) := by
      split
      · rfl
      · exact ih c hparts
    have hmap (f : ConfigValue → ConfigValue) (o : Option ConfigValue) : (orFault o).map f = orFault (o.map f) := by
      cases o <;> rfl
    rw [assignPathIn, assignPath]
    cases hseg : isIndexSegment part with
    | true =>
      have hroom := hpart hseg
      have hfits : ¬ (node.asArray.length ≤ parseIndex part ∧ limit < (parseIndex part + 1) % 2 ^ 64) := by
        rw [room] at hroom
        omega
      simp only [if_true, hfits, if_false]
      generalize (if node.asArray.length ≤ parseIndex part then
        resize node.asArray ((parseIndex part + 1) % 2 ^ 64) else node.asArray) = arr
      cases arr[parseIndex part]? with
      | none => rfl
      | some c => exact (congrArg _ (hrest c)).trans (hmap _ _)
    | false =>
      simp only [Bool.false_eq_true, if_false]
      rw [hrest, hmap]

theorem assignPathIn_ok (node : ConfigValue) {parts : List Str} (hparts : parts ≠ []) (h : Fits limit parts)
    (value : ConfigValue) :
    assignPathIn limit node parts value = .ok (nodes.set (parts.map stepOf) node value) := by
  rw [assignPathIn_eq node h, assignPath_eq node hparts]
  · rfl
  · intro segment hmem hseg
    have hroom := h segment hmem hseg
    rw [room] at hroom
    omega

/-- Where there is none, it faults. -/
theorem assignPathIn_fault {node : ConfigValue} (hsized : Sized limit node) {parts : List Str} (h : ¬ Fits limit parts)
    (value : ConfigValue) : ∃ fault, assignPathIn limit node parts value = .error fault := by
  induction parts generalizing node with
  | nil => exact absurd (by simp [Fits]) h
  | cons part parts ih =>
    obtain ⟨hitems, hlength⟩ := hsized.items
    have hrest {c : ConfigValue} (hc : Sized limit c) (hparts : ¬ Fits limit parts) (f : ConfigValue → ConfigValue) :
        ∃ fault, (if parts.isEmpty then .ok value else assignPathIn limit c parts value).map f = .error fault := by
      obtain ⟨fault, hfault⟩ := ih hc hparts
      have hne : parts ≠ [] := by
        rintro rfl
        exact hparts (by simp [Fits])
      rw [if_neg (by simpa using hne), hfault]
      exact ⟨fault, rfl⟩
    rw [assignPathIn]
    cases hseg : isIndexSegment part with
    | true =>
      simp only [if_true]
      split
      · exact ⟨_, rfl⟩
      · rename_i hfits
        by_cases hroom : parseIndex part < room limit
        · have hsize : (parseIndex part + 1) % 2 ^ 64 = parseIndex part + 1 := by
            rw [room] at hroom
            exact Nat.mod_eq_of_lt (by omega)
          have hparts : ¬ Fits limit parts := fun hparts => h (List.forall_mem_cons.mpr ⟨fun _ => hroom, hparts⟩)
          have hself := getElem?_grown_self (parseIndex part) node
          rw [grown] at hself
          rw [hsize, hself]
          exact hrest (hsized.child _) hparts _
        · have hmod := Nat.mod_lt (parseIndex part) (show 0 < 2 ^ 64 by decide)
          have hparse := parseIndex_eq part
          have hzero : (parseIndex part + 1) % 2 ^ 64 = 0 := by
            rw [room] at hroom hlength
            omega
          have hnone : (resize node.asArray 0)[parseIndex part]? = none :=
            List.getElem?_eq_none (by rw [length_resize]; exact Nat.zero_le _)
          rw [hzero, if_pos (by rw [room] at hroom hlength; omega), hnone]
          exact ⟨_, rfl⟩
    | false =>
      simp only [Bool.false_eq_true, if_false]
      have hparts : ¬ Fits limit parts := fun hparts =>
        h (List.forall_mem_cons.mpr ⟨fun hindex => by simp [hseg] at hindex, hparts⟩)
      rw [lookup_getD]
      exact hrest (hsized.child _) hparts _

theorem splitPath_nil_iff {path : Str} : splitPath path = [] ↔ path = [] := by
  constructor
  · intro h
    by_contra hne
    exact splitPath_ne_nil hne h
  · rintro rfl
    rfl

theorem setIn_ok {path : Str} (hpath : path ≠ []) (h : Fits limit (splitPath path)) (c : Config) (v : ConfigValue) :
    setIn limit c path v = .ok { c with root := nodes.set (steps path) c.root v, flatCacheDirty := true } := by
  have hparts := splitPath_ne_nil hpath
  rw [setIn, if_neg (by simpa using hpath)]
  simp only
  rw [if_neg (by simpa using hparts), assignPathIn_ok c.root hparts h v]
  rfl

theorem setIn_fault {c : Config} {path : Str} (hsized : Sized limit c.root) (h : ¬ Fits limit (splitPath path))
    (v : ConfigValue) : ∃ fault, setIn limit c path v = .error fault := by
  have hparts : splitPath path ≠ [] := by
    intro hnil
    exact h (by simp [hnil, Fits])
  have hpath : path ≠ [] := fun hnil => hparts (splitPath_nil_iff.mpr hnil)
  obtain ⟨fault, hfault⟩ := assignPathIn_fault hsized h v
  rw [setIn, if_neg (by simpa using hpath)]
  simp only
  rw [if_neg (by simpa using hparts), hfault]
  exact ⟨fault, rfl⟩

namespace IniConfig

/-! ## The assignments of a text -/

def isMalformed : Line → Bool
  | .malformed _ => true
  | _ => false

/-- The full path and the text of the value of each assignment, up to the first malformed line. -/
def assignments (currentSection : Str) : List Str → List (Str × Str)
  | [] => []
  | line :: rest =>
    match readLine line with
    | .blank => assignments currentSection rest
    | .header name => assignments name rest
    | .malformed _ => []
    | .assignment key value => (fullPath currentSection key, value) :: assignments currentSection rest

def wellFormed (content : Str) : Bool := (lines content).all fun line => !isMalformed (readLine line)

theorem readLine_key {line key value : Str} (h : readLine line = .assignment key value) : key ≠ [] := by
  unfold readLine at h
  simp only at h
  generalize trim (if line.getLast? = some '\r' then line.dropLast else line) = trimmed at h
  repeat' split at h
  case h_2.isFalse hkey =>
    obtain ⟨rfl, -⟩ := Line.assignment.inj h
    simpa using hkey
  all_goals cases h

theorem fullPath_ne_nil (currentSection : Str) {key : Str} (h : key ≠ []) : fullPath currentSection key ≠ [] := by
  unfold fullPath
  split
  · exact h
  · simp

/-- The writes that the assignments come to. -/
def writesOf (strtod : Str → Option UInt64) (as : List (Str × Str)) : List (List Step × ConfigValue) :=
  as.map fun a => (steps a.1, parseValue strtod a.2)

/-- There is room for every index of every path. -/
def AllFit (limit : Nat) (as : List (Str × Str)) : Prop := ∀ a ∈ as, Fits limit (splitPath a.1)

theorem loop_ok (strtod : Str → Option UInt64) (c : Config) (currentSection : Str) (lineNo : Nat) {ls : List Str}
    (h : AllFit limit (assignments currentSection ls)) :
    (∃ r, loop limit strtod c currentSection lineNo ls = .ok r) ∧
      ((ls.all fun line => !isMalformed (readLine line)) = true → ∃ c',
        loop limit strtod c currentSection lineNo ls = .ok (.ok c') ∧
          c'.root = nodes.writes (writesOf strtod (assignments currentSection ls)) c.root) ∧
      ((ls.all fun line => !isMalformed (readLine line)) = false → ∃ e,
        loop limit strtod c currentSection lineNo ls = .ok (.error e)) := by
  induction ls generalizing c currentSection lineNo with
  | nil => exact ⟨⟨_, rfl⟩, fun _ => ⟨c, rfl, rfl⟩, fun h => by cases h⟩
  | cons line ls ih =>
    rw [loop, List.all_cons]
    rw [assignments] at h
    rw [assignments]
    cases hline : readLine line with
    | blank =>
      rw [hline] at h
      exact ih c currentSection (lineNo + 1) h
    | header name =>
      rw [hline] at h
      exact ih c name (lineNo + 1) h
    | malformed message =>
      simp only [isMalformed, Bool.not_true, Bool.false_and]
      exact ⟨⟨_, rfl⟩, fun hwell => absurd hwell Bool.false_ne_true, fun _ => ⟨_, rfl⟩⟩
    | assignment key value =>
      rw [hline] at h
      obtain ⟨hfits, hrest⟩ := List.forall_mem_cons.mp h
      have hpath := fullPath_ne_nil currentSection (readLine_key hline)
      simp only [setIn_ok hpath hfits]
      exact ih _ currentSection (lineNo + 1) hrest

theorem loop_fault (strtod : Str → Option UInt64) {c : Config} (hsized : Sized limit c.root) {currentSection : Str}
    (lineNo : Nat) {ls : List Str} (h : ¬ AllFit limit (assignments currentSection ls)) :
    ∃ fault, loop limit strtod c currentSection lineNo ls = .error fault := by
  induction ls generalizing c currentSection lineNo with
  | nil => exact absurd (by simp [assignments, AllFit]) h
  | cons line ls ih =>
    rw [loop]
    rw [assignments] at h
    cases hline : readLine line with
    | blank =>
      rw [hline] at h
      exact ih hsized (lineNo + 1) h
    | header name =>
      rw [hline] at h
      exact ih hsized (lineNo + 1) h
    | malformed message =>
      rw [hline] at h
      exact absurd (by simp [AllFit]) h
    | assignment key value =>
      rw [hline] at h
      have hpath := fullPath_ne_nil currentSection (readLine_key hline)
      by_cases hfits : Fits limit (splitPath (fullPath currentSection key))
      · simp only [setIn_ok hpath hfits]
        have hleaf := leaf_parseValue strtod value
        refine ih (hsized.set (.leaf hleaf.1) fun i hi => hfits.steps hi) (lineNo + 1) fun hall => h ?_
        exact List.forall_mem_cons.mpr ⟨hfits, hall⟩
      · obtain ⟨fault, hfault⟩ := setIn_fault hsized hfits (parseValue strtod value)
        simp only [hfault]
        exact ⟨fault, rfl⟩

/-! ## What can be read back -/

/-- An assignment whose path is not assigned later, and is neither a prefix nor an extension of another path. -/
def Lone (as : List (Str × Str)) (path value : Str) : Prop :=
  ∃ before after, as = before ++ (path, value) :: after ∧ (∀ a ∈ after, a.1 ≠ path) ∧
    ∀ a ∈ as, a.1 ≠ path → ¬ splitPath a.1 <+: splitPath path ∧ ¬ splitPath path <+: splitPath a.1

/-- It is written, and nothing after it touches its path. -/
def Untouched (strtod : Str → Option UInt64) (as : List (Str × Str)) (path value : Str) : Prop :=
  ∃ before path' value' after, as = before ++ (path', value') :: after ∧ steps path' = steps path ∧
    parseValue strtod value' = parseValue strtod value ∧ ∀ a ∈ after, Nodes.touches clash (steps a.1) (steps path) = false

/-- Loading has a result, and if it succeeds, each of these assignments can be read back. -/
def Loads (limit : Nat) (strtod : Str → Option UInt64) (content : Str) : Prop :=
  (∃ r, parse limit strtod content = .ok r) ∧
    ∀ c, parse limit strtod content = .ok (.ok c) → ∀ path value, Lone (assignments [] (lines content)) path value →
      get c path = .ok (parseValue strtod value)

theorem stays_writesOf {strtod : Str → Option UInt64} {as : List (Str × Str)} {path value : Str} :
    Nodes.Stays clash (writesOf strtod as) (steps path) (parseValue strtod value) ↔ Untouched strtod as path value := by
  constructor
  · rintro ⟨before, after, heq, hafter⟩
    obtain ⟨before', rest, rfl, -, hrest⟩ := List.map_eq_append_iff.mp heq
    obtain ⟨⟨path', value'⟩, after', rfl, hwrite, rfl⟩ := List.map_eq_cons_iff.mp hrest
    obtain ⟨hpath, hvalue⟩ := Prod.mk.inj hwrite
    exact ⟨before', path', value', after', rfl, hpath, hvalue, fun a ha => hafter _ (List.mem_map_of_mem ha)⟩
  · rintro ⟨before, path', value', after, rfl, hpath, hvalue, hafter⟩
    refine ⟨writesOf strtod before, writesOf strtod after, by simp [writesOf, hpath, hvalue], fun w hw => ?_⟩
    obtain ⟨a, ha, rfl⟩ := List.mem_map.mp hw
    exact hafter a ha

theorem get_loaded {strtod : Str → Option UInt64} {as : List (Str × Str)} {c : Config} {path value : Str}
    (h : c.root = nodes.writes (writesOf strtod as) make.root) :
    get c path = .ok (parseValue strtod value) ↔ Untouched strtod as path value := by
  have hleaf := leaf_parseValue strtod value
  have hmake : nodes.get (steps path) make.root ≠ some (parseValue strtod value) := by
    intro hget
    cases hsteps : steps path with
    | nil =>
      rw [hsteps] at hget
      rw [← Option.some.inj hget] at hleaf
      cases hleaf.1.2
    | cons s p =>
      have hnone : nodes.child s make.root = none := by
        cases s <;> rfl
      rw [hsteps, Nodes.get, hnone] at hget
      cases hget
  rw [get_ok_iff, h, ← stays_writesOf]
  refine Nodes.get_writes nodes_clashing (fun w hw => ?_) hleaf hmake
  obtain ⟨a, -, rfl⟩ := List.mem_map.mp hw
  exact leaf_parseValue strtod a.2

/-- Exactly when there is room for every index, and what an assignment of that kind writes is there after all of them. -/
theorem ini_loads_iff (limit : Nat) (strtod : Str → Option UInt64) (content : Str) :
    Loads limit strtod content ↔
      (∀ a ∈ assignments [] (lines content), ∀ segment ∈ splitPath a.1, isIndexSegment segment = true →
        parseIndex segment < min limit (2 ^ 64 - 1)) ∧
      (wellFormed content = true → ∀ path value, Lone (assignments [] (lines content)) path value →
        Untouched strtod (assignments [] (lines content)) path value) := by
  constructor
  · rintro ⟨⟨r, hr⟩, hloads⟩
    have hfit : AllFit limit (assignments [] (lines content)) := by
      by_contra hno
      obtain ⟨fault, hfault⟩ := loop_fault strtod (c := make) (.object (by simp)) 0 hno
      rw [parse, hfault] at hr
      cases hr
    refine ⟨hfit, fun hwell path value hlone => ?_⟩
    obtain ⟨c, hc, hroot⟩ := (loop_ok strtod make [] 0 hfit).2.1 hwell
    exact (get_loaded hroot).mp (hloads c hc path value hlone)
  · rintro ⟨hfit, hkept⟩
    have hfit : AllFit limit (assignments [] (lines content)) := hfit
    obtain ⟨hresult, hok, herror⟩ := loop_ok strtod make [] 0 hfit
    refine ⟨hresult, fun c hc path value hlone => ?_⟩
    cases hwell : wellFormed content with
    | true =>
      obtain ⟨c', hc', hroot⟩ := hok hwell
      obtain rfl : c' = c := by
        rw [parse, hc'] at hc
        exact Except.ok.inj (Except.ok.inj hc)
      exact (get_loaded hroot).mpr (hkept hwell path value hlone)
    | false =>
      obtain ⟨e, he⟩ := herror hwell
      rw [parse, he] at hc
      cases hc

/-- A key beside an index takes the array away, and an index that there is no room for faults. -/
theorem an_assignment_is_lost :
    (∃ c, parse (2 ^ 57) (fun _ => none) "[a]\n0 = x\nb = y\n".toList = .ok (.ok c) ∧
        Lone (assignments [] (lines "[a]\n0 = x\nb = y\n".toList)) "a.0".toList " x".toList ∧
        get c "a.0".toList = .error (makeNotFoundError "a.0".toList)) ∧
      parse (2 ^ 57) (fun _ => none) "9223372036854775807 = x".toList = .error .noRoom ∧
      parse (2 ^ 30) (fun _ => none) "2199023255552 = x".toList = .error .noRoom ∧
      parse (2 ^ 57) (fun _ => none) "18446744073709551615 = x".toList = .error .outOfBounds := by
  refine ⟨⟨_, rfl, ?_, rfl⟩, rfl, rfl, rfl⟩
  have hlines : assignments [] (lines "[a]\n0 = x\nb = y\n".toList) =
      [("a.0".toList, " x".toList), ("a.b".toList, " y".toList)] := by decide
  rw [hlines]
  exact ⟨[], [("a.b".toList, " y".toList)], rfl, by decide, by decide⟩

end IniConfig

end Dbase.Config
