/-
  Dbase.Config.JsonConfig — `convertJson`: a JSON value tree becomes a `ConfigValue`.

  `Json` is what `nlohmann::json` holds; the members of an object are in the order of its `std::map`. Of its predicates,
  `is_number_integer` holds of unsigned numbers too. A tree that was read from a text has no binary and no discarded
  value (`Parsed`).

  The conversion keeps everything but the unsigned numbers from 2^63 on (`json_is_kept`), which it stores as negative ones.
-/

import Dbase.Config.ConfigValue
import Dbase.Lib.Path

namespace Dbase.Config.JsonConfig

open Dbase.Lib

inductive Json where
  | null
  | boolean (value : Bool)
  | integer (value : Int64)
  | unsigned (value : UInt64)
  | float (bits : UInt64)
  | string (value : Str)
  | array (items : List Json)
  | object (members : List (Str × Json))
  | binary (bytes : List UInt8)
  | discarded

namespace Json

def isNull : Json → Bool
  | null => true
  | _ => false

def isBoolean : Json → Bool
  | boolean _ => true
  | _ => false

def isNumberInteger : Json → Bool
  | integer _ | unsigned _ => true
  | _ => false

def isNumberUnsigned : Json → Bool
  | unsigned _ => true
  | _ => false

def isNumberFloat : Json → Bool
  | float _ => true
  | _ => false

def isString : Json → Bool
  | string _ => true
  | _ => false

/-! `get` of a type is called on values of that type only. -/

def getBool : Json → Bool
  | boolean value => value
  | _ => false

/-- Modulo 2^64. -/
def getInt64 : Json → Int64
  | integer value => value
  | unsigned value => value.toInt64
  | _ => 0

def getUInt64 : Json → UInt64
  | unsigned value => value
  | _ => 0

def getDouble : Json → UInt64
  | float bits => bits
  | _ => 0

def getString : Json → Str
  | string value => value
  | _ => []

end Json

def makeParseError (message : String) : Error := ⟨.parseError, message, 0⟩

/-- `convertJson` of a value without items or members. -/
def convertScalar (value : Json) : Except Error ConfigValue :=
  if value.isNull then .ok .null
  else if value.isBoolean then .ok (.bool value.getBool)
  else if value.isNumberInteger then .ok (.int value.getInt64)
  else if value.isNumberUnsigned then .ok (.uint value.getUInt64)
  else if value.isNumberFloat then .ok (.double value.getDouble)
  else if value.isString then .ok (.string value.getString)
  else .error (makeParseError "unsupported json value type")

mutual

def convertJson : Json → Except Error ConfigValue
  | .array items => (convertItems [] items).map .array
  | .object members => (convertMembers [] members).map .object
  | value => convertScalar value

/-- The loop over an array. -/
def convertItems (arr : List ConfigValue) : List Json → Except Error (List ConfigValue)
  | [] => .ok arr
  | item :: rest =>
    match convertJson item with
    | .error e => .error e
    | .ok value => convertItems (arr ++ [value]) rest

/-- The loop over an object. -/
def convertMembers (obj : List (Str × ConfigValue)) : List (Str × Json) → Except Error (List (Str × ConfigValue))
  | [] => .ok obj
  | (key, child) :: rest =>
    match convertJson child with
    | .error e => .error e
    | .ok value => convertMembers (Entries.emplace key value obj) rest

end

/-! ## The loops -/

theorem convertItems_ok {items : List Json} {arr result : List ConfigValue} :
    convertItems arr items = .ok result ↔
      ∃ values, List.Forall₂ (fun j v => convertJson j = .ok v) items values ∧ result = arr ++ values := by
  induction items generalizing arr with
  | nil => simp [convertItems, eq_comm]
  | cons item rest ih =>
    rw [convertItems]
    cases hitem : convertJson item with
    | error e => simp [List.forall₂_cons_left_iff, hitem]
    | ok value =>
      simp only [ih, List.forall₂_cons_left_iff, hitem]
      constructor
      · rintro ⟨values, hvalues, rfl⟩
        exact ⟨value :: values, ⟨value, values, rfl, hvalues, rfl⟩, by simp⟩
      · rintro ⟨-, ⟨w, values, hw, hvalues, rfl⟩, rfl⟩
        obtain rfl := Except.ok.inj hw
        exact ⟨values, hvalues, by simp⟩

theorem convertMembers_ok {members : List (Str × Json)} {obj result : List (Str × ConfigValue)}
    (h : (obj.map (·.1) ++ members.map (·.1)).Nodup) :
    convertMembers obj members = .ok result ↔
      ∃ entries, List.Forall₂ (fun m e => m.1 = e.1 ∧ convertJson m.2 = .ok e.2) members entries ∧
        result = obj ++ entries := by
  induction members generalizing obj with
  | nil => simp [convertMembers, eq_comm]
  | cons member rest ih =>
    obtain ⟨key, child⟩ := member
    rw [convertMembers]
    cases hchild : convertJson child with
    | error e => simp [List.forall₂_cons_left_iff, hchild]
    | ok value =>
      have hnew : key ∉ obj.map (·.1) := fun hmem =>
        (List.nodup_append.mp h).2.2 key hmem key (by simp) rfl
      have hrest : ((obj ++ [(key, value)]).map (·.1) ++ rest.map (·.1)).Nodup := by simpa using h
      simp only [Entries.emplace_new value hnew, ih hrest, List.forall₂_cons_left_iff, hchild]
      constructor
      · rintro ⟨entries, hentries, rfl⟩
        exact ⟨(key, value) :: entries, ⟨(key, value), entries, ⟨rfl, rfl⟩, hentries, rfl⟩, by simp⟩
      · rintro ⟨-, ⟨⟨k, w⟩, entries, ⟨rfl, hw⟩, hentries, rfl⟩, rfl⟩
        obtain rfl := Except.ok.inj hw
        exact ⟨entries, hentries, by simp⟩

/-! ## What is kept -/

/-- The integer of a number that is one. -/
def Json.number? : Json → Option Int
  | integer n => some n.toInt
  | unsigned n => some n.toNat
  | _ => none

/-- The same shape, the same scalars, and every integer as the accessors give it. -/
inductive Kept : Json → ConfigValue → Prop
  | null : Kept .null .null
  | boolean {value : Bool} : Kept (.boolean value) (.bool value)
  | number {j : Json} {n : Int} {v : ConfigValue} : j.number? = some n →
      (n < 2 ^ 63 → v.tryGetInt.map Int64.toInt = .ok n) →
      (0 ≤ n → v.tryGetUInt.map (fun k => (k.toNat : Int)) = .ok n) → Kept j v
  | float {bits : UInt64} : Kept (.float bits) (.double bits)
  | string {value : Str} : Kept (.string value) (.string value)
  | array {items : List Json} {values : List ConfigValue} : items.length = values.length →
      (∀ (i : Nat) j v, items[i]? = some j → values[i]? = some v → Kept j v) → Kept (.array items) (.array values)
  | object {members : List (Str × Json)} {entries : List (Str × ConfigValue)} :
      (∀ k, (members.lookup k).isSome = (entries.lookup k).isSome) →
      (∀ k j v, members.lookup k = some j → entries.lookup k = some v → Kept j v) →
      Kept (.object members) (.object entries)

def Json.children : Json → List Json
  | array items => items
  | object members => members.map (·.2)
  | _ => []

/-- Holds of every value in a tree. -/
inductive Json.Every (P : Json → Prop) : Json → Prop
  | intro {j : Json} : P j → (∀ c ∈ j.children, Every P c) → Every P j

/-- As it is read from a text: nothing binary or discarded, and the keys of a map come once. -/
def Json.Parsed : Json → Prop :=
  Every fun j => j ≠ .discarded ∧ (∀ bytes, j ≠ .binary bytes) ∧ ∀ members, j = .object members → (members.map (·.1)).Nodup

/-- Every unsigned number is below 2^63. -/
def Json.Signed : Json → Prop := Every fun j => ∀ n, j = .unsigned n → n.toNat < 2 ^ 63

theorem kept_integer (n : Int64) : Kept (.integer n) (.int n) :=
  .number rfl (fun _ => rfl) fun h => ConfigValue.tryGetUInt_int h

/-- An unsigned number is stored as a signed one, whose sign it has to fit. -/
theorem kept_unsigned_iff (n : UInt64) : Kept (.unsigned n) (.int n.toInt64) ↔ n.toNat < 2 ^ 63 := by
  constructor
  · intro h
    by_contra hbig
    cases h with
    | number hnumber _ huint =>
      obtain rfl := Option.some.inj hnumber
      have hget := huint (Int.natCast_nonneg _)
      rw [ConfigValue.tryGetUInt_neg (ConfigValue.toInt64_neg (by omega))] at hget
      cases hget
  · intro hlt
    have hint := ConfigValue.toInt_toInt64 hlt
    refine .number rfl (fun _ => ?_) fun _ => ?_
    · exact congrArg Except.ok hint
    · have hget := ConfigValue.tryGetUInt_int (n := n.toInt64) (by omega)
      rwa [hint] at hget

theorem exists_forall₂ {α β : Type} {R : α → β → Prop} {l : List α} (h : ∀ x ∈ l, ∃ y, R x y) :
    ∃ r, List.Forall₂ R l r := by
  induction l with
  | nil => exact ⟨[], .nil⟩
  | cons x l ih =>
    obtain ⟨y, hy⟩ := h x List.mem_cons_self
    obtain ⟨r, hr⟩ := ih fun z hz => h z (List.mem_cons_of_mem _ hz)
    exact ⟨y :: r, .cons hy hr⟩

theorem forall₂_getElem? {α β : Type} {R : α → β → Prop} {l : List α} {r : List β} (h : List.Forall₂ R l r) {i : Nat}
    {x : α} (hx : l[i]? = some x) : ∃ y, r[i]? = some y ∧ R x y := by
  induction h generalizing i with
  | nil => cases hx
  | @cons a b l r hab _ ih =>
    cases i with
    | zero =>
      obtain rfl := Option.some.inj hx
      exact ⟨b, rfl, hab⟩
    | succ i => exact ih hx

/-- Two objects with the same keys, entry by entry. -/
theorem forall₂_lookup {R : Json → ConfigValue → Prop} {members : List (Str × Json)} {entries : List (Str × ConfigValue)}
    (h : List.Forall₂ (fun m e => m.1 = e.1 ∧ R m.2 e.2) members entries) (k : Str) :
    (members.lookup k = none ∧ entries.lookup k = none) ∨
      ∃ j v, members.lookup k = some j ∧ entries.lookup k = some v ∧ R j v := by
  induction h with
  | nil => exact .inl ⟨rfl, rfl⟩
  | @cons m e _ _ hme _ ih =>
    obtain ⟨key, j⟩ := m
    obtain ⟨key', v⟩ := e
    obtain ⟨rfl, hR⟩ := hme
    rw [List.lookup_cons, List.lookup_cons]
    cases k == key with
    | true => exact .inr ⟨j, v, rfl, rfl, hR⟩
    | false => exact ih

theorem map_eq_ok {ε α β : Type} {x : Except ε α} {f : α → β} {b : β} :
    x.map f = .ok b ↔ ∃ a, x = .ok a ∧ b = f a := by
  cases x with
  | error e => simp [Except.map]
  | ok a => simp [Except.map, eq_comm]

theorem convert_array {items : List Json} {v : ConfigValue} :
    convertJson (.array items) = .ok v ↔
      ∃ values, List.Forall₂ (fun j w => convertJson j = .ok w) items values ∧ v = .array values := by
  rw [convertJson, map_eq_ok]
  constructor
  · rintro ⟨values, hvalues, rfl⟩
    obtain ⟨values, hall, rfl⟩ := convertItems_ok.mp hvalues
    exact ⟨values, hall, rfl⟩
  · rintro ⟨values, hall, rfl⟩
    exact ⟨values, convertItems_ok.mpr ⟨values, hall, rfl⟩, rfl⟩

theorem convert_object {members : List (Str × Json)} (h : (members.map (·.1)).Nodup) {v : ConfigValue} :
    convertJson (.object members) = .ok v ↔
      ∃ entries, List.Forall₂ (fun m e => m.1 = e.1 ∧ convertJson m.2 = .ok e.2) members entries ∧ v = .object entries := by
  rw [convertJson, map_eq_ok]
  constructor
  · rintro ⟨entries, hentries, rfl⟩
    obtain ⟨entries, hall, rfl⟩ := (convertMembers_ok (by simpa using h)).mp hentries
    exact ⟨entries, hall, rfl⟩
  · rintro ⟨entries, hall, rfl⟩
    exact ⟨entries, (convertMembers_ok (by simpa using h)).mpr ⟨entries, hall, rfl⟩, rfl⟩

/-- Items that are each converted and kept. -/
theorem kept_array {items : List Json} (h : ∀ c ∈ items, ∃ v, convertJson c = .ok v ∧ Kept c v) :
    ∃ v, convertJson (.array items) = .ok v ∧ Kept (.array items) v := by
  obtain ⟨values, hvalues⟩ := exists_forall₂ h
  refine ⟨.array values, convert_array.mpr ⟨values, hvalues.imp fun _ _ hboth => hboth.1, rfl⟩, ?_⟩
  refine .array hvalues.length_eq fun i j v hj hv => ?_
  obtain ⟨w, hw, hkept⟩ := forall₂_getElem? hvalues hj
  obtain rfl := Option.some.inj (hv.symm.trans hw)
  exact hkept.2

theorem kept_object {members : List (Str × Json)} (hnodup : (members.map (·.1)).Nodup)
    (h : ∀ m ∈ members, ∃ v, convertJson m.2 = .ok v ∧ Kept m.2 v) :
    ∃ v, convertJson (.object members) = .ok v ∧ Kept (.object members) v := by
  have hentry : ∀ m ∈ members, ∃ e : Str × ConfigValue, m.1 = e.1 ∧ convertJson m.2 = .ok e.2 ∧ Kept m.2 e.2 := by
    intro m hm
    obtain ⟨v, hv⟩ := h m hm
    exact ⟨(m.1, v), rfl, hv⟩
  obtain ⟨entries, hentries⟩ := exists_forall₂ hentry
  refine ⟨.object entries,
    (convert_object hnodup).mpr ⟨entries, hentries.imp fun _ _ hboth => ⟨hboth.1, hboth.2.1⟩, rfl⟩, ?_⟩
  have hlookup (k : Str) := forall₂_lookup (R := fun j v => convertJson j = .ok v ∧ Kept j v) hentries k
  refine .object (fun k => ?_) fun k j v hj hv => ?_
  · rcases hlookup k with ⟨hj, hv⟩ | ⟨j, v, hj, hv, -⟩ <;> simp [hj, hv]
  · rcases hlookup k with ⟨hj', -⟩ | ⟨j', v', hj', hv', hboth⟩
    · rw [hj] at hj'
      cases hj'
    · obtain rfl := Option.some.inj (hj.symm.trans hj')
      obtain rfl := Option.some.inj (hv.symm.trans hv')
      exact hboth.2

/-- The other way round: each item is converted to something that keeps it. -/
theorem kept_item {items : List Json} {v : ConfigValue} (hv : convertJson (.array items) = .ok v)
    (h : Kept (.array items) v) : ∀ c ∈ items, ∃ w, convertJson c = .ok w ∧ Kept c w := by
  intro c hc
  obtain ⟨values, hvalues, rfl⟩ := convert_array.mp hv
  obtain ⟨i, hi⟩ := List.mem_iff_getElem?.mp hc
  obtain ⟨w, hw, hconvert⟩ := forall₂_getElem? hvalues hi
  cases h with
  | number hnumber => cases hnumber
  | array _ hkept => exact ⟨w, hconvert, hkept i c w hi hw⟩

theorem kept_member {members : List (Str × Json)} {v : ConfigValue} (hnodup : (members.map (·.1)).Nodup)
    (hv : convertJson (.object members) = .ok v) (h : Kept (.object members) v) :
    ∀ m ∈ members, ∃ w, convertJson m.2 = .ok w ∧ Kept m.2 w := by
  rintro ⟨k, c⟩ hm
  obtain ⟨entries, hentries, rfl⟩ := (convert_object hnodup).mp hv
  have hc : members.lookup k = some c := (Entries.lookup_eq_some_iff hnodup).mpr hm
  rcases forall₂_lookup (R := fun j w => convertJson j = .ok w) hentries k with ⟨hnone, -⟩ | ⟨j, w, hj, hw, hconvert⟩
  · rw [hc] at hnone
    cases hnone
  · obtain rfl := Option.some.inj (hc.symm.trans hj)
    cases h with
    | number hnumber => cases hnumber
    | object _ hkept => exact ⟨w, hconvert, hkept k c w hc hw⟩

/-- A tree is converted and kept if and only if its unsigned numbers are below 2^63. -/
theorem json_is_kept (j : Json) (h : j.Parsed) : (∃ v, convertJson j = .ok v ∧ Kept j v) ↔ j.Signed := by
  induction h with
  | @intro j hnode hchildren ih =>
    obtain ⟨hdiscarded, hbinary, hkeys⟩ := hnode
    cases j with
    | null => exact ⟨fun _ => .intro (by simp) (by simp [Json.children]), fun _ => ⟨_, rfl, .null⟩⟩
    | boolean b => exact ⟨fun _ => .intro (by simp) (by simp [Json.children]), fun _ => ⟨_, rfl, .boolean⟩⟩
    | integer n => exact ⟨fun _ => .intro (by simp) (by simp [Json.children]), fun _ => ⟨_, rfl, kept_integer n⟩⟩
    | float bits => exact ⟨fun _ => .intro (by simp) (by simp [Json.children]), fun _ => ⟨_, rfl, .float⟩⟩
    | string value => exact ⟨fun _ => .intro (by simp) (by simp [Json.children]), fun _ => ⟨_, rfl, .string⟩⟩
    | binary bytes => exact absurd rfl (hbinary bytes)
    | discarded => exact absurd rfl hdiscarded
    | unsigned n =>
      constructor
      · rintro ⟨v, hv, hkept⟩
        obtain rfl : ConfigValue.int n.toInt64 = v := Except.ok.inj hv
        refine .intro (fun m hm => ?_) (by simp [Json.children])
        cases hm
        exact (kept_unsigned_iff n).mp hkept
      · rintro ⟨hn, -⟩
        exact ⟨_, rfl, (kept_unsigned_iff n).mpr (hn n rfl)⟩
    | array items =>
      constructor
      · rintro ⟨v, hv, hkept⟩
        exact .intro (by simp) fun c hc => (ih c hc).mp (kept_item hv hkept c hc)
      · rintro ⟨-, hitems⟩
        exact kept_array fun c hc => (ih c hc).mpr (hitems c hc)
    | object members =>
      have hnodup := hkeys members rfl
      constructor
      · rintro ⟨v, hv, hkept⟩
        refine .intro (by simp) fun c hc => (ih c hc).mp ?_
        obtain ⟨m, hm, rfl⟩ := List.mem_map.mp hc
        exact kept_member hnodup hv hkept m hm
      · rintro ⟨-, hmembers⟩
        refine kept_object hnodup fun m hm => ?_
        have hc : m.2 ∈ (Json.object members).children := List.mem_map_of_mem hm
        exact (ih m.2 hc).mpr (hmembers m.2 hc)

/-- 2^63 in an array. -/
theorem json_is_kept_one :
    Json.Parsed (.array [.unsigned 0x8000000000000000]) ∧
      ((∃ v, convertJson (.array [.unsigned 0x8000000000000000]) = .ok v ∧
          Kept (.array [.unsigned 0x8000000000000000]) v) ↔
        Json.Signed (.array [.unsigned 0x8000000000000000])) := by
  have hparsed : Json.Parsed (.array [.unsigned 0x8000000000000000]) :=
    .intro (by simp) fun c hc => by
      obtain rfl := List.mem_singleton.mp hc
      exact .intro (by simp) (by simp [Json.children])
  exact ⟨hparsed, json_is_kept _ hparsed⟩

/-- It comes out as a negative number. -/
theorem an_unsigned_number_is_negated :
    Json.Parsed (.unsigned 0x8000000000000000) ∧
      (convertJson (.unsigned 0x8000000000000000)).map ConfigValue.tryGetUInt =
        .ok (.error ⟨.invalidArgument, "negative int64 cannot convert to uint64", 0⟩) ∧
      ¬ ∃ v, convertJson (.unsigned 0x8000000000000000) = .ok v ∧ Kept (.unsigned 0x8000000000000000) v := by
  refine ⟨.intro (by simp) (by simp [Json.children]), ?_, ?_⟩
  · have hneg : (0x8000000000000000 : UInt64).toInt64.toInt < 0 := by decide
    exact congrArg Except.ok (ConfigValue.tryGetUInt_neg hneg)
  · rintro ⟨v, hv, hkept⟩
    obtain rfl : ConfigValue.int (0x8000000000000000 : UInt64).toInt64 = v := Except.ok.inj hv
    exact absurd ((kept_unsigned_iff _).mp hkept) (by decide)

end Dbase.Config.JsonConfig
