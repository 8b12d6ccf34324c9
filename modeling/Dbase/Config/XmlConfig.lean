/-
  Dbase.Config.XmlConfig — the tree that pugixml has read becomes a `ConfigValue` (`xml_config.cpp`).

  An element without attributes and elements in it is the scalar that its text stands for. Any other is an object: its
  attributes under `@name`, its elements under their names (an array where a name comes more than once), and its text, as
  a string, under `#text`.
-/

import Dbase.Config.Scalars

namespace Dbase.Config

open Dbase.Lib

/-- A node of the document; comments and the like are `other`. -/
inductive XmlNode where
  | element (name : Str) (attributes : List (Str × Str)) (children : List XmlNode)
  | pcdata (value : Str)
  | cdata (value : Str)
  | other

namespace XmlConfig

def makeParseError (message : String) : Error := ⟨.parseError, message, 0⟩

def isElement : XmlNode → Bool
  | .element .. => true
  | _ => false

/-- The value of a text node. -/
def textOf : XmlNode → Str
  | .pcdata value | .cdata value => value
  | _ => []

def collectDirectText (children : List XmlNode) : Str := trim (children.flatMap textOf)

/-- The values of each name, in the order in which the names come first. -/
def groupChildren (children : List (Str × ConfigValue)) : List (Str × List ConfigValue) :=
  children.foldl (fun grouped c => Entries.put c.1 ((grouped.lookup c.1).getD [] ++ [c.2]) grouped) []

def groupValue : List ConfigValue → ConfigValue
  | [value] => value
  | arr => .array arr

mutual

def buildElementValue (strtod : Str → Option UInt64) : XmlNode → ConfigValue
  | .element _ attributes children =>
    let result := Entries.emplaces (attributes.map fun attr => ('@' :: attr.1, parseScalar strtod attr.2)) []
    let result := Entries.emplaces
      ((groupChildren (buildChildren strtod children)).map fun group => (group.1, groupValue group.2)) result
    let text := collectDirectText children
    if result.isEmpty then parseScalar strtod text
    else .object (if text.isEmpty then result else Entries.emplace "#text".toList (.string text) result)
  | _ => .string []

/-- The elements among the children. -/
def buildChildren (strtod : Str → Option UInt64) : List XmlNode → List (Str × ConfigValue)
  | [] => []
  | .element name attributes children :: rest =>
    (name, buildElementValue strtod (.element name attributes children)) :: buildChildren strtod rest
  | _ :: rest => buildChildren strtod rest

end

/-- `XmlConfig::parse`, of what pugixml has loaded: the nodes of the document, or why there are none and where. -/
def parse (strtod : Str → Option UInt64) (loaded : Except (String × Nat) (List XmlNode)) : Except Error Config :=
  match loaded with
  | .error (description, offset) => .error (makeParseError (description ++ " (offset=" ++ toString offset ++ ")"))
  | .ok doc =>
    match doc.find? isElement with
    | some (.element name attributes children) =>
      .ok (setRoot make (.object [(name, buildElementValue strtod (.element name attributes children))]))
    | _ => .error (makeParseError "xml document has no root element")

/-! ## The text of an element, and of an attribute -/

theorem buildChildren_of_text (strtod : Str → Option UInt64) {children : List XmlNode}
    (h : ∀ c ∈ children, isElement c = false) : buildChildren strtod children = [] := by
  induction children with
  | nil => rw [buildChildren]
  | cons c children ih =>
    obtain ⟨hc, hchildren⟩ := List.forall_mem_cons.mp h
    cases c with
    | element => cases hc
    | pcdata | cdata | other =>
      rw [buildChildren]
      · exact ih hchildren
      · simp

theorem build_text (strtod : Str → Option UInt64) (name : Str) {children : List XmlNode}
    (h : ∀ c ∈ children, isElement c = false) :
    buildElementValue strtod (.element name [] children) = parseScalar strtod (collectDirectText children) := by
  rw [buildElementValue, buildChildren_of_text strtod h]
  rfl

/-- An attribute is the first of its name, whatever else the element has. -/
theorem build_attribute (strtod : Str → Option UInt64) (name : Str) {attributes : List (Str × Str)} (children : List XmlNode)
    {key text : Str} (h : attributes.lookup key = some text) :
    child (.key ('@' :: key)) (buildElementValue strtod (.element name attributes children)) =
      some (parseScalar strtod text) := by
  have hattribute : (attributes.map fun attr => ('@' :: attr.1, parseScalar strtod attr.2)).lookup ('@' :: key) =
      some (parseScalar strtod text) := by
    induction attributes with
    | nil => cases h
    | cons attr attributes ih =>
      obtain ⟨key', text'⟩ := attr
      rw [List.lookup_cons] at h
      rw [List.map_cons, List.lookup_cons, show ('@' :: key == '@' :: key') = (key == key') by simp]
      cases hkey : key == key' with
      | true =>
        rw [hkey] at h
        obtain rfl := Option.some.inj h
        rfl
      | false =>
        rw [hkey] at h
        exact ih h
  rw [buildElementValue]
  generalize groupChildren (buildChildren strtod children) = groups
  generalize hresult : Entries.emplaces (groups.map fun group => (group.1, groupValue group.2)) _ = result
  have hfound : result.lookup ('@' :: key) = some (parseScalar strtod text) := by
    rw [← hresult, Entries.lookup_emplaces, Entries.lookup_emplaces, List.lookup_nil, Option.none_or, hattribute,
      Option.some_or]
  have hne : result.isEmpty = false := by
    cases result with
    | nil => cases hfound
    | cons => rfl
  simp only [hne, Bool.false_eq_true, if_false]
  show List.lookup _ _ = _
  split
  · exact hfound
  · rw [Entries.lookup_emplace, hfound, Option.some_or]

end XmlConfig

/-- The text of an `int64_t` is kept in an INI file, and in an XML file, but for 0 and 1, which are booleans there. -/
theorem text_keeps_integers (strtod : Str → Option UInt64) (n : Int64) :
    (∀ before after, (∀ c ∈ before, IniConfig.isTrimmed c = true) → (∀ c ∈ after, IniConfig.isTrimmed c = true) →
      Keeps n (IniConfig.parseValue strtod (before ++ decimal n.toInt ++ after))) ∧
    (n = 0 ∨ n = 1 →
      ∀ before after, (∀ c ∈ before, XmlConfig.isSpace c = true) → (∀ c ∈ after, XmlConfig.isSpace c = true) →
        XmlConfig.parseScalar strtod (before ++ decimal n.toInt ++ after) = .bool (decide (n = 1))) ∧
    (n ≠ 0 → n ≠ 1 →
      ∀ before after, (∀ c ∈ before, XmlConfig.isSpace c = true) → (∀ c ∈ after, XmlConfig.isSpace c = true) →
        Keeps n (XmlConfig.parseScalar strtod (before ++ decimal n.toInt ++ after)) ∧
        (∀ name children, (∀ c ∈ children, XmlConfig.isElement c = false) →
          children.flatMap XmlConfig.textOf = before ++ decimal n.toInt ++ after →
          Keeps n (XmlConfig.buildElementValue strtod (.element name [] children))) ∧
        ∀ name attributes children key, attributes.lookup key = some (before ++ decimal n.toInt ++ after) →
          ∃ v, child (.key ('@' :: key)) (XmlConfig.buildElementValue strtod (.element name attributes children)) = some v ∧
            Keeps n v) := by
  refine ⟨fun before after hbefore hafter => ?_, fun hbit before after => parseScalar_bit strtod hbit,
    fun h0 h1 before after hbefore hafter => ⟨?_, ?_, ?_⟩⟩
  · rw [parseValue_decimal strtod n hbefore hafter]
    exact keeps_int n
  · exact parseScalar_decimal strtod h0 h1 hbefore hafter
  · intro name children hchildren htext
    have htrim : XmlConfig.collectDirectText children = [] ++ decimal n.toInt ++ [] := by
      rw [XmlConfig.collectDirectText, htext, List.nil_append, List.append_nil]
      exact trim_xml_decimal n.toInt hbefore hafter
    rw [XmlConfig.build_text strtod name hchildren, htrim]
    exact parseScalar_decimal strtod h0 h1 (by simp) (by simp)
  · intro name attributes children key hkey
    exact ⟨_, XmlConfig.build_attribute strtod name children hkey, parseScalar_decimal strtod h0 h1 hbefore hafter⟩

/-- -7 in a line of its own. -/
theorem text_keeps_integers_one :
    Keeps (-7) (IniConfig.parseValue (fun _ => none) " -7".toList) ∧
      Keeps (-7) (XmlConfig.buildElementValue (fun _ => none) (.element "n".toList [] [.pcdata "\n-7\n".toList])) := by
  obtain ⟨hini, -, hxml⟩ := text_keeps_integers (fun _ => none) (-7)
  have hline : " -7".toList = [' '] ++ decimal (-7 : Int64).toInt ++ [] := by decide +kernel
  have hlines : "\n-7\n".toList = ['\n'] ++ decimal (-7 : Int64).toInt ++ ['\n'] := by decide +kernel
  have h0 : (-7 : Int64) ≠ 0 := by decide +kernel
  have h1 : (-7 : Int64) ≠ 1 := by decide +kernel
  constructor
  · rw [hline]
    exact hini [' '] [] (by simp [IniConfig.isTrimmed]) (by simp)
  · obtain ⟨-, helement, -⟩ := hxml h0 h1 ['\n'] ['\n'] (by simp [XmlConfig.isSpace]) (by simp [XmlConfig.isSpace])
    refine helement "n".toList [.pcdata "\n-7\n".toList] (by simp [XmlConfig.isElement]) ?_
    rw [← hlines]
    exact List.append_nil _

/-- In an XML file, 1 is a boolean. -/
theorem one_is_a_boolean :
    decimal (1 : Int64).toInt = "1".toList ∧ XmlConfig.parseScalar (fun _ => none) "1".toList = .bool true ∧
      ¬ Keeps 1 (XmlConfig.parseScalar (fun _ => none) "1".toList) := by
  have hvalue : XmlConfig.parseScalar (fun _ => none) "1".toList = .bool true := by rfl
  refine ⟨by decide, hvalue, ?_⟩
  rintro ⟨hint, -⟩
  rw [hvalue] at hint
  cases hint

end Dbase.Config
