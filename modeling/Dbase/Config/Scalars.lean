/-
  Dbase.Config.Scalars — what a text stands for: `parseValue` (`ini_config.cpp`) and `parseScalar` (`xml_config.cpp`).

  Both try a boolean, then an `int64_t`, then a `double`, in that order, on the text without the white space around it.
  They differ in what white space is, in the spellings of a boolean, and in how a number that is not negative is stored.

  Characters are those of the "C" locale. `strtod` is given: the number that it reads, where it reads the whole text.
-/

import Dbase.Config.FlatView

namespace Dbase.Config

/-! ## What the two have in common -/

def trimBy (space : Char → Bool) (s : Str) : Str := (s.dropWhile space).rdropWhile space

def toLower (s : Str) : Str := s.map Char.toLower

def boolOf (yes no : List Str) (lowered : Str) : Option Bool :=
  if yes.contains lowered then some true else if no.contains lowered then some false else none

/-- `std::from_chars` into an `int64_t`, where it reads the whole text. -/
def fromChars (s : Str) : Option Int64 :=
  let negative := s.head? == some '-'
  let digits := if negative then s.tail else s
  if isIndexSegment digits then
    let n : Int := if negative then -(spelled digits : Int) else spelled digits
    if -2 ^ 63 ≤ n ∧ n < 2 ^ 63 then some (Int64.ofInt n) else none
  else none

def tryParseIntBy (trim : Str → Str) (text : Str) : Option Int64 :=
  let s := trim text
  if s.isEmpty then none else fromChars s

def tryParseDoubleBy (trim : Str → Str) (strtod : Str → Option UInt64) (text : Str) : Option UInt64 :=
  let s := trim text
  if s.isEmpty then none else strtod s

/-! ## INI -/

namespace IniConfig

/-- The characters that `str::trim` takes away. -/
def isTrimmed (c : Char) : Bool := " \r\n\t".toList.contains c

def trim (s : Str) : Str := trimBy isTrimmed s

def tryParseBool (text : Str) : Option Bool :=
  boolOf ["true".toList, "yes".toList, "on".toList] ["false".toList, "no".toList, "off".toList] (toLower (trim text))

def tryParseInt (text : Str) : Option Int64 := tryParseIntBy trim text

def tryParseDouble (strtod : Str → Option UInt64) (text : Str) : Option UInt64 := tryParseDoubleBy trim strtod text

def parseValue (strtod : Str → Option UInt64) (raw : Str) : ConfigValue :=
  let value := trim raw
  match tryParseBool value with
  | some b => .bool b
  | none =>
    match tryParseInt value with
    | some n => .int n
    | none =>
      match tryParseDouble strtod value with
      | some bits => .double bits
      | none => .string value

end IniConfig

/-! ## XML -/

namespace XmlConfig

def isSpace (c : Char) : Bool := c = ' ' ∨ ('\t' ≤ c ∧ c ≤ '\r')

def trim (s : Str) : Str := trimBy isSpace s

def tryParseBool (text : Str) : Option Bool :=
  boolOf ["true".toList, "1".toList, "yes".toList, "on".toList]
    ["false".toList, "0".toList, "no".toList, "off".toList] (toLower (trim text))

def tryParseInt (text : Str) : Option Int64 := tryParseIntBy trim text

def tryParseDouble (strtod : Str → Option UInt64) (text : Str) : Option UInt64 := tryParseDoubleBy trim strtod text

def parseScalar (strtod : Str → Option UInt64) (raw : Str) : ConfigValue :=
  let value := trim raw
  if value.isEmpty then .string []
  else
    match tryParseBool value with
    | some b => .bool b
    | none =>
      match tryParseInt value with
      | some n => if 0 ≤ n then .uint n.toUInt64 else .int n
      | none =>
        match tryParseDouble strtod value with
        | some bits => .double bits
        | none => .string value

end XmlConfig

/-! ## The text of a number -/

def decimal (n : Int) : Str := if n < 0 then '-' :: Nat.toDigits 10 n.natAbs else Nat.toDigits 10 n.natAbs

theorem decimal_ne_nil (n : Int) : decimal n ≠ [] := by
  unfold decimal
  split
  · simp
  · exact Nat.toDigits_ne_nil

theorem mem_decimal {n : Int} {c : Char} (h : c ∈ decimal n) : c = '-' ∨ isDigit c = true := by
  unfold decimal at h
  split at h
  · rcases List.mem_cons.mp h with rfl | h
    · exact .inl rfl
    · exact .inr (isDigit_toDigits h)
  · exact .inr (isDigit_toDigits h)

theorem fromChars_decimal (n : Int64) : fromChars (decimal n.toInt) = some n := by
  have hlow := Int64.le_toInt n
  have hhigh := Int64.toInt_lt n
  unfold fromChars decimal
  by_cases hneg : n.toInt < 0
  · have hval : -((n.toInt.natAbs : ℕ) : Int) = n.toInt := by omega
    simp only [hneg, if_true, List.head?_cons, beq_self_eq_true, List.tail_cons, isIndexSegment_toDigits, spelled_toDigits]
    rw [hval, if_pos ⟨hlow, hhigh⟩, Int64.ofInt_toInt]
  · have hval : ((n.toInt.natAbs : ℕ) : Int) = n.toInt := by omega
    have hhead : ((Nat.toDigits 10 n.toInt.natAbs).head? == some '-') = false := by
      refine beq_false_of_ne fun heq => ?_
      exact absurd (isDigit_toDigits (List.mem_of_head? heq)) (by decide)
    simp only [hneg, if_false, hhead, Bool.false_eq_true, isIndexSegment_toDigits, if_true, spelled_toDigits]
    rw [hval, if_pos ⟨hlow, hhigh⟩, Int64.ofInt_toInt]

theorem decimal_injective {m n : Int64} (h : decimal m.toInt = decimal n.toInt) : m = n := by
  have hm := fromChars_decimal m
  rw [h, fromChars_decimal] at hm
  exact (Option.some.inj hm).symm

/-- Nothing is dropped of a list that begins with what stays. -/
theorem dropWhile_stay {space : Char → Bool} {text rest : Str} (hne : text ≠ []) (htext : ∀ c ∈ text, space c = false) :
    (text ++ rest).dropWhile space = text ++ rest := by
  cases text with
  | nil => exact absurd rfl hne
  | cons c text => exact List.dropWhile_cons_of_neg (by simp [htext c List.mem_cons_self])

/-- White space around a text that has none is taken away. -/
theorem trimBy_around {space : Char → Bool} {before text after : Str} (hbefore : ∀ c ∈ before, space c = true)
    (hafter : ∀ c ∈ after, space c = true) (hne : text ≠ []) (htext : ∀ c ∈ text, space c = false) :
    trimBy space (before ++ text ++ after) = text := by
  have hleft : (before ++ text ++ after).dropWhile space = text ++ after := by
    rw [List.append_assoc, List.dropWhile_append_of_pos hbefore, dropWhile_stay hne htext]
  have hright : (text ++ after).rdropWhile space = text := by
    have hstay : (text.reverse ++ []).dropWhile space = text.reverse ++ [] :=
      dropWhile_stay (by simpa using hne) (by simpa using htext)
    rw [List.append_nil] at hstay
    rw [List.rdropWhile, List.reverse_append, List.dropWhile_append_of_pos (by simpa using hafter), hstay,
      List.reverse_reverse]
  rw [trimBy, hleft, hright]

theorem trimBy_self {space : Char → Bool} {text : Str} (hne : text ≠ []) (h : ∀ c ∈ text, space c = false) :
    trimBy space text = text := by
  have haround : trimBy space ([] ++ text ++ []) = text := trimBy_around (by simp) (by simp) hne h
  rwa [List.nil_append, List.append_nil] at haround

theorem toNat_of_isDigit {c : Char} (h : isDigit c = true) : 48 ≤ c.toNat ∧ c.toNat ≤ 57 := by
  rw [isDigit_iff, Char.isDigit_iff_toNat] at h
  exact h

theorem toLower_decimal (n : Int) : toLower (decimal n) = decimal n := by
  have hsame : ∀ c ∈ decimal n, c.toLower = id c := by
    intro c hc
    rcases mem_decimal hc with rfl | hdigit
    · rfl
    · have hbounds := toNat_of_isDigit hdigit
      refine dif_neg fun hupper => ?_
      have hge : 65 ≤ c.toNat := UInt32.le_iff_toNat_le.mp hupper.1
      omega
  rw [toLower, List.map_congr_left hsame, List.map_id]

theorem decimal_not_space {n : Int} {c : Char} (h : c ∈ decimal n) :
    IniConfig.isTrimmed c = false ∧ XmlConfig.isSpace c = false := by
  rcases mem_decimal h with rfl | hdigit
  · decide
  · have hbounds := toNat_of_isDigit hdigit
    constructor
    · refine Bool.not_eq_true _ |>.mp fun hmem => ?_
      have hfour : c = ' ' ∨ c = '\r' ∨ c = '\n' ∨ c = '\t' := by simpa [IniConfig.isTrimmed] using hmem
      rcases hfour with rfl | rfl | rfl | rfl <;> exact absurd hdigit (by decide)
    · refine Bool.not_eq_true _ |>.mp fun hspace => ?_
      simp only [XmlConfig.isSpace, Bool.decide_or, Bool.or_eq_true, decide_eq_true_eq] at hspace
      rcases hspace with rfl | ⟨-, hle⟩
      · exact absurd hdigit (by decide)
      · have hle : c.toNat ≤ 13 := UInt32.le_iff_toNat_le.mp hle
        omega

theorem boolOf_none {yes no : List Str} {text : Str} (h : text ∉ yes ++ no) : boolOf yes no text = none := by
  obtain ⟨hyes, hno⟩ := not_or.mp fun hmem => h (List.mem_append.mpr hmem)
  rw [boolOf, if_neg fun hmem => hyes (List.contains_iff_mem.mp hmem),
    if_neg fun hmem => hno (List.contains_iff_mem.mp hmem)]

/-- A word with a character that is not of a number. -/
def Wordy (word : Str) : Bool := word.any fun c => c != '-' && !isDigit c

theorem ne_decimal {word : Str} (n : Int) (h : Wordy word = true) : word ≠ decimal n := by
  rintro rfl
  obtain ⟨c, hc, hboth⟩ := List.any_eq_true.mp h
  obtain ⟨hdash, hdigit⟩ := Bool.and_eq_true_iff.mp hboth
  rcases mem_decimal hc with heq | heq
  · exact absurd heq (by simpa using hdash)
  · simp [heq] at hdigit

/-- The number comes back: signed always, unsigned where it is not negative. -/
def Keeps (n : Int64) (v : ConfigValue) : Prop :=
  v.tryGetInt = .ok n ∧
    (0 ≤ n.toInt → v.tryGetUInt.map (fun k => (k.toNat : Int)) = .ok n.toInt) ∧
    (n.toInt < 0 → ∃ e, v.tryGetUInt = .error e)

theorem keeps_int (n : Int64) : Keeps n (.int n) :=
  ⟨rfl, fun h => ConfigValue.tryGetUInt_int h, fun h => ⟨_, ConfigValue.tryGetUInt_neg h⟩⟩

theorem keeps_uint {n : Int64} (h : 0 ≤ n) : Keeps n (.uint n.toUInt64) := by
  have hnonneg : 0 ≤ n.toInt := Int64.le_iff_toInt_le.mp h
  have hnat : ((n.toUInt64.toNat : ℕ) : Int) = n.toInt := by
    rw [Int64.toNat_toUInt64_of_le h, Int64.toNatClampNeg]
    exact Int.toNat_of_nonneg hnonneg
  have hlt := Int64.toInt_lt n
  refine ⟨?_, fun _ => congrArg Except.ok hnat, fun hneg => absurd hneg (by omega)⟩
  have hget := ConfigValue.tryGetInt_uint (n := n.toUInt64) (by omega)
  rw [hnat] at hget
  cases hint : ConfigValue.tryGetInt (.uint n.toUInt64) with
  | error e =>
    rw [hint] at hget
    cases hget
  | ok m =>
    rw [hint] at hget
    exact congrArg Except.ok (Int64.toInt_inj.mp (Except.ok.inj hget))

/-- In an INI file: the text of every `int64_t`. -/
theorem parseValue_decimal (strtod : Str → Option UInt64) (n : Int64) {before after : Str}
    (hbefore : ∀ c ∈ before, IniConfig.isTrimmed c = true) (hafter : ∀ c ∈ after, IniConfig.isTrimmed c = true) :
    IniConfig.parseValue strtod (before ++ decimal n.toInt ++ after) = .int n := by
  have hne := decimal_ne_nil n.toInt
  have hplain : ∀ c ∈ decimal n.toInt, IniConfig.isTrimmed c = false := fun c hc => (decimal_not_space hc).1
  have htrim : IniConfig.trim (before ++ decimal n.toInt ++ after) = decimal n.toInt :=
    trimBy_around hbefore hafter hne hplain
  have hself : IniConfig.trim (decimal n.toInt) = decimal n.toInt := trimBy_self hne hplain
  have hbool : IniConfig.tryParseBool (decimal n.toInt) = none := by
    rw [IniConfig.tryParseBool, hself, toLower_decimal]
    have hwords : ∀ word ∈ ["true".toList, "yes".toList, "on".toList] ++ ["false".toList, "no".toList, "off".toList],
        Wordy word = true := by decide +kernel
    exact boolOf_none fun hmem => ne_decimal _ (hwords _ hmem) rfl
  have hint : IniConfig.tryParseInt (decimal n.toInt) = some n := by
    simp only [IniConfig.tryParseInt, tryParseIntBy, hself, List.isEmpty_iff, hne, if_false, fromChars_decimal]
  simp only [IniConfig.parseValue, htrim, hbool, hint]

theorem trim_xml_decimal (n : Int) {before after : Str} (hbefore : ∀ c ∈ before, XmlConfig.isSpace c = true)
    (hafter : ∀ c ∈ after, XmlConfig.isSpace c = true) : XmlConfig.trim (before ++ decimal n ++ after) = decimal n :=
  trimBy_around hbefore hafter (decimal_ne_nil n) fun _ hc => (decimal_not_space hc).2

/-- In an XML file, 0 and 1 are booleans. -/
theorem parseScalar_bit (strtod : Str → Option UInt64) {n : Int64} (hn : n = 0 ∨ n = 1) {before after : Str}
    (hbefore : ∀ c ∈ before, XmlConfig.isSpace c = true) (hafter : ∀ c ∈ after, XmlConfig.isSpace c = true) :
    XmlConfig.parseScalar strtod (before ++ decimal n.toInt ++ after) = .bool (decide (n = 1)) := by
  have htrim := trim_xml_decimal n.toInt hbefore hafter
  have hbool : XmlConfig.tryParseBool (decimal n.toInt) = some (decide (n = 1)) := by
    rcases hn with rfl | rfl
    · decide +kernel
    · decide +kernel
  simp only [XmlConfig.parseScalar, htrim, List.isEmpty_iff, decimal_ne_nil, if_false, hbool]

/-- Any other number is kept. -/
theorem parseScalar_decimal (strtod : Str → Option UInt64) {n : Int64} (h0 : n ≠ 0) (h1 : n ≠ 1) {before after : Str}
    (hbefore : ∀ c ∈ before, XmlConfig.isSpace c = true) (hafter : ∀ c ∈ after, XmlConfig.isSpace c = true) :
    Keeps n (XmlConfig.parseScalar strtod (before ++ decimal n.toInt ++ after)) := by
  have hne := decimal_ne_nil n.toInt
  have htrim := trim_xml_decimal n.toInt hbefore hafter
  have hself : XmlConfig.trim (decimal n.toInt) = decimal n.toInt :=
    trimBy_self hne fun c hc => (decimal_not_space hc).2
  have hbool : XmlConfig.tryParseBool (decimal n.toInt) = none := by
    rw [XmlConfig.tryParseBool, hself, toLower_decimal]
    have hwords : ∀ word ∈ ["true".toList, "1".toList, "yes".toList, "on".toList] ++
        ["false".toList, "0".toList, "no".toList, "off".toList],
        Wordy word = true ∨ word = decimal (1 : Int64).toInt ∨ word = decimal (0 : Int64).toInt := by decide +kernel
    refine boolOf_none fun hmem => ?_
    rcases hwords _ hmem with hword | hone | hzero
    · exact ne_decimal _ hword rfl
    · exact h1 (decimal_injective hone)
    · exact h0 (decimal_injective hzero)
  have hint : XmlConfig.tryParseInt (decimal n.toInt) = some n := by
    simp only [XmlConfig.tryParseInt, tryParseIntBy, hself, List.isEmpty_iff, hne, if_false, fromChars_decimal]
  simp only [XmlConfig.parseScalar, htrim, List.isEmpty_iff, hne, if_false, hbool, hint]
  split
  · rename_i hle
    exact keeps_uint hle
  · exact keeps_int n

end Dbase.Config
