/-
  Dbase.Config.IniConfig — `IniConfig::parse`: line after line of a text, each assignment is a `set`.

  A `set` whose index is 2^64 - 1 writes out of bounds, and one that has to make an array longer than a vector can be
  throws: `std::length_error` above `max_size()`, `std::bad_alloc` where there is no memory for it. Either is a `Fault`,
  which `parse` does not catch. What is given is the most elements that a vector is granted (`limit`, so at most
  `max_size()`), and `strtod`; no other allocation of the parser fails.
-/

import Dbase.Config.Scalars

namespace Dbase.Config

open Dbase.Lib

/-- What ends a call without a result. -/
inductive Fault where
  /-- `resize` throws: `std::length_error`, or `std::bad_alloc`. -/
  | noRoom
  | outOfBounds
  deriving DecidableEq, Repr

/-- `assignPath`, with the most elements that a vector is granted. -/
def assignPathIn (limit : Nat) (current : ConfigValue) : List Str → ConfigValue → Except Fault ConfigValue
  | [], _ => .error .outOfBounds
  | part :: parts, value =>
    if isIndexSegment part then
      let arrayIndex := parseIndex part
      let arr := current.asArray
      let size := (arrayIndex + 1) % 2 ^ 64
      if arr.length ≤ arrayIndex ∧ limit < size then .error .noRoom
      else
        let arr := if arr.length ≤ arrayIndex then resize arr size else arr
        match arr[arrayIndex]? with
        | none => .error .outOfBounds
        | some child =>
          (if parts.isEmpty then .ok value else assignPathIn limit child parts value).map fun child =>
            .array (arr.set arrayIndex child)
    else
      let obj := current.asObject
      let child := (obj.lookup part).getD .null
      (if parts.isEmpty then .ok value else assignPathIn limit child parts value).map fun child =>
        .object (Entries.put part child obj)

/-- `set`, with the most elements that a vector is granted. -/
def setIn (limit : Nat) (c : Config) (path : Str) (value : ConfigValue) : Except Fault Config :=
  if path.isEmpty then .ok (setRoot c value)
  else
    let parts := splitPath path
    if parts.isEmpty then .ok (setRoot c value)
    else (assignPathIn limit c.root parts value).map fun root => markFlatCacheDirty { c with root := root }

namespace IniConfig

def makeParseError (lineNo : Nat) (message : String) : Error :=
  ⟨.parseError, "ini parse error at line " ++ toString lineNo ++ ": " ++ message, 0⟩

/-- The lines that `std::getline` reads. -/
def lines (content : Str) : List Str :=
  let pieces := content.splitOn '\n'
  if pieces.getLast? = some [] then pieces.dropLast else pieces

/-- What a line says. -/
inductive Line where
  | blank
  | header (name : Str)
  | assignment (key value : Str)
  | malformed (message : String)
  deriving DecidableEq, Repr

def readLine (line : Str) : Line :=
  let line := if line.getLast? = some '\r' then line.dropLast else line
  let trimmed := trim line
  if trimmed.isEmpty then .blank
  else if trimmed.head? = some '#' ∨ trimmed.head? = some ';' then .blank
  else if trimmed.head? = some '[' then
    if trimmed.getLast? ≠ some ']' then .malformed "invalid section syntax"
    else
      let currentSection := trim ((trimmed.drop 1).take (trimmed.length - 2))
      if currentSection.isEmpty then .malformed "empty section name" else .header currentSection
  else
    match trimmed.idxOf? '=' with
    | none => .malformed "missing '='"
    | some pos =>
      let key := trim (trimmed.take pos)
      let value := trimmed.drop (pos + 1)
      if key.isEmpty then .malformed "empty key" else .assignment key value

def fullPath (currentSection key : Str) : Str :=
  if currentSection.isEmpty then key else currentSection ++ '.' :: key

/-- The loop of `parse`. -/
def loop (limit : Nat) (strtod : Str → Option UInt64) (config : Config) (currentSection : Str) (lineNo : Nat) :
    List Str → Except Fault (Except Error Config)
  | [] => .ok (.ok config)
  | line :: rest =>
    let lineNo := lineNo + 1
    match readLine line with
    | .blank => loop limit strtod config currentSection lineNo rest
    | .header name => loop limit strtod config name lineNo rest
    | .malformed message => .ok (.error (makeParseError lineNo message))
    | .assignment key value =>
      match setIn limit config (fullPath currentSection key) (parseValue strtod value) with
      | .error fault => .error fault
      | .ok config => loop limit strtod config currentSection lineNo rest

def parse (limit : Nat) (strtod : Str → Option UInt64) (content : Str) : Except Fault (Except Error Config) :=
  loop limit strtod make [] 0 (lines content)

end IniConfig

end Dbase.Config
