/-
  Dbase.Config.Config — `Config`: a tree of values, addressed by dotted paths, with a cached flat view.

  A segment of digits is an index, any other a key. A pointer into the tree is the way to its node from the root (`Step`).
  A `set` that would write behind the end of an array has no result. `size_t` has 64 bits; allocations succeed.
-/

import Dbase.Config.ConfigValue
import Dbase.Error
import Dbase.Lib.Machine
import Dbase.Lib.Path

namespace Dbase

open Dbase.Lib

namespace Config

/-! ## Paths -/

def isDigit (c : Char) : Bool := '0' ≤ c ∧ c ≤ '9'

def isIndexSegment (segment : Str) : Bool := !segment.isEmpty && segment.all isDigit

def splitPath (path : Str) : List Str := if path.isEmpty then [] else path.splitOn '.'

def parseIndex (segment : Str) : Nat := segment.foldl (fun value c => (value * 10 + (c.toNat - '0'.toNat)) % 2 ^ 64) 0

/-- What a segment asks of the node it is looked up in. -/
inductive Step where
  | index (i : Nat)
  | key (k : Str)
  deriving DecidableEq, Repr

/-! ## Reading -/

/-- The loop of `getByPathConst`. -/
def walk : ConfigValue → List Str → Option ConfigValue
  | current, [] => some current
  | current, part :: parts =>
    if isIndexSegment part then
      if !current.isArray then none
      else
        match current.asArray[parseIndex part]? with
        | none => none
        | some child => walk child parts
    else if !current.isObject then none
    else
      match current.asObject.lookup part with
      | none => none
      | some child => walk child parts

def getByPathConst (root : ConfigValue) (path : Str) : Option ConfigValue :=
  if path.isEmpty then some root else walk root (splitPath path)

/-- The loop of `getByPathMutable`: the way to the node it comes to. -/
def locate : ConfigValue → List Str → Option (List Step)
  | _, [] => some []
  | current, part :: parts =>
    if isIndexSegment part then
      if !current.isArray then none
      else
        match current.asArray[parseIndex part]? with
        | none => none
        | some child => (locate child parts).map (.index (parseIndex part) :: ·)
    else if !current.isObject then none
    else
      match current.asObject.lookup part with
      | none => none
      | some child => (locate child parts).map (.key part :: ·)

def getByPathMutable (root : ConfigValue) (path : Str) : Option (List Step) :=
  if path.isEmpty then some [] else locate root (splitPath path)

/-! ## The nodes of a tree -/

def resize (items : List ConfigValue) (n : Nat) : List ConfigValue :=
  items.take n ++ List.replicate (n - items.length) .null

/-- The child that a step leads to. -/
def child : Step → ConfigValue → Option ConfigValue
  | .index i, .array items => items[i]?
  | .key k, .object members => members.lookup k
  | _, _ => none

/-- The node with a child put at a step: an array that is long enough, or an object. -/
def place : Step → ConfigValue → ConfigValue → ConfigValue
  | .index i, node, x =>
    .array ((if node.asArray.length ≤ i then resize node.asArray (i + 1) else node.asArray).set i x)
  | .key k, node, x => .object (Entries.put k x node.asObject)

def nodes : Nodes Step ConfigValue := ⟨child, place, .null⟩

/-- What a pointer points to. -/
def deref (root : ConfigValue) (pointer : List Step) : Option ConfigValue := nodes.get pointer root

/-- A write through a pointer. -/
def store (root : ConfigValue) (pointer : List Step) (value : ConfigValue) : ConfigValue := nodes.set pointer root value

/-! ## Writing -/

/-- `assignPath` from the segment it has come to; it is not called without one. -/
def assignPath (current : ConfigValue) : List Str → ConfigValue → Option ConfigValue
  | [], _ => none
  | part :: parts, value =>
    if isIndexSegment part then
      let arrayIndex := parseIndex part
      let arr := current.asArray
      let arr := if arr.length ≤ arrayIndex then resize arr ((arrayIndex + 1) % 2 ^ 64) else arr
      match arr[arrayIndex]? with
      -- out of bounds
      | none => none
      | some child =>
        (if parts.isEmpty then some value else assignPath child parts value).map fun child =>
          .array (arr.set arrayIndex child)
    else
      let obj := current.asObject
      let child := (obj.lookup part).getD .null
      (if parts.isEmpty then some value else assignPath child parts value).map fun child =>
        .object (Entries.put part child obj)

/-! ## The flat view -/

def joinPath (path segment : Str) : Str := if path.isEmpty then segment else path ++ '.' :: segment

mutual

/-- `flattenInto`, on the map as it is so far. -/
def flattenInto (flatValues : List (Str × ConfigValue)) (path : Str) (value : ConfigValue) : List (Str × ConfigValue) :=
  let flatValues := if path.isEmpty then flatValues else Entries.put path value flatValues
  match value with
  | .object members => flattenMembers flatValues path members
  | .array items => flattenItems flatValues path 0 items
  | _ => flatValues

def flattenMembers (flatValues : List (Str × ConfigValue)) (path : Str) :
    List (Str × ConfigValue) → List (Str × ConfigValue)
  | [] => flatValues
  | (key, value) :: rest => flattenMembers (flattenInto flatValues (joinPath path key) value) path rest

def flattenItems (flatValues : List (Str × ConfigValue)) (path : Str) (i : Nat) :
    List ConfigValue → List (Str × ConfigValue)
  | [] => flatValues
  | value :: rest => flattenItems (flattenInto flatValues (joinPath path (Nat.toDigits 10 i)) value) path (i + 1) rest

end

def flatten (root : ConfigValue) : List (Str × ConfigValue) := flattenInto [] [] root

end Config

/-! ## The configuration -/

structure Config where
  root : Config.ConfigValue
  flatCacheDirty : Bool
  flatValues : List (Config.Str × Config.ConfigValue)

namespace Config

def make : Config := ⟨.object [], true, []⟩

def makeNotFoundError (path : Str) : Error := ⟨.notFound, "config path not found: " ++ String.ofList path, 0⟩

def markFlatCacheDirty (c : Config) : Config := { c with flatCacheDirty := true }

/-- `root()` that gives a reference to write through; its caller writes at once. -/
def writeRoot (c : Config) (value : ConfigValue) : Config := { markFlatCacheDirty c with root := value }

/-- `get` of a `const Config`, with what the pointer points to. -/
def get (c : Config) (path : Str) : Except Error ConfigValue :=
  match getByPathConst c.root path with
  | none => .error (makeNotFoundError path)
  | some value => .ok value

/-- `get` of a `Config` that is not `const`. -/
def getMutable (c : Config) (path : Str) : Except Error (List Step) :=
  match getByPathMutable c.root path with
  | none => .error (makeNotFoundError path)
  | some pointer => .ok pointer

/-- A write through the pointer of a `get` just made. -/
def writeGet (c : Config) (path : Str) (value : ConfigValue) : Option Config :=
  match getMutable c path with
  | .error _ => none
  | .ok pointer => some { c with root := store c.root pointer value }

def setRoot (c : Config) (root : ConfigValue) : Config := markFlatCacheDirty { c with root := root }

def set (c : Config) (path : Str) (value : ConfigValue) : Option Config :=
  if path.isEmpty then some (setRoot c value)
  else
    let parts := splitPath path
    if parts.isEmpty then some (setRoot c value)
    else (assignPath c.root parts value).map fun root => markFlatCacheDirty { c with root := root }

def rebuildFlatCache (c : Config) : Config := { c with flatValues := flatten c.root, flatCacheDirty := false }

/-- `values()`: the configuration behind it holds what it returns. -/
def values (c : Config) : Config := if c.flatCacheDirty then rebuildFlatCache c else c

/-! ## Steps -/

inductive Act where
  | set (path : Str) (value : ConfigValue)
  | setRoot (root : ConfigValue)
  | writeRoot (value : ConfigValue)
  | writeGet (path : Str) (value : ConfigValue)
  | values

def step (c : Config) : Act → Option Config
  | .set path value => set c path value
  | .setRoot root => some (setRoot c root)
  | .writeRoot value => some (writeRoot c value)
  | .writeGet path value => writeGet c path value
  | .values => some (values c)

def machine : Machine Config Act := ⟨make, step⟩

end Config

end Dbase
