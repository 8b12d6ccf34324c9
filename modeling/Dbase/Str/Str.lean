/-
  Dbase.Str.Str — searching, splitting, joining and replacing (`str.cpp`).

  A string or a view is the list of its characters, of any type. The loops get a bound on their turns and answer `none`
  where it does not suffice. `out.reserve` asks for room only and is left out; the overloads of `join` differ in the
  type of the parts and are one function here.
-/

import Mathlib

namespace Dbase.Str

variable {α : Type} [DecidableEq α]

/-! ## `std::string_view` -/

/-- `str.find(needle, pos)`: the first occurrence that begins at `pos` or behind it; `none` is `npos`. -/
def find (str needle : List α) (pos : Nat) : Option Nat :=
  (List.range' pos (str.length + 1 - pos)).find? fun i => needle.isPrefixOf (str.drop i)

/-- `str.substr(pos, count)` -/
def substr (str : List α) (pos count : Nat) : List α := (str.drop pos).take count

/-! ## Splitting -/

/-- The loop of `splitView` from `begin` on, with what `out` holds; `width` is how far a delimiter reaches. -/
def splitFrom (str delim : List α) (width : Nat) (keepEmpty : Bool) : Nat → Nat → List (List α) → Option (List (List α))
  | 0, _, _ => none
  | n + 1, begin, out =>
    if begin ≤ str.length then
      let pos := find str delim begin
      let len := match pos with
        | none => str.length - begin
        | some pos => pos - begin
      let out := if len ≠ 0 ∨ keepEmpty then out ++ [substr str begin len] else out
      match pos with
      | none => some out
      | some pos => splitFrom str delim width keepEmpty n (pos + width) out
    else some out

/-- `splitView(str, char delim, keepEmpty)`; `str.find(delim, begin)` is the search for the string of that character. -/
def splitViewChar (n : Nat) (str : List α) (delim : α) (keepEmpty : Bool) : Option (List (List α)) :=
  splitFrom str [delim] 1 keepEmpty n 0 []

/-- `splitView(str, std::string_view delim, keepEmpty)` -/
def splitView (n : Nat) (str delim : List α) (keepEmpty : Bool) : Option (List (List α)) :=
  if delim.isEmpty then some (if !str.isEmpty || keepEmpty then [str] else [])
  else splitFrom str delim delim.length keepEmpty n 0 []

/-- `split` by a character: copies of the views. -/
def splitChar (n : Nat) (str : List α) (delim : α) (keepEmpty : Bool) : Option (List (List α)) :=
  (splitViewChar n str delim keepEmpty).map fun views => views.foldl (fun out part => out ++ [part]) []

/-- `split` by a string: copies of the views. -/
def split (n : Nat) (str delim : List α) (keepEmpty : Bool) : Option (List (List α)) :=
  (splitView n str delim keepEmpty).map fun views => views.foldl (fun out part => out ++ [part]) []

/-! ## Joining and replacing -/

def join (parts : List (List α)) (delim : List α) : List α :=
  if parts.isEmpty then []
  else parts.zipIdx.foldl (fun out (part, i) => (if i ≠ 0 then out ++ delim else out) ++ part) []

/-- The loop of `replaceAll` from `begin` on, with what `out` holds. -/
def replaceFrom (str from' to' : List α) : Nat → Nat → List α → Option (List α)
  | 0, _, _ => none
  | n + 1, begin, out =>
    if begin < str.length then
      match find str from' begin with
      | none => some (out ++ str.drop begin)
      | some pos => replaceFrom str from' to' n (pos + from'.length) (out ++ substr str begin (pos - begin) ++ to')
    else some out

def replaceAll (n : Nat) (str from' to' : List α) : Option (List α) :=
  if from'.isEmpty then some str else replaceFrom str from' to' n 0 []

end Dbase.Str
