/-
  Dbase.Config.ConfigValue — `ConfigValue`: null, a scalar, an array, or an object (`config_value.h`), and the accessors
  that ask for a type.

  A `std::string` is the list of its characters, one for each byte. The members of an object are in the order in which
  the `unordered_map` is iterated; a new one is put at the end. A `double` is its 64 bits.
-/

import Mathlib
import Dbase.Error

namespace Dbase.Config

abbrev Str := List Char

inductive ConfigValue where
  | null
  | bool (value : Bool)
  | int (value : Int64)
  | uint (value : UInt64)
  | double (bits : UInt64)
  | string (value : Str)
  | array (items : List ConfigValue)
  | object (members : List (Str × ConfigValue))
  deriving Repr

namespace ConfigValue

def isArray : ConfigValue → Bool
  | array _ => true
  | _ => false

def isObject : ConfigValue → Bool
  | object _ => true
  | _ => false

/-- `asArray()` of an array; no items for another value, where the source does not ask. -/
def asArray : ConfigValue → List ConfigValue
  | array items => items
  | _ => []

/-- `asObject()` of an object. -/
def asObject : ConfigValue → List (Str × ConfigValue)
  | object members => members
  | _ => []

/-! ## Typed accessors -/

def typeName : ConfigValue → String
  | null => "null"
  | bool _ => "bool"
  | int _ => "int64"
  | uint _ => "uint64"
  | double _ => "double"
  | string _ => "string"
  | array _ => "array"
  | object _ => "object"

def makeTypeError (expected actual : String) : Error :=
  ⟨.invalidArgument, "config value type mismatch, expected " ++ expected ++ ", actual " ++ actual, 0⟩

def tryGetBool : ConfigValue → Except Error Bool
  | bool value => .ok value
  | other => .error (makeTypeError "bool" other.typeName)

def tryGetInt : ConfigValue → Except Error Int64
  | int value => .ok value
  | uint value =>
    if Int64.maxValue.toUInt64 < value then .error ⟨.invalidArgument, "uint64 value out of int64 range", 0⟩
    else .ok value.toInt64
  | other => .error (makeTypeError "int64" other.typeName)

def tryGetUInt : ConfigValue → Except Error UInt64
  | uint value => .ok value
  | int value =>
    if value < 0 then .error ⟨.invalidArgument, "negative int64 cannot convert to uint64", 0⟩
    else .ok value.toUInt64
  | other => .error (makeTypeError "uint64" other.typeName)

theorem int64_neg_iff (n : Int64) : n < 0 ↔ n.toInt < 0 := by
  rw [Int64.lt_iff_toInt_lt]
  rfl

theorem toInt_toInt64 {n : UInt64} (h : n.toNat < 2 ^ 63) : n.toInt64.toInt = n.toNat := by
  show n.toBitVec.toInt = n.toNat
  rw [BitVec.toInt_eq_toNat_of_lt (by rw [UInt64.toNat_toBitVec]; omega)]
  rfl

theorem toInt64_neg {n : UInt64} (h : 2 ^ 63 ≤ n.toNat) : n.toInt64.toInt < 0 := by
  show n.toBitVec.toInt < 0
  have hlt := n.toNat_lt
  rw [BitVec.toInt_eq_toNat_cond, UInt64.toNat_toBitVec, if_neg (by omega)]
  omega

theorem tryGetUInt_int {n : Int64} (h : 0 ≤ n.toInt) :
    (tryGetUInt (.int n)).map (fun k => (k.toNat : Int)) = .ok n.toInt := by
  have hneg : ¬ n < 0 := by rw [int64_neg_iff]; omega
  have hle : (0 : Int64) ≤ n := Int64.not_lt.mp hneg
  rw [tryGetUInt, if_neg hneg, Except.map, Int64.toNat_toUInt64_of_le hle, Int64.toNatClampNeg]
  exact congrArg Except.ok (Int.toNat_of_nonneg h)

theorem tryGetUInt_neg {n : Int64} (h : n.toInt < 0) :
    tryGetUInt (.int n) = .error ⟨.invalidArgument, "negative int64 cannot convert to uint64", 0⟩ :=
  if_pos ((int64_neg_iff n).mpr h)

theorem tryGetInt_uint {n : UInt64} (h : n.toNat < 2 ^ 63) :
    (tryGetInt (.uint n)).map Int64.toInt = .ok (n.toNat : Int) := by
  have hle : ¬ Int64.maxValue.toUInt64 < n := by
    have hmax : Int64.maxValue.toUInt64.toNat = 2 ^ 63 - 1 := by decide
    rw [UInt64.lt_iff_toNat_lt]
    omega
  rw [tryGetInt, if_neg hle, Except.map, toInt_toInt64 h]

end ConfigValue

end Dbase.Config
