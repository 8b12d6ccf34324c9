/-
  Dbase.Math.Fraction — `Fraction` (`fraction.h`, `fraction.cpp`): quotients of 64-bit integers kept in lowest terms.

  The member functions work on objects, so that an operand may be the object itself: a call leaves the objects as it has
  made them also where it throws, and every assignment to a field stands where the source has it. An operation of the
  language outside its domain (a signed result that does not fit, a division by zero) is not an exception of the class:
  it comes back as `undefined`, and so does what follows it.

  `std::uint64_t` values are naturals: every one here is an absolute value, a common divisor, or a remainder of such.
  Where the source leaves the order of evaluation open (the two products of a sum), the first one throws first.
-/

import Dbase.Lib.Signed

namespace Dbase.Math

open Dbase.Lib.Signed

structure Fraction where
  num : Int
  den : Int
  deriving DecidableEq, Repr

namespace Fraction

inductive Thrown where
  | overflowError (what : String)
  | domainError (what : String)
  | invalidArgument (what : String)
  /-- an operation of the language outside its domain -/
  | undefined
  deriving DecidableEq, Repr

abbrev Res := Except Thrown

/-! ## 64-bit integers -/

def i64 (x : Int) : Res Int := if InRange 64 x then .ok x else .error .undefined

def i64Add (a b : Int) : Res Int := i64 (a + b)

def i64Sub (a b : Int) : Res Int := i64 (a - b)

def i64Mul (a b : Int) : Res Int := i64 (a * b)

def i64Neg (a : Int) : Res Int := i64 (-a)

/-- Division rounds toward zero. -/
def i64Div (a b : Int) : Res Int := if b = 0 then .error .undefined else i64 (a.tdiv b)

/-! ## The helpers -/

def absToUint64 (x : Int) : Res Nat :=
  if x ≥ 0 then .ok (x % 2 ^ 64).toNat
  else do
    let y ← i64Neg (← i64Add x 1)
    return ((y % 2 ^ 64).toNat + 1) % 2 ^ 64

def safeNegate (x : Int) : Res Int :=
  if x = minOf 64 then .error (.overflowError "integer overflow on negate") else i64Neg x

def safeAdd (a b : Int) : Res Int := do
  if 0 < b then
    if a > (← i64Sub (maxOf 64) b) then .error (.overflowError "integer overflow on add") else i64Add a b
  else if b < 0 then
    if a < (← i64Sub (minOf 64) b) then .error (.overflowError "integer overflow on add") else i64Add a b
  else i64Add a b

def safeSub (a b : Int) : Res Int := do
  if b = minOf 64 then .error (.overflowError "integer overflow on sub") else safeAdd a (← i64Neg b)

def safeMul (a b : Int) : Res Int := do
  if a = 0 ∨ b = 0 then return 0
  else if a = 1 then return b
  else if b = 1 then return a
  else if a = -1 then safeNegate b
  else if b = -1 then safeNegate a
  else if 0 < a then
    if 0 < b then
      if a > (← i64Div (maxOf 64) b) then .error (.overflowError "integer overflow on mul") else i64Mul a b
    else
      if b < (← i64Div (minOf 64) a) then .error (.overflowError "integer overflow on mul") else i64Mul a b
  else
    if 0 < b then
      if a < (← i64Div (minOf 64) b) then .error (.overflowError "integer overflow on mul") else i64Mul a b
    else
      if a < (← i64Div (maxOf 64) b) then .error (.overflowError "integer overflow on mul") else i64Mul a b

def safeCastU64ToI64 (x : Nat) : Res Int :=
  if x = 0 then .ok 0
  else if (x : Int) > maxOf 64 then .error (.overflowError "integer overflow on cast")
  else .ok x

/-- The loop, with its two variables. -/
def gcdU64 (a b : Nat) : Nat :=
  if _h : b = 0 then a else gcdU64 b (a % b)
termination_by b
decreasing_by exact Nat.mod_lt _ (by omega)

/-- `std::strong_ordering`, the other way round where `reversed`. -/
def directed (reversed less : Bool) : Ordering :=
  if !reversed then (if less then .lt else .gt) else (if less then .gt else .lt)

/-- The loop, with its five variables. -/
def compareFrom (a b c d : Nat) (reversed : Bool) : Res Ordering :=
  if _h : b = 0 ∨ d = 0 then .error .undefined
  else
    let q1 := a / b
    let q2 := c / d
    if q1 ≠ q2 then .ok (directed reversed (q1 < q2))
    else
      let r1 := a % b
      let r2 := c % d
      if r1 = 0 ∨ r2 = 0 then
        if r1 = 0 ∧ r2 = 0 then .ok .eq else .ok (directed reversed (r1 = 0))
      else compareFrom b r1 d r2 (!reversed)
termination_by b
decreasing_by exact Nat.mod_lt _ (by omega)

def compareUnsignedFractions (a b c d : Nat) : Res Ordering := compareFrom a b c d false

/-! ## Objects -/

/-- A member function on the objects there are: it may throw, and the objects stay as it has left them. -/
abbrev Member (Obj α : Type) := ExceptT Thrown (StateM (Obj → Fraction)) α

section Members

variable {Obj : Type} [DecidableEq Obj]

/-- How the call ends, and the objects after it. -/
def call {α : Type} (m : Member Obj α) (mem : Obj → Fraction) : Res α × (Obj → Fraction) := m.run.run mem

def getNum (o : Obj) : Member Obj Int := do return ((← get) o).num

def getDen (o : Obj) : Member Obj Int := do return ((← get) o).den

def setNum (o : Obj) (x : Int) : Member Obj Unit := modify fun mem => Function.update mem o { mem o with num := x }

def setDen (o : Obj) (x : Int) : Member Obj Unit := modify fun mem => Function.update mem o { mem o with den := x }

def normalize (this : Obj) : Member Obj Unit := do
  if (← getDen this) = 0 then throw (.invalidArgument "denominator cannot be zero")
  else if (← getNum this) = 0 then setDen this 1
  else
    let g ← safeCastU64ToI64 (gcdU64 (← absToUint64 (← getNum this)) (← absToUint64 (← getDen this)))
    setNum this (← i64Div (← getNum this) g)
    setDen this (← i64Div (← getDen this) g)
    if (← getDen this) < 0 then
      if (← getDen this) = minOf 64 then throw (.overflowError "fraction normalization overflow")
      else
        setNum this (← safeNegate (← getNum this))
        setDen this (← i64Neg (← getDen this))

/-- `+=` and `-=`, which differ in how the two products are combined. -/
def combineAssign (combine : Int → Int → Res Int) (this other : Obj) : Member Obj Unit := do
  let g ← safeCastU64ToI64 (gcdU64 (← absToUint64 (← getDen this)) (← absToUint64 (← getDen other)))
  let leftMul ← i64Div (← getDen other) g
  let rightMul ← i64Div (← getDen this) g
  let newNum ← combine (← safeMul (← getNum this) leftMul) (← safeMul (← getNum other) rightMul)
  let newDen ← safeMul (← getDen this) leftMul
  setNum this newNum
  setDen this newDen
  normalize this

/-- `operator+=` -/
def addAssign (this other : Obj) : Member Obj Unit := combineAssign safeAdd this other

/-- `operator-=` -/
def subAssign (this other : Obj) : Member Obj Unit := combineAssign safeSub this other

/-- `operator*=` -/
def mulAssign (this other : Obj) : Member Obj Unit := do
  if (← getNum this) = 0 ∨ (← getNum other) = 0 then
    setNum this 0
    setDen this 1
  else
    let a ← getNum this
    let b ← getDen this
    let c ← getNum other
    let d ← getDen other
    let g1 ← safeCastU64ToI64 (gcdU64 (← absToUint64 a) (← absToUint64 d))
    let a ← i64Div a g1
    let d ← i64Div d g1
    let g2 ← safeCastU64ToI64 (gcdU64 (← absToUint64 c) (← absToUint64 b))
    let c ← i64Div c g2
    let b ← i64Div b g2
    setNum this (← safeMul a c)
    setDen this (← safeMul b d)
    normalize this

/-- `operator/=` -/
def divAssign (this other : Obj) : Member Obj Unit := do
  if (← getNum other) = 0 then throw (.domainError "division by zero fraction")
  else if (← getNum this) = 0 then setDen this 1
  else
    let a ← getNum this
    let b ← getDen this
    let c ← getNum other
    let d ← getDen other
    let g1 ← safeCastU64ToI64 (gcdU64 (← absToUint64 a) (← absToUint64 c))
    let a ← i64Div a g1
    let c ← i64Div c g1
    let g2 ← safeCastU64ToI64 (gcdU64 (← absToUint64 d) (← absToUint64 b))
    let d ← i64Div d g2
    let b ← i64Div b g2
    setNum this (← safeMul a d)
    setDen this (← safeMul b c)
    normalize this

end Members

/-! ## Values -/

/-- `Fraction(numerator, denominator)`: there is no object where the constructor throws. -/
def make (numerator denominator : Int) : Res Fraction :=
  match call (normalize ()) (fun _ : Unit => ⟨numerator, denominator⟩) with
  | (.ok _, mem) => .ok (mem ())
  | (.error e, _) => .error e

/-- `operator-()` -/
def neg (f : Fraction) : Res Fraction := do make (← safeNegate f.num) f.den

/-- `operator==` -/
def equal (lhs rhs : Fraction) : Bool := lhs.num = rhs.num && lhs.den = rhs.den

/-- `operator<=>` -/
def compare3 (lhs rhs : Fraction) : Res Ordering := do
  if lhs.num = rhs.num ∧ lhs.den = rhs.den then return .eq
  else if lhs.num < 0 ∧ rhs.num ≥ 0 then return .lt
  else if lhs.num ≥ 0 ∧ rhs.num < 0 then return .gt
  else
    let lhsAbs ← absToUint64 lhs.num
    let rhsAbs ← absToUint64 rhs.num
    let ord ← compareUnsignedFractions lhsAbs (lhs.den % 2 ^ 64).toNat rhsAbs (rhs.den % 2 ^ 64).toNat
    if lhs.num < 0 then
      if ord = .lt then return .gt
      else if ord = .gt then return .lt
      else return ord
    else return ord

end Fraction

end Dbase.Math
