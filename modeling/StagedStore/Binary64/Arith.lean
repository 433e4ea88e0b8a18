import StagedStore.Binary64.Basic

/-!
# Arithmetic and order of binary floating-point numbers

Every operation is the exact result rounded once. `compareInt` and `cmp` compare by exact value,
so an integer and a floating-point number are equal only when they are the same number.
-/

namespace StagedStore.Binary64

/-- A signed number of units, rounded. An exact zero is positive. -/
def ofSignedUnits (n : Int) : Binary64 :=
  ofUnits (decide (n < 0)) n.natAbs 1

/-- The rounded sum. Opposite numbers sum to the positive zero, two negative zeros to the
negative one. -/
def add : Binary64 → Binary64 → Binary64
  | .nan, _ => .nan
  | _, .nan => .nan
  | .infinite s, .infinite t => if s = t then .infinite s else .nan
  | .infinite s, .finite .. => .infinite s
  | .finite .., .infinite t => .infinite t
  | x@(.finite s _ _ _), y@(.finite t _ _ _) =>
    let n := x.units + y.units
    if n = 0 then zero (s && t) else ofSignedUnits n

instance : Add Binary64 := ⟨add⟩

/-- The rounded product of two finite numbers; other operands give `nan`. -/
def mulFinite (x y : Binary64) : Binary64 :=
  match x, y with
  | .finite s _ _ _, .finite t _ _ _ =>
    ofUnits (s != t) (x.magnitude * y.magnitude) unitsPerOne
  | _, _ => .nan

/-- The rounded quotient of two finite numbers, the second not zero; other operands give `nan`. -/
def divFinite (x y : Binary64) : Binary64 :=
  match x, y with
  | .finite s _ _ _, .finite t _ _ _ =>
    if y.magnitude = 0 then .nan
    else ofUnits (s != t) (x.magnitude * unitsPerOne) y.magnitude
  | _, _ => .nan

/-- Order by value: the two zeros are equal, and `nan` is below everything. -/
def cmp : Binary64 → Binary64 → Ordering
  | .nan, .nan => .eq
  | .nan, _ => .lt
  | _, .nan => .gt
  | .infinite s, .infinite t => if s = t then .eq else if s then .lt else .gt
  | .infinite s, .finite .. => if s then .lt else .gt
  | .finite .., .infinite t => if t then .gt else .lt
  | x@(.finite ..), y@(.finite ..) => compare x.units y.units

/-- How a number compares with an integer, by exact value. -/
def compareInt (x : Binary64) (n : Int) : Ordering :=
  match x with
  | .nan => .lt
  | .infinite s => if s then .lt else .gt
  | .finite .. => compare x.units (n * unitsPerOne)

/-- The integer a number is, if it is one. -/
def toInt? (x : Binary64) : Option Int :=
  match x with
  | .finite .. => if x.units % unitsPerOne = 0 then some (x.units / unitsPerOne) else none
  | _ => none

end StagedStore.Binary64
