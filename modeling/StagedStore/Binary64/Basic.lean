/-!
# Binary floating-point numbers by value

A finite number is `± significand * 2 ^ exponent` counted in units of `2 ^ -1074`, the smallest
positive number of the format, so every finite number is an integer number of units and all
arithmetic below is exact arithmetic on naturals followed by one rounding.

* `nearestEven` rounds a quotient to an integer, ties to even.
* `roundUnits` rounds a quotient of naturals to a significand of a given width.
* `Binary64.ofUnits` rounds a quotient, in units, to the format; it overflows to infinity.
-/

namespace StagedStore

/-- The integer nearest to `num / den`; a tie goes to the even neighbour. -/
def nearestEven (num den : Nat) : Nat :=
  let q := num / den
  let r := num % den
  if 2 * r < den then q
  else if den < 2 * r then q + 1
  else if q % 2 = 0 then q else q + 1

/-- `num / den` rounded to a significand of at most `width` bits and the exponent it is scaled by. -/
def roundUnits (width num den : Nat) : Nat × Nat :=
  let shift := (num / den).log2 + 1 - width
  let m := nearestEven num (den * Nat.pow 2 shift)
  if m = Nat.pow 2 width then (Nat.pow 2 (width - 1), shift + 1) else (m, shift)

/-- The significand has at most 53 bits, and exactly 53 unless the exponent is the smallest. -/
def Binary64.Canonical (significand exponent : Nat) : Prop :=
  significand < Nat.pow 2 53 ∧ (exponent = 0 ∨ Nat.pow 2 52 ≤ significand) ∧ exponent ≤ 2045

instance (m e : Nat) : Decidable (Binary64.Canonical m e) := by
  unfold Binary64.Canonical
  infer_instance

/-- A binary floating-point number of 64 bits. -/
inductive Binary64 where
  | finite (negative : Bool) (significand exponent : Nat)
      (canonical : Binary64.Canonical significand exponent)
  | infinite (negative : Bool)
  | nan
deriving DecidableEq

namespace Binary64

/-- How many units make one. -/
def unitsPerOne : Nat := Nat.pow 2 1074

/-- Zero with a sign. -/
def zero (negative : Bool) : Binary64 :=
  .finite negative 0 0 (by decide)

instance : Inhabited Binary64 := ⟨zero false⟩

/-- The number nearest to `num / den` units. -/
def ofUnits (negative : Bool) (num den : Nat) : Binary64 :=
  let r := roundUnits 53 num den
  if h : Canonical r.1 r.2 then .finite negative r.1 r.2 h else .infinite negative

/-- The number nearest to the fraction `num / den`. -/
def ofRatio (negative : Bool) (num den : Nat) : Binary64 :=
  ofUnits negative (num * unitsPerOne) den

/-- The number of the 32-bit format nearest to a fraction: 24 bits of significand in units of
`2 ^ -149`. -/
def ofRatioSingle (negative : Bool) (num den : Nat) : Binary64 :=
  let r := roundUnits 24 (num * Nat.pow 2 149) den
  if r.2 ≤ 253 then ofUnits negative (r.1 * Nat.pow 2 r.2 * Nat.pow 2 925) 1 else .infinite negative

/-- The number nearest to an integer. -/
def ofInt (n : Int) : Binary64 :=
  ofRatio (decide (n < 0)) n.natAbs 1

/-- How many units a finite number is from zero. -/
def magnitude : Binary64 → Nat
  | .finite _ m e _ => m * Nat.pow 2 e
  | _ => 0

/-- A finite number in units. -/
def units : Binary64 → Int
  | .finite true m e _ => -((m * Nat.pow 2 e : Nat) : Int)
  | .finite false m e _ => ((m * Nat.pow 2 e : Nat) : Int)
  | _ => 0

def isFinite : Binary64 → Bool
  | .finite .. => true
  | _ => false

def isNaN : Binary64 → Bool
  | .nan => true
  | _ => false

def isNegative : Binary64 → Bool
  | .finite s _ _ _ => s
  | .infinite s => s
  | .nan => false

def neg : Binary64 → Binary64
  | .finite s m e h => .finite (!s) m e h
  | .infinite s => .infinite (!s)
  | .nan => .nan

instance : Neg Binary64 := ⟨neg⟩

/-- A stable hash; equal numbers share it because the representation is unique. -/
def hash : Binary64 → UInt64
  | .finite s m e _ => mixHash (mixHash (Hashable.hash s) (Hashable.hash m)) (Hashable.hash e)
  | .infinite s => mixHash 7 (Hashable.hash s)
  | .nan => 11

instance : Hashable Binary64 := ⟨hash⟩

end Binary64

end StagedStore
