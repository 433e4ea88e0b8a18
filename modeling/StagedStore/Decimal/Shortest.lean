import StagedStore.Decimal.Reader

/-!
# Decimal notation, written

`Binary64.shortest` gives the fewest significant digits that read back as the number, and among
those the nearest; `Binary64.rounded` a fixed count of digits. A `NumberLayout` decides how digits are
laid out: where positional writing ends, how an exponent looks, what infinity and nan are called.
-/

namespace StagedStore

/-- Significant digits, none of them a leading or trailing zero, of the number
`0.d₁d₂… * 10 ^ point`. -/
structure Significant where
  digits : List Char
  point : Int
deriving DecidableEq, Repr

namespace Significant

/-- Drop the zeros at the end. -/
def trim (s : Significant) : Significant :=
  { s with digits := (s.digits.reverse.dropWhile (· = '0')).reverse }

/-- The digits of `n * 10 ^ exponent`. -/
def ofDecimal (n : Nat) (exponent : Int) : Significant :=
  let ds := Nat.toDigits 10 n
  trim ⟨ds, ds.length + exponent⟩

end Significant

namespace Binary64

/-- Enough decimal places to show 17 significant digits of the smallest number. -/
def places : Nat := 400

/-- The leading digits of a positive number, cut off after `places` decimal places. -/
def expansion (x : Binary64) : List Char :=
  Nat.toDigits 10 (x.magnitude * Nat.pow 10 places / unitsPerOne)

/-- Whether `|x|` is below, at or above the middle between `c` and `c + 1` on the grid of step
`10 ^ step`. -/
def compareMiddle (x : Binary64) (c : Nat) (step : Int) : Ordering :=
  match step with
  | .ofNat s => compare (2 * x.magnitude) ((2 * c + 1) * Nat.pow 10 s * unitsPerOne)
  | .negSucc s => compare (2 * x.magnitude * Nat.pow 10 (s + 1)) ((2 * c + 1) * unitsPerOne)

/-- The neighbour of `|x|` on the grid of `count` significant digits that reads back as `|x|`; of
two such the nearer one, and the even one in a tie. -/
def onGrid? (x : Binary64) (leading : List Char) (count : Nat) : Option Significant :=
  let step : Int := (leading.length : Int) - places - count
  let low := digitsValue (leading.take count)
  let readsBack (n : Nat) : Bool := (Decimal.mk x.isNegative n step).toBinary64 = x
  let lower := Significant.ofDecimal low step
  let upper := Significant.ofDecimal (low + 1) step
  match readsBack low, readsBack (low + 1) with
  | true, false => some lower
  | false, true => some upper
  | false, false => none
  | true, true =>
    match x.compareMiddle low step with
    | .lt => some lower
    | .gt => some upper
    | .eq => some (if low % 2 = 0 then lower else upper)

/-- All digits of a finite number. -/
def exact (x : Binary64) : Significant :=
  Significant.ofDecimal (x.magnitude * Nat.pow 5 1074) (-1074)

/-- The fewest digits that read back as a finite number other than zero. Seventeen always do. -/
def shortest (x : Binary64) : Significant :=
  let leading := x.expansion
  ((List.range 17).findSome? fun i => x.onGrid? leading (i + 1)).getD x.exact

/-- A finite number other than zero to `count` significant digits, a half rounded away from zero. -/
def rounded (x : Binary64) (count : Nat) : Significant :=
  let leading := x.expansion
  let low := digitsValue (leading.take count)
  let next := (leading.drop count).headD '0'
  Significant.ofDecimal (if '5' ≤ next then low + 1 else low)
    ((leading.length : Int) - places - count)

end Binary64

/-- How a floating-point number is laid out as text. -/
structure NumberLayout where
  /-- Numbers `0.d₁d₂… * 10 ^ point` with `lowest ≤ point ≤ highest` are written positionally. -/
  lowest : Int
  highest : Int
  /-- An exponent follows a number with a point, even if only a zero stands behind it. -/
  pointBeforeExponent : Bool
  /-- A positive exponent carries its sign. -/
  plusSign : Bool
  exponentDigits : Nat
  signedZero : Bool
  nan : String
  infinity : String

namespace NumberLayout

/-- Digits with the point among them; a zero stands on the side that has no digit. -/
def positional (s : Significant) : List Char :=
  if s.point ≤ 0 then
    '0' :: '.' :: (List.replicate s.point.natAbs '0' ++ s.digits)
  else
    let whole := s.point.toNat
    if s.digits.length ≤ whole then
      s.digits ++ List.replicate (whole - s.digits.length) '0' ++ ['.', '0']
    else
      s.digits.take whole ++ '.' :: s.digits.drop whole

/-- An exponent with its sign and its least count of digits. -/
def exponent (f : NumberLayout) (e : Int) : List Char :=
  let ds := Nat.toDigits 10 e.natAbs
  let padded := List.replicate (f.exponentDigits - ds.length) '0' ++ ds
  if e < 0 then '-' :: padded else if f.plusSign then '+' :: padded else padded

/-- One digit, the point, the other digits, and the exponent. -/
def scientific (f : NumberLayout) (s : Significant) : List Char :=
  let tail := match s.digits.drop 1 with
    | [] => if f.pointBeforeExponent then ['.', '0'] else []
    | ds => '.' :: ds
  s.digits.take 1 ++ tail ++ 'e' :: f.exponent (s.point - 1)

/-- Text of a number whose digits `digits` finds. -/
def write (f : NumberLayout) (digits : Binary64 → Significant) (x : Binary64) : String :=
  match x with
  | .nan => f.nan
  | .infinite s => if s then "-" ++ f.infinity else f.infinity
  | .finite s m _ _ =>
    if m = 0 then if s && f.signedZero then "-0.0" else "0.0"
    else
      let d := digits x
      let body := if f.lowest ≤ d.point && d.point ≤ f.highest then positional d else f.scientific d
      String.ofList (if s then '-' :: body else body)

end NumberLayout

/-- Reals as the library shows them: positional from `1e-4` up to `1e16`. -/
def Binary64.plainLayout : NumberLayout where
  lowest := -3
  highest := 16
  pointBeforeExponent := false
  plusSign := false
  exponentDigits := 1
  signedZero := true
  nan := "NaN"
  infinity := "inf"

/-- The shortest text of a real that reads back. -/
def Binary64.toText (x : Binary64) : String :=
  Binary64.plainLayout.write Binary64.shortest x

end StagedStore
