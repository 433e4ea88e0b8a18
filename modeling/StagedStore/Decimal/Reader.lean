import StagedStore.Binary64.Arith

/-!
# Decimal notation, read

A `Decimal` is `± digits * 10 ^ exponent`. `Decimal.readLeading?` reads the longest decimal number
at the front of a text, `Decimal.toBinary64` rounds it once, and `Binary64.ofText?` reads the
texts of all floating-point numbers, `inf` and `nan` among them.
-/

namespace StagedStore

/-- The number a run of decimal digits stands for. -/
def digitsValue (cs : List Char) : Nat :=
  cs.foldl (fun n c => 10 * n + (c.toNat - '0'.toNat)) 0

/-- A decimal number, not normalised. -/
structure Decimal where
  negative : Bool
  digits : Nat
  exponent : Int
deriving DecidableEq, Repr

namespace Decimal

/-- Hand the number to a rounding function as a fraction. Beyond the range of every format the
answer is infinity or zero, which needs no arithmetic on the exponent's power. -/
def roundBy (d : Decimal) (round : Bool → Nat → Nat → Binary64) : Binary64 :=
  let size := (Nat.toDigits 10 d.digits).length + d.exponent
  if d.digits = 0 then .zero d.negative
  else if 310 < size then .infinite d.negative
  else if size < -330 then .zero d.negative
  else match d.exponent with
    | .ofNat e => round d.negative (d.digits * Nat.pow 10 e) 1
    | .negSucc e => round d.negative d.digits (Nat.pow 10 (e + 1))

/-- The nearest floating-point number. -/
def toBinary64 (d : Decimal) : Binary64 :=
  d.roundBy .ofRatio

/-- The nearest number of the 32-bit format, which the 64-bit format holds exactly. -/
def toSingle (d : Decimal) : Binary64 :=
  d.roundBy .ofRatioSingle

/-- An optional sign. -/
def readSign : List Char → Bool × List Char
  | '-' :: r => (true, r)
  | '+' :: r => (false, r)
  | r => (false, r)

/-- An exponent after its mark: an optional sign and at least one digit. -/
def readExponent? (cs : List Char) : Option (Int × List Char) :=
  let (negative, r) := readSign cs
  match r.takeWhile Char.isDigit with
  | [] => none
  | ds =>
    let n : Int := digitsValue ds
    some (if negative then -n else n, r.dropWhile Char.isDigit)

/-- What a decimal number at the front of a text looks like. -/
structure Scanned where
  value : Decimal
  /-- The number has neither a point nor an exponent. -/
  isInteger : Bool
  rest : List Char

/-- The longest unsigned decimal number at the front of a text. It needs a digit before or after
the point; an exponent mark without digits is not part of it. -/
def readUnsigned? (cs : List Char) : Option Scanned :=
  let whole := cs.takeWhile Char.isDigit
  let afterWhole := cs.dropWhile Char.isDigit
  let (fraction, hasPoint, r) := match afterWhole with
    | '.' :: t => (t.takeWhile Char.isDigit, true, t.dropWhile Char.isDigit)
    | t => ([], false, t)
  if whole.isEmpty && fraction.isEmpty then none
  else
    let digits := digitsValue (whole ++ fraction)
    let places : Int := fraction.length
    let plain : Scanned := ⟨⟨false, digits, -places⟩, !hasPoint, r⟩
    match r with
    | c :: t =>
      if c = 'e' || c = 'E' then
        match readExponent? t with
        | some (e, t') => some ⟨⟨false, digits, e - places⟩, false, t'⟩
        | none => some plain
      else some plain
    | [] => some plain

/-- The longest decimal number, with an optional sign, at the front of a text. -/
def readLeading? (cs : List Char) : Option Scanned :=
  let (negative, r) := readSign cs
  (readUnsigned? r).map fun s => { s with value := { s.value with negative } }

end Decimal

/-- The floating-point number a text denotes under a rounding of decimals, case ignored in the
names of infinity and nan. -/
def Binary64.ofTextBy? (round : Decimal → Binary64) (s : String) : Option Binary64 :=
  let (negative, r) := Decimal.readSign s.toList
  let name := String.ofList (r.map Char.toLower)
  if name = "inf" || name = "infinity" then some (.infinite negative)
  else if name = "nan" then some .nan
  else match Decimal.readLeading? s.toList with
    | some ⟨d, _, []⟩ => some (round d)
    | _ => none

/-- The floating-point number a text denotes. -/
def Binary64.ofText? (s : String) : Option Binary64 :=
  Binary64.ofTextBy? Decimal.toBinary64 s

end StagedStore
