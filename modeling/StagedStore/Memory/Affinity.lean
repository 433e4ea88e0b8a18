import StagedStore.Value

/-!
# Affinity

The declared type of a column gives it an affinity, which says how cells are converted when they
are stored in the column or compared with it.

* `Affinity.store` converts a cell for storing.
* `Affinity.unify` converts two cells for a comparison.
* `numberOfText?` reads a text that is a number as a whole, `leadingNumber` one that starts with
  a number.
-/

namespace StagedStore

inductive Affinity where
  /-- No column, or a computed one. -/
  | none
  /-- Cells are kept as they are. -/
  | blob
  | text
  | numeric
  | integer
  | real
deriving DecidableEq, Repr

/-- Whether a word occurs in a text. -/
def occursIn (word : List Char) : List Char → Bool
  | [] => word.isEmpty
  | c :: r => word.isPrefixOf (c :: r) || occursIn word r

namespace Affinity

/-- The affinity of a declared type, in upper case: decided by the words that occur in it. -/
def ofTypeName (type : List Char) : Affinity :=
  if occursIn ['I', 'N', 'T'] type then .integer
  else if occursIn ['C', 'H', 'A', 'R'] type || occursIn ['C', 'L', 'O', 'B'] type
    || occursIn ['T', 'E', 'X', 'T'] type then .text
  else if occursIn ['B', 'L', 'O', 'B'] type || type.isEmpty then .blob
  else if occursIn ['R', 'E', 'A', 'L'] type || occursIn ['F', 'L', 'O', 'A'] type
    || occursIn ['D', 'O', 'U', 'B'] type then .real
  else .numeric

/-- The affinity of a declared type in any case. -/
def ofType (type : String) : Affinity :=
  ofTypeName (type.toList.map Char.toUpper)

/-- Affinities that make numbers of texts. -/
def isNumeric : Affinity → Bool
  | .numeric | .integer | .real => true
  | _ => false

end Affinity

/-- Blanks that may stand around a number in a text. -/
def isNumberBlank (c : Char) : Bool :=
  c = ' ' || c = '\t' || c = '\n' || c = '\x0b' || c = '\x0c' || c = '\r'

/-- Whether an integer has 64 bits. -/
def fitsInt64 (n : Int) : Bool :=
  Int64.minValue.toInt ≤ n && n ≤ Int64.maxValue.toInt

/-- A number that was written as an integer is one if it has 64 bits. -/
def numberStorage (d : Decimal) (isInteger : Bool) : Storage :=
  let n : Int := if d.negative then -d.digits else d.digits
  if isInteger && fitsInt64 n then .integer (.ofInt n) else .real d.toBinary64

/-- The number that a whole text is, blanks around it allowed. -/
def numberOfText? (s : String) : Option Storage :=
  match Decimal.readLeading? (s.toList.dropWhile isNumberBlank) with
  | some ⟨d, isInteger, rest⟩ =>
    if rest.all isNumberBlank then some (numberStorage d isInteger) else none
  | none => none

/-- The number at the front of a text, zero if there is none. -/
def leadingNumber (s : String) : Storage :=
  match Decimal.readLeading? (s.toList.dropWhile isNumberBlank) with
  | some ⟨d, isInteger, _⟩ => numberStorage d isInteger
  | none => .integer 0

/-- Reals as texts: fifteen digits, positional from `1e-4` up to `1e15`. -/
def Binary64.castLayout : NumberLayout where
  lowest := -3
  highest := 15
  pointBeforeExponent := true
  plusSign := true
  exponentDigits := 2
  signedZero := false
  nan := "NaN"
  infinity := "Inf"

/-- The text that a real is stored as in a column of texts. -/
def Binary64.castText (x : Binary64) : String :=
  Binary64.castLayout.write (·.rounded 15) x

/-- A text in a blob. Bytes that are no text are taken one by one. -/
def blobText (bytes : List UInt8) : String :=
  (String.fromUTF8? ⟨bytes.toArray⟩).getD (String.ofList (bytes.map fun b => Char.ofNat b.toNat))

namespace Storage

/-- A text that is a number becomes it. -/
def textToNumber : Storage → Storage
  | .text s => (numberOfText? s).getD (.text s)
  | v => v

/-- A number becomes its text. -/
def numberToText : Storage → Storage
  | .integer n => .text (toString n.toInt)
  | .real x => .text x.castText
  | v => v

def isText : Storage → Bool
  | .text _ => true
  | _ => false

/-- A real that is an integer strictly between the least and the greatest becomes it. -/
def realToInteger : Storage → Storage
  | .real x =>
    match x.toInt? with
    | some n =>
      if Int64.minValue.toInt < n && n < Int64.maxValue.toInt then .integer (.ofInt n)
      else .real x
    | none => .real x
  | v => v

/-- An integer becomes a real, and a zero loses its sign. -/
def integerToReal : Storage → Storage
  | .integer n => .real (.ofInt n.toInt)
  | .real x => if x.magnitude = 0 && x.isFinite then .real (.zero false) else .real x
  | v => v

/-- A cell as a parameter: a number that is none becomes null. -/
def bound : Storage → Storage
  | .real .nan => .null
  | v => v

end Storage

namespace Affinity

/-- The cell that a column of the affinity stores. -/
def store : Affinity → Storage → Storage
  | .none, v => v
  | .blob, v => v
  | .text, v => v.numberToText
  | .numeric, v => v.textToNumber.realToInteger
  | .integer, v => v.textToNumber.realToInteger
  | .real, v => v.textToNumber.integerToReal

/-- The affinity under which operands of two affinities are compared: numeric if either column is,
and that of the only column otherwise. -/
def forComparison (a b : Affinity) : Affinity :=
  if a = .none then b
  else if b = .none then a
  else if a.isNumeric || b.isNumeric then .numeric
  else .blob

/-- Two operands as they are compared. -/
def unify (f : Affinity) (a b : Storage) : Storage × Storage :=
  if f.isNumeric then (a.textToNumber, b.textToNumber)
  else if f = .text && (a.isText || b.isText) then (a.numberToText, b.numberToText)
  else (a, b)

/-- A member of a list, or the operand sought in it, as they are compared. -/
def forMember (f : Affinity) (v : Storage) : Storage :=
  if f.isNumeric then v.textToNumber
  else if f = .text then v.numberToText
  else v

end Affinity

end StagedStore
