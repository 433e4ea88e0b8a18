import StagedStore.Json.Basic
import StagedStore.Keyed
import StagedStore.Text.Hex

/-!
# Reading JSON documents

`Json.ofText?` accepts exactly the JSON grammar, up to 127 arrays and objects inside one another.
A repeated key keeps its last value. Integers that fit 64 bits, signed or unsigned, stay integers;
every other number becomes a real: as many leading digits as fit 64 bits are rounded to a real and
then scaled by a power of ten.
-/

namespace StagedStore.Json

/-! ## Numbers -/

/-- The largest unsigned integer of 64 bits. -/
def maxUnsigned : Nat := UInt64.size - 1

/-- Append digits to a number while it stays within 64 bits. -/
def absorb (n : Nat) : List Char → Nat × List Char
  | [] => (n, [])
  | c :: r =>
    let m := 10 * n + (c.toNat - '0'.toNat)
    if maxUnsigned < m then (n, c :: r) else absorb m r

/-- Divide by a power of ten in steps that the format can hold. -/
def divideByPower (x : Binary64) (k : Nat) : Binary64 :=
  if k ≤ 308 then x.divFinite (.ofInt (Nat.pow 10 k))
  else if x.magnitude = 0 then x
  else divideByPower (x.divFinite (.ofInt (Nat.pow 10 308))) (k - 308)
termination_by k

/-- `n * 10 ^ e` as a real, or nothing when it exceeds the format. -/
def scale? (n : Nat) (e : Int) : Option Binary64 :=
  let x := Binary64.ofInt n
  match e with
  | .ofNat k =>
    if k ≤ 308 then
      let y := x.mulFinite (.ofInt (Nat.pow 10 k))
      if y.isFinite then some y else none
    else if n = 0 then some x else none
  | .negSucc k => some (divideByPower x (k + 1))

/-- The parts of a number in the grammar. -/
structure NumberText where
  negative : Bool
  whole : List Char
  /-- Digits behind the point, if there is a point. -/
  fraction : Option (List Char)
  exponent : Option Int

/-- The number the parts denote. -/
def NumberText.value? (t : NumberText) : Option Json :=
  let (kept, dropped) := absorb 0 t.whole
  let real (n : Nat) (e : Int) : Option Json :=
    (scale? n e).map fun x => .real (if t.negative then -x else x)
  match t.fraction, t.exponent with
  | none, none =>
    if dropped.isEmpty then
      if t.negative then
        if 0 < kept ∧ 2 * kept ≤ UInt64.size then some (.integer (-kept))
        else some (.real (-(Binary64.ofInt kept)))
      else some (.integer kept)
    else real kept dropped.length
  | fraction, exponent =>
    let digits := fraction.getD []
    let (all, unused) := absorb kept digits
    let places : Int := digits.length - unused.length
    real all (dropped.length - places + exponent.getD 0)

/-- A number at the front of a text. -/
def readNumber? (cs : List Char) : Option (Json × List Char) := do
  let (negative, r) := match cs with
    | '-' :: r => (true, r)
    | r => (false, r)
  let whole := r.takeWhile Char.isDigit
  let r := r.dropWhile Char.isDigit
  guard (whole ≠ [] ∧ (whole.head? = some '0' → whole.length = 1))
  let (fraction, r) ← match r with
    | '.' :: t =>
      match t.takeWhile Char.isDigit with
      | [] => none
      | ds => some (some ds, t.dropWhile Char.isDigit)
    | r => some (none, r)
  let (exponent, r) ← match r with
    | c :: t =>
      if c = 'e' || c = 'E' then (Decimal.readExponent? t).map fun (e, t') => (some e, t')
      else some (none, c :: t)
    | [] => some (none, [])
  let value ← NumberText.value? ⟨negative, whole, fraction, exponent⟩
  return (value, r)

/-! ## Strings -/

/-- Four hexadecimal digits. -/
def readUnit? (a b c d : Char) : Option Nat := do
  let a ← Hex.digitValue? a
  let b ← Hex.digitValue? b
  let c ← Hex.digitValue? c
  let d ← Hex.digitValue? d
  return ((a * 16 + b) * 16 + c) * 16 + d

/-- The character a one-letter escape stands for. -/
def unescape? : Char → Option Char
  | '"' => some '"'
  | '\\' => some '\\'
  | '/' => some '/'
  | 'b' => some '\x08'
  | 'f' => some '\x0c'
  | 'n' => some '\n'
  | 'r' => some '\r'
  | 't' => some '\t'
  | _ => none

/-- The rest of a string after its opening quote. -/
def readString? : List Char → Option (List Char × List Char)
  | [] => none
  | '"' :: r => some ([], r)
  | '\\' :: 'u' :: a :: b :: c :: d :: r =>
    match readUnit? a b c d with
    | none => none
    | some u =>
      if u < 0xd800 ∨ 0xdfff < u then
        (readString? r).map fun (s, r') => (Char.ofNat u :: s, r')
      else if 0xdbff < u then none
      else match r with
        | '\\' :: 'u' :: a' :: b' :: c' :: d' :: r =>
          match readUnit? a' b' c' d' with
          | none => none
          | some v =>
            if v < 0xdc00 ∨ 0xdfff < v then none
            else
              let n := 0x10000 + (u - 0xd800) * 0x400 + (v - 0xdc00)
              (readString? r).map fun (s, r') => (Char.ofNat n :: s, r')
        | _ => none
  | '\\' :: c :: r =>
    match unescape? c with
    | none => none
    | some e => (readString? r).map fun (s, r') => (e :: s, r')
  | c :: r =>
    if c = '\\' ∨ c.toNat < 32 then none
    else (readString? r).map fun (s, r') => (c :: s, r')

/-! ## Values -/

def isBlank (c : Char) : Bool :=
  c = ' ' || c = '\t' || c = '\n' || c = '\r'

def skipBlanks (cs : List Char) : List Char :=
  cs.dropWhile isBlank

/-- The rest of a text behind a word. -/
def dropWord? (word : String) (cs : List Char) : Option (List Char) :=
  if word.toList.isPrefixOf cs then some (cs.drop word.length) else none

mutual

/-- A value at the front of a text without leading blanks; `depth` more arrays and objects may be
opened around it. -/
def readValue? (fuel depth : Nat) (cs : List Char) : Option (Json × List Char) :=
  match fuel with
  | 0 => none
  | fuel + 1 =>
    match cs with
    | 'n' :: _ => (dropWord? "null" cs).map fun r => (.null, r)
    | 't' :: _ => (dropWord? "true" cs).map fun r => (.bool true, r)
    | 'f' :: _ => (dropWord? "false" cs).map fun r => (.bool false, r)
    | '"' :: r => (readString? r).map fun (s, r') => (.text (String.ofList s), r')
    | '[' :: r =>
      match depth with
      | 0 => none
      | depth + 1 =>
        match skipBlanks r with
        | ']' :: r' => some (.array [], r')
        | r' => readItems? fuel depth [] r'
    | '\x7b' :: r =>
      match depth with
      | 0 => none
      | depth + 1 =>
        match skipBlanks r with
        | '\x7d' :: r' => some (.object [], r')
        | r' => readFields? fuel depth [] r'
    | _ => readNumber? cs

/-- Items up to the closing bracket, after those already read, which stand in reverse. -/
def readItems? (fuel depth : Nat) (before : List Json) (cs : List Char) :
    Option (Json × List Char) :=
  match fuel with
  | 0 => none
  | fuel + 1 =>
    match readValue? fuel depth cs with
    | none => none
    | some (j, r) =>
      match skipBlanks r with
      | ']' :: r' => some (.array (j :: before).reverse, r')
      | ',' :: r' => readItems? fuel depth (j :: before) (skipBlanks r')
      | _ => none

/-- Fields up to the closing brace, added to those already read. -/
def readFields? (fuel depth : Nat) (before : List (String × Json)) (cs : List Char) :
    Option (Json × List Char) :=
  match fuel with
  | 0 => none
  | fuel + 1 =>
    match cs with
    | '"' :: r =>
      match readString? r with
      | none => none
      | some (k, r) =>
        match skipBlanks r with
        | ':' :: r =>
          match readValue? fuel depth (skipBlanks r) with
          | none => none
          | some (j, r) =>
            let fields := Keyed.insert (String.ofList k) j before
            match skipBlanks r with
            | '\x7d' :: r' => some (.object fields, r')
            | ',' :: r' => readFields? fuel depth fields (skipBlanks r')
            | _ => none
        | _ => none
    | _ => none

end

/-- How many arrays and objects may stand inside one another. -/
def maxDepth : Nat := 127

/-- The document a text holds. Two steps per character are more than any text needs. -/
def ofText? (s : String) : Option Json :=
  let cs := s.toList
  match readValue? (2 * cs.length + 2) maxDepth (skipBlanks cs) with
  | some (j, r) => if (skipBlanks r).isEmpty then some j else none
  | none => none

end StagedStore.Json
