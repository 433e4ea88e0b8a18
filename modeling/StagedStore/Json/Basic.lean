import StagedStore.Decimal.Shortest

/-!
# JSON documents

Numbers are integers or reals. The fields of an object stand in the order of their keys, each key
once, as `Keyed.insert` keeps them.

`Json.toText` writes the compact form.
-/

namespace StagedStore

inductive Json where
  | null
  | bool (b : Bool)
  | integer (n : Int)
  | real (x : Binary64)
  | text (s : String)
  | array (items : List Json)
  | object (fields : List (String × Json))

namespace Json

instance : Inhabited Json := ⟨.null⟩

/-- Reals of a document: positional from `1e-5` up to `1e16`, the sign of an exponent written. -/
def realLayout : NumberLayout where
  lowest := -4
  highest := 16
  pointBeforeExponent := false
  plusSign := true
  exponentDigits := 1
  signedZero := true
  nan := "null"
  infinity := "null"

/-- A real; one that is not finite has no JSON form and becomes null. -/
def realText (x : Binary64) : String :=
  if x.isFinite then realLayout.write Binary64.shortest x else "null"

/-- A character inside a string. Only the quote, the backslash and control characters are
escaped. -/
def escapeChar (c : Char) : List Char :=
  if c = '"' then ['\\', '"']
  else if c = '\\' then ['\\', '\\']
  else if c = '\x08' then ['\\', 'b']
  else if c = '\t' then ['\\', 't']
  else if c = '\n' then ['\\', 'n']
  else if c = '\x0c' then ['\\', 'f']
  else if c = '\r' then ['\\', 'r']
  else if c.toNat < 32 then
    let ds := Nat.toDigits 16 c.toNat
    '\\' :: 'u' :: (List.replicate (4 - ds.length) '0' ++ ds)
  else [c]

/-- A string in quotes. -/
def quoted (s : String) : List Char :=
  '"' :: (s.toList.flatMap escapeChar ++ ['"'])

mutual

/-- The compact form, as characters. -/
def write : Json → List Char
  | .null => "null".toList
  | .bool true => "true".toList
  | .bool false => "false".toList
  | .integer n => (toString n).toList
  | .real x => (realText x).toList
  | .text s => quoted s
  | .array [] => ['[', ']']
  | .array (j :: js) => '[' :: (write j ++ writeItems js)
  | .object [] => ['\x7b', '\x7d']
  | .object ((k, v) :: fs) => '\x7b' :: (quoted k ++ ':' :: (write v ++ writeFields fs))

/-- The items after the first, each behind a comma, and the closing bracket. -/
def writeItems : List Json → List Char
  | [] => [']']
  | j :: js => ',' :: (write j ++ writeItems js)

/-- The fields after the first, each behind a comma, and the closing brace. -/
def writeFields : List (String × Json) → List Char
  | [] => ['\x7d']
  | (k, v) :: fs => ',' :: (quoted k ++ ':' :: (write v ++ writeFields fs))

end

/-- The compact form. -/
def toText (j : Json) : String :=
  String.ofList j.write

end Json

end StagedStore
