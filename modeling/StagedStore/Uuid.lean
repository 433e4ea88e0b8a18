import StagedStore.Text.Hex

/-!
# Universally unique identifiers

A `Uuid` is sixteen bytes. `Uuid.toText` writes the hyphenated lower-case form; `Uuid.ofText?`
reads that form, the same without hyphens, in braces, or behind `urn:uuid:`, in any case.
-/

namespace StagedStore

structure Uuid where
  bytes : List UInt8
  length_eq : bytes.length = 16
deriving DecidableEq

namespace Uuid

/-- The sixteen bytes behind 32 hexadecimal digits. -/
def ofDigits? (cs : List Char) : Option Uuid := do
  let bytes ← Hex.decode? cs
  if h : bytes.length = 16 then some ⟨bytes, h⟩ else none

/-- Take a hyphen away from the front. -/
def dropHyphen? : List Char → Option (List Char)
  | '-' :: r => some r
  | _ => none

/-- Digits in groups of 8, 4, 4, 4 and 12 with hyphens between them. -/
def ofHyphenated? (cs : List Char) : Option Uuid := do
  let r₁ ← dropHyphen? (cs.drop 8)
  let r₂ ← dropHyphen? (r₁.drop 4)
  let r₃ ← dropHyphen? (r₂.drop 4)
  let r₄ ← dropHyphen? (r₃.drop 4)
  ofDigits? (cs.take 8 ++ r₁.take 4 ++ r₂.take 4 ++ r₃.take 4 ++ r₄)

/-- What may stand in front of the hyphenated form. -/
def scheme : List Char := "urn:uuid:".toList

/-- Read any of the accepted forms. -/
def ofText? (s : String) : Option Uuid :=
  let cs := s.toList
  if cs.length = 32 then ofDigits? cs
  else if cs.length = 36 then ofHyphenated? cs
  else if cs.length = 38 then
    if cs.head? = some '\x7b' ∧ cs.getLast? = some '\x7d' then
      ofHyphenated? (cs.drop 1).dropLast
    else none
  else if cs.length = 45 then
    if (cs.take 9).map Char.toLower = scheme then ofHyphenated? (cs.drop 9) else none
  else none

/-- The hyphenated lower-case form. -/
def toText (u : Uuid) : String :=
  let part (i n : Nat) := Hex.encode false ((u.bytes.drop i).take n)
  String.ofList (part 0 4 ++ '-' :: part 4 2 ++ '-' :: part 6 2 ++ '-' :: part 8 2 ++ '-' :: part 10 6)

end Uuid

end StagedStore
