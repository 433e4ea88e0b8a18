import StagedStore.Error
import StagedStore.Text.Quoted

/-!
# Identifiers

An `Identifier` is a dotted chain of parts, each a bare word or a quoted name.
`Identifier.parse` reads one, `Identifier.render` writes it as it was read and
`Identifier.renderQuoted` with every part in quotes.
-/

namespace StagedStore

/-- One part of an identifier. -/
inductive Part where
  | bare (name : String)
  | quoted (name : String)
deriving DecidableEq, Repr

/-- A name in double quotes. -/
def quoteName (name : String) : String :=
  String.ofList (Quoted.wrap '"' name.toList)

namespace Part

def name : Part → String
  | .bare n => n
  | .quoted n => n

/-- The part as SQL: a bare word stands as it is. -/
def render : Part → String
  | .bare n => n
  | .quoted n => quoteName n

/-- Letters and the underscore. -/
def isStart (c : Char) : Bool :=
  c.isAlpha || c = '_'

/-- Letters, digits, the underscore and the dollar sign. -/
def isInner (c : Char) : Bool :=
  c.isAlphanum || c = '_' || c = '$'

/-- A bare word, or why the characters are none. -/
def ofWord : List Char → Except IdentifierFault Part
  | [] => .error .emptySegment
  | c :: r =>
    if isStart c then
      match r.find? (fun d => !isInner d) with
      | some d => .error (.badCharacter d)
      | none => .ok (.bare (String.ofList (c :: r)))
    else .error (.badStart c)

/-- One part at the front of a text and what follows it. -/
def read : List Char → Except IdentifierFault (Part × List Char)
  | '"' :: body =>
    match Quoted.read? '"' body with
    | none => .error .unclosedQuote
    | some ([], _) => .error .emptyQuoted
    | some (name, rest) => .ok (.quoted (String.ofList name), rest)
  | cs => do
    let part ← ofWord (cs.takeWhile (· ≠ '.'))
    return (part, cs.dropWhile (· ≠ '.'))

end Part

structure Identifier where
  parts : List Part
  nonempty : parts ≠ []
deriving DecidableEq

namespace Identifier

/-- The identifier of a single part. -/
def ofPart (p : Part) : Identifier :=
  ⟨[p], by simp⟩

/-- An identifier put in front of another by a dot. -/
def cons (p : Part) (i : Identifier) : Identifier :=
  ⟨p :: i.parts, by simp⟩

instance : Inhabited Identifier := ⟨ofPart (.bare "_")⟩

/-- Parts with dots between them. Each part takes a character, so the length of the text bounds
the steps. -/
def readParts (fuel : Nat) (cs : List Char) : Except IdentifierFault Identifier :=
  match fuel with
  | 0 => .error .emptySegment
  | fuel + 1 => do
    let (part, rest) ← Part.read cs
    match rest with
    | [] => return ofPart part
    | ['.'] => .error .trailingDot
    | '.' :: next => return cons part (← readParts fuel next)
    | c :: _ => .error (.missingDot c)

/-- The identifier a text is. -/
def read (s : String) : Except IdentifierFault Identifier :=
  if s = "" then .error .empty
  else if s.toList.contains '\x00' then .error .containsNul
  else readParts (s.toList.length + 1) s.toList

/-- The identifier a text is, or a validation error. -/
def parse (s : String) : Except Error Identifier :=
  (read s).mapError fun f => .validation (.identifier f)

/-- Why a text cannot be the name of a quoted part, if it cannot. -/
def nameFault? (s : String) : Option IdentifierFault :=
  if s = "" then some .emptyQuoted
  else if s.toList.contains '\x00' then some .containsNul
  else none

/-- The identifier of one quoted part. -/
def quoted (s : String) : Except Error Identifier :=
  match nameFault? s with
  | some f => .error (.validation (.identifier f))
  | none => .ok (ofPart (.quoted s))

/-- The last part's name. -/
def name (i : Identifier) : String :=
  (i.parts.getLast i.nonempty).name

/-- The identifier as it was read. -/
def render (i : Identifier) : String :=
  ".".intercalate (i.parts.map Part.render)

/-- Every part in quotes. -/
def allQuoted (i : Identifier) : Identifier :=
  ⟨i.parts.map fun p => .quoted p.name, by simp [i.nonempty]⟩

/-- The identifier with every part in quotes. -/
def renderQuoted (i : Identifier) : String :=
  i.allQuoted.render

end Identifier

end StagedStore
