import StagedStore.Decimal.Reader
import StagedStore.Text.Hex
import StagedStore.Text.Quoted

/-!
# SQL tokens

`Token.scan` cuts SQL text into tokens. Blanks and comments separate tokens and are dropped; a
character that starts no token gives `Token.illegal`, which no statement contains.
-/

namespace StagedStore.Sql

/-- The reserved words of the statements this library reads. -/
inductive Keyword where
  | and | as | asc | autoincrement | begin | between | by | case | check | commit | create
  | default | deferrable | deferred | delete | desc | drop | else | end | exists | from | if | in
  | initially | inner | insert | into | is | isnull | join | key | like | limit | not | notnull
  | null | offset | on | or | order | primary | references | rollback | select | set | table | then
  | transaction | unique | update | values | when | where
deriving DecidableEq, Repr

/-- Reserved words in upper case. -/
def Keyword.spellings : List (String × Keyword) :=
  [("AND", .and), ("AS", .as), ("ASC", .asc), ("AUTOINCREMENT", .autoincrement),
    ("BEGIN", .begin), ("BETWEEN", .between), ("BY", .by), ("CASE", .case), ("CHECK", .check),
    ("COMMIT", .commit), ("CREATE", .create), ("DEFAULT", .default),
    ("DEFERRABLE", .deferrable), ("DEFERRED", .deferred), ("DELETE", .delete), ("DESC", .desc),
    ("DROP", .drop), ("ELSE", .else), ("END", .end), ("EXISTS", .exists), ("FROM", .from),
    ("IF", .if), ("IN", .in), ("INITIALLY", .initially), ("INNER", .inner), ("INSERT", .insert),
    ("INTO", .into), ("IS", .is), ("ISNULL", .isnull), ("JOIN", .join), ("KEY", .key),
    ("LIKE", .like), ("LIMIT", .limit), ("NOT", .not), ("NOTNULL", .notnull), ("NULL", .null),
    ("OFFSET", .offset), ("ON", .on), ("OR", .or), ("ORDER", .order), ("PRIMARY", .primary),
    ("REFERENCES", .references), ("ROLLBACK", .rollback), ("SELECT", .select), ("SET", .set),
    ("TABLE", .table), ("THEN", .then), ("TRANSACTION", .transaction), ("UNIQUE", .unique),
    ("UPDATE", .update), ("VALUES", .values), ("WHEN", .when), ("WHERE", .where)]

/-- The reserved word a word is, in any case. -/
def Keyword.ofWord? (s : String) : Option Keyword :=
  Keyword.spellings.lookup s.toUpper

inductive Token where
  | keyword (k : Keyword)
  /-- A word that is not reserved. -/
  | word (s : String)
  /-- A name in double quotes. -/
  | name (s : String)
  /-- A text in single quotes. -/
  | text (s : String)
  | blob (bytes : List UInt8)
  | number (value : Decimal) (isInteger : Bool)
  | param (index : Option Nat)
  | symbol (c : Char)
  /-- A comparison operator in any of its spellings. -/
  | equal
  | unequal
  | less
  | lessEqual
  | greater
  | greaterEqual
  | illegal
deriving DecidableEq

namespace Token

/-- The largest number of a parameter. -/
def maxParam : Nat := 32766

def isBlank (c : Char) : Bool :=
  c = ' ' || c = '\t' || c = '\n' || c = '\r' || c = '\x0c'

/-- Characters that start a word; all beyond ASCII do. -/
def startsWord (c : Char) : Bool :=
  c.isAlpha || c = '_' || 128 ≤ c.toNat

def continuesWord (c : Char) : Bool :=
  startsWord c || c.isDigit || c = '$'

/-- What follows a comment that ends at a star and a slash. -/
def skipComment : List Char → List Char
  | '*' :: '/' :: r => r
  | _ :: r => skipComment r
  | [] => []

/-- A word, reserved or not. -/
def ofWord (cs : List Char) : Token :=
  let s := String.ofList cs
  match Keyword.ofWord? s with
  | some k => .keyword k
  | none => .word s

/-- A parameter after its question mark. -/
def readParam (cs : List Char) : Token × List Char :=
  match cs.takeWhile Char.isDigit with
  | [] => (.param none, cs)
  | ds =>
    let n := digitsValue ds
    (if 1 ≤ n ∧ n ≤ maxParam then .param (some n) else .illegal, cs.dropWhile Char.isDigit)

/-- A number; a letter may not follow it directly. -/
def readNumber (cs : List Char) : Token × List Char :=
  match Decimal.readUnsigned? cs with
  | none => (.illegal, cs.drop 1)
  | some ⟨value, isInteger, rest⟩ =>
    match rest with
    | c :: r => if continuesWord c then (.illegal, r) else (.number value isInteger, rest)
    | [] => (.number value isInteger, [])

/-- A blob after its opening quote. -/
def readBlob (cs : List Char) : Token × List Char :=
  let digits := cs.takeWhile (· ≠ '\'')
  let token := match Hex.decode? digits with
    | some bytes => .blob bytes
    | none => .illegal
  match cs.dropWhile (· ≠ '\'') with
  | _ :: r => (token, r)
  | [] => (.illegal, [])

/-- A token of one character, or an operator of one or two. -/
def readSymbol (c : Char) (r : List Char) : Token × List Char :=
  match c, r with
  | '=', '=' :: r => (.equal, r)
  | '=', r => (.equal, r)
  | '!', '=' :: r => (.unequal, r)
  | '<', '>' :: r => (.unequal, r)
  | '<', '=' :: r => (.lessEqual, r)
  | '<', r => (.less, r)
  | '>', '=' :: r => (.greaterEqual, r)
  | '>', r => (.greater, r)
  | c, r => (if "(),;.+-*".toList.contains c then .symbol c else .illegal, r)

/-- The token, if it is none that separates tokens, and the rest of a text that starts with `c`. -/
def next (c : Char) (r : List Char) : Option Token × List Char :=
  if isBlank c then (none, r)
  else if c = '-' ∧ r.head? = some '-' then (none, r.dropWhile (· ≠ '\n'))
  else if c = '/' ∧ r.head? = some '*' then (none, skipComment (r.drop 1))
  else if c = '"' then
    match Quoted.read? '"' r with
    | some (s, t) => (some (.name (String.ofList s)), t)
    | none => (some .illegal, [])
  else if c = '\'' then
    match Quoted.read? '\'' r with
    | some (s, t) => (some (.text (String.ofList s)), t)
    | none => (some .illegal, [])
  else if c = '?' then (readParam r).map some id
  else if (c = 'x' ∨ c = 'X') ∧ r.head? = some '\'' then (readBlob (r.drop 1)).map some id
  else if startsWord c then
    (some (ofWord (c :: r.takeWhile continuesWord)), r.dropWhile continuesWord)
  else if c.isDigit ∨ (c = '.' ∧ (r.head?.any Char.isDigit)) then
    (readNumber (c :: r)).map some id
  else (readSymbol c r).map some id

/-- Tokens of a text after those already found, which stand in reverse. Every step takes a
character, so the length of the text bounds the steps. -/
def scanAfter (fuel : Nat) (before : List Token) (cs : List Char) : List Token :=
  match fuel, cs with
  | 0, _ => before.reverse
  | _ + 1, [] => before.reverse
  | fuel + 1, c :: r =>
    match next c r with
    | (some t, rest) => scanAfter fuel (t :: before) rest
    | (none, rest) => scanAfter fuel before rest

/-- The tokens of a text, which a null character ends. -/
def scan (s : String) : List Token :=
  let cs := s.toList.takeWhile (· ≠ '\x00')
  scanAfter cs.length [] cs

end Token

end StagedStore.Sql
