import StagedStore.Schema.Kind
import StagedStore.Value

/-!
# Errors

Each error is a cause; `Error.message` words it. Causes that a connection or an entity of the
caller's own may raise carry their text.
-/

namespace StagedStore

/-- Why a text is no identifier. -/
inductive IdentifierFault where
  | empty
  | containsNul
  | emptyQuoted
  | unclosedQuote
  | emptySegment
  | badStart (c : Char)
  | badCharacter (c : Char)
  | trailingDot
  | missingDot (c : Char)
deriving DecidableEq, Repr

def IdentifierFault.message : IdentifierFault → String
  | .empty => "Identifier cannot be empty"
  | .containsNul => "Identifier cannot contain NUL character"
  | .emptyQuoted => "Empty quoted identifier"
  | .unclosedQuote => "Unclosed quoted identifier"
  | .emptySegment => "Empty identifier segment"
  | .badStart c => "Invalid identifier start character: '" ++ c.toString ++ "'"
  | .badCharacter c => "Invalid character in identifier: '" ++ c.toString ++ "'"
  | .trailingDot => "Trailing '.' in identifier"
  | .missingDot c => "Expected '.' between identifier parts, got '" ++ c.toString ++ "'"

/-- What a request asks that its schema does not allow. -/
inductive Invalid where
  | identifier (fault : IdentifierFault)
  | unknownField (field table : String)
  | unknownEntityField (field : String)
  | duplicateField (field table : String)
  | noPrimaryKey (table : String)
  | generatedKeyKind (key : String)
  | keyChanged (key : String)
  | incrementNotNumeric (field : String)
  | incrementNull (field : String)
  | unsetRequired (field : String)
  | nullKey
  | qualifiedStaging (name : String)
  | noColumns
  /-- Two change sets have the key with this literal. -/
  | repeatedKey (literal : String)
  | mixedKeys (key : String)
  | itemWithoutKey (key : String)
  | other (text : String)
deriving DecidableEq, Repr

def Invalid.message : Invalid → String
  | .identifier f => f.message
  | .unknownField f t => "unknown field '" ++ f ++ "' on '" ++ t ++ "'"
  | .unknownEntityField f => "unknown field '" ++ f ++ "'"
  | .duplicateField f t => "duplicate field '" ++ f ++ "' on '" ++ t ++ "'"
  | .noPrimaryKey t => "'" ++ t ++ "' has no primary key"
  | .generatedKeyKind k => "auto-increment primary key '" ++ k ++ "' must be an Integer field"
  | .keyChanged k => "primary key '" ++ k ++ "' cannot be changed"
  | .incrementNotNumeric f => "cannot increment non-numeric field '" ++ f ++ "'"
  | .incrementNull f => "increment for '" ++ f ++ "' is null"
  | .unsetRequired f => "cannot unset non-nullable field '" ++ f ++ "'"
  | .nullKey => "change set primary key is null"
  | .qualifiedStaging n => "staging table '" ++ n ++ "' must not be schema-qualified"
  | .noColumns => "SELECT requires at least one column"
  | .repeatedKey k => "primary key " ++ k ++ " appears in more than one change set"
  | .mixedKeys k => "either all or none of the inserted items must set '" ++ k ++ "'"
  | .itemWithoutKey k => "item has no '" ++ k ++ "'"
  | .other t => t

/-- Why a value cannot be stored in a field. -/
inductive Unstorable where
  | notNullable (field : String)
  | mismatch (field : String) (kind : FieldKind) (typeName : String)
  | other (text : String)
deriving DecidableEq, Repr

def Unstorable.message : Unstorable → String
  | .notNullable f => "field '" ++ f ++ "' is not nullable"
  | .mismatch f k t => "field '" ++ f ++ "' expects " ++ k.name ++ ", got " ++ t
  | .other t => t

/-- Why a cell cannot be read. -/
inductive Undecodable where
  | missing
  | mismatch (kind : FieldKind) (className : String)
  | notInteger (stored : Storage)
  /-- The stored text is not of the format its kind asks for. -/
  | malformed (kind : FieldKind)
  | other (text : String)
deriving DecidableEq

def Undecodable.message : Undecodable → String
  | .missing => "column missing from result row"
  | .mismatch k c => "expected " ++ k.name ++ " storage, got " ++ c
  | .notInteger v => "expected integer, got " ++ v.describe
  | .malformed k => "malformed " ++ k.name ++ " text"
  | .other t => t

inductive Error where
  | connection (text : String)
  /-- A statement failed in the store. -/
  | query (text : String)
  /-- The store found no statement it knows in a text. -/
  | unreadable (text : String)
  | notFound (text : String)
  | uniqueViolation (text : String)
  | foreignKeyViolation (text : String)
  | checkViolation (text : String)
  | decode (column : String) (reason : Undecodable)
  | validation (cause : Invalid)
  | serialization (cause : Unstorable)
  | pool (text : String)
  | activeConnections (count : Nat)
  /-- A step to the first of some generated keys leaves the range of integers. -/
  | keysOutOfRange (last : Int64) (count : Nat)
  | other (text : String)
deriving DecidableEq

namespace Error

/-- A query gave no row where one is needed. -/
def noRow (statement : String) : Error :=
  .notFound ("expected a row from: " ++ statement)

def poolClosed : Error :=
  .pool "pool is closed"

/-- The wording of an error. -/
def message : Error → String
  | .connection t => "Connection error: " ++ t
  | .query t => "Query error: " ++ t
  | .unreadable t => "Query error: " ++ t
  | .notFound t => "Not found: " ++ t
  | .uniqueViolation t => "Unique constraint violation: " ++ t
  | .foreignKeyViolation t => "Foreign key violation: " ++ t
  | .checkViolation t => "Check constraint violation: " ++ t
  | .decode c r => "Decode error on column '" ++ c ++ "': " ++ r.message
  | .validation c => "Validation error: " ++ c.message
  | .serialization c => "Serialization error: " ++ c.message
  | .pool t => "Pool error: " ++ t
  | .activeConnections n =>
    toString n ++
      " connection(s) still active; release() every acquired connection before disconnecting"
  | .keysOutOfRange l n =>
    toString n ++ " keys up to " ++ toString l.toInt ++ " leave the range of integers"
  | .other t => t

def isUniqueViolation : Error → Bool
  | .uniqueViolation _ => true
  | _ => false

def isNotFound : Error → Bool
  | .notFound _ => true
  | _ => false

def isValidation : Error → Bool
  | .validation _ => true
  | _ => false

end Error

end StagedStore
