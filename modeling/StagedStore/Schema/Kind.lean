/-!
# Kinds of fields

The declared kind of a field decides the type of its column and which values it takes.
-/

namespace StagedStore

inductive FieldKind where
  | integer
  | real
  | text
  /-- Stored as 0 or 1. -/
  | bool
  | blob
  /-- Stored as JSON text. -/
  | json
  /-- Stored as date and time text. -/
  | timestamp
  /-- Stored as hyphenated text. -/
  | uuid
deriving DecidableEq, Repr

namespace FieldKind

/-- The name of a kind in messages. -/
def name : FieldKind → String
  | .integer => "Integer"
  | .real => "Real"
  | .text => "Text"
  | .bool => "Bool"
  | .blob => "Blob"
  | .json => "Json"
  | .timestamp => "Timestamp"
  | .uuid => "Uuid"

/-- The declared type of a column of this kind. -/
def columnType : FieldKind → String
  | .integer | .bool => "INTEGER"
  | .real => "REAL"
  | .blob => "BLOB"
  | .text | .json | .timestamp | .uuid => "TEXT"

/-- Whether a field of this kind can be incremented. -/
def isNumeric : FieldKind → Bool
  | .integer | .real => true
  | _ => false

end FieldKind

end StagedStore
