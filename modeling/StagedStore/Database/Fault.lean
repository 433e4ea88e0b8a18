import StagedStore.Error

/-!
# Faults

Why a database refuses a statement. `Fault.message` words it as the database does, and
`Fault.toError` sorts it into the errors of the library.
-/

namespace StagedStore

inductive Fault where
  /-- The text is no statement. -/
  | malformed
  | noSuchFunction (name : String)
  /-- A name in an expression that means no column. -/
  | unknownName (name : String)
  | ambiguousName (name : String)
  | misplacedCount
  | tableExists (name : String)
  | unknownDatabase (name : String)
  | noSuchTable (name : String)
  /-- An assigned column that the table lacks. -/
  | noSuchColumn (name : String)
  /-- An inserted column that the table lacks. -/
  | noColumnNamed (table column : String)
  | valueCount (values columns : Nat)
  | tableValueCount (table : String) (columns values : Nat)
  | duplicateColumn (name : String)
  | tooManyColumns (table : String)
  | reservedName (name : String)
  | referenceMismatch (child parent : String)
  | parameterCount (given needed : Nat)
  /-- A statement that is run for its effect gave rows. -/
  | gaveRows
  | notUnique (table column : String)
  | null (table column : String)
  /-- A check fails; `name` is how the check is called. -/
  | check (name : String)
  | danglingReference
  | keyNotInteger
  /-- No key is left to generate. -/
  | full
  | alreadyInTransaction
  | nothingToCommit
  | nothingToRollBack
deriving DecidableEq, Repr

namespace Fault

def message : Fault → String
  | .malformed => "syntax error"
  | .noSuchFunction f => "no such function: " ++ f
  | .unknownName n => "no such column: " ++ n
  | .ambiguousName n => "ambiguous column name: " ++ n
  | .misplacedCount => "misuse of aggregate: COUNT()"
  | .tableExists t => "table " ++ t ++ " already exists"
  | .unknownDatabase d => "unknown database " ++ d
  | .noSuchTable t => "no such table: " ++ t
  | .noSuchColumn c => "no such column: " ++ c
  | .noColumnNamed t c => "table " ++ t ++ " has no column named " ++ c
  | .valueCount v c => toString v ++ " values for " ++ toString c ++ " columns"
  | .tableValueCount t c v =>
    "table " ++ t ++ " has " ++ toString c ++ " columns but " ++ toString v ++
      " values were supplied"
  | .duplicateColumn c => "duplicate column name: " ++ c
  | .tooManyColumns t => "too many columns on " ++ t
  | .reservedName n => "object name reserved for internal use: " ++ n
  | .referenceMismatch c p =>
    "foreign key mismatch - \"" ++ c ++ "\" referencing \"" ++ p ++ "\""
  | .parameterCount g n =>
    "Wrong number of parameters passed to query. Got " ++ toString g ++ ", needed " ++ toString n
  | .gaveRows => "Execute returned results - did you mean to call query?"
  | .notUnique t c => "UNIQUE constraint failed: " ++ t ++ "." ++ c
  | .null t c => "NOT NULL constraint failed: " ++ t ++ "." ++ c
  | .check n => "CHECK constraint failed: " ++ n
  | .danglingReference => "FOREIGN KEY constraint failed"
  | .keyNotInteger => "datatype mismatch"
  | .full => "database or disk is full"
  | .alreadyInTransaction => "cannot start a transaction within a transaction"
  | .nothingToCommit => "cannot commit - no transaction is active"
  | .nothingToRollBack => "cannot rollback - no transaction is active"

/-- The error of the library that a fault is. Faults found at a place in the text have no wording
of their own there. -/
def toError (f : Fault) : Error :=
  match f with
  | .malformed | .noSuchFunction _ | .unknownName _ | .ambiguousName _ | .misplacedCount
  | .tableExists _ | .unknownDatabase _ => .unreadable f.message
  | .notUnique .. => .uniqueViolation f.message
  | .check _ => .checkViolation f.message
  | .danglingReference => .foreignKeyViolation f.message
  | _ => .query f.message

end Fault

end StagedStore
