/-!
# Events

What a store reports while it works, for a log. `Event.level`, `Event.channel`, `Event.message`
and `Event.fields` say how an event is written.
-/

namespace StagedStore

inductive Level where
  | trace
  | debug
  | warn
  | error
deriving DecidableEq, Repr

/-- The part of the store that an event comes from. -/
inductive Channel where
  | sql
  | pool
  | staging
deriving DecidableEq, Repr

/-- A detail of an event. -/
inductive Detail where
  | text (s : String)
  | number (n : Nat)
deriving DecidableEq, Repr

inductive Event where
  | executing (sql : String)
  | statementFailed (sql : String)
  | stagingDropped (table : String)
  | stagingCreated (table : String) (staged : Nat)
  | rowsAppended (table : String) (appended : Nat)
  | rowsInserted (table : String) (inserted : Nat)
  | patchApplied (table : String) (modified matched : Nat)
  | rowsDeleted (table : String) (modified : Nat) (keys : String)
  | acquired (active : Nat)
  | released (active : Nat)
  | opened (staging : String)
  | closed
  | disconnectRefused (active : Nat)
deriving DecidableEq, Repr

namespace Event

def level : Event → Level
  | .executing _ | .rowsInserted .. | .patchApplied .. | .rowsDeleted .. | .opened _ | .closed =>
    .debug
  | .statementFailed _ => .warn
  | .stagingDropped _ | .stagingCreated .. | .rowsAppended .. | .acquired _ | .released _ => .trace
  | .disconnectRefused _ => .error

def channel : Event → Channel
  | .executing _ | .statementFailed _ | .rowsInserted .. | .patchApplied .. | .rowsDeleted .. =>
    .sql
  | .stagingDropped _ | .stagingCreated .. | .rowsAppended .. => .staging
  | .acquired _ | .released _ | .opened _ | .closed | .disconnectRefused _ => .pool

def message : Event → String
  | .executing _ => "executing"
  | .statementFailed _ => "statement failed"
  | .stagingDropped _ => "staging table dropped"
  | .stagingCreated .. => "staging table created"
  | .rowsAppended .. => "staging rows appended"
  | .rowsInserted .. => "inserted rows"
  | .patchApplied .. => "patch applied"
  | .rowsDeleted .. => "rows deleted"
  | .acquired _ => "connection acquired"
  | .released _ => "connection released"
  | .opened _ => "sqlite adapter opened"
  | .closed => "sqlite adapter closed"
  | .disconnectRefused _ => "disconnect refused: connections still active"

def fields : Event → List (String × Detail)
  | .executing sql | .statementFailed sql => [("sql", .text sql)]
  | .stagingDropped t => [("table", .text t)]
  | .stagingCreated t n => [("table", .text t), ("staged", .number n)]
  | .rowsAppended t n => [("table", .text t), ("appended", .number n)]
  | .rowsInserted t n => [("table", .text t), ("inserted", .number n)]
  | .patchApplied t m n => [("table", .text t), ("modified", .number m), ("matched", .number n)]
  | .rowsDeleted t m keys =>
    [("table", .text t), ("modified", .number m), ("keys", .text keys)]
  | .acquired n | .released n | .disconnectRefused n => [("active", .number n)]
  | .opened s => [("staging", .text s)]
  | .closed => []

end Event

end StagedStore
