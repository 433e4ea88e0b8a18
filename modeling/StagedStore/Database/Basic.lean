import StagedStore.Database.Fault
import StagedStore.Row
import StagedStore.Sql.Statement

/-!
# Databases

What the library needs of a database: running scripts, statements and queries, and transactions.
-/

namespace StagedStore

/-- A step of a database, which may be refused; the database is kept either way. -/
abbrev Step (δ : Type) := ExceptT Fault (StateM δ)

class Database (δ : Type) where
  /-- Run every statement of a script. -/
  script : Sql.Script → Step δ Unit
  /-- Run a statement that gives no rows, and give the count of rows that the statement last to
  insert, update or delete affected. -/
  run : Sql.Statement → Sql.Params → Step δ Nat
  /-- Run a query and give its rows. -/
  query : Sql.Statement → Sql.Params → Step δ (List Row)
  /-- The count of rows that the statement last to insert, update or delete affected. -/
  changes : δ → Nat
  /-- Whether a transaction is open. -/
  inTransaction : δ → Bool
  begin : Step δ Unit
  commit : Step δ Unit
  rollback : Step δ Unit

end StagedStore
