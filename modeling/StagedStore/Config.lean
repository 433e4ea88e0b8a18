import StagedStore.Staging

/-!
# Configuration

How a store is opened.
-/

namespace StagedStore

structure Config where
  /-- Ask the database to enforce references. -/
  foreignKeys : Bool := true
  /-- How many milliseconds to wait for a locked database. -/
  busyTimeout : Option Nat := none
  /-- How many bytes of a statement are logged, if not all. -/
  maxSqlLogLength : Option Nat := some 200
  /-- The name of the staging table. -/
  stagingTable : String := "_liteorm_staging"
deriving Repr

/-- The staging table of a configuration, or why its name is none. -/
def Config.staging (c : Config) : Except Error StagingTable :=
  StagingTable.new c.stagingTable

end StagedStore
