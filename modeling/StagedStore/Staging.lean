import StagedStore.Connection.Basic
import StagedStore.Schema.Basic

/-!
# Staging tables

A `StagingTable` is a temporary table under a fixed name. A batched write fills it with the rows
of a query, changes the origin table by joining against it, reads it back and drops it.
-/

namespace StagedStore

structure StagingTable where
  name : String
deriving DecidableEq, Repr

namespace StagingTable

/-- The staging table of a name, which must be an identifier of one part. -/
def new (name : String) : Except Error StagingTable := do
  let i ← Identifier.parse name
  if i.parts.length ≠ 1 then throw (.validation (.qualifiedStaging name))
  return ⟨i.name⟩

/-- The name that the table is joined under. -/
def staged : Part := .bare "_staged"

/-- The table among the temporary ones. -/
def table (t : StagingTable) : Identifier :=
  .cons (.bare "temp") (.ofPart (.quoted t.name))

/-- Drops the table if it exists. -/
def dropScript (t : StagingTable) : Sql.Script :=
  ⟨[.dropTable true t.table], true⟩

/-- Counts the staged rows. -/
def countQuery (t : StagingTable) : Sql.Statement :=
  .select (.mk [.expr .countAll (some (.bare "n"))] (some (.table t.table none)) none [] none)

/-- Sets fields of the origin rows to the staged ones with the same key. -/
def updateOrigin (t : StagingTable) (s : Schema) (fields : List String) : Sql.Statement :=
  .update s.table.allQuoted (fields.map fun f => (.quoted f, .qualified staged f))
    (some (t.table, staged))
    (some (.compare .eq (.qualified (.quoted s.table.name) s.primaryKey.name)
      (.qualified staged s.primaryKey.name)))

/-- Deletes the origin rows whose keys are staged. -/
def deleteOrigin (t : StagingTable) (s : Schema) : Sql.Statement :=
  .delete s.table.allQuoted
    (some (.inTable false (.ofName s.primaryKey.name) (.quoted s.primaryKey.name) t.table))

/-- The staged rows in the order they were staged. -/
def readBackQuery (t : StagingTable) (columns : List String) : Sql.Statement :=
  .select (.mk (columns.map fun c => .expr (.ofName c) none) (some (.table t.table none)) none
    [⟨.column none (.bare "rowid"), none⟩] none)

variable {σ : Type} [Connection σ]

open Connection

/-- Drop the table if it exists. -/
def discard (t : StagingTable) : Action σ Unit := do
  exec t.dropScript
  report (.stagingDropped t.name)

/-- Drop what is left of an earlier use, then fill the table with the rows of a query. Gives the
count of staged rows. -/
def create (t : StagingTable) (q : Sql.Query) (params : Sql.Params) : Action σ UInt64 := do
  t.discard
  let _ ← run (.createTemporary (.quoted t.name) q) params
  let r ← querySingle t.countQuery #[]
  let n ← Action.ofExcept (r.getInteger "n")
  report (.stagingCreated t.name n.toUInt64.toNat)
  return n.toUInt64

/-- Stage more rows. -/
def append (t : StagingTable) (q : Sql.Query) (params : Sql.Params) : Action σ Nat := do
  let n ← run (.insertQuery t.table q) params
  report (.rowsAppended t.name n)
  return n

/-- Update the origin table and give the count of updated rows. -/
def applyUpdate (t : StagingTable) (s : Schema) (fields : List String) : Action σ Nat := do
  let _ ← run (t.updateOrigin s fields) #[]
  lastChanges

/-- Delete from the origin table and give the count of deleted rows. -/
def applyDelete (t : StagingTable) (s : Schema) : Action σ Nat := do
  let _ ← run (t.deleteOrigin s) #[]
  lastChanges

/-- Columns of the staged rows. -/
def readBack (t : StagingTable) (columns : List String) : Action σ (List Row) :=
  queryAll (t.readBackQuery columns) #[]

end StagingTable

end StagedStore
