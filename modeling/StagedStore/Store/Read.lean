import StagedStore.Entity
import StagedStore.Filter.Basic
import StagedStore.Pool
import StagedStore.Schema.Codec

/-!
# Counting and finding

The rows that a filter selects, as their number or as records.
-/

namespace StagedStore

/-- Counts the rows of a query. -/
def countQuery (q : Sql.Select) : Sql.Statement :=
  .select (.mk [.expr .countAll (some (.bare "n"))] (some (.query q none)) none [] none)

/-- The fields of a row, decoded; columns that the schema does not declare are left out. -/
def Schema.decodeRow (s : Schema) (r : Row) : Except Error Record := do
  let fields ← r.cells.filterMapM fun (n, v) =>
    match s.field? n with
    | none => return none
    | some f => return some (n, ← f.decode v)
  return .ofList fields

namespace Pool

variable {δ : Type} [Database δ]

/-- How many rows a filter selects. -/
def count (s : Schema) (f : Filter) : Action (Pool δ) UInt64 := do
  let (q, params) ← Action.ofExcept (f.select s [s.primaryKey.name])
  let r ← withLease (Connection.querySingle (countQuery q) params)
  return (← Action.ofExcept (r.getInteger "n")).toUInt64

/-- The rows that a filter selects. -/
def find (s : Schema) (f : Filter) : Action (Pool δ) (List Record) := do
  let (q, params) ← Action.ofExcept (f.select s [])
  let rows ← withLease (Connection.queryAll (.select q) params)
  Action.ofExcept (rows.mapM s.decodeRow)

end Pool

end StagedStore
