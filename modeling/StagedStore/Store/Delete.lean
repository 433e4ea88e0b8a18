import StagedStore.Filter.Basic
import StagedStore.Pool
import StagedStore.Schema.Codec
import StagedStore.Staging
import StagedStore.Update.Plan

/-!
# Deleting

The keys of the rows to delete are staged, the rows are deleted from the origin table, and the
staged keys are the report.
-/

namespace StagedStore

/-- What a deletion did. -/
structure Deleted where
  /-- How many rows were deleted. -/
  modified : Nat
  /-- The keys of the deleted rows. -/
  keys : List Value

namespace Deleted

/-- Nothing was deleted. -/
def none : Deleted := ⟨0, []⟩

/-- What two deletions did. -/
def append (a b : Deleted) : Deleted :=
  ⟨a.modified + b.modified, a.keys ++ b.keys⟩

def toJson (d : Deleted) : List (String × Json) :=
  [("modified", .integer d.modified), ("primary_keys", .array (d.keys.map Value.toJson))]

end Deleted

/-- The value of the primary key in a row. -/
def Schema.decodeKey (s : Schema) (r : Row) : Except Error Value := do
  s.primaryKey.decode (← r.get s.primaryKey.name)

/-- Delete the rows of the origin table whose keys a query gives. -/
def StagingTable.deleteSelected {σ : Type} [Connection σ] (t : StagingTable) (s : Schema)
    (q : Sql.Select) (params : Sql.Params) : Action σ Deleted := do
  let _ ← t.create (.select q) params
  let modified ← t.applyDelete s
  let rows ← t.readBack [s.primaryKey.name]
  t.discard
  let keys ← Action.ofExcept (rows.mapM s.decodeKey)
  Connection.report (.rowsDeleted s.table.name modified
    (", ".intercalate (keys.map fun k => k.toStorage.literal)))
  return ⟨modified, keys⟩

/-- The keys of entities, none of which may lack one. -/
def keysOf {ε : Type} [Entity ε] (s : Schema) (items : List ε) : Except Error (List Value) :=
  items.mapM fun item =>
    let v := Entity.fieldOrNull item s.primaryKey.name
    if v.isNull then .error (.validation (.itemWithoutKey s.primaryKey.name)) else .ok v

namespace Pool

variable {ε δ : Type} [Entity ε] [Database δ]

/-- Delete the rows with some keys, in a transaction for each chunk of keys. -/
def removeChunks (s : Schema) (t : StagingTable) (done : Deleted) :
    List (List Value) → Action (Pool δ) Deleted
  | [] => return done
  | keys :: rest => do
    let f := Filter.all.isIn s.primaryKey.name keys
    let (q, params) ← Action.ofExcept (f.select s [s.primaryKey.name])
    let part ← transaction (t.deleteSelected s q params)
    removeChunks s t (done.append part) rest

/-- Delete the rows of entities, under a lease that the caller holds. -/
def remove (s : Schema) (t : StagingTable) (items : List ε) : Action (Pool δ) Deleted := do
  let keys ← Action.ofExcept (keysOf s items)
  removeChunks s t .none (chunksOf Plan.maxParams keys)

/-- Delete the rows that a filter selects. -/
def delete (s : Schema) (t : StagingTable) (f : Filter) : Action (Pool δ) Deleted := do
  let (q, params) ← Action.ofExcept (f.select s [s.primaryKey.name])
  withLease (t.deleteSelected s q params)

end Pool

end StagedStore
