import Std.Data.HashMap
import Std.Data.HashSet
import StagedStore.Changes
import StagedStore.Chunks
import StagedStore.Staging

/-!
# Plans of batched updates

A `Plan` lays the changes of many entities out as one table: a row for each change set, a column
for each field that any of them touches. `Plan.select` is the query that resolves the cells of some
rows to the values the fields will have: set values as they are, increments added to the value of
the origin row, and untouched cells taken from it.
-/

namespace StagedStore

/-- What a change set does to a field. -/
inductive Cell where
  /-- Store a value. -/
  | value (v : Storage)
  /-- Add to the value of the origin row. -/
  | increment (amount : Storage)
  /-- Keep the value of the origin row. -/
  | untouched

/-- The storage form of a delta. -/
def Cell.ofDelta (f : Field) : Delta → Except Error Cell
  | .set v => return .value (← f.encode v)
  | .unset => return .value .null
  | .increment amount => return .increment (← f.encode amount)

/-- A change set in storage form. -/
structure PlanRow where
  key : Storage
  cells : List (String × Cell)

namespace PlanRow

/-- The cell of a field. -/
def cell (r : PlanRow) (field : String) : Cell :=
  (r.cells.lookup field).getD .untouched

/-- The fields that the row increments. -/
def incremented (r : PlanRow) : List String :=
  r.cells.filterMap fun (name, c) =>
    match c with
    | .increment _ => some name
    | _ => none

end PlanRow

structure Plan where
  key : String
  /-- The fields that some row touches, in the order they were first met. -/
  fields : List String
  rows : List PlanRow

/-- What decoding gives back to one entity: its place in the batch and the new values. -/
abbrev WriteBack := Nat × List (String × Value)

namespace Plan

/-- How many parameters a statement may have. -/
def maxParams : Nat := 32766

/-- The row of a change set, if no change set before it had the same key. -/
def compileRow {ε : Type} (s : Schema) (c : ChangeSet ε) :
    StateT (Std.HashSet String) (Except Error) PlanRow := fun seen => do
  let key ← s.primaryKey.encode c.key
  if seen.contains key.literal then throw (.validation (.repeatedKey key.literal))
  let cells ← c.changes.entries.mapM fun (name, d) => do
    let f ← s.requireField name
    return (name, ← Cell.ofDelta f d)
  return (⟨key, cells⟩, seen.insert key.literal)

/-- The fields that rows touch, each once, behind those already met, which stand in reverse. -/
def touchedBy (met : List String) : List PlanRow → List String
  | [] => met.reverse
  | r :: rs =>
    touchedBy (r.cells.foldl (fun met (n, _) => if met.contains n then met else n :: met) met) rs

/-- The plan of a batch. Two change sets for one key are refused. -/
def compile {ε : Type} (s : Schema) (sets : List (ChangeSet ε)) : Except Error Plan := do
  let (rows, _) ← (sets.mapM (compileRow s)).run {}
  return ⟨s.primaryKey.name, touchedBy [] rows, rows⟩

/-- No field is touched. -/
def isNoop (p : Plan) : Bool :=
  p.fields.isEmpty || p.rows.isEmpty

/-- The columns of the staging table, the key first. -/
def columns (p : Plan) : List String :=
  p.key :: p.fields

/-- Whether a field is incremented, so that its new value must be read back. -/
def hasReturning (p : Plan) : Bool :=
  p.rows.any fun r => !r.incremented.isEmpty

/-- How many rows fit into one statement. -/
def chunkSize (p : Plan) : Nat :=
  max (maxParams / p.columns.length) 1

theorem chunkSize_ne_zero (p : Plan) : p.chunkSize ≠ 0 := by
  unfold chunkSize
  omega

/-- The rows, cut so that no statement has too many parameters. -/
def chunks (p : Plan) : List (List PlanRow) :=
  chunksOf p.chunkSize p.rows

/-- Where the chunks start and end. -/
def ranges (p : Plan) : List (Nat × Nat) :=
  (p.chunks.foldl (fun (start, rs) c => (start + c.length, (start, start + c.length) :: rs))
    (0, [])).2.reverse

/-- The alias of the planned rows. -/
def planned : Part := .bare "_rows"

/-- The alias of the origin table. -/
def origin : Part := .bare "_origin"

/-- A cell among the planned rows: values are bound, other cells are null for now. -/
def bindCell : Cell → Sql.Binding Sql.Expr
  | .value v => Sql.bind v
  | _ => return .literal .null

/-- A planned row, its key in front. -/
def bindRow (p : Plan) (r : PlanRow) : Sql.Binding (List Sql.Expr) := do
  let key ← Sql.bind r.key
  return key :: (← p.fields.mapM fun f => bindCell (r.cell f))

/-- The arm of a row that increments a field. -/
def incrementArm? (p : Plan) (field : String) (r : PlanRow) : Option (Sql.Expr × Sql.Expr) :=
  match r.cell field with
  | .increment amount =>
    some (.compare .eq (.qualified planned p.key) (.ofStorage r.key),
      .add (.qualified origin field) (.ofStorage amount))
  | _ => none

/-- The key of a row that leaves a field untouched. -/
def untouchedKey? (field : String) (r : PlanRow) : Option Sql.Expr :=
  match r.cell field with
  | .untouched => some (.ofStorage r.key)
  | _ => none

/-- The new value of a field in some rows. -/
def resolveField (p : Plan) (rows : List PlanRow) (field : String) : Sql.Expr :=
  let arms := rows.filterMap (p.incrementArm? field)
  let keep := match rows.filterMap (untouchedKey? field) with
    | [] => []
    | keys => [(.inList false (.qualified planned p.key) keys, .qualified origin field)]
  match arms ++ keep with
  | [] => .qualified planned field
  | arms => .choose arms (.qualified planned field)

/-- The planned rows under the names of their columns. -/
def plannedSource (p : Plan) (tuples : List (List Sql.Expr)) : Sql.Source :=
  .query (.mk (p.columns.mapIdx fun i c =>
      .expr (.column none (.bare ("column" ++ toString (i + 1)))) (some (.quoted c)))
    (some (.values tuples)) none [] none) (some planned)

/-- The query that stages some rows, and its parameters. -/
def select (p : Plan) (s : Schema) (rows : List PlanRow) : Sql.Select × Sql.Params :=
  let (tuples, params) := (rows.mapM p.bindRow).run #[]
  let key : Sql.ResultColumn := .expr (.qualified planned p.key) (some (.quoted p.key))
  let resolved := p.fields.map fun f =>
    (.expr (p.resolveField rows f) (some (.quoted f)) : Sql.ResultColumn)
  (.mk (key :: resolved)
    (some (.join (p.plannedSource tuples) (.table s.table.allQuoted (some origin))
      (.compare .eq (.qualified origin p.key) (.qualified planned p.key))))
    none [] none, params)

variable {σ : Type} [Connection σ]

/-- Stage a chunk behind those staged before. -/
def stageNext (p : Plan) (s : Schema) (t : StagingTable) (rows : List PlanRow) :
    Action σ Unit := do
  let (q, params) := p.select s rows
  let _ ← t.append (.select q) params

/-- Stage every chunk. -/
def stage (p : Plan) (s : Schema) (t : StagingTable) : Action σ Unit := do
  match p.chunks with
  | [] => return
  | c :: cs =>
    let (q, params) := p.select s c
    let _ ← t.create (.select q) params
    cs.forM (p.stageNext s t)

/-- The place and the row of every key whose row increments a field. -/
def returning (p : Plan) : Std.HashMap String (Nat × List String) :=
  p.rows.zipIdx.foldl (fun m (r, i) =>
    if r.incremented.isEmpty then m else m.insert r.key.literal (i, r.incremented)) ∅

/-- The new values of one staged row, if its row in the plan increments a field. -/
def decodeRow (s : Schema) (returning : Std.HashMap String (Nat × List String)) (row : Row) :
    Except Error (Option WriteBack) := do
  let key ← row.get s.primaryKey.name
  match returning[key.literal]? with
  | none => return none
  | some (i, fields) =>
    let values ← fields.mapM fun name => do
      let f ← s.requireField name
      return (name, ← f.decode (← row.get name))
    return some (i, values)

/-- The new values of incremented fields, read from the staged rows. -/
def decodeReturning (p : Plan) (s : Schema) (rows : List Row) : Except Error (List WriteBack) :=
  return (← rows.mapM (decodeRow s p.returning)).filterMap id

end Plan

/-- Overwrite fields of an entity in order. A refusal ends it; the fields before stay
overwritten. -/
def assignFields {ε : Type} [Entity ε] (item : ε) : List (String × Value) → ε × Except Error Unit
  | [] => (item, .ok ())
  | (name, v) :: r =>
    match Entity.setField item name v with
    | .ok item => assignFields item r
    | .error e => (item, .error e)

/-- Overwrite fields of the entities of a batch in order. A refusal ends it. -/
def assignWriteBacks {ε : Type} [Entity ε] (items : Array ε) :
    List WriteBack → Array ε × Except Error Unit
  | [] => (items, .ok ())
  | (i, values) :: r =>
    match items[i]? with
    | none => assignWriteBacks items r
    | some item =>
      match assignFields item values with
      | (item, .ok ()) => assignWriteBacks (items.setIfInBounds i item) r
      | (item, .error e) => (items.setIfInBounds i item, .error e)

end StagedStore
