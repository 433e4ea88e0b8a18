import StagedStore.Filter.Condition
import StagedStore.Schema.Basic

/-!
# Filters

A `Filter` selects rows of a table: conditions that all hold, an ordering, and a limit.
`Selection` is the query of a filter on the table of a schema; `Selection.build` refuses columns
that the schema does not declare.
-/

namespace StagedStore

structure Filter where
  conditions : List Condition
  order : List (String × Sql.Direction)
  limit : Option Int64
  offset : Option Int64

namespace Filter

/-- The filter that every row passes. -/
def all : Filter := ⟨[], [], none, none⟩

instance : Inhabited Filter := ⟨all⟩

/-- Ask for a further condition. -/
def and (f : Filter) (c : Condition) : Filter :=
  { f with conditions := f.conditions ++ [c] }

/-- Ask that one of several conditions holds. -/
def or (f : Filter) (cs : List Condition) : Filter :=
  f.and (.any cs)

def isIn (f : Filter) (column : String) (values : List Value) : Filter :=
  f.and (.isIn column values)

def orderBy (f : Filter) (column : String) (d : Sql.Direction) : Filter :=
  { f with order := f.order ++ [(column, d)] }

/-- The columns that the conditions and then the ordering name. -/
def columns (f : Filter) : List String :=
  Condition.allColumns f.conditions ++ f.order.map Prod.fst

/-- The expression of the conditions, if a test stands in them. -/
def build (f : Filter) : Sql.Binding (Option Sql.Expr) :=
  (Condition.all f.conditions).build

/-- The limit as SQL has it, where rows can be skipped only behind a limit. -/
def sqlLimit? (f : Filter) : Option Sql.Limit :=
  match f.limit, f.offset with
  | some n, o => some ⟨n.toInt, o.map Int64.toInt⟩
  | none, some o => some ⟨-1, some o.toInt⟩
  | none, none => none

end Filter

/-- A filter on the table of a schema and the columns to take. -/
structure Selection where
  schema : Schema
  filter : Filter
  columns : List Sql.ResultColumn

namespace Selection

/-- All columns. -/
def new (s : Schema) (f : Filter) : Selection :=
  ⟨s, f, [.all]⟩

/-- Some fields. -/
def ofFields (s : Schema) (f : Filter) (fields : List String) : Selection :=
  ⟨s, f, fields.map fun n => .expr (.ofName n) none⟩

/-- Every column that the filter names is declared, and there is a column to take. -/
def check (q : Selection) : Except Error Unit := do
  q.filter.columns.forM fun c => do
    let _ ← q.schema.requireField c
  if q.columns.isEmpty then throw (.validation .noColumns)

/-- The query, its parameters bound behind those already bound. Columns of the ordering are
qualified, so that they mean the table's columns and not results of the same name. -/
def build (q : Selection) : Sql.Binding Sql.Select := do
  let condition ← q.filter.build
  let order := q.filter.order.map fun (c, d) =>
    (⟨.qualified (.quoted q.schema.table.name) c, some d⟩ : Sql.OrderTerm)
  return .mk q.columns (some (.table q.schema.table.allQuoted none)) condition order
    q.filter.sqlLimit?

/-- The query and its parameters, checked. -/
def toSelect (q : Selection) (bound : Sql.Params) : Except Error (Sql.Select × Sql.Params) := do
  q.check
  return q.build bound

end Selection

/-- The query of a filter that takes some fields, or all columns when none is named. -/
def Filter.select (s : Schema) (f : Filter) (fields : List String) :
    Except Error (Sql.Select × Sql.Params) :=
  (if fields.isEmpty then Selection.new s f else Selection.ofFields s f fields).toSelect #[]

end StagedStore
