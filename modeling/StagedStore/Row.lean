import StagedStore.Error

/-!
# Result rows

A `Row` is one row of a query's result: the names of its columns and their cells, in order.
-/

namespace StagedStore

structure Row where
  columns : List String
  values : List Storage

namespace Row

/-- The names with their cells. -/
def cells (r : Row) : List (String × Storage) :=
  r.columns.zip r.values

/-- The cell of the first column of a name. -/
def get? (r : Row) (column : String) : Option Storage :=
  r.cells.lookup column

/-- The cell of a column, or a decode error that names it. -/
def get (r : Row) (column : String) : Except Error Storage :=
  match r.get? column with
  | some v => .ok v
  | none => .error (.decode column .missing)

/-- The integer in a column, or a decode error that names it. -/
def getInteger (r : Row) (column : String) : Except Error Int64 := do
  match ← r.get column with
  | .integer n => return n
  | v => throw (.decode column (.notInteger v))

end Row

end StagedStore
