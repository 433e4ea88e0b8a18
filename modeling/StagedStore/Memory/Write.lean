import StagedStore.Memory.Query

/-!
# Writing rows

Rows enter a table one at a time. Each is completed with its key, converted by the affinities of
the columns, and tested: cells that must not be null, checks, then uniqueness. A row that fails
stops the statement.
-/

namespace StagedStore.Memory

/-- The cells in use in a column whose cells are unique. -/
structure Occupied where
  column : Nat
  cells : Std.HashSet Storage

namespace Occupied

def ofTable (t : Table) : List Occupied :=
  t.unique.map fun i => ⟨i, (t.column i).foldl (fun s v => s.insert v.normal) ∅⟩

/-- The first unique column in which another row has the cell that some cells have. Null differs
from itself. -/
def conflict? (os : List Occupied) (cells : Array Storage) : Option Nat :=
  (os.find? fun o =>
    let v := cells[o.column]?.getD .null
    !v.isNull && o.cells.contains v.normal).map Occupied.column

def occupy (os : List Occupied) (cells : Array Storage) : List Occupied :=
  os.map fun o => { o with cells := o.cells.insert (cells[o.column]?.getD .null).normal }

def release (os : List Occupied) (cells : Array Storage) : List Occupied :=
  os.map fun o => { o with cells := o.cells.erase (cells[o.column]?.getD .null).normal }

end Occupied

namespace Table

/-- The largest key in the table. -/
def largest? (t : Table) : Option Int64 :=
  t.entries.head?.map Entry.id

/-- The largest key below a bound that is not in use. -/
def freeBelow (bound : Int64) : List Entry → Int64
  | [] => bound
  | e :: r => if e.id = bound then freeBelow (bound - 1) r else bound

/-- The key after the largest; one that was never used if generated keys must be new. Where the
largest key is the greatest there is, a free one below is taken instead. -/
def nextKey (t : Table) : Except Fault Int64 :=
  if t.autoIncrement then
    let last := max ((t.largest?).getD 0) t.sequence
    if last = Int64.maxValue then .error .full else .ok (last + 1)
  else
    match t.largest? with
    | none => .ok 1
    | some k => .ok (if k = Int64.maxValue then freeBelow k t.entries else k + 1)

/-- The key that a cell asks for, if it is an integer. -/
def keyOfCell? (v : Storage) : Option Int64 :=
  match (Affinity.integer).store v with
  | .integer n => some n
  | _ => none

/-- Cells as the columns store them. -/
def convert (t : Table) (cells : List Storage) : Array Storage :=
  (t.columns.zipWith (fun c v => c.affinity.store v) cells).toArray

/-- The first column that must not be null and is. The key is never null. -/
def nullColumn? (t : Table) (cells : Array Storage) : Option Nat :=
  (t.columns.zipIdx.find? fun (c, i) =>
    c.notNull && decide (t.key ≠ some i) && (cells[i]?.getD .null).isNull).map Prod.snd

/-- The first check that fails. A check whose result is unknown does not fail. -/
def failedCheck? (t : Table) (e : Entry) : Option Check :=
  t.checks.find? fun c => (c.condition.eval (rowOf e)).truth? = some false

/-- The tests of a row that concern the row alone. -/
def testRow (t : Table) (e : Entry) : Except Fault Unit := do
  if let some i := t.nullColumn? e.cells then throw (.null t.name (t.columnName i))
  if let some c := t.failedCheck? e then throw (.check c.name)

/-- The tests of uniqueness. -/
def testUnique (t : Table) (os : List Occupied) (e : Entry) : Except Fault Unit := do
  if let some i := Occupied.conflict? os e.cells then throw (.notUnique t.name (t.columnName i))

end Table

/-- A table into which rows are being inserted. -/
structure Insertion where
  table : Table
  occupied : List Occupied
  /-- The key of the row inserted last. -/
  last : Option Int64

namespace Insertion

def start (t : Table) : Insertion :=
  ⟨t, Occupied.ofTable t, none⟩

/-- Whether a key is in use. Rows stand by descending key, so larger keys are passed over. -/
def hasKey (k : Int64) : List Entry → Bool
  | [] => false
  | e :: r => if k < e.id then hasKey k r else decide (e.id = k)

/-- The row that some cells make: under the key they give, or else a generated one. -/
def complete (t : Table) (cells : List Storage) : Except Fault (Entry × Bool) := do
  match t.key with
  | none => return (⟨← t.nextKey, t.convert cells⟩, false)
  | some i =>
    let given := (cells[i]?).getD .null
    let (k, isGiven) ←
      if given.isNull then pure (← t.nextKey, false)
      else
        match Table.keyOfCell? given with
        | some k => pure (k, true)
        | none => throw .keyNotInteger
    return (⟨k, (t.convert cells).setIfInBounds i (.integer k)⟩, isGiven)

/-- Insert a row. -/
def insert (s : Insertion) (cells : List Storage) : Except Fault Insertion := do
  let t := s.table
  let (e, isGiven) ← complete t cells
  t.testRow e
  if hasKey e.id t.entries then
    throw (if isGiven then .notUnique t.name ((t.key.map t.columnName).getD "") else .full)
  t.testUnique s.occupied e
  return {
    table := { t with
      entries := Table.place e t.entries
      sequence := max t.sequence e.id }
    occupied := Occupied.occupy s.occupied e.cells
    last := some e.id }

/-- Insert rows until one fails. -/
def insertAll (s : Insertion) : List (List Storage) → Insertion × Option Fault
  | [] => (s, none)
  | cells :: rest =>
    match s.insert cells with
    | .ok s => insertAll s rest
    | .error f => (s, some f)

end Insertion

/-- A table whose rows are being updated by ascending key. -/
structure Revision where
  table : Table
  occupied : List Occupied
  /-- The keys in use, if the update may change keys. -/
  ids : Std.HashSet Int64
  /-- The rows so far. -/
  entries : List Entry
  count : Nat

namespace Revision

/-- A row with the cells that assignments give it. -/
def assign (t : Table) (values : List (Nat × Storage)) (e : Entry) : Except Fault Entry := do
  let cells := values.foldl (fun (cells : Array Storage) (i, v) =>
    match t.columns[i]? with
    | some c => cells.setIfInBounds i (c.affinity.store v)
    | none => cells) e.cells
  match t.key with
  | none => return ⟨e.id, cells⟩
  | some i =>
    match Table.keyOfCell? (cells[i]?.getD .null) with
    | some k => return ⟨k, cells.setIfInBounds i (.integer k)⟩
    | none => throw .keyNotInteger

/-- Take over a row: with new cells where there are assignments for it. -/
def step (values : Entry → Option (List (Nat × Storage))) (s : Revision) (e : Entry) :
    Except Fault Revision := do
  match values e with
  | none => return { s with entries := Table.place e s.entries }
  | some vs =>
    let t := s.table
    let new ← assign t vs e
    t.testRow new
    if new.id ≠ e.id && s.ids.contains new.id then
      throw (.notUnique t.name ((t.key.map t.columnName).getD ""))
    let occupied := Occupied.release s.occupied e.cells
    t.testUnique occupied new
    return { s with
      occupied := Occupied.occupy occupied new.cells
      ids := if new.id = e.id then s.ids else (s.ids.erase e.id).insert new.id
      entries := Table.place new s.entries
      count := s.count + 1 }

/-- Update the rows of a table for which there are assignments. Gives the count of them. -/
def updateAll (t : Table) (changesKey : Bool) (values : Entry → Option (List (Nat × Storage))) :
    Except Fault (Table × Nat) := do
  let ids := if changesKey then t.entries.foldl (fun s e => s.insert e.id) ∅ else ∅
  let s ← t.entries.reverse.foldlM (step values) ⟨t, Occupied.ofTable t, ids, [], 0⟩
  return ({ t with entries := s.entries }, s.count)

end Revision

/-! ## References -/

/-- The parent of a reference and the position of the column referred to, which must be its key or
unique. -/
def parentOf (c : Catalog) (a : Area) (t : Table) (r : Reference) :
    Except Fault (Table × Nat) := do
  match c.findIn? a r.parent with
  | none =>
    let area := match a with
      | .main => "main"
      | .temp => "temp"
    throw (.noSuchTable (area ++ "." ++ r.parent))
  | some p =>
    match p.columnIndex? r.parentColumn with
    | some i =>
      if p.key = some i || p.unique.contains i then return (p, i)
      else throw (.referenceMismatch t.name p.name)
    | none => throw (.referenceMismatch t.name p.name)

/-- Whether every cell that refers to a parent finds one. -/
def refersTo (t : Table) (r : Reference) (p : Table) (i : Nat) : Bool :=
  let f := (p.columns[i]?.map Column.affinity).getD .none
  let parents : Std.HashSet Storage := (p.column i).foldl (fun s v => s.insert v.normal) ∅
  (t.column r.column).all fun v => v.isNull || parents.contains (f.store v).normal

/-- Whether the references of a table that are checked now, or those checked at the commit, hold. -/
def referencesHold (c : Catalog) (a : Area) (deferred : Bool) (t : Table) : Bool :=
  t.references.all fun r =>
    r.deferred != deferred ||
      match parentOf c a t r with
      | .ok (p, i) => refersTo t r p i
      | .error _ => true

/-- Whether every reference of every table holds, of those checked now or at the commit. -/
def Catalog.consistent (c : Catalog) (deferred : Bool) : Bool :=
  c.main.all (referencesHold c .main deferred) && c.temp.all (referencesHold c .temp deferred)

end StagedStore.Memory
