import StagedStore.Memory.Resolve

/-!
# Tables

A `Table` keeps its rows by descending key, so that a row under a new largest key is added in
front. `Table.scan` gives the rows as queries see them.
-/

namespace StagedStore.Memory

/-- A row under its hidden key. -/
structure Entry where
  id : Int64
  cells : Array Storage

/-- A column that refers to a column of another table. -/
structure Reference where
  column : Nat
  parent : String
  parentColumn : String
  /-- Checked when a transaction commits and not after each statement. -/
  deferred : Bool
deriving DecidableEq

structure Check where
  name : String
  condition : Term

structure Column where
  name : String
  affinity : Affinity
  notNull : Bool

structure Table where
  name : String
  columns : List Column
  /-- The column that is the hidden key itself. -/
  key : Option Nat
  /-- Generated keys are never used again. -/
  autoIncrement : Bool
  /-- Columns other than the key whose cells are unique, in the order they are checked. -/
  unique : List Nat
  checks : List Check
  references : List Reference
  /-- The largest key ever used, as far as generated keys depend on it. -/
  sequence : Int64
  /-- The rows by descending key. -/
  entries : List Entry

namespace Table

/-- The position of a column by name. -/
def columnIndex? (t : Table) (name : String) : Option Nat :=
  let key := foldName name
  t.columns.findIdx? fun c => foldName c.name = key

def columnName (t : Table) (i : Nat) : String :=
  (t.columns[i]?.map Column.name).getD ""

/-- The places of a row of the table: the hidden key, then the columns. -/
def slots (t : Table) (source : String) : List Slot :=
  .hidden source :: t.columns.map fun c => .ofColumn (some source) c.name c.affinity

/-- A row as queries see it. -/
def rowOf (e : Entry) : Array Storage :=
  #[.integer e.id] ++ e.cells

/-- The rows as queries see them, by ascending key. -/
def scan (t : Table) : List (Array Storage) :=
  t.entries.foldl (fun rows e => rowOf e :: rows) []

/-- The cells of a column, by ascending key. -/
def column (t : Table) (i : Nat) : List Storage :=
  t.entries.foldl (fun cells e => (e.cells[i]?.getD .null) :: cells) []

/-- Put a row in its place. -/
def place (e : Entry) : List Entry → List Entry
  | [] => [e]
  | x :: r => if x.id < e.id then e :: x :: r else x :: place e r

end Table

/-- The tables of a database, in no order that matters. -/
structure Catalog where
  main : List Table
  /-- Temporary tables, which hide main ones of the same name. -/
  temp : List Table

/-- The two sets of tables. -/
inductive Area where
  | main
  | temp
deriving DecidableEq, Repr

namespace Catalog

def empty : Catalog := ⟨[], []⟩

def area (c : Catalog) : Area → List Table
  | .main => c.main
  | .temp => c.temp

/-- The table of a name in an area. -/
def findIn? (c : Catalog) (a : Area) (name : String) : Option Table :=
  (c.area a).find? fun t => foldName t.name = foldName name

/-- The area that a qualifier means. -/
def areaOf? (qualifier : String) : Option Area :=
  if foldName qualifier = "main" then some .main
  else if foldName qualifier = "temp" then some .temp
  else none

/-- The table that an identifier means, and where it is. -/
def find? (c : Catalog) (i : Identifier) : Option (Area × Table) :=
  match i.parts with
  | [p] =>
    match c.findIn? .temp p.name with
    | some t => some (.temp, t)
    | none => (c.findIn? .main p.name).map (.main, ·)
  | [q, p] => do
    let a ← areaOf? q.name
    let t ← c.findIn? a p.name
    return (a, t)
  | _ => none

/-- An identifier as messages show it. -/
def shown (i : Identifier) : String :=
  ".".intercalate (i.parts.map Part.name)

/-- The table that an identifier means, or a fault. No identifier of a table has three parts. -/
def find (c : Catalog) (i : Identifier) : Except Fault (Area × Table) :=
  match c.find? i with
  | some r => .ok r
  | none => .error (if i.parts.length ≤ 2 then .noSuchTable (shown i) else .malformed)

/-- Change the tables of an area. -/
def modifyArea (c : Catalog) (a : Area) (f : List Table → List Table) : Catalog :=
  match a with
  | .main => { c with main := f c.main }
  | .temp => { c with temp := f c.temp }

def add (c : Catalog) (a : Area) (t : Table) : Catalog :=
  c.modifyArea a (· ++ [t])

/-- Put a table in the place of the one with its name. -/
def replace (c : Catalog) (a : Area) (t : Table) : Catalog :=
  c.modifyArea a fun ts => ts.map fun u => if foldName u.name = foldName t.name then t else u

def drop (c : Catalog) (a : Area) (name : String) : Catalog :=
  c.modifyArea a fun ts => ts.filter fun t => foldName t.name ≠ foldName name

end Catalog

end StagedStore.Memory
