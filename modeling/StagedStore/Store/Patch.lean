import StagedStore.Changes
import StagedStore.Store.Delete

/-!
# Patching

A patch makes the same changes to every row that a filter selects. The keys of the rows and the new
values of their fields are staged before the origin table changes, so the staged rows tell what was
done even where a row no longer passes the filter.
-/

namespace StagedStore

/-- What a patch did. -/
structure Patched where
  /-- How many rows were updated. -/
  modified : Nat
  /-- The keys of the selected rows. -/
  keys : List Value
  /-- The new values of the reported fields, by name, in the order of the keys. -/
  returning : List (String × List Value)

def Patched.toJson (p : Patched) : List (String × Json) :=
  [("modified", .integer p.modified), ("primary_keys", .array (p.keys.map Value.toJson)),
    ("returning", .object (p.returning.map fun (n, vs) => (n, .array (vs.map Value.toJson))))]

/-- Building a part of a statement from values that may not be storable. -/
abbrev CheckedBinding := StateT Sql.Params (Except Error)

/-- A value of a field, bound to the next parameter. -/
def bindValue (f : Field) (v : Value) : CheckedBinding Sql.Expr := do
  let cell ← f.encode v
  modifyGet (Sql.bind cell)

/-- The new value of a field under a delta. -/
def Delta.expr (f : Field) : Delta → CheckedBinding Sql.Expr
  | .set v => bindValue f v
  | .unset => return .literal .null
  | .increment amount => return .add (.ofName f.name) (← bindValue f amount)

/-- The new value of a field as a column of the staging table. -/
def patchColumn (s : Schema) (change : String × Delta) : CheckedBinding Sql.ResultColumn := do
  let f ← s.requireField change.1
  return .expr (← change.2.expr f) (some (.quoted change.1))

/-- The fields that changes increment. -/
def Changes.incremented (c : Changes) : List String :=
  c.entries.filterMap fun (n, d) =>
    match d with
    | .increment _ => some n
    | _ => none

/-- Names put behind others, those that are already there left out. -/
def appendNew (names : List String) : List String → List String
  | [] => names
  | n :: r => appendNew (if names.contains n then names else names ++ [n]) r

/-- How a patch is carried out. -/
structure PatchPlan where
  query : Sql.Select
  params : Sql.Params
  /-- The columns of the staging table, the key first. -/
  staged : List String
  /-- The fields that change. -/
  touched : List String
  /-- The fields whose new values are told. -/
  reported : List String

namespace PatchPlan

/-- The plan of a patch, checked against the schema. -/
def compile (s : Schema) (f : Filter) (c : Changes) (returning : List String) :
    Except Error PatchPlan := do
  c.check s
  let touched := c.entries.map Prod.fst
  let (columns, params) ← (c.entries.mapM (patchColumn s)).run #[]
  returning.forM fun n => do
    let _ ← s.requireField n
  let changed := s.primaryKey.name :: touched
  let staged := appendNew changed returning
  let kept := (staged.drop changed.length).map fun n =>
    (.expr (.ofName n) (some (.quoted n)) : Sql.ResultColumn)
  let key : Sql.ResultColumn := .expr (.ofName s.primaryKey.name) none
  let (query, params) ← Selection.toSelect ⟨s, f, key :: (columns ++ kept)⟩ params
  return ⟨query, params, staged, touched, appendNew c.incremented returning⟩

/-- The key and the reported values in a staged row. -/
def decodeRow (p : PatchPlan) (s : Schema) (r : Row) : Except Error (Value × List Value) := do
  let key ← s.decodeKey r
  let values ← p.reported.mapM fun n => do
    let f ← s.requireField n
    f.decode (← r.get n)
  return (key, values)

/-- What staged rows tell of a patch. -/
def report (p : PatchPlan) (modified : Nat) (rows : List (Value × List Value)) : Patched where
  modified
  keys := rows.map Prod.fst
  returning := Keyed.ofList (p.reported.zipIdx.map fun (n, i) =>
    (n, rows.map fun r => r.2[i]?.getD .null))

/-- Carry out a patch. -/
def apply {σ : Type} [Connection σ] (p : PatchPlan) (s : Schema) (t : StagingTable) :
    Action σ Patched := do
  let _ ← t.create (.select p.query) p.params
  let modified ← if p.touched.isEmpty then pure 0 else t.applyUpdate s p.touched
  let rows ← t.readBack p.staged
  t.discard
  return p.report modified (← Action.ofExcept (rows.mapM (p.decodeRow s)))

end PatchPlan

/-- Make changes to the rows that a filter selects, and tell the new values of incremented and of
further fields. -/
def Pool.patch {δ : Type} [Database δ] (s : Schema) (t : StagingTable) (f : Filter) (c : Changes)
    (returning : List String) : Action (Pool δ) Patched := do
  let plan ← Action.ofExcept (PatchPlan.compile s f c returning)
  let r ← withLease (plan.apply s t)
  Pool.report (.patchApplied s.table.name r.modified r.keys.length)
  return r

end StagedStore
