import Std.Data.HashMap
import StagedStore.Memory.Table
import StagedStore.Row
import StagedStore.Sql.Statement

/-!
# Queries

`evalSelect` gives the relation that a query denotes: the rows of its source that meet its
condition, ordered, cut to its limit and projected.
-/

namespace StagedStore.Memory

/-- Rows under named places. -/
structure Relation where
  slots : List Slot
  rows : List (Array Storage)

/-- A column of a query's result. -/
structure Output where
  name : String
  term : Term
  affinity : Affinity

/-- What queries depend on besides their text. -/
structure Context where
  catalog : Catalog
  params : Array Storage
  lastKey : Int64

namespace Context

/-- The cells of a column of a table. -/
def column (ctx : Context) (table : Identifier) (name : Part) :
    Except Fault (Affinity × List Storage) := do
  let (_, t) ← ctx.catalog.find table
  match t.columnIndex? name.name with
  | some i => return ((t.columns[i]?.map Column.affinity).getD .none, t.column i)
  | none => throw (.unknownName name.name)

/-- Names mean the given places. -/
def resolver (ctx : Context) (slots : List Slot) : Resolver :=
  ⟨slots, [], ctx.params, ctx.lastKey, ctx.column⟩

end Context

/-! ## Joins -/

/-- The two places that a condition equates, the first on the left side of a join and the second
on the right, when equal cells have one normal form. -/
def equated? (width : Nat) : Term → Option (Affinity × Nat × Nat)
  | .compare .eq f (.slot i) (.slot j) =>
    if f = .text then none
    else if i < width ∧ width ≤ j then some (f, i, j - width)
    else if j < width ∧ width ≤ i then some (f, j, i - width)
    else none
  | _ => none

/-- The form under which cells that a comparison equates are found. -/
def joinKey (f : Affinity) (v : Storage) : Storage :=
  (f.forMember v).normal

/-- Rows by the cell in one place; the rows of a cell keep their order. -/
def indexRows (f : Affinity) (i : Nat) (rows : List (Array Storage)) :
    Std.HashMap Storage (List (Array Storage)) :=
  rows.reverse.foldl (fun m row =>
    let k := joinKey f (row[i]?.getD .null)
    m.insert k (row :: m.getD k [])) ∅

/-- The pairs of rows that meet a condition, for each row on the left in turn. -/
def joinRows (width : Nat) (condition : Term) (left right : List (Array Storage)) :
    List (Array Storage) :=
  let pairs (l : Array Storage) (candidates : List (Array Storage)) : List (Array Storage) :=
    (candidates.map (l ++ ·)).filter condition.holds
  match equated? width condition with
  | some (f, i, j) =>
    let index := indexRows f j right
    left.flatMap fun l => pairs l (index.getD (joinKey f (l[i]?.getD .null)) [])
  | none => left.flatMap fun l => pairs l right

/-! ## Result columns -/

/-- The name of a result column without an alias: that of the column it is, else its text. -/
def outputName (r : Resolver) (e : Sql.Expr) (t : Term) : String :=
  match e, t with
  | .column _ _, .slot i => ((r.slots[i]?).map Slot.name).getD e.render
  | _, _ => e.render

/-- The results that a result column stands for. The count of rows is in the place behind the
source's. -/
def outputs (r : Resolver) : Sql.ResultColumn → Except Fault (List Output)
  | .all => .ok ((r.slots.zipIdx.filter fun (s, _) => !s.isHidden).map fun (s, i) =>
      ⟨s.name, .slot i, s.affinity⟩)
  | .expr .countAll label =>
    .ok [⟨(label.map Part.name).getD "COUNT(*)", .slot r.slots.length, .none⟩]
  | .expr e label => do
    let t ← r.resolve e
    return [⟨(label.map Part.name).getD (outputName r e t.term), t.term, t.affinity⟩]

/-- The names that aliases give to results. -/
def aliasesOf (columns : List Sql.ResultColumn) (results : List (List Output)) :
    List (String × Resolved) :=
  (columns.zip results).filterMap fun
    | (.expr _ (some a), [o]) => some (foldName a.name, ⟨o.term, o.affinity⟩)
    | _ => none

def isCount : Sql.ResultColumn → Bool
  | .expr .countAll _ => true
  | _ => false

/-! ## Order and limit -/

/-- The term that rows are ordered by: a result by its alias, else an expression. -/
def orderTerm (r : Resolver) : Sql.Expr → Except Fault Term
  | .column none n =>
    match r.aliases.lookup (foldName n.name) with
    | some a => .ok a.term
    | none => (r.resolve (.column none n)).map Resolved.term
  | e => (r.resolve e).map Resolved.term

/-- Whether a row with the first keys may stand before one with the second; the keys are paired
with whether they descend. -/
def orderedBefore : List (Storage × Bool) → List (Storage × Bool) → Bool
  | (a, descending) :: r, (b, _) :: s =>
    match if descending then b.cmp a else a.cmp b with
    | .lt => true
    | .gt => false
    | .eq => orderedBefore r s
  | _, _ => true

/-- Rows in order; rows that the terms do not tell apart keep theirs. -/
def sortRows (terms : List (Term × Bool)) (rows : List (Array Storage)) : List (Array Storage) :=
  if terms.isEmpty then rows
  else
    let keyed := rows.map fun row => (terms.map fun (t, d) => (t.eval row, d), row)
    (keyed.mergeSort fun a b => orderedBefore a.1 b.1).map Prod.snd

/-- The rows that a limit leaves. -/
def cutRows (l : Option Sql.Limit) (rows : List (Array Storage)) : List (Array Storage) :=
  match l with
  | none => rows
  | some ⟨count, offset⟩ =>
    let rows := rows.drop (offset.getD 0).toNat
    if count < 0 then rows else rows.take count.toNat

/-! ## Sources and queries -/

/-- Rows of values, under the names `column1`, `column2` and so on. -/
def evalValues (ctx : Context) (rows : List (List Sql.Expr)) : Except Fault Relation := do
  let r := ctx.resolver []
  let cells ← rows.mapM fun es => return (Term.evalAll #[] (← r.resolveAll es)).toArray
  let width := (cells.head?.map Array.size).getD 0
  return ⟨(List.range width).map fun i =>
    .ofColumn none ("column" ++ toString (i + 1)) .none, cells⟩

mutual

/-- The rows of a source. -/
def evalSource (ctx : Context) : Sql.Source → Except Fault Relation
  | .table i label => do
    let (_, t) ← ctx.catalog.find i
    return ⟨t.slots ((label.map Part.name).getD t.name), t.scan⟩
  | .values rows => evalValues ctx rows
  | .query q label => do
    let (os, rows) ← evalSelect ctx q
    return ⟨os.map fun o => .ofColumn (label.map Part.name) o.name o.affinity, rows⟩
  | .join l r c => do
    let l ← evalSource ctx l
    let r ← evalSource ctx r
    let slots := l.slots ++ r.slots
    let c ← (ctx.resolver slots).resolve c
    return ⟨slots, joinRows l.slots.length c.term l.rows r.rows⟩

/-- The rows of a source that may be missing; without one there is one row, which is empty. -/
def evalFrom (ctx : Context) : Option Sql.Source → Except Fault Relation
  | none => .ok ⟨[], [#[]]⟩
  | some s => evalSource ctx s

/-- The results of a query and its rows. -/
def evalSelect (ctx : Context) : Sql.Select → Except Fault (List Output × List (Array Storage))
  | .mk columns source condition order limit => do
    let s ← evalFrom ctx source
    let plain := ctx.resolver s.slots
    let results ← columns.mapM (outputs plain)
    let r := { plain with aliases := aliasesOf columns results }
    let condition ← r.resolveCondition condition
    let terms ← order.mapM fun t =>
      return (← orderTerm r t.term, decide (t.direction = some .descending))
    let rows := s.rows.filter condition.holds
    let rows := if columns.any isCount then
        let last := rows.getLast?.getD (.replicate s.slots.length .null)
        [last.push (.integer (.ofNat rows.length))]
      else sortRows terms rows
    let os := results.flatten
    return (os, (cutRows limit rows).map fun row => (os.map fun o => o.term.eval row).toArray)

end

/-- The rows of a query's result, each with the names of its columns. -/
def resultRows (os : List Output) (rows : List (Array Storage)) : List Row :=
  let names := os.map Output.name
  rows.map fun r => ⟨names, r.toList⟩

end StagedStore.Memory
