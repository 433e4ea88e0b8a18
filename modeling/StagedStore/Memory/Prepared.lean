import StagedStore.Memory.Write

/-!
# Prepared statements

`prepare` resolves the names of a statement and computes its values; faults in the statement itself
are found here. What remains, a `Prepared`, only meets faults in the rows.
-/

namespace StagedStore.Memory

inductive Prepared where
  | rows (results : List Output) (rows : List (Array Storage))
  /-- `many` tells a statement that may insert several rows. -/
  | insert (area : Area) (table : Table) (many : Bool) (rows : List (List Storage))
  | update (area : Area) (table : Table) (changesKey : Bool)
      (values : Entry → Option (List (Nat × Storage)))
  | delete (area : Area) (table : Table) (condition : Entry → Bool)
  | create (area : Area) (table : Table)
  | drop (area : Area) (name : String)
  | nothing
  | begin
  | commit
  | rollback

/-! ## New tables -/

/-- How many columns a table may have. -/
def maxColumns : Nat := 2000

/-- Names that start so are reserved. -/
def reservedStart : List Char := ['s', 'q', 'l', 'i', 't', 'e', '_']

def checkTableName (name : String) : Except Fault Unit :=
  if reservedStart.isPrefixOf (foldName name).toList then .error (.reservedName name) else .ok ()

/-- How a check is called: by the name or text it starts with, else by its own text. -/
def checkName (e : Sql.Expr) : String :=
  let text := e.render
  match text.toList with
  | q :: r =>
    if q = '"' || q = '\'' then ((Quoted.read? q r).map fun (n, _) => String.ofList n).getD text
    else text
  | [] => text

/-- The first column whose name repeats that of a column before it, or that is one too many. -/
def columnFault? (table : String) (before : List String) : List Sql.ColumnDef → Option Fault
  | [] => none
  | c :: r =>
    if maxColumns ≤ before.length then some (.tooManyColumns table)
    else if before.contains (foldName c.name.name) then some (.duplicateColumn c.name.name)
    else columnFault? table (foldName c.name.name :: before) r

/-- Take a constraint of the column at a position into a table. -/
def addConstraint (i : Nat) (c : Sql.ColumnDef) (t : Table) : Sql.ColumnConstraint → Table
  | .primaryKey generated =>
    if foldName c.type = "integer" then { t with key := some i, autoIncrement := generated }
    else { t with unique := i :: t.unique }
  | .unique => if t.unique.contains i then t else { t with unique := i :: t.unique }
  | .references p pc deferred =>
    { t with references := t.references ++ [⟨i, p.name, pc.name, deferred⟩] }
  | .notNull | .check _ => t

def isNotNull : Sql.ColumnConstraint → Bool
  | .notNull => true
  | _ => false

/-- The column that a definition declares. -/
def columnOf (c : Sql.ColumnDef) : Column :=
  ⟨c.name.name, .ofType c.type, c.constraints.any isNotNull⟩

/-- The empty table that column definitions declare, without its checks. -/
def tableOf (name : String) (columns : List Sql.ColumnDef) : Table :=
  let bare : Table := ⟨name, columns.map columnOf, none, false, [], [], [], 0, []⟩
  columns.zipIdx.foldl (fun t (c, i) => c.constraints.foldl (addConstraint i c) t) bare

/-- The condition of a check. -/
def condition? : Sql.ColumnConstraint → Option Sql.Expr
  | .check e => some e
  | _ => none

/-- The checks that column definitions declare. -/
def checksOf (ctx : Context) (t : Table) (columns : List Sql.ColumnDef) :
    Except Fault (List Check) := do
  let r := ctx.resolver (t.slots t.name)
  let conditions := columns.flatMap fun c => c.constraints.filterMap condition?
  conditions.mapM fun e => return ⟨checkName e, (← r.resolve e).term⟩

/-- The area and the name that a table is created under. -/
def newName (i : Identifier) : Except Fault (Area × String) :=
  match i.parts with
  | [p] => .ok (.main, p.name)
  | [q, p] =>
    match Catalog.areaOf? q.name with
    | some a => .ok (a, p.name)
    | none => .error (.unknownDatabase q.name)
  | _ => .error .malformed

def prepareCreate (ctx : Context) (unlessExists : Bool) (i : Identifier)
    (columns : List Sql.ColumnDef) : Except Fault Prepared := do
  let (a, name) ← newName i
  checkTableName name
  match ctx.catalog.findIn? a name with
  | some _ => if unlessExists then return .nothing else throw (.tableExists name)
  | none =>
    if let some f := columnFault? name [] columns then throw f
    let t := tableOf name columns
    return .create a { t with checks := ← checksOf ctx t columns }

/-- The affinity of a column that is filled from a result. -/
def storedAffinity : Affinity → Affinity
  | .none => .blob
  | f => f

/-- Result names made distinct by a number behind those that repeat an earlier one. -/
def distinctNames (before : List String) : List String → List String
  | [] => []
  | n :: r =>
    let n' := if before.contains (foldName n) then
        n ++ ":" ++ toString (before.count (foldName n))
      else n
    n' :: distinctNames (foldName n :: before) r

/-- A table that holds the rows of a result under the keys 1, 2 and so on. -/
def tableOfRows (name : String) (os : List Output) (rows : List (Array Storage)) : Table :=
  let columns := ((distinctNames [] (os.map Output.name)).zip os).map fun (n, o) =>
    (⟨n, storedAffinity o.affinity, false⟩ : Column)
  let entries := rows.foldl (fun es r =>
    (⟨(es.head?.map Entry.id).getD 0 + 1,
      (columns.zipWith (fun c v => c.affinity.store v) r.toList).toArray⟩ : Entry) :: es) []
  ⟨name, columns, none, false, [], [], [], .ofNat entries.length, entries⟩

def prepareTemporary (ctx : Context) (name : String) (q : Sql.Select) : Except Fault Prepared := do
  checkTableName name
  if (ctx.catalog.findIn? .temp name).isSome then throw (.tableExists name)
  let (os, rows) ← evalSelect ctx q
  return .create .temp (tableOfRows name os rows)

def prepareDrop (ctx : Context) (ifExists : Bool) (i : Identifier) : Except Fault Prepared :=
  match ctx.catalog.find? i with
  | some (a, t) => .ok (.drop a t.name)
  | none => if ifExists then .ok .nothing else .error (.noSuchTable (Catalog.shown i))

/-! ## Changed rows -/

/-- The parents of the references from some columns must be found. -/
def checkParents (ctx : Context) (a : Area) (t : Table) (columns : Nat → Bool) :
    Except Fault Unit :=
  t.references.forM fun r => do
    if columns r.column then
      let _ ← parentOf ctx.catalog a t r

/-- The cells of a row, given some of them by position. -/
def spread (width : Nat) (positions : List Nat) (cells : List Storage) : List Storage :=
  ((positions.zip cells).foldl (fun (row : Array Storage) (i, v) => row.setIfInBounds i v)
    (.replicate width .null)).toList

/-- Rows of values must have one for each named column, or for every column when none is named. -/
def checkRows (i : Identifier) (width named : Nat) : List (List Storage) → Except Fault Unit
  | [] => .ok ()
  | row :: rest =>
    if named = 0 ∧ row.length ≠ width then
      .error (.tableValueCount (Catalog.shown i) width row.length)
    else if named ≠ 0 ∧ row.length ≠ named then .error (.valueCount row.length named)
    else if rest.any (·.length ≠ row.length) then .error .malformed
    else .ok ()

def prepareInsert (ctx : Context) (i : Identifier) (columns : List Part)
    (rows : List (List Sql.Expr)) : Except Fault Prepared := do
  let (a, t) ← ctx.catalog.find i
  let width := t.columns.length
  let positions ← columns.mapM fun c =>
    match t.columnIndex? c.name with
    | some i => .ok i
    | none => .error (.noColumnNamed (Catalog.shown i) c.name)
  let r := ctx.resolver []
  let cells ← rows.mapM fun es => return Term.evalAll #[] (← r.resolveAll es)
  checkRows i width columns.length cells
  checkParents ctx a t fun _ => true
  let cells := if columns.isEmpty then cells else cells.map (spread width positions)
  return .insert a t (decide (1 < rows.length)) cells

def prepareInsertQuery (ctx : Context) (i : Identifier) (q : Sql.Select) :
    Except Fault Prepared := do
  let (a, t) ← ctx.catalog.find i
  let (os, rows) ← evalSelect ctx q
  if os.length ≠ t.columns.length then
    throw (.tableValueCount (Catalog.shown i) t.columns.length os.length)
  checkParents ctx a t fun _ => true
  return .insert a t true (rows.map Array.toList)

/-- The position of an assigned column. -/
def assignedColumn (t : Table) (c : Part) : Except Fault Nat :=
  match t.columnIndex? c.name with
  | some i => .ok i
  | none => .error (.noSuchColumn c.name)

/-- Assignments for the rows that meet a condition. -/
def prepareUpdate (ctx : Context) (i : Identifier) (assignments : List (Part × Sql.Expr))
    (condition : Option Sql.Expr) : Except Fault Prepared := do
  let (a, t) ← ctx.catalog.find i
  let r := ctx.resolver (t.slots t.name)
  let values ← assignments.mapM fun (c, e) => do
    let e ← r.resolve e
    return (← assignedColumn t c, e.term)
  let condition ← r.resolveCondition condition
  checkParents ctx a t fun j => values.any (·.1 = j)
  return .update a t (values.any fun v => t.key = some v.1) fun e =>
    let row := Table.rowOf e
    if condition.holds row then some (values.map fun (j, v) => (j, v.eval row)) else none

/-- Assignments from the rows of another table. Where several of them meet the condition with a
row, the last one counts. -/
def prepareUpdateFrom (ctx : Context) (i : Identifier) (assignments : List (Part × Sql.Expr))
    (source : Identifier × Part) (condition : Option Sql.Expr) : Except Fault Prepared := do
  let (a, t) ← ctx.catalog.find i
  let columns ← assignments.mapM fun (c, _) => assignedColumn t c
  let s ← evalSource ctx (.table source.1 (some source.2))
  let width := s.slots.length
  let r := ctx.resolver (s.slots ++ t.slots t.name)
  let terms ← r.resolveAll (assignments.map Prod.snd)
  let condition ← r.resolveCondition condition
  checkParents ctx a t columns.contains
  let values : Std.HashMap Storage (List (Nat × Storage)) :=
    (joinRows width condition s.rows t.scan).foldl (fun m row =>
      m.insert (row[width]?.getD .null) (columns.zip (Term.evalAll row terms))) ∅
  return .update a t (columns.any fun j => t.key = some j) fun e => values[Storage.integer e.id]?

def prepareDelete (ctx : Context) (i : Identifier) (condition : Option Sql.Expr) :
    Except Fault Prepared := do
  let (a, t) ← ctx.catalog.find i
  let condition ← (ctx.resolver (t.slots t.name)).resolveCondition condition
  checkParents ctx a t fun _ => true
  return .delete a t fun e => condition.holds (Table.rowOf e)

/-- Resolve a statement. -/
def prepare (ctx : Context) : Sql.Statement → Except Fault Prepared
  | .createTable unlessExists i columns => prepareCreate ctx unlessExists i columns
  | .createTemporary n (.select q) => prepareTemporary ctx n.name q
  | .dropTable ifExists i => prepareDrop ctx ifExists i
  | .insert i columns rows => prepareInsert ctx i columns rows
  | .insertDefault i => do
    let (a, t) ← ctx.catalog.find i
    checkParents ctx a t fun _ => true
    return .insert a t false [t.columns.map fun _ => .null]
  | .insertQuery i (.select q) => prepareInsertQuery ctx i q
  | .update i assignments none condition => prepareUpdate ctx i assignments condition
  | .update i assignments (some source) condition =>
    prepareUpdateFrom ctx i assignments source condition
  | .delete i condition => prepareDelete ctx i condition
  | .select q => do
    let (os, rows) ← evalSelect ctx q
    return .rows os rows
  | .begin => .ok .begin
  | .commit => .ok .commit
  | .rollback => .ok .rollback
  | .createTemporary _ (.fragment _) | .insertQuery _ (.fragment _) | .fragment _ =>
    .error .malformed

end StagedStore.Memory
