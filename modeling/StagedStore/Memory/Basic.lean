import StagedStore.Database.Basic
import StagedStore.Memory.Prepared
import StagedStore.Sql.Leaves
import StagedStore.Sql.Reader

/-!
# Databases in memory

`MemoryDatabase` is a relational database kept in memory. A transaction remembers the tables as
they were; rolling back puts them back, and a statement that fails leaves them as it found them.
-/

namespace StagedStore

open Memory

structure MemoryDatabase where
  catalog : Catalog
  /-- The tables at the start of the open transaction. -/
  saved : Option Catalog
  /-- The key inserted last in any table. -/
  lastKey : Int64
  /-- The count of rows that the statement last to insert, update or delete affected. -/
  changes : Nat

namespace MemoryDatabase

def empty : MemoryDatabase := ⟨.empty, none, 0, 0⟩

def inTransaction (m : MemoryDatabase) : Bool :=
  m.saved.isSome

/-- Whether a statement may end with these tables. Outside of a transaction it commits. -/
def accepts (m : MemoryDatabase) (c : Catalog) : Bool :=
  c.consistent false && (m.inTransaction || c.consistent true)

/-- Finish a statement that changed rows. -/
def finish (m : MemoryDatabase) (a : Area) (t : Table) (count : Nat) :
    Except Fault Unit × MemoryDatabase :=
  let c := m.catalog.replace a t
  if m.accepts c then (.ok (), { m with catalog := c, changes := count })
  else (.error .danglingReference, { m with changes := 0 })

/-- Give up a statement that changes rows. -/
def fail (m : MemoryDatabase) (f : Fault) : Except Fault Unit × MemoryDatabase :=
  (.error f, { m with changes := 0 })

/-- Whether some rows of a table may be refused while others of the same statement are not. -/
def mayRefuse (t : Table) : Bool :=
  (t.columns.zipIdx.any fun (c, i) => c.notNull && decide (t.key ≠ some i)) || !t.unique.isEmpty ||
    !t.checks.isEmpty || !t.references.isEmpty

/-- Insert rows. A statement that runs out of keys ends the whole transaction, unless it can undo
itself alone. -/
def insert (m : MemoryDatabase) (a : Area) (t : Table) (many : Bool) (rows : List (List Storage)) :
    Except Fault Unit × MemoryDatabase :=
  let (s, fault) := (Insertion.start t).insertAll rows
  let m := { m with lastKey := s.last.getD m.lastKey }
  match fault with
  | none => m.finish a s.table rows.length
  | some .full =>
    if many && mayRefuse t then m.fail .full
    else { m with catalog := m.saved.getD m.catalog, saved := none }.fail .full
  | some f => m.fail f

/-- Run a prepared statement that gives no rows. -/
def perform (m : MemoryDatabase) : Prepared → Except Fault Unit × MemoryDatabase
  | .rows _ _ => (.ok (), m)
  | .insert a t many rows => m.insert a t many rows
  | .update a t changesKey values =>
    match Revision.updateAll t changesKey values with
    | .ok (t, n) => m.finish a t n
    | .error f => m.fail f
  | .delete a t condition =>
    let kept := t.entries.filter fun e => !condition e
    m.finish a { t with entries := kept } (t.entries.length - kept.length)
  | .create a t => (.ok (), { m with catalog := m.catalog.add a t })
  | .drop a n => (.ok (), { m with catalog := m.catalog.drop a n })
  | .nothing => (.ok (), m)
  | .begin =>
    if m.inTransaction then (.error .alreadyInTransaction, m)
    else (.ok (), { m with saved := some m.catalog })
  | .commit =>
    if !m.inTransaction then (.error .nothingToCommit, m)
    else if m.catalog.consistent true then (.ok (), { m with saved := none })
    else (.error .danglingReference, m)
  | .rollback =>
    match m.saved with
    | none => (.error .nothingToRollBack, m)
    | some c => (.ok (), { m with catalog := c, saved := none })

/-- What queries depend on. -/
def context (m : MemoryDatabase) (params : Sql.Params) : Context :=
  ⟨m.catalog, params, m.lastKey⟩

/-- Run a statement. Parameters without a value are null. -/
def execute (m : MemoryDatabase) (s : Sql.Statement) (params : Sql.Params) :
    Except Fault Prepared × MemoryDatabase :=
  match prepare (m.context params) s with
  | .error f => (.error f, m)
  | .ok p =>
    match m.perform p with
    | (.ok (), m) => (.ok p, m)
    | (.error f, m) => (.error f, m)

/-- The number of values that a statement with `needed` parameters is found to have been given:
they are counted up to the first that is too many. -/
def countGiven (params : Sql.Params) (needed : Nat) : Nat :=
  min params.size (needed + 1)

/-- Run a statement that must be given as many values as it has parameters. -/
def executeBound (m : MemoryDatabase) (s : Sql.Statement) (params : Sql.Params) :
    Except Fault Prepared × MemoryDatabase :=
  match prepare (m.context params) s with
  | .error f => (.error f, m)
  | .ok p =>
    if countGiven params s.maxParam ≠ s.maxParam then
      (.error (.parameterCount (countGiven params s.maxParam) s.maxParam), m)
    else
      match m.perform p with
      | (.ok (), m) => (.ok p, m)
      | (.error f, m) => (.error f, m)

/-- The statements that a statement stands for: itself if its tree is all there is to it, none if
it ends in the middle of a text, else those that its text reads as. -/
def readings (s : Sql.Statement) : List (Option Sql.Statement) :=
  if s.isPlain then [some s]
  else if s.endsEarly then [none]
  else Sql.readScript s.render

/-- Run statements until one fails. -/
def executeAll (m : MemoryDatabase) : List (Option Sql.Statement) →
    Except Fault Unit × MemoryDatabase
  | [] => (.ok (), m)
  | none :: _ => (.error .malformed, m)
  | some s :: r =>
    match m.execute s #[] with
    | (.ok _, m) => executeAll m r
    | (.error f, m) => (.error f, m)

/-- Run the first statement that a statement stands for. -/
def executeFirst (m : MemoryDatabase) (s : Sql.Statement) (params : Sql.Params) :
    Except Fault Prepared × MemoryDatabase :=
  match readings s with
  | some s :: _ => m.executeBound s params
  | _ => (.error .malformed, m)

end MemoryDatabase

instance : Database MemoryDatabase where
  script s := fun m => m.executeAll (s.statements.flatMap MemoryDatabase.readings)
  run s params := fun m =>
    match m.executeFirst s params with
    | (.ok (.rows _ (_ :: _)), m) => (.error .gaveRows, m)
    | (.ok _, m) => (.ok m.changes, m)
    | (.error f, m) => (.error f, m)
  query s params := fun m =>
    match m.executeFirst s params with
    | (.ok (.rows os rows), m) => (.ok (resultRows os rows), m)
    | (.ok _, m) => (.ok [], m)
    | (.error f, m) => (.error f, m)
  changes m := m.changes
  inTransaction m := m.inTransaction
  begin := fun m => m.perform .begin
  commit := fun m => m.perform .commit
  rollback := fun m => m.perform .rollback

namespace MemoryDatabase

theorem run_run (m : MemoryDatabase) (s : Sql.Statement) (params : Sql.Params) :
    (Database.run s params : Step MemoryDatabase Nat).run m =
      match m.executeFirst s params with
      | (.ok (.rows _ (_ :: _)), m) => (.error .gaveRows, m)
      | (.ok _, m) => (.ok m.changes, m)
      | (.error f, m) => (.error f, m) :=
  rfl

theorem run_query (m : MemoryDatabase) (s : Sql.Statement) (params : Sql.Params) :
    (Database.query s params : Step MemoryDatabase (List Row)).run m =
      match m.executeFirst s params with
      | (.ok (.rows os rows), m) => (.ok (resultRows os rows), m)
      | (.ok _, m) => (.ok [], m)
      | (.error f, m) => (.error f, m) :=
  rfl

end MemoryDatabase

end StagedStore
