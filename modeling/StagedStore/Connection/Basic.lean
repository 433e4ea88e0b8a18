import StagedStore.Event
import StagedStore.Row
import StagedStore.Sql.Statement

/-!
# Connections

A `Connection` runs SQL. Everything that the library does to a database inside a transaction is an
`Action` on a connection: it may fail, and what it did to the connection up to then stays done.
-/

namespace StagedStore

/-- A step on a state that may fail; the state is kept either way. -/
abbrev Action (σ : Type) := ExceptT Error (StateM σ)

/-- An action that fails or succeeds without touching the state. -/
def Action.ofExcept {σ α : Type} (r : Except Error α) : Action σ α :=
  fun s => (r, s)

class Connection (σ : Type) where
  /-- Run a script. -/
  exec : Sql.Script → Action σ Unit
  /-- Run a statement and give the count of rows it affected. -/
  run : Sql.Statement → Sql.Params → Action σ Nat
  /-- Run a query and give all its rows. -/
  queryAll : Sql.Statement → Sql.Params → Action σ (List Row)
  /-- The count of rows that the statement run last affected. -/
  changes : σ → Nat
  /-- Report an event. -/
  note : Event → σ → σ

namespace Connection

variable {σ : Type} [Connection σ]

/-- The first row of a query that must have one. -/
def querySingle (q : Sql.Statement) (params : Sql.Params) : Action σ Row := do
  match ← queryAll q params with
  | r :: _ => return r
  | [] => throw (.noRow q.render)

/-- The count of rows that the statement run last affected. -/
def lastChanges : Action σ Nat :=
  return changes (← get)

/-- Report an event. -/
def report (e : Event) : Action σ Unit :=
  modify (note e)

/-- Asks for the key of the row inserted last. -/
def lastInsertedKeyQuery : Sql.Statement :=
  .select (.mk [.expr (.call "last_insert_rowid" []) (some (.bare "rowid"))] none none [] none)

/-- The key of the row inserted last. -/
def lastInsertedKey : Action σ Int64 := do
  let r ← querySingle lastInsertedKeyQuery #[]
  Action.ofExcept (r.getInteger "rowid")

end Connection

end StagedStore
