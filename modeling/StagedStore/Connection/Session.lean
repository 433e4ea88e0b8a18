import StagedStore.Connection.Basic
import StagedStore.Database.Basic

/-!
# Sessions

A `Session` is a database as a connection, for the time of one transaction. It logs every
statement and keeps count of the rows that the last one affected.
-/

namespace StagedStore

structure Session (δ : Type) where
  database : δ
  changes : Nat
  /-- How many bytes of a statement are logged, if not all. -/
  logLimit : Option Nat
  /-- What was reported, the last first. -/
  events : List Event

/-- The longest run of characters, from the front, that fits into some bytes. -/
def fitting (bytes : Nat) : List Char → List Char
  | [] => []
  | c :: r => if c.utf8Size ≤ bytes then c :: fitting (bytes - c.utf8Size) r else []

/-- A statement as it is logged: cut off behind the last character that fits. -/
def logText (limit : Option Nat) (sql : String) : String :=
  match limit with
  | none => sql
  | some n =>
    if sql.utf8ByteSize ≤ n then sql else String.ofList (fitting n sql.toList) ++ "..."

namespace Session

variable {δ α : Type}

def start (database : δ) (logLimit : Option Nat) : Session δ :=
  ⟨database, 0, logLimit, []⟩

def note (e : Event) (s : Session δ) : Session δ :=
  { s with events := e :: s.events }

/-- Run a step of the database under a log of its text. -/
def observe (sql : String) (step : Step δ α) : Action (Session δ) α := fun s =>
  let s := s.note (.executing (logText s.logLimit sql))
  match step.run s.database with
  | (.ok a, d) => (.ok a, { s with database := d })
  | (.error f, d) => (.error f.toError, { s with database := d }.note (.statementFailed sql))

/-- Keep the count of affected rows. -/
def setChanges (n : Nat) : Action (Session δ) Unit :=
  modify fun s => { s with changes := n }

instance [Database δ] : Connection (Session δ) where
  exec script := do
    observe script.render (Database.script script)
    setChanges (Database.changes (← get).database)
  run statement params := do
    let n ← observe statement.render (Database.run statement params)
    setChanges n
    return n
  queryAll statement params := observe statement.render (Database.query statement params)
  changes s := s.changes
  note := note

end Session

end StagedStore
