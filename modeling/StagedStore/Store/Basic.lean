import StagedStore.Config
import StagedStore.Memory.Basic
import StagedStore.Schema.Definition
import StagedStore.Store.Patch
import StagedStore.Store.Read
import StagedStore.Store.Update

/-!
# Stores

A `Store` is a pool over one database together with its configuration: what a program opens,
creates tables in, writes to and asks.
-/

namespace StagedStore

structure Store (δ : Type) where
  pool : Pool δ
  config : Config
  staging : StagingTable

namespace Store

variable {δ ε α : Type}

/-- A store over an open database. -/
def ofDatabase (d : δ) (c : Config) : Except Error (Store δ) := do
  let staging ← c.staging
  let pool := (Pool.ofDatabase d c.maxSqlLogLength).note (.opened staging.name)
  return ⟨pool, c, staging⟩

/-- The name of the kind of database. -/
def name (_ : Store δ) : String := "sqlite"

/-- Do something to the pool. -/
def onPool (f : Pool δ → α × Pool δ) (s : Store δ) : α × Store δ :=
  let (a, p) := f s.pool
  (a, { s with pool := p })

/-- An action on the pool. -/
def act (f : Action (Pool δ) α) : Action (Store δ) α :=
  onPool f.run

def acquire : Action (Store δ) Lease :=
  act Pool.acquire

def release (l : Lease) (s : Store δ) : Lease × Store δ :=
  onPool (Pool.release l) s

/-- Close the database, unless a lease is out. -/
def disconnect : Action (Store δ) Unit := act fun p =>
  if p.active = 0 then (.ok (), p.close.note .closed)
  else (.error (.activeConnections p.active), p.note (.disconnectRefused p.active))

variable [Entity ε] [Database δ]

/-- Run an action in a transaction, under a lease that the caller holds. -/
def transaction (f : Action (Session δ) α) : Action (Store δ) α :=
  act (Pool.transaction f)

/-- Run a script in a transaction. -/
def execute (script : Sql.Script) : Action (Store δ) Unit :=
  act (Pool.withLease (Connection.exec script))

/-- Create the table of a schema unless it exists. -/
def createTable (schema : Schema) : Action (Store δ) Unit :=
  execute ⟨[schema.createTable], false⟩

def insert (schema : Schema) (items : List ε) (s : Store δ) : Batch ε Nat × Store δ :=
  onPool (Pool.insert schema items) s

def populate (schema : Schema) (items : List ε) (s : Store δ) : Batch ε Unit × Store δ :=
  onPool (Pool.populate schema items) s

def update (schema : Schema) (sets : List (ChangeSet ε)) (s : Store δ) :
    Batch ε Nat × Store δ :=
  onPool (Pool.update schema s.staging sets) s

def remove (schema : Schema) (items : List ε) : Action (Store δ) Deleted := fun s =>
  onPool (Pool.remove schema s.staging items).run s

def patch (schema : Schema) (f : Filter) (c : Changes) (returning : List String) :
    Action (Store δ) Patched := fun s =>
  onPool (Pool.patch schema s.staging f c returning).run s

def delete (schema : Schema) (f : Filter) : Action (Store δ) Deleted := fun s =>
  onPool (Pool.delete schema s.staging f).run s

def count (schema : Schema) (f : Filter) : Action (Store δ) UInt64 :=
  act (Pool.count schema f)

def find (schema : Schema) (f : Filter) : Action (Store δ) (List Record) :=
  act (Pool.find schema f)

/-- A store over a new database in memory. -/
def inMemory (c : Config) : Except Error (Store MemoryDatabase) :=
  ofDatabase .empty c

/-- A store at a path. There are no files to open, so every path but that of memory fails. -/
def openPath (path : String) (c : Config) : Except Error (Store MemoryDatabase) := do
  let _ ← c.staging
  if path = ":memory:" then inMemory c
  else throw (.connection (path ++ ": unable to open database file: " ++ path))

end Store

end StagedStore
