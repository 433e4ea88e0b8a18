import StagedStore.Connection.Session

/-!
# Pools

A `Pool` owns one database and hands out leases on it. Only the count of leases that are still out
is kept; the database can be closed once it is zero.
-/

namespace StagedStore

structure Pool (δ : Type) where
  /-- The database, until it is closed. -/
  database : Option δ
  /-- How many leases are out. -/
  active : Nat
  /-- How many bytes of a statement are logged, if not all. -/
  logLimit : Option Nat
  /-- What was reported, the last first. -/
  events : List Event

/-- The right to use the database of a pool, until it is released. -/
structure Lease where
  released : Bool
deriving DecidableEq, Repr

namespace Pool

variable {δ α : Type}

def ofDatabase (d : δ) (logLimit : Option Nat) : Pool δ :=
  ⟨some d, 0, logLimit, []⟩

def isClosed (p : Pool δ) : Bool :=
  p.database.isNone

def note (e : Event) (p : Pool δ) : Pool δ :=
  { p with events := e :: p.events }

/-- Report an event. -/
def report (e : Event) : Action (Pool δ) Unit :=
  modify (note e)

/-- Hand out a lease, unless the pool is closed. -/
def acquire : Action (Pool δ) Lease := fun p =>
  if p.isClosed then (.error .poolClosed, p)
  else (.ok ⟨false⟩, { p with active := p.active + 1 }.note (.acquired (p.active + 1)))

/-- Take a lease back. A lease that was released before counts no more. -/
def release (l : Lease) (p : Pool δ) : Lease × Pool δ :=
  if l.released then (l, p)
  else (⟨true⟩, { p with active := p.active - 1 }.note (.released (p.active - 1)))

/-- Close the database. Who calls it has seen that no lease is out. -/
def close (p : Pool δ) : Pool δ :=
  { p with database := none }

variable [Database δ]

/-- Undo the open transaction after an error. If that fails too, both reasons are told. -/
def undo (e : Error) (d : δ) : Error × δ :=
  match (Database.rollback (δ := δ)).run d with
  | (.ok (), d) => (e, d)
  | (.error f, d) =>
    (.other (e.message ++ " (rollback failed: " ++ f.message ++ ")"), d)

/-- Keep what an action on a database did; a transaction that could not be committed is undone if
it is still open. -/
def settle (a : α) (d : δ) : Except Error α × δ :=
  match (Database.commit (δ := δ)).run d with
  | (.ok (), d) => (.ok a, d)
  | (.error f, d) =>
    if Database.inTransaction d then
      (.error f.toError, ((Database.rollback (δ := δ)).run d).2)
    else (.error f.toError, d)

/-- Run an action in a transaction of a database: keep what it did if it succeeds, else undo it. -/
def transact (logLimit : Option Nat) (f : Action (Session δ) α) (d : δ) :
    Except Error α × δ × List Event :=
  match (Database.begin (δ := δ)).run d with
  | (.error e, d) => (.error e.toError, d, [])
  | (.ok (), d) =>
    match f.run (Session.start d logLimit) with
    | (.ok a, s) =>
      let (r, d) := settle a s.database
      (r, d, s.events)
    | (.error e, s) =>
      let (e, d) := undo e s.database
      (.error e, d, s.events)

/-- Run an action in a transaction. -/
def transaction (f : Action (Session δ) α) : Action (Pool δ) α := fun p =>
  match p.database with
  | none => (.error .poolClosed, p)
  | some d =>
    let (r, d, events) := transact p.logLimit f d
    (r, { p with database := some d, events := events ++ p.events })

/-- Run an action in a transaction under a lease of its own, which is released in any case. -/
def withLease (f : Action (Session δ) α) : Action (Pool δ) α := fun p =>
  match acquire.run p with
  | (.error e, p) => (.error e, p)
  | (.ok l, p) =>
    let (r, p) := (transaction f).run p
    (r, (release l p).2)

end Pool

end StagedStore
