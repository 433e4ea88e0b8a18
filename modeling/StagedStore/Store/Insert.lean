import StagedStore.Chunks
import StagedStore.Pool
import StagedStore.Schema.Codec
import StagedStore.Store.GeneratedKeys
import StagedStore.Update.Plan

/-!
# Inserting entities

Entities are inserted in one transaction, as many to a statement as its parameters allow. Where the
database generates the keys they are written back to the entities after the commit.
-/

namespace StagedStore

/-- What a write did: the entities as they are afterwards, and its result. -/
structure Batch (ε α : Type) where
  items : List ε
  result : Except Error α

/-- Entities in storage form, ready to be inserted. -/
structure Inserts where
  /-- The database generates the keys. -/
  generated : Bool
  /-- The fields that are written. -/
  fields : List Field
  rows : List (List Storage)

namespace Inserts

variable {ε σ δ : Type}

/-- Whether the database generates the keys of some entities: if no entity has one. Either all
have a key or none. -/
def generates [Entity ε] (s : Schema) (items : List ε) : Except Error Bool :=
  match s.generatedKey? with
  | none => .ok false
  | some k =>
    let missing := items.countP fun item => (Entity.fieldOrNull item k.name).isNull
    if missing ≠ 0 ∧ missing ≠ items.length then .error (.validation (.mixedKeys k.name))
    else .ok (decide (missing = items.length))

/-- The storage form of some entities. -/
def ofItems [Entity ε] (s : Schema) (items : List ε) : Except Error Inserts := do
  let generated ← generates s items
  let fields := s.fields.filter fun f => !(generated && f.name = s.primaryKey.name)
  let rows ← items.mapM fun item =>
    fields.mapM fun f => f.encode (Entity.fieldOrNull item f.name)
  return ⟨generated, fields, rows⟩

/-- How many rows fit into one statement. -/
def chunkSize (i : Inserts) : Nat :=
  max (Plan.maxParams / max i.fields.length 1) 1

theorem chunkSize_ne_zero (i : Inserts) : i.chunkSize ≠ 0 := by
  unfold chunkSize
  omega

theorem chunkSize_le (i : Inserts) : i.chunkSize ≤ Plan.maxParams :=
  Nat.max_le.2 ⟨Nat.div_le_self _ _, by decide⟩

/-- Inserts some rows, every cell bound. -/
def statement (s : Schema) (fields : List Field) (rows : List (List Storage)) :
    Sql.Statement × Sql.Params :=
  let (tuples, params) := (rows.mapM (·.mapM Sql.bind) : Sql.Binding _).run #[]
  (.insert s.table.allQuoted (fields.map fun f => Part.quoted f.name) tuples, params)

variable [Connection σ]

open Connection

/-- Insert some rows with one statement, or with one for each where only the key is stored. -/
def insertRows (s : Schema) (fields : List Field) (rows : List (List Storage)) : Action σ Unit :=
  if fields.isEmpty then
    rows.forM fun _ => do
      let _ ← run (.insertDefault s.table.allQuoted) #[]
  else do
    let (statement, params) := statement s fields rows
    let _ ← run statement params

/-- Insert the rows of a chunk. Gives how many there are and, where keys are generated, the last
one. -/
def insertChunk (i : Inserts) (s : Schema) (rows : List (List Storage)) :
    Action σ (Option (Nat × Int64)) := do
  insertRows s i.fields rows
  if i.generated then return some (rows.length, ← lastInsertedKey) else return none

/-- Insert all rows. -/
def insertAll (i : Inserts) (s : Schema) : Action σ (List (Nat × Int64)) :=
  return (← (chunksOf i.chunkSize i.rows).mapM (i.insertChunk s)).filterMap id

end Inserts

/-- Write generated keys back to entities, chunk by chunk, from the last key of each chunk. A
refusal ends it. -/
def assignGenerated {ε : Type} [Entity ε] (key : String) (items : List ε) :
    List (Nat × Int64) → List ε × Except Error Unit
  | [] => (items, .ok ())
  | (count, last) :: rest =>
    match generatedKeys last count with
    | .error e => (items, .error e)
    | .ok keys =>
      match assignKeys key (items.take count) keys with
      | (front, .error e) => (front ++ items.drop count, .error e)
      | (front, .ok ()) =>
        let (back, r) := assignGenerated key (items.drop count) rest
        (front ++ back, r)

namespace Pool

variable {ε δ : Type} [Entity ε] [Database δ]

/-- Insert entities, under a lease that the caller holds. Gives the count of them. -/
def insert (s : Schema) (items : List ε) (p : Pool δ) : Batch ε Nat × Pool δ :=
  if items.isEmpty then (⟨items, .ok 0⟩, p)
  else
    match Inserts.ofItems s items with
    | .error e => (⟨items, .error e⟩, p)
    | .ok i =>
      match (transaction (i.insertAll s)).run p with
      | (.error e, p) => (⟨items, .error e⟩, p)
      | (.ok lasts, p) =>
        match assignGenerated s.primaryKey.name items lasts with
        | (items, .error e) => (⟨items, .error e⟩, p)
        | (items, .ok ()) =>
          (⟨items, .ok items.length⟩, p.note (.rowsInserted s.table.name items.length))

/-- Write generated keys back to entities that the last insertion on the database created. -/
def populate (s : Schema) (items : List ε) (p : Pool δ) : Batch ε Unit × Pool δ :=
  if !s.autoIncrement || items.isEmpty then (⟨items, .ok ()⟩, p)
  else
    match (transaction Connection.lastInsertedKey).run p with
    | (.error e, p) => (⟨items, .error e⟩, p)
    | (.ok last, p) =>
      let (items, r) := assignGenerated s.primaryKey.name items [(items.length, last)]
      (⟨items, r⟩, p)

end Pool

end StagedStore
