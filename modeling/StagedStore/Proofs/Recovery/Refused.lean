import StagedStore.Proofs.Recovery.Memory
import StagedStore.Proofs.Recovery.Store
import StagedStore.Proofs.Store.OneRow

/-!
# Refused writes

Entities get what the database computed only after the commit, and each may refuse it.  So an
insertion or a batched update that ends in an error has either left everything as it was, or stored
the whole batch and then met an entity that refuses a value.
-/

namespace StagedStore

variable {ε δ τ : Type}

/-- A write that ends in an error has stored nothing and written to no entity, or it has stored the
whole batch.  In that case the error is the one that an entity raised when a value was written back
to it; the writes before that one have been made in order, and no other. -/
theorem failed_writes_store_nothing_or_all [Entity ε] [Database δ] (R : Recovery δ τ) (s : Schema)
    (t : StagingTable) (p : Pool δ) :
    (∀ (items : List ε) b e p', Pool.insert s items p = (b, p') → b.result = .error e →
      e.isReturned = true →
        (Untouched R.toSnapshots p p' ∧ b.items = items) ∨
        ∃ i lasts, Inserts.ofItems s items = .ok i ∧
          outcome (Pool.transaction (i.insertAll s)) p = (.ok lasts, p') ∧
          Refused (keyWrites s.primaryKey.name 0 lasts) items b.items e) ∧
    (∀ (sets : List (ChangeSet ε)) b e p', Pool.update s t sets p = (b, p') →
      b.result = .error e →
        (Untouched R.toSnapshots p p' ∧ b.items = sets.map ChangeSet.item) ∨
        ∃ plan modified backs, Plan.compile s sets = .ok plan ∧
          outcome (Pool.transaction (plan.apply s t)) p = (.ok (modified, backs), p') ∧
          Refused (backs.flatMap WriteBack.writes) (sets.map ChangeSet.item) b.items e) :=
  ⟨fun _ _ _ _ h he hret => insert_error_cases h he hret,
    fun _ _ _ _ h he => update_error_cases h he⟩

/-! ## Entities that know few fields -/

namespace Refusal

def schema : Schema where
  table := .ofPart (.bare "t")
  fields := [⟨"id", .integer, false⟩, ⟨"x", .integer, true⟩]
  primaryKey := ⟨"id", .integer, false⟩
  autoIncrement := true
  names_nodup := ThreeRows.schema.names_nodup
  names_valid := ThreeRows.schema.names_valid
  key_mem := ThreeRows.schema.key_mem
  key_required := Eq.refl false
  generated_integer := fun _ => Eq.refl FieldKind.integer

/-- The table of the schema with some rows. -/
def table (entries : List Memory.Entry) (sequence : Int64) : Memory.Table :=
  ⟨"t", [⟨"id", .integer, true⟩, ⟨"x", .integer, false⟩], some 0, true, [], [], [], sequence, entries⟩

def pool : Pool MemoryDatabase :=
  .ofDatabase ⟨⟨[table [] 0], []⟩, none, 0, 0⟩ none

/-- An entity that takes every field. -/
def opened : Record := .ofList [("x", .integer 5)]

/-- An entity that knows its value, but no key. -/
def closed : Record := { fields := [("x", .integer 7)], only := some ["x"] }

/-- What the second entity raises when its key is written to it. -/
def refusal : Error := .validation (.unknownEntityField "id")

/-- The first entity with its key. -/
def keyed : Record := .ofList [("id", .integer 1), ("x", .integer 5)]

/-- The rows of both entities. -/
def rows : List Memory.Entry :=
  [⟨2, #[.integer 2, .integer 7]⟩, ⟨1, #[.integer 1, .integer 5]⟩]

theorem insert_result : (Pool.insert schema [opened, closed] pool).1.result = .error refusal := by
  with_unfolding_all rfl

theorem insert_items : (Pool.insert schema [opened, closed] pool).1.items = [keyed, closed] := by
  with_unfolding_all rfl

theorem insert_tables : (Pool.insert schema [opened, closed] pool).2.database.map
    MemoryDatabase.catalog = some ⟨[table rows 2], []⟩ := by
  with_unfolding_all rfl

theorem insert_touches : ¬Untouched MemoryDatabase.recovery.toSnapshots pool
    (Pool.insert schema [opened, closed] pool).2 := by
  rintro ⟨htables, -⟩
  have hsame : some (⟨[table rows 2], []⟩ : Memory.Catalog) = some ⟨[table [] 0], []⟩ :=
    insert_tables.symm.trans htables
  simp [table, rows] at hsame

/-- An entity that knows only its key, and a change to a value of its row. -/
def raising : ChangeSet Record :=
  ⟨.integer 1, ThreeRows.raise, { fields := [("id", .integer 1)], only := some ["id"] }⟩

theorem compile_raising : Plan.compile ThreeRows.schema [raising] = .ok FirstRow.batch := by
  have hrow : PlanRow.Of ThreeRows.schema raising
      ⟨.integer 1, [("x", .increment (.integer 10))]⟩ := ⟨rfl, .cons ⟨rfl, _, rfl, rfl⟩ .nil⟩
  rw [Plan.compile_one hrow]
  with_unfolding_all rfl

/-- The row is changed before the entity refuses the new value. -/
theorem update_refused : ∃ b p', Pool.update ThreeRows.schema ThreeRows.staging [raising]
      ThreeRows.pool = (b, p') ∧
    b.result = .error (.validation (.unknownEntityField "x")) ∧
    ¬Untouched MemoryDatabase.recovery.toSnapshots ThreeRows.pool p' := by
  obtain ⟨p, hrun, hp⟩ := Pool.transaction_eq (p := ThreeRows.pool) rfl rfl FirstRow.runs_batch rfl rfl
  have hrun : (Pool.transaction (FirstRow.batch.apply ThreeRows.schema ThreeRows.staging)).run
      ThreeRows.pool = _ := hrun
  unfold Pool.update
  rw [compile_raising]
  dsimp only
  rw [if_neg (by decide), hrun]
  refine ⟨_, _, rfl, rfl, ?_⟩
  rintro ⟨htables, -⟩
  rw [hp] at htables
  have hrows : some FirstRow.raised = some ThreeRows.entries :=
    congrArg (Option.map fun c : Memory.Catalog => c.main.flatMap Memory.Table.entries) htables
  exact absurd hrows (by decide)

end Refusal

open Refusal in
/-- The row of the refused entity stays, and the entity before it has its key. -/
theorem refused_keys_leave_rows :
    (Pool.insert schema [opened, closed] pool).1.result = .error refusal ∧
      ¬Untouched MemoryDatabase.recovery.toSnapshots pool
        (Pool.insert schema [opened, closed] pool).2 ∧
      (Pool.insert schema [opened, closed] pool).1.items ≠ [opened, closed] := by
  refine ⟨insert_result, insert_touches, ?_⟩
  rw [insert_items]
  exact fun h => absurd (congrArg (List.map fun item => item.fields.length) h) (by decide)

open Refusal in
/-- Two entities of which the second refuses its key, and an entity that refuses a changed value. -/
theorem failed_writes_store_nothing_or_all_of_refused :
    (∃ i lasts, Inserts.ofItems schema [opened, closed] = .ok i ∧
      outcome (Pool.transaction (i.insertAll schema)) pool =
        (.ok lasts, (Pool.insert schema [opened, closed] pool).2) ∧
      Refused (keyWrites "id" 0 lasts) [opened, closed] [keyed, closed] refusal) ∧
    ∃ b p' plan modified backs,
      Pool.update ThreeRows.schema ThreeRows.staging [raising] ThreeRows.pool = (b, p') ∧
      Plan.compile ThreeRows.schema [raising] = .ok plan ∧
      outcome (Pool.transaction (plan.apply ThreeRows.schema ThreeRows.staging)) ThreeRows.pool =
        (.ok (modified, backs), p') ∧
      Refused (backs.flatMap WriteBack.writes) [raising.item] b.items
        (.validation (.unknownEntityField "x")) := by
  constructor
  · have main := (failed_writes_store_nothing_or_all (ε := Record) MemoryDatabase.recovery schema
      ⟨"stage"⟩ pool).1 [opened, closed] (Pool.insert schema [opened, closed] pool).1 refusal
      (Pool.insert schema [opened, closed] pool).2 rfl insert_result rfl
    rw [insert_items] at main
    exact main.resolve_left fun h => insert_touches h.1
  · obtain ⟨b, p', hupdate, hresult, htouched⟩ := update_refused
    have main := (failed_writes_store_nothing_or_all (ε := Record) MemoryDatabase.recovery
      ThreeRows.schema ThreeRows.staging ThreeRows.pool).2 [raising] b _ p' hupdate hresult
    obtain ⟨plan, modified, backs, h⟩ := main.resolve_left fun h => htouched h.1
    exact ⟨b, p', plan, modified, backs, hupdate, h⟩

end StagedStore
