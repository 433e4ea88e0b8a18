import StagedStore.Proofs.Recovery.Memory
import StagedStore.Proofs.Recovery.Store

/-!
# Errors leave no trace

Patching, deleting, inserting and updating, in any pool whose database restores all tables when it
rolls back: an error before the commit leaves every table, every entity and the count of leases as
they were.  The tables may hold anything before, and the staging table may be left over from an
earlier use.
-/

namespace StagedStore

variable {ε δ τ : Type}

/-- An operation that ends in an error leaves no trace.  An insertion and an update may also end in
an error after the commit, when an entity refuses what is written back to it. -/
theorem untouched_of_error [Entity ε] [Database δ] (R : Recovery δ τ) (s : Schema)
    (t : StagingTable) (p : Pool δ) :
    (∀ f c returning e p', outcome (Pool.patch s t f c returning) p = (.error e, p') →
      Untouched R.toSnapshots p p') ∧
    (∀ f e p', outcome (Pool.delete s t f) p = (.error e, p') → Untouched R.toSnapshots p p') ∧
    (∀ (items : List ε) b e p', Pool.insert s items p = (b, p') → b.result = .error e →
      e.isReturned = true → ¬InsertRefused s items p e →
        Untouched R.toSnapshots p p' ∧ b.items = items) ∧
    (∀ (sets : List (ChangeSet ε)) b e p', Pool.update s t sets p = (b, p') →
      b.result = .error e → ¬UpdateRefused s t sets p e →
        Untouched R.toSnapshots p p' ∧ b.items = sets.map ChangeSet.item) := by
  refine ⟨?patch, ?delete, ?insert, ?update⟩
  case patch => exact fun _ _ _ _ _ h => untouched_of_patch_error h
  case delete => exact fun _ _ _ h => untouched_of_delete_error h
  case insert => exact fun _ _ _ _ h he hret hr => untouched_of_insert_error h he hret hr
  case update => exact fun _ _ _ _ h he hr => untouched_of_update_error h he hr

/-! ## A leftover staging table -/

namespace Leftover

/-- A table of two columns. -/
def schema : Schema where
  table := .ofPart (.bare "t")
  fields := [⟨"id", .integer, false⟩, ⟨"n", .integer, true⟩]
  primaryKey := ⟨"id", .integer, false⟩
  autoIncrement := false
  names_nodup := by decide
  names_valid := by decide
  key_mem := by decide
  key_required := Eq.refl false
  generated_integer := fun _ => Eq.refl FieldKind.integer

def staging : StagingTable := ⟨"stage"⟩

/-- A database without the table of the schema, but with a staging table of another shape. -/
def pool : Pool MemoryDatabase :=
  .ofDatabase ⟨⟨[], [⟨"stage", [⟨"x", .text, true⟩], none, false, [0], [], [], 1,
    [⟨1, #[.text "left"]⟩]⟩]⟩, none, 0, 0⟩ none

def changes : Changes := Changes.empty.set "n" (.integer 7)

def item : Record := .ofList [("id", .integer 1)]

def set : ChangeSet Record := ⟨.integer 1, changes, item⟩

/-- What a statement about the missing table fails with. -/
def missing : Error := (Fault.noSuchTable "t").toError

/-- Whether a result is that error. -/
def isMissing {α : Type} : Except Error α → Bool
  | .error e => decide (e = missing)
  | .ok _ => false

theorem eq_of_isMissing {α : Type} {r : Except Error α} (h : isMissing r = true) :
    r = .error missing := by
  cases r with
  | error e => exact congrArg Except.error (of_decide_eq_true h)
  | ok a => simp [isMissing] at h

theorem compile_set : Plan.compile schema [Leftover.set] =
    .ok ⟨"id", ["n"], [⟨.integer 1, [("n", .value (.integer 7))]⟩]⟩ := by
  have hrow : PlanRow.Of schema Leftover.set ⟨.integer 1, [("n", .value (.integer 7))]⟩ :=
    ⟨rfl, .cons ⟨rfl, _, rfl, rfl⟩ .nil⟩
  rw [Plan.compile_one hrow]
  with_unfolding_all rfl

theorem not_raisedByEntity_missing : ¬RaisedByEntity Record missing := by
  have hquery : ∃ t, missing = .query t := ⟨_, rfl⟩
  rintro ⟨item, name, v, h⟩
  simp only [Entity.setField] at h
  split at h
  · simp at h
  · obtain ⟨t, ht⟩ := hquery
    rw [ht] at h
    simp at h

theorem patch_fails : (outcome (Pool.patch schema staging .all changes ["n"]) pool).1 =
    .error missing :=
  eq_of_isMissing (by with_unfolding_all decide)

theorem delete_fails : (outcome (Pool.delete schema staging .all) pool).1 = .error missing :=
  eq_of_isMissing (by with_unfolding_all decide)

theorem insert_fails : (Pool.insert schema [item] pool).1.result = .error missing :=
  eq_of_isMissing (by with_unfolding_all decide)

theorem update_fails : (Pool.update schema staging [Leftover.set] pool).1.result =
    .error missing := by
  unfold Pool.update
  rw [compile_set]
  exact eq_of_isMissing (by with_unfolding_all decide)

end Leftover

open Leftover in
/-- Each operation meets the missing table.  Those that have dropped the leftover staging table by
then put it back. -/
theorem untouched_of_missing_table :
    let S := MemoryDatabase.recovery.toSnapshots
    let patched := outcome (Pool.patch schema staging .all changes ["n"]) pool
    let deleted := outcome (Pool.delete schema staging .all) pool
    let inserted := Pool.insert schema [item] pool
    let updated := Pool.update schema staging [Leftover.set] pool
    (patched.1 = .error missing ∧ Untouched S pool patched.2) ∧
    (deleted.1 = .error missing ∧ Untouched S pool deleted.2) ∧
    (inserted.1.result = .error missing ∧ Untouched S pool inserted.2 ∧
      inserted.1.items = [item]) ∧
    (updated.1.result = .error missing ∧ Untouched S pool updated.2 ∧
      updated.1.items = [item]) := by
  intro S patched deleted inserted updated
  have main := untouched_of_error (ε := Record) MemoryDatabase.recovery schema staging pool
  refine ⟨⟨patch_fails, main.1 _ _ _ _ _ (Prod.ext patch_fails rfl)⟩,
    ⟨delete_fails, main.2.1 _ _ _ (Prod.ext delete_fails rfl)⟩,
    ⟨insert_fails, main.2.2.1 _ _ _ _ rfl insert_fails rfl ?_⟩,
    ⟨update_fails, main.2.2.2 _ _ _ _ rfl update_fails ?_⟩⟩
  · exact fun h => not_raisedByEntity_missing h.1
  · exact fun h => not_raisedByEntity_missing h.1

end StagedStore
