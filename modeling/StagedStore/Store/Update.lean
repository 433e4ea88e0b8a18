import StagedStore.Store.Insert

/-!
# Updating entities

The changes of many entities are staged and applied with one statement. Incremented values are
read back and, after the commit, written back to the entities.
-/

namespace StagedStore

/-- Apply a plan through a staging table. Gives the count of updated rows and the new values of
incremented fields. -/
def Plan.apply {σ : Type} [Connection σ] (p : Plan) (s : Schema) (t : StagingTable) :
    Action σ (Nat × List WriteBack) := do
  p.stage s t
  let modified ← t.applyUpdate s p.fields
  let decoded ←
    if p.hasReturning then do
      let rows ← t.readBack p.columns
      Action.ofExcept (p.decodeReturning s rows)
    else pure []
  t.discard
  return (modified, decoded)

/-- Apply change sets, under a lease that the caller holds. Gives the count of updated rows. -/
def Pool.update {ε δ : Type} [Entity ε] [Database δ] (s : Schema) (t : StagingTable)
    (sets : List (ChangeSet ε)) (p : Pool δ) : Batch ε Nat × Pool δ :=
  let items := sets.map ChangeSet.item
  match Plan.compile s sets with
  | .error e => (⟨items, .error e⟩, p)
  | .ok plan =>
    if plan.isNoop then (⟨items, .ok 0⟩, p)
    else
      match (transaction (plan.apply s t)).run p with
      | (.error e, p) => (⟨items, .error e⟩, p)
      | (.ok (modified, decoded), p) =>
        let (items, r) := assignWriteBacks items.toArray decoded
        (⟨items.toList, r.map fun _ => modified⟩, p)

end StagedStore
