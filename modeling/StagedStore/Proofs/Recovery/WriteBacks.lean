import StagedStore.Proofs.Pool.Transaction
import StagedStore.Proofs.Update.Returned
import StagedStore.Store.Update

/-!
# What is written back

The transactions of an insertion and of a batched update tell what the entities are to get.  Every
value that they tell is for an entity of the batch.
-/

namespace StagedStore

variable {ε δ σ α : Type}

/-- A transaction gives what its action gives. -/
theorem Pool.ensures_transaction [Database δ] {P : α → Prop} {f : Action (Session δ) α}
    (hf : Action.Ensures f P) : Action.Ensures (Pool.transaction f) P := by
  have hsettle {a b : α} {d d' : δ} (h : Pool.settle a d = (.ok b, d')) : b = a := by
    unfold Pool.settle at h
    split at h
    · exact (Except.ok.inj (Prod.mk.inj h).1).symm
    · split at h <;> simp at h
  intro p a p' h
  rw [outcome_transaction] at h
  split at h
  · simp at h
  · obtain ⟨h, -⟩ := Prod.mk.inj h
    rw [transact_eq] at h
    split at h
    · simp at h
    · split at h
      · rename_i b s hrun
        obtain rfl := hsettle (Prod.ext h rfl)
        exact hf _ _ _ hrun
      · simp at h

namespace Inserts

variable [Entity ε] [Connection σ] {s : Schema} {items : List ε} {i : Inserts}

theorem length_rows (h : ofItems s items = .ok i) : i.rows.length = items.length := by
  obtain ⟨generated, -, h⟩ := Except.bind_eq_ok_iff.1 h
  obtain ⟨rows, hrows, h⟩ := Except.bind_eq_ok_iff.1 h
  rw [← Except.ok.inj h]
  exact (Except.mapM_eq_ok_iff.1 hrows).length_eq.symm

theorem ensures_insertChunk (i : Inserts) (s : Schema) (rows : List (List Storage)) :
    Action.Ensures (i.insertChunk s rows : Action σ _) fun told =>
      ∀ cl ∈ told, cl.1 = rows.length := by
  refine Action.ensures_bind fun _ => ?_
  split
  · exact Action.ensures_bind fun _ => Action.ensures_pure (by simp)
  · exact Action.ensures_pure (by simp)

theorem sum_told_le {chunks : List (List (List Storage))} {told : List (Option (Nat × Int64))}
    (h : List.Forall₂ (fun rows cl? => ∀ cl ∈ cl?, cl.1 = rows.length) chunks told) :
    ((told.filterMap id).map Prod.fst).sum ≤ chunks.flatten.length := by
  induction h with
  | nil => exact Nat.le_refl 0
  | @cons rows cl? chunks told hcl _ ih =>
      rw [List.flatten_cons, List.length_append]
      cases cl? with
      | none => exact Nat.le_add_left_of_le ih
      | some cl =>
          have hcl : cl.1 = rows.length := hcl cl rfl
          rw [List.filterMap_cons_some (show id (some cl) = some cl from rfl), List.map_cons,
            List.sum_cons]
          omega

/-- No more keys are told than rows are inserted, and no more of a chunk than parameters fit into a
statement. -/
theorem ensures_insertAll (i : Inserts) (s : Schema) :
    Action.Ensures (i.insertAll s : Action σ _) fun lasts =>
      (lasts.map Prod.fst).sum ≤ i.rows.length ∧ ∀ cl ∈ lasts, cl.1 ≤ Plan.maxParams := by
  refine (Action.ensures_mapM (ensures_insertChunk i s) _).bind fun told htold => ?_
  refine Action.ensures_pure ⟨?_, fun cl hcl => ?_⟩
  · have hle := sum_told_le htold
    rwa [flatten_chunksOf _ i.chunkSize_ne_zero] at hle
  · obtain ⟨_, hmem, rfl⟩ := List.mem_filterMap.1 hcl
    obtain ⟨c, hc, hlength⟩ := htold.flip.exists_right hmem
    rw [hlength cl rfl]
    exact Nat.le_trans (length_le_of_mem_chunksOf hc) i.chunkSize_le

end Inserts

namespace Plan

variable [Connection σ] {s : Schema} {p : Plan}

theorem length_rows {sets : List (ChangeSet ε)} (h : compile s sets = .ok p) :
    p.rows.length = sets.length :=
  (compiled_of_compile h).rows.length_eq.symm

/-- The places that are kept of the rows are places of rows. -/
theorem place_lt_of_returning {key : String} {i : Nat} {fields : List String}
    (h : p.returning[key]? = some (i, fields)) : i < p.rows.length := by
  obtain ⟨r, hr, -⟩ := exists_of_returning h
  exact (List.getElem?_eq_some_iff.1 hr).1

theorem decodeReturning_places (p : Plan) (s : Schema) (rows : List Row) :
    (p.decodeReturning s rows).Ensures fun backs => ∀ back ∈ backs, back.1 < p.rows.length := by
  have hrow (row : Row) : (decodeRow s p.returning row).Ensures fun told =>
      ∀ back ∈ told, back.1 < p.rows.length := by
    refine Except.ensures_bind fun key _ => ?_
    split
    · exact Except.ensures_ok (by simp)
    · rename_i hplace
      refine Except.ensures_bind fun values _ => Except.ensures_ok ?_
      rintro _ ⟨⟩
      exact place_lt_of_returning hplace
  refine Except.ensures_bind fun told htold => Except.ensures_ok fun back hback => ?_
  obtain ⟨_, hmem, rfl⟩ := List.mem_filterMap.1 hback
  exact Except.ensures_mapM hrow rows told htold _ hmem back rfl

theorem ensures_apply (p : Plan) (s : Schema) (t : StagingTable) :
    Action.Ensures (p.apply s t : Action σ _) fun told =>
      ∀ back ∈ told.2, back.1 < p.rows.length := by
  have hrest (modified : Nat) (backs : List WriteBack)
      (hbacks : ∀ back ∈ backs, back.1 < p.rows.length) : Action.Ensures (do
        t.discard
        return (modified, backs) : Action σ (Nat × List WriteBack))
        fun told => ∀ back ∈ told.2, back.1 < p.rows.length :=
    Action.ensures_bind fun _ => Action.ensures_pure hbacks
  refine Action.ensures_bind fun _ => Action.ensures_bind fun modified => ?_
  dsimp only
  split
  · exact Action.ensures_bind fun rows =>
      (Action.ensures_ofExcept (decodeReturning_places p s rows)).bind (hrest modified)
  · exact (Action.ensures_pure (P := (· = [])) rfl).bind
      (by rintro _ rfl; exact hrest modified [] (by simp))

end Plan

end StagedStore
