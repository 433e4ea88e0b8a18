import StagedStore.Proofs.Memory.Succeeds
import StagedStore.Proofs.Store.Delete

/-!
# Staging tables whose steps succeed

A staging table is filled, applied, read back and dropped where the statements of these steps run.
-/

namespace StagedStore

open Memory Session MemoryDatabase

theorem Memory.Revision.updateAll_congr {t : Table} {changesKey : Bool}
    {values values' : Entry → Option (List (Nat × Storage))}
    (h : ∀ e ∈ t.entries, values e = values' e) :
    updateAll t changesKey values = updateAll t changesKey values' := by
  have hfold : ∀ (es : List Entry) (r : Revision), (∀ e ∈ es, values e = values' e) →
      es.foldlM (step values) r = es.foldlM (step values') r := by
    intro es
    induction es with
    | nil => exact fun _ _ => rfl
    | cons e es ih =>
        intro r hes
        obtain ⟨he, hes⟩ := List.forall_mem_cons.1 hes
        have hstep : step values r e = step values' r e := by
          unfold step
          rw [he]
        rw [List.foldlM_cons, List.foldlM_cons, hstep]
        exact congrArg _ (funext fun r => ih r hes)
  unfold updateAll
  dsimp only
  rw [hfold _ _ fun e he => h e (List.mem_reverse.1 he)]

theorem MemoryDatabase.perform_update_congr {m : MemoryDatabase} {a : Area} {t : Table}
    {changesKey : Bool} {values values' : Entry → Option (List (Nat × Storage))}
    (h : ∀ e ∈ t.entries, values e = values' e) :
    m.perform (.update a t changesKey values) = m.perform (.update a t changesKey values') := by
  unfold perform
  dsimp only
  rw [Revision.updateAll_congr h]

theorem MemoryDatabase.perform_delete_congr {m : MemoryDatabase} {a : Area} {t : Table}
    {condition condition' : Entry → Bool} (h : ∀ e ∈ t.entries, condition e = condition' e) :
    m.perform (.delete a t condition) = m.perform (.delete a t condition') := by
  have hkept : (t.entries.filter fun e => !condition e) =
      t.entries.filter fun e => !condition' e :=
    List.filter_congr fun e he => by rw [h e he]
  unfold perform
  dsimp only
  rw [hkept]

namespace StagingTable

variable {stg : StagingTable} {s : Schema} {m m₁ m₂ m₃ : MemoryDatabase} {n : Nat}

theorem runs_discard
    (h : (Database.script stg.dropScript : Step MemoryDatabase Unit).run m = (.ok (), m₁)) :
    Runs stg.discard m () m₁ :=
  runs_bind (runs_exec h) (runs_report _)

theorem runs_create {q : Sql.Query} {params : Sql.Params} {k : Int64} {rows : List Row}
    (hdrop : (Database.script stg.dropScript : Step MemoryDatabase Unit).run m = (.ok (), m₁))
    (hfill : (Database.run (.createTemporary (.quoted stg.name) q) params :
      Step MemoryDatabase Nat).run m₁ = (.ok n, m₂))
    (hcount : (Database.query stg.countQuery #[] : Step MemoryDatabase (List Row)).run m₂ =
      (.ok (⟨["n"], [.integer k]⟩ :: rows), m₃)) :
    Runs (stg.create q params) m k.toUInt64 m₃ := by
  refine runs_bind (runs_discard hdrop) (runs_bind (runs_run hfill) ?_)
  refine runs_bind (runs_querySingle hcount) (runs_bind (runs_ofExcept (a := k) rfl) ?_)
  exact runs_bind (runs_report _) (runs_pure _)

/-- The first staged row whose key is found equal to that of a row. -/
def meeting? (s : Schema) (names : List String) (key : Column) (u : Table) (e : Entry) :
    Option (Array Storage) :=
  u.cells.find? fun row => meets s names key row e

/-- The origin table is updated where the assignments of the staged rows can be performed. -/
theorem runs_applyUpdate {t u : Table} {a : Area} {names fields : List String} {key : Column}
    (h : Updates s stg m.catalog a t u names fields)
    (hkey : u.columns[names.idxOf s.primaryKey.name]? = some key)
    (hkeyName : key.name = s.primaryKey.name)
    (hunique : ∀ e ∈ t.entries, ∀ row ∈ u.cells, meets s names key row e = true →
      ∀ row' ∈ u.cells, meets s names key row' e = true → row' = row)
    (hplain : (stg.updateOrigin s fields).isPlain = true)
    (hparents : checkParents (m.context #[]) a t (fields.map s.fieldIndex).contains = .ok ())
    (hcount : countGiven #[] (stg.updateOrigin s fields).maxParam =
      (stg.updateOrigin s fields).maxParam)
    (hperform : m.perform (.update a t ((fields.map s.fieldIndex).any fun j => t.key = some j)
      fun e => (meeting? s names key u e).map (s.assignments names fields)) = (.ok (), m₁)) :
    Runs (stg.applyUpdate s fields) m m₁.changes m₁ := by
  have hsource : ∀ e ∈ t.entries, ∀ row, meeting? s names key u e = some row ↔
      row ∈ u.cells ∧ meets s names key row e = true := by
    intro e he row
    have hmet {row : Array Storage} (hrow : meeting? s names key u e = some row) :
        row ∈ u.cells ∧ meets s names key row e = true :=
      ⟨List.mem_of_find?_eq_some hrow, List.find?_some (p := (meets s names key · e)) hrow⟩
    refine ⟨hmet, fun ⟨hrow, hmeets⟩ => ?_⟩
    cases hfirst : meeting? s names key u e with
    | none => exact absurd hmeets (List.find?_eq_none.1 hfirst row hrow)
    | some first => rw [hunique e he row hrow hmeets first (hmet hfirst).1 (hmet hfirst).2]
  have hprepare : prepare (m.context #[]) (stg.updateOrigin s fields) = .ok (.update a t
      ((fields.map s.fieldIndex).any fun j => t.key = some j) (found s names fields key t u)) := by
    refine (prepare_updateOrigin_eq h hkey hkeyName).trans ?_
    change checkParents (m.context #[]) a t _ >>= _ = _
    rw [hparents]
    rfl
  have hsame : m.perform (.update a t ((fields.map s.fieldIndex).any fun j => t.key = some j)
      (found s names fields key t u)) = (.ok (), m₁) := by
    rw [← hperform]
    exact MemoryDatabase.perform_update_congr fun e he => found_eq h hsource he
  exact runs_run_lastChanges (run_eq hplain hprepare hcount hsame rfl)

theorem prepare_deleteOrigin_eq {t u : Table} {a : Area} {es : List Entry} (h : s.Fits t)
    (hfind : m.catalog.find s.table.allQuoted = .ok (a, t))
    (hu : stg.Filled [s.keyResult] es m.catalog u)
    (hparents : checkParents (m.context #[]) a t (fun _ => true) = .ok ()) :
    prepare (m.context #[]) (stg.deleteOrigin s) = .ok (.delete a t fun e =>
      (Term.inSet (s.primaryKey.affinity.forComparison s.primaryKey.affinity)
        (.slot (1 + s.keyIndex)) (.ofList (s.primaryKey.affinity.forComparison
          s.primaryKey.affinity) (u.column 0))).holds (Table.rowOf e)) := by
  have hcondition : ((m.context #[]).resolver (t.slots t.name)).resolveCondition
      (some (.inTable false (.ofName s.primaryKey.name) (.quoted s.primaryKey.name) stg.table)) =
        _ := resolve_deleteOrigin h hu rfl
  change prepareDelete (m.context #[]) _ _ = _
  unfold prepareDelete
  rw [show (m.context #[]).catalog.find s.table.allQuoted = .ok (a, t) from hfind, Except.ok_bind]
  dsimp only
  rw [hcondition, Except.ok_bind, hparents, Except.ok_bind]
  rfl

/-- The rows whose keys are staged are deleted where this can be performed. -/
theorem runs_applyDelete {t u : Table} {a : Area} {es : List Entry} (h : s.Fits t)
    (hes : ∀ e ∈ es, e ∈ t.entries) (hfind : m.catalog.find s.table.allQuoted = .ok (a, t))
    (hu : stg.Filled [s.keyResult] es m.catalog u)
    (hplain : (stg.deleteOrigin s).isPlain = true)
    (hparents : checkParents (m.context #[]) a t (fun _ => true) = .ok ())
    (hcount : countGiven #[] (stg.deleteOrigin s).maxParam = (stg.deleteOrigin s).maxParam)
    (hperform : m.perform (.delete a t fun e => decide (e ∈ es)) = (.ok (), m₁)) :
    Runs (stg.applyDelete s) m m₁.changes m₁ := by
  have hprepare := prepare_deleteOrigin_eq h hfind hu hparents
  have hmem := holds_deleteOrigin h hes hu
  generalize Term.inSet _ (.slot (1 + s.keyIndex)) _ = condition at hmem hprepare
  have hsame : m.perform (.delete a t fun e => condition.holds (Table.rowOf e)) = (.ok (), m₁) := by
    rw [← hperform]
    refine MemoryDatabase.perform_delete_congr fun e he => Bool.eq_iff_iff.2 ?_
    rw [hmem e he, decide_eq_true_iff]
  exact runs_run_lastChanges (run_eq hplain hprepare hcount hsame rfl)

theorem runs_readBack {columns : List String} {rows : List Row}
    (h : (Database.query (stg.readBackQuery columns) #[] : Step MemoryDatabase (List Row)).run m =
      (.ok rows, m₁)) : Runs (stg.readBack columns) m rows m₁ :=
  runs_queryAll h

theorem runs_deleteSelected {q : Sql.Select} {params : Sql.Params} {k : UInt64} {rows : List Row}
    {keys : List Value} {m₄ : MemoryDatabase}
    (hcreate : Runs (stg.create (.select q) params) m k m₁)
    (hdelete : Runs (stg.applyDelete s) m₁ n m₂)
    (hread : Runs (stg.readBack [s.primaryKey.name]) m₂ rows m₃)
    (hdiscard : Runs stg.discard m₃ () m₄) (hdecode : rows.mapM s.decodeKey = .ok keys) :
    Runs (stg.deleteSelected s q params) m ⟨n, keys⟩ m₄ := by
  refine runs_bind hcreate (runs_bind hdelete (runs_bind hread (runs_bind hdiscard ?_)))
  exact runs_bind (runs_ofExcept hdecode) (runs_bind (runs_report _) (runs_pure _))

end StagingTable

end StagedStore
