import StagedStore.Proofs.Store.Aligned

/-!
# The operations on what a filter matches agree

Counting, finding, patching without changes and deleting take the same rows for a filter, however
its conditions are nested and whatever its order, limit and offset are.
-/

namespace StagedStore

open Memory MemoryDatabase Sql

variable {b : SchemaBuilder} {s : Schema} {t : Table} {f : Filter} {a : Area}
  {m : MemoryDatabase} {p : Pool MemoryDatabase} {stg : StagingTable} {name : String}

/-- Without text of the caller's own, a limit and an offset, the rows that a filter matches are
those for which the conjunction of its conditions is true. -/
theorem Filter.mem_matched_iff (hfits : s.Fits t)
    (hdeclared : ∀ n ∈ f.columns, ∃ g, s.requireField n = .ok g)
    (hfree : Condition.anyFragment f.conditions = false) (hlimit : f.limit = none)
    (hoffset : f.offset = none) (q : Params) {e : Entry} :
    e ∈ f.matched s t q ↔
      e ∈ t.entries ∧ Truth.conjunction (Condition.verdicts s e f.conditions) = some true := by
  rw [mem_matched hlimit hoffset]
  exact and_congr_right fun he => passes_of_free hfits hdeclared hfree q he

namespace ThreeRows

/-- The row with the largest value below a bound. -/
def largest : Filter :=
  { below with order := [("x", .descending)], limit := some 1 }

theorem suits : largest.Suits schema (table 3 entries) where
  built := ⟨builder, build_builder⟩
  state := tableState
  declared n hn := declared n ((show largest.columns ⊆ ["id", "x"] by decide) hn)
  complete := ⟨trivial, trivial⟩

def query (fields : List String) : Sql.Select :=
  largest.query schema (Filter.columnsOf fields) (largest.build #[]).1

def begun : MemoryDatabase :=
  ⟨⟨[table 3 entries], []⟩, some ⟨[table 3 entries], []⟩, 3, 3⟩

theorem count_largest : ∃ p', outcome (Pool.count schema largest) pool = (.ok 1, p') := by
  have hquery : (Database.query (countQuery (query ["id"])) #[.integer 8] :
      Step MemoryDatabase (List Row)).run begun = (.ok [⟨["n"], [.integer 1]⟩], begun) := by
    cbv
  obtain ⟨q, hrun, -⟩ := Pool.withLease_eq (p := pool) rfl rfl (Session.runs_querySingle hquery)
    rfl rfl
  refine ⟨q, (Filter.outcome_select suits ["id"] _ pool).trans ?_⟩
  exact Action.outcome_bind_eq_ok_iff.2 ⟨_, q, hrun, rfl⟩

def found : Record := .ofList [("id", .integer 3), ("x", .integer 7)]

theorem find_largest : ∃ p', outcome (Pool.find schema largest) pool = (.ok [found], p') := by
  have hquery : (Database.query (.select (query [])) #[.integer 8] :
      Step MemoryDatabase (List Row)).run begun =
        (.ok [⟨["id", "x"], [.integer 3, .integer 7]⟩], begun) := by
    cbv
  obtain ⟨q, hrun, -⟩ := Pool.withLease_eq (p := pool) rfl rfl (Session.runs_queryAll hquery)
    rfl rfl
  refine ⟨q, (Filter.outcome_select suits [] _ pool).trans ?_⟩
  refine Action.outcome_bind_eq_ok_iff.2 ⟨_, q, hrun, ?_⟩
  with_unfolding_all rfl

/-- The staged keys. -/
def keys : Table :=
  ⟨"stage", [⟨"id", .integer, false⟩], none, false, [], [], [], 1, [⟨1, #[.integer 3]⟩]⟩

def fillingKeys : Sql.Statement := .createTemporary (.quoted "stage") (.select (query ["id"]))

theorem run_fillKeys : (Database.run fillingKeys #[.integer 8] : Step MemoryDatabase Nat).run
    (during entries [] 3) = (.ok 3, during entries [keys] 3) := by
  have hprepare : prepare ((during entries [] 3).context #[.integer 8]) fillingKeys =
      .ok (.create .temp keys) := by
    cbv
  exact run_eq (by decide) hprepare (by decide) rfl rfl

theorem run_countKeys : (Database.query staging.countQuery #[] :
    Step MemoryDatabase (List Row)).run (during entries [keys] 3) =
      (.ok [⟨["n"], [.integer 1]⟩], during entries [keys] 3) := by
  with_unfolding_all rfl

theorem runs_createKeys : Session.Runs (staging.create (.select (query ["id"])) #[.integer 8])
    (during entries [] 3) 1 (during entries [keys] 3) :=
  StagingTable.runs_create run_drop run_fillKeys run_countKeys

def keyPlan : PatchPlan := ⟨query ["id"], #[.integer 8], ["id"], [], []⟩

theorem patch_largest : ∃ p', outcome (Pool.patch schema staging largest .empty []) pool =
    (.ok ⟨0, [.integer 3], []⟩, p') := by
  have hcompile : PatchPlan.compile schema largest .empty [] = .ok keyPlan := by
    with_unfolding_all rfl
  have hread : (Database.query (staging.readBackQuery ["id"]) #[] :
      Step MemoryDatabase (List Row)).run (during entries [keys] 3) =
        (.ok [⟨["id"], [.integer 3]⟩], during entries [keys] 3) := by
    cbv
  have hdrop : (Database.script staging.dropScript : Step MemoryDatabase Unit).run
      (during entries [keys] 3) = (.ok (), during entries [] 3) := by
    with_unfolding_all rfl
  have hdecode : [(⟨["id"], [.integer 3]⟩ : Row)].mapM (keyPlan.decodeRow schema) =
      .ok [(.integer 3, [])] := by
    with_unfolding_all rfl
  have hruns : Session.Runs (keyPlan.apply schema staging) (during entries [] 3)
      ⟨0, [.integer 3], []⟩ (during entries [] 3) := by
    rw [PatchPlan.apply_eq]
    refine Session.runs_bind runs_createKeys (Session.runs_bind (Session.runs_pure 0) ?_)
    refine Session.runs_bind (StagingTable.runs_readBack hread) ?_
    refine Session.runs_bind (StagingTable.runs_discard hdrop) ?_
    exact Session.runs_bind (Session.runs_ofExcept hdecode) (Session.runs_pure _)
  obtain ⟨q, hrun, -⟩ := Pool.withLease_eq (p := pool) rfl rfl hruns rfl rfl
  refine ⟨q.note (.patchApplied "t" 0 1), ?_⟩
  refine Action.outcome_bind_eq_ok_iff.2 ⟨keyPlan, pool, ?_, ?_⟩
  · rw [Action.outcome_ofExcept, hcompile]
  · exact Action.outcome_bind_eq_ok_iff.2 ⟨_, q, hrun, rfl⟩

/-- The rows behind the deletion. -/
def left : List Entry :=
  [⟨2, #[.integer 2, .null]⟩, ⟨1, #[.integer 1, .integer 5]⟩]

/-- However the key of the last row is staged, the row is deleted. -/
theorem runs_deleteKeys {q : Sql.Select} {params : Params}
    (hcreate : Session.Runs (staging.create (.select q) params) (during entries [] 3) 1
      (during entries [keys] 3)) :
    Session.Runs (staging.deleteSelected schema q params) (during entries [] 3)
      ⟨1, [.integer 3]⟩ (during left [] 1) := by
  have hfilled : StagingTable.Filled staging [schema.keyResult]
      [⟨3, #[.integer 3, .integer 7]⟩] (during entries [keys] 3).catalog keys :=
    ⟨by with_unfolding_all rfl, by with_unfolding_all rfl, by with_unfolding_all rfl,
      fun _ => List.pairwise_singleton ..⟩
  have hperform : (during entries [keys] 3).perform (.delete .main (table 3 entries) fun e =>
      decide (e ∈ [(⟨3, #[.integer 3, .integer 7]⟩ : Entry)])) = (.ok (), during left [keys] 1) := by
    with_unfolding_all rfl
  have hdelete : Session.Runs (staging.applyDelete schema) (during entries [keys] 3) 1
      (during left [keys] 1) :=
    StagingTable.runs_applyDelete (Schema.fits_of_tableState tableState) (by decide)
      (by with_unfolding_all rfl) hfilled (by decide) rfl (by decide)
      hperform
  have hread : (Database.query (staging.readBackQuery ["id"]) #[] :
      Step MemoryDatabase (List Row)).run (during left [keys] 1) =
        (.ok [⟨["id"], [.integer 3]⟩], during left [keys] 1) := by
    cbv
  have hdrop : (Database.script staging.dropScript : Step MemoryDatabase Unit).run
      (during left [keys] 1) = (.ok (), during left [] 1) := by
    with_unfolding_all rfl
  have hdecode : [(⟨["id"], [.integer 3]⟩ : Row)].mapM schema.decodeKey = .ok [.integer 3] := by
    with_unfolding_all rfl
  exact StagingTable.runs_deleteSelected hcreate hdelete (StagingTable.runs_readBack hread)
    (StagingTable.runs_discard hdrop) hdecode

theorem delete_largest : ∃ p', outcome (Pool.delete schema staging largest) pool =
    (.ok ⟨1, [.integer 3]⟩, p') := by
  obtain ⟨q, hrun, -⟩ := Pool.withLease_eq (p := pool) rfl rfl (runs_deleteKeys runs_createKeys)
    rfl rfl
  exact ⟨q, (Filter.outcome_select suits ["id"] _ pool).trans hrun⟩

end ThreeRows

end StagedStore
