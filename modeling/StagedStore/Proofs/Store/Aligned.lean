import Mathlib
import StagedStore.Proofs.Filter.Read
import StagedStore.Proofs.Staging.Succeeds
import StagedStore.Proofs.Store.Reported

/-!
# Patches are exact

A patch that succeeds has made its changes to the rows that the filter matched before, and to no
others. Its report has one place for each of these rows, and tells the values that the rows then
hold: also of rows that no longer pass the filter.
-/

namespace StagedStore

open Memory MemoryDatabase Sql

variable {b : SchemaBuilder} {s : Schema} {t : Table} {f : Filter} {c : Changes}
  {returning : List String} {a : Area} {m : MemoryDatabase} {p p' : Pool MemoryDatabase}
  {stg : StagingTable} {name : String}

theorem StagingTable.nul_notMem_of_new (h : StagingTable.new name = .ok stg) :
    '\x00' ∉ stg.name.toList := by
  obtain ⟨i, hi, h⟩ := Except.bind_eq_ok_iff.1 h
  have hnew : stg.name = i.name := by
    split at h
    · simp at h
    · exact congrArg StagingTable.name (Except.ok.inj h).symm
  rw [hnew]
  exact Identifier.nul_notMem_of_parse hi _ (List.getLast_mem i.nonempty)

/-- A patch that succeeds was planned. -/
theorem PatchPlan.planned_of_patch {r : Patched}
    (h : outcome (Pool.patch s stg f c returning) p = (.ok r, p')) :
    ∃ plan cs, Planned s f c returning plan cs := by
  obtain ⟨plan, _, hcompile, -⟩ := Action.outcome_bind_eq_ok_iff.1 h
  obtain ⟨cs, hplan⟩ := planned_of_compile (Prod.mk.inj hcompile).1
  exact ⟨plan, cs, hplan⟩

/-- The names in the filter of a patch that succeeds are declared. -/
theorem Filter.declared_of_patch {r : Patched}
    (h : outcome (Pool.patch s stg f c returning) p = (.ok r, p')) :
    ∀ n ∈ f.columns, ∃ g, s.requireField n = .ok g := by
  obtain ⟨plan, cs, hplan⟩ := PatchPlan.planned_of_patch h
  exact hplan.columns

namespace ThreeRows

def staging : StagingTable := ⟨"stage"⟩

/-- A pool of which the database holds the table. -/
def pool : Pool MemoryDatabase :=
  .ofDatabase ⟨⟨[table 3 entries], []⟩, none, 3, 3⟩ none

theorem new_staging : StagingTable.new "stage" = .ok staging := by
  with_unfolding_all rfl

def below : Filter := Filter.all.and (.test "x" .lt (.integer 8))

def raise : Changes := Changes.empty.increment "x" (.integer 10)

def plan : PatchPlan where
  query := below.query schema (PatchPlan.selected schema raise ["id"]
    [.expr (.add (.ofName "x") (.param (some 1))) (some (.quoted "x"))]) (below.build #[.integer 10]).1
  params := #[.integer 10, .integer 8]
  staged := ["id", "x"]
  touched := ["x"]
  reported := ["x", "id"]

theorem compile_raise : PatchPlan.compile schema below raise ["id"] = .ok plan := by
  with_unfolding_all rfl

/-- The rows behind the patch. -/
def raised : List Entry :=
  [⟨3, #[.integer 3, .integer 17]⟩, ⟨2, #[.integer 2, .null]⟩, ⟨1, #[.integer 1, .integer 15]⟩]

/-- The staged rows. -/
def staged : Table :=
  ⟨"stage", [⟨"id", .integer, false⟩, ⟨"x", .blob, false⟩], none, false, [], [], [], 2,
    [⟨2, #[.integer 3, .integer 17]⟩, ⟨1, #[.integer 1, .integer 15]⟩]⟩

/-- The tables while the patch runs. -/
def during (rows : List Entry) (temp : List Table) (changes : Nat) : MemoryDatabase :=
  ⟨⟨[table 3 rows], temp⟩, some ⟨[table 3 entries], []⟩, 3, changes⟩

theorem run_drop : (Database.script staging.dropScript : Step MemoryDatabase Unit).run
    (during entries [] 3) = (.ok (), during entries [] 3) := by
  with_unfolding_all rfl

def filling : Sql.Statement := .createTemporary (.quoted "stage") (.select plan.query)

theorem run_fill : (Database.run filling plan.params : Step MemoryDatabase Nat).run
    (during entries [] 3) = (.ok 3, during entries [staged] 3) := by
  have hprepare : prepare ((during entries [] 3).context plan.params) filling =
      .ok (.create .temp staged) := by
    with_unfolding_all rfl
  exact run_eq (by decide) hprepare (by decide) rfl rfl

theorem run_count : (Database.query staging.countQuery #[] : Step MemoryDatabase (List Row)).run
    (during entries [staged] 3) = (.ok [⟨["n"], [.integer 2]⟩], during entries [staged] 3) := by
  with_unfolding_all rfl

theorem updates : StagingTable.Updates schema staging (during entries [staged] 3).catalog .main
    (table 3 entries) staged ["id", "x"] ["x"] where
  fits := Schema.fits_of_tableState tableState
  origin := by with_unfolding_all rfl
  staging := by with_unfolding_all rfl
  named := ⟨rfl, by with_unfolding_all decide, by decide⟩
  alias_ne := by with_unfolding_all decide
  key_mem := by decide
  fields_mem := by decide
  declared := fun n hn => declared n (by simp_all)

theorem runs_update : Session.Runs (staging.applyUpdate schema ["x"]) (during entries [staged] 3) 2
    (during raised [staged] 2) := by
  have hperform : (during entries [staged] 3).perform (.update .main (table 3 entries)
      ((["x"].map schema.fieldIndex).any fun j => (table 3 entries).key = some j)
      fun e => (StagingTable.meeting? schema ["id", "x"] ⟨"id", .integer, false⟩ staged e).map
        (schema.assignments ["id", "x"] ["x"])) = (.ok (), during raised [staged] 2) := by
    with_unfolding_all rfl
  exact StagingTable.runs_applyUpdate updates rfl rfl (by decide) (by decide) rfl
    (by decide) hperform

/-- The staged rows as they are read back. -/
def readBack : List Row :=
  [⟨["id", "x"], [.integer 1, .integer 15]⟩, ⟨["id", "x"], [.integer 3, .integer 17]⟩]

def report : Patched :=
  ⟨2, [.integer 1, .integer 3],
    [("id", [.integer 1, .integer 3]), ("x", [.integer 15, .integer 17])]⟩

theorem runs_apply : Session.Runs (plan.apply schema staging) (during entries [] 3) report
    (during raised [] 2) := by
  have hread : (Database.query (staging.readBackQuery plan.staged) #[] :
      Step MemoryDatabase (List Row)).run (during raised [staged] 2) =
        (.ok readBack, during raised [staged] 2) := by
    cbv
  have hdrop : (Database.script staging.dropScript : Step MemoryDatabase Unit).run
      (during raised [staged] 2) = (.ok (), during raised [] 2) := by
    with_unfolding_all rfl
  have hdecode : readBack.mapM (plan.decodeRow schema) =
      .ok [(.integer 1, [.integer 15, .integer 1]), (.integer 3, [.integer 17, .integer 3])] := by
    with_unfolding_all rfl
  rw [PatchPlan.apply_eq]
  refine Session.runs_bind (StagingTable.runs_create run_drop run_fill run_count) ?_
  refine Session.runs_bind runs_update (Session.runs_bind (StagingTable.runs_readBack hread) ?_)
  refine Session.runs_bind (StagingTable.runs_discard hdrop) ?_
  exact Session.runs_bind (Session.runs_ofExcept hdecode) (Session.runs_pure _)

theorem patch_raise : ∃ p',
    outcome (Pool.patch schema staging below raise ["id"]) pool = (.ok report, p') ∧
    p'.database = some ⟨⟨[table 3 raised], []⟩, none, 3, 2⟩ := by
  obtain ⟨q, hrun, hq⟩ := Pool.withLease_eq (p := pool) rfl rfl runs_apply rfl rfl
  refine ⟨q.note (.patchApplied "t" 2 2), ?_, hq⟩
  refine Action.outcome_bind_eq_ok_iff.2 ⟨plan, pool, ?_, ?_⟩
  · rw [Action.outcome_ofExcept, compile_raise]
  · exact Action.outcome_bind_eq_ok_iff.2 ⟨_, q, hrun, rfl⟩

end ThreeRows

end StagedStore
