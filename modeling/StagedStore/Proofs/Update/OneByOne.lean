import StagedStore.Proofs.Staging.Succeeds
import StagedStore.Proofs.Update.Batch
import StagedStore.Store.Update

/-!
# Updating in a batch and one by one

An update that succeeds leaves the table that its change sets leave when each is applied on its own
to the row with its key.
-/

namespace StagedStore

open Memory MemoryDatabase

section

variable {ε : Type} {s : Schema} {p : Plan} {t : Table} {sets : List (ChangeSet ε)}

/-! ## Empty changes -/

theorem ChangeSet.foldl_applyTo_of_isEmpty (h : ∀ c ∈ sets, c.changes.isEmpty = true) :
    sets.foldl (applyTo s) t = t := by
  induction sets with
  | nil => rfl
  | cons c sets ih =>
      have hone : applyTo s t c = t := by
        have hid : (fun e => if c.concerns s e then c.changes.applyTo s e else e) = id := by
          funext e
          rw [Changes.applyTo_of_isEmpty (h c (by simp)), ite_self]
          rfl
        unfold applyTo
        rw [hid, List.map_id]
      rw [List.foldl_cons, hone]
      exact ih fun d hd => h d (by simp [hd])

namespace Plan

theorem Compiled.mem_fields_iff (h : p.Compiled s sets) (n : String) :
    n ∈ p.fields ↔ ∃ c ∈ sets, n ∈ c.changes.entries.map Prod.fst := by
  rw [h.mem_fields]
  constructor
  · rintro ⟨r, hr, hn⟩
    obtain ⟨c, hc, hof⟩ := h.exists_of_mem_rows hr
    exact ⟨c, hc, hof.map_fst ▸ hn⟩
  · rintro ⟨c, hc, hn⟩
    obtain ⟨r, hr, hof⟩ := h.rows.exists_right hc
    exact ⟨r, hr, hof.map_fst ▸ hn⟩

/-- A plan does nothing if no change set carries a delta. -/
theorem Compiled.isNoop_eq (h : p.Compiled s sets) :
    p.isNoop = sets.all fun c => c.changes.isEmpty := by
  rw [Bool.eq_iff_iff, List.all_eq_true, isNoop, Bool.or_eq_true]
  constructor
  · intro hnoop c hc
    unfold Changes.isEmpty
    rw [List.isEmpty_iff, List.eq_nil_iff_forall_not_mem]
    intro d hd
    have hin := (h.mem_fields_iff d.1).2 ⟨c, hc, List.mem_map_of_mem hd⟩
    rcases hnoop with hfields | hrows
    · simp [List.isEmpty_iff.1 hfields] at hin
    · obtain ⟨r, hr, -⟩ := (h.mem_fields d.1).1 hin
      simp [List.isEmpty_iff.1 hrows] at hr
  · intro hall
    refine .inl ?_
    rw [List.isEmpty_iff, List.eq_nil_iff_forall_not_mem]
    intro n hn
    obtain ⟨c, hc, hin⟩ := (h.mem_fields_iff n).1 hn
    have hnil : c.changes.entries = [] := List.isEmpty_iff.1 (hall c hc)
    simp [hnil] at hin

end Plan

/-! ## Updates that succeed -/

section Succeeds

variable [Entity ε] {stg : StagingTable} {pool pool' : Pool MemoryDatabase}
  {m : MemoryDatabase} {a : Area} {b : Batch ε Nat} {n : Nat}

/-- An update leaves the entities alone, or it has carried its plan out and what was read back is
written to them. -/
theorem Pool.update_cases (h : Pool.update s stg sets pool = (b, pool')) :
    (b.items = sets.map ChangeSet.item ∧ ∃ e, b.result = .error e) ∨
      ∃ p, Plan.compile s sets = .ok p ∧
        ((p.isNoop = true ∧ b.result = .ok 0 ∧ pool' = pool ∧ b.items = sets.map ChangeSet.item) ∨
          (p.isNoop = false ∧ ∃ n decoded r,
            outcome (Pool.transaction (p.apply s stg)) pool = (.ok (n, decoded), pool') ∧
            assignWriteBacks (sets.map ChangeSet.item).toArray decoded = (b.items.toArray, r) ∧
            b.result = r.map fun _ => n)) := by
  unfold Pool.update at h
  dsimp only at h
  split at h
  · obtain ⟨rfl, -⟩ := Prod.mk.inj h
    exact .inl ⟨rfl, _, rfl⟩
  · rename_i p hp
    split at h
    · rename_i hnoop
      obtain ⟨rfl, rfl⟩ := Prod.mk.inj h
      exact .inr ⟨p, hp, .inl ⟨hnoop, rfl, rfl, rfl⟩⟩
    · rename_i hnoop
      split at h
      · obtain ⟨rfl, -⟩ := Prod.mk.inj h
        exact .inl ⟨rfl, _, rfl⟩
      · rename_i modified decoded q hrun
        obtain ⟨rfl, rfl⟩ := Prod.mk.inj h
        exact .inr ⟨p, hp, .inr ⟨Bool.eq_false_iff.2 hnoop, modified, decoded, _, hrun, rfl, rfl⟩⟩

/-- An update that succeeds has nothing to do or has carried its plan out, and the entities took
what was read back for them. -/
theorem Pool.update_run (h : Pool.update s stg sets pool = (b, pool'))
    (hok : b.result = .ok n) :
    ∃ p, Plan.compile s sets = .ok p ∧
      ((p.isNoop = true ∧ n = 0 ∧ pool' = pool ∧ b.items = sets.map ChangeSet.item) ∨
        (p.isNoop = false ∧
          ∃ decoded, outcome (Pool.transaction (p.apply s stg)) pool = (.ok (n, decoded), pool') ∧
            assignWriteBacks (sets.map ChangeSet.item).toArray decoded =
              (b.items.toArray, .ok ()))) := by
  rcases update_cases h with ⟨-, e, he⟩ | ⟨p, hp, ⟨hnoop, hresult, hpool, hitems⟩ |
    ⟨hnoop, modified, decoded, r, hrun, hassign, hresult⟩⟩
  · rw [he] at hok
    cases hok
  · exact ⟨p, hp, .inl ⟨hnoop, (Except.ok.inj (hresult.symm.trans hok)).symm, hpool, hitems⟩⟩
  · rw [hok] at hresult
    cases r with
    | ok x =>
        obtain rfl := Except.ok.inj hresult
        exact ⟨p, hp, .inr ⟨hnoop, decoded, hrun, hassign⟩⟩
    | error e => cases hresult

theorem Pool.update_ok (h : Pool.update s stg sets pool = (b, pool'))
    (hok : b.result = .ok n) :
    ∃ p, Plan.compile s sets = .ok p ∧
      ((p.isNoop = true ∧ n = 0 ∧ pool' = pool) ∨
        (p.isNoop = false ∧
          ∃ decoded, outcome (Pool.transaction (p.apply s stg)) pool = (.ok (n, decoded), pool'))) := by
  obtain ⟨p, hp, ⟨hnoop, hn, hpool, -⟩ | ⟨hnoop, decoded, hrun, -⟩⟩ := update_run h hok
  · exact ⟨p, hp, .inl ⟨hnoop, hn, hpool⟩⟩
  · exact ⟨p, hp, .inr ⟨hnoop, decoded, hrun⟩⟩

/-- An update that succeeds, and whose plan is ready for the table, leaves this as its change sets do
one by one, each under its key as the key's column keeps it. -/
theorem Pool.update_of_ready (hchecked : ∀ c ∈ sets, c.Checked s)
    (hready : ∀ p, Plan.compile s sets = .ok p → p.Ready s t)
    (hname : foldName s.table.name ≠ foldName stg.name)
    (halias : foldName s.table.name ≠ foldName StagingTable.staged.name)
    (hm : pool.database = some m) (ht : m.catalog.find s.table.allQuoted = .ok (a, t))
    (h : Pool.update s stg sets pool = (b, pool')) (hok : b.result = .ok n) :
    ∃ m', pool'.database = some m' ∧
      m'.catalog.find s.table.allQuoted =
        .ok (a, (sets.map ChangeSet.kept).foldl (ChangeSet.applyTo s) t) ∧
      n = if sets.all fun c => c.changes.isEmpty then 0
        else (sets.map ChangeSet.kept).countP fun c => t.entries.any (c.concerns s) := by
  obtain ⟨p, hp, hrun⟩ := Pool.update_ok h hok
  have hcompiled := Plan.compiled_of_compile hp
  rw [← hcompiled.isNoop_eq]
  rcases hrun with ⟨hnoop, rfl, rfl⟩ | ⟨hnoop, decoded, hrun⟩
  · have hempty : ∀ c ∈ sets, c.changes.isEmpty = true :=
      List.all_eq_true.1 (hcompiled.isNoop_eq ▸ hnoop)
    refine ⟨m, hm, ?_, by rw [if_pos hnoop]⟩
    rw [ChangeSet.foldl_applyTo_of_isEmpty]
    · exact ht
    · intro c hc
      obtain ⟨d, hd, rfl⟩ := List.mem_map.1 hc
      exact hempty d hd
  · obtain ⟨m₁, σ, m', hm₁, hrun, hm', hcatalog⟩ := Pool.transaction_ok hrun
    obtain rfl := Option.some.inj (hm.symm.trans hm₁)
    have hready := hready p hp
    have hrows : p.rows ≠ [] := by
      intro hnil
      simp [Plan.isNoop, hnil] at hnoop
    rw [StagingTable.foldName_staged] at halias
    obtain ⟨hfind, hn⟩ := hready.apply_ok hrows (.inl hname) halias ht hrun
    rw [hready.appliedTo_eq hcompiled hchecked] at hfind
    refine ⟨m', hm', hcatalog ▸ hfind, ?_⟩
    rw [if_neg (by simp [hnoop]), hn]
    exact hready.countP_eq hcompiled

end Succeeds

end

/-! ## A zero with a sign -/

namespace SignedZero

def schema : Schema where
  table := .ofPart (.bare "t")
  fields := [⟨"id", .integer, false⟩, ⟨"x", .real, true⟩]
  primaryKey := ⟨"id", .integer, false⟩
  autoIncrement := false
  names_nodup := by decide
  names_valid := by decide
  key_mem := by decide
  key_required := Eq.refl false
  generated_integer := fun _ => Eq.refl FieldKind.integer

def staging : StagingTable := ⟨"stage"⟩

/-- The table of the schema with some rows. -/
def table (sequence : Int64) (entries : List Entry) : Table :=
  ⟨"t", [⟨"id", .integer, true⟩, ⟨"x", .real, false⟩], some 0, false, [], [], [], sequence, entries⟩

/-- The table with one row, which holds a cell besides its key. -/
def holding (v : Storage) : Table :=
  table 1 [⟨1, #[.integer 1, v]⟩]

theorem prepare_createTable : prepare ⟨.empty, #[], 0⟩ schema.createTable =
    .ok (.create .main (table 0 [])) := by
  with_unfolding_all rfl

/-- The statement that inserts the row. -/
def insertion : Sql.Statement :=
  .insert schema.table.allQuoted [.quoted "id", .quoted "x"] [[.param (some 1), .param (some 2)]]

theorem prepare_insertion : prepare ⟨⟨[table 0 []], []⟩, #[.integer 1, .null], 0⟩ insertion =
    .ok (.insert .main (table 0 []) false [[.integer 1, .null]]) := by
  with_unfolding_all rfl

theorem insertAll_row : (Insertion.start (table 0 [])).insertAll [[.integer 1, .null]] =
    (⟨holding .null, [], some 1⟩, none) := by
  with_unfolding_all rfl

theorem tableState_holding : schema.TableState (holding .null) :=
  .inserted (.created prepare_createTable) prepare_insertion insertAll_row

/-- A change for the row, and one for a row that there is not. -/
def sets : List (ChangeSet Record) :=
  [⟨.integer 1, Changes.empty.set "x" (.real (.zero true)), .ofList [("id", .integer 1)]⟩,
    ⟨.integer 2, Changes.empty.unset "x", .ofList [("id", .integer 2)]⟩]

def plan : Plan :=
  ⟨"id", ["x"], [⟨.integer 1, [("x", .value (.real (.zero true)))]⟩,
    ⟨.integer 2, [("x", .value .null)]⟩]⟩

theorem compile_sets : Plan.compile schema sets = .ok plan :=
  Plan.Compiled.compile_eq
    { key := rfl
      rows := .cons ⟨rfl, .cons ⟨rfl, _, rfl, rfl⟩ .nil⟩
        (.cons ⟨rfl, .cons ⟨rfl, _, rfl, rfl⟩ .nil⟩ .nil)
      literals_nodup := by decide
      fields := by decide }

/-- The tables while the update runs. -/
def during (temp : List Table) (changes : Nat) : MemoryDatabase :=
  ⟨⟨[holding .null], temp⟩, some ⟨[holding .null], []⟩, 1, changes⟩

/-- The staged rows. -/
def staged : Table :=
  ⟨"stage", [⟨"id", .blob, false⟩, ⟨"x", .blob, false⟩], none, false, [], [], [], 1,
    [⟨1, #[.integer 1, .real (.zero true)]⟩]⟩

def params : Sql.Params := (plan.select schema plan.rows).2

theorem finite_sets : ∀ c ∈ sets, ∀ d ∈ c.changes.entries, d.2.isFinite = true := by
  decide

theorem new_sets : ∀ c ∈ sets, ∃ key changes item, ChangeSet.new schema key changes item = .ok c := by
  intro c hc
  refine ⟨c.key, c.changes, c.item, ?_⟩
  rcases List.mem_cons.1 hc with rfl | hc
  · rfl
  · rw [List.mem_singleton.1 hc]
    rfl

theorem ready : plan.Ready schema (holding .null) :=
  (Plan.compiled_of_compile compile_sets).ready (Schema.fits_of_tableState tableState_holding)
    (by decide) (ChangeSet.forall_checked new_sets) finite_sets

theorem prepare_create : prepare ⟨⟨[holding .null], []⟩, params, 1⟩
    (.createTemporary (.quoted "stage") (.select (plan.select schema plan.rows).1)) =
    .ok (.create .temp staged) := by
  obtain ⟨os, hos, hnames, hnone⟩ := ready.evalSelect_select
    ⟨⟨[holding .null], []⟩, params, 1⟩ (fun _ (h : _ ∈ plan.rows) => h) (by decide) (a := .main)
    (by with_unfolding_all rfl) rfl
  have hrows : Plan.stagedRows schema plan (holding .null) plan.rows =
      [#[.integer 1, .real (.zero true)]] := by
    with_unfolding_all rfl
  have hstaged : tableOfRows "stage" os [#[.integer 1, .real (.zero true)]] = staged := by
    obtain ⟨⟨n₁, t₁, a₁⟩, os, rfl, hn₁, hnames⟩ := List.map_eq_cons_iff.1 hnames
    obtain ⟨⟨n₂, t₂, a₂⟩, os, rfl, hn₂, hnames⟩ := List.map_eq_cons_iff.1 hnames
    obtain rfl := List.map_eq_nil_iff.1 hnames
    obtain rfl : n₁ = "id" := hn₁
    obtain rfl : n₂ = "x" := hn₂
    obtain rfl : a₁ = .none := hnone ⟨"id", t₁, a₁⟩ (by simp)
    obtain rfl : a₂ = .none := hnone ⟨"x", t₂, a₂⟩ (by simp)
    have hdistinct : distinctNames [] ["id", "x"] = ["id", "x"] :=
      distinctNames_eq (by with_unfolding_all decide) (by simp)
    unfold tableOfRows
    simp only [List.map_cons, List.map_nil, hdistinct]
    rfl
  rw [hrows] at hos
  rw [prepare_createTemporary (by with_unfolding_all rfl) (by with_unfolding_all rfl) hos]
  exact congrArg (fun u => Except.ok (Prepared.create .temp u)) hstaged

theorem runs_create : Session.Runs (staging.create (.select (plan.select schema plan.rows).1) params)
    (during [] 1) 1 (during [staged] 1) := by
  have hdrop : (Database.script staging.dropScript : Step MemoryDatabase Unit).run (during [] 1) =
      (.ok (), during [] 1) := by
    with_unfolding_all rfl
  have hprepare : prepare ((during [] 1).context params)
      (.createTemporary (.quoted "stage") (.select (plan.select schema plan.rows).1)) =
      .ok (.create .temp staged) := prepare_create
  have hfill : (Database.run (.createTemporary (.quoted "stage")
      (.select (plan.select schema plan.rows).1)) params : Step MemoryDatabase Nat).run (during [] 1) =
      (.ok 1, during [staged] 1) :=
    run_eq (by decide) hprepare (by decide) rfl rfl
  have hcount : (Database.query staging.countQuery #[] : Step MemoryDatabase (List Row)).run
      (during [staged] 1) = (.ok [⟨["n"], [.integer 1]⟩], during [staged] 1) := by
    with_unfolding_all rfl
  exact StagingTable.runs_create hdrop hfill hcount

theorem updates : StagingTable.Updates schema staging (during [staged] 1).catalog .main
    (holding .null) staged ["id", "x"] ["x"] where
  fits := Schema.fits_of_tableState tableState_holding
  origin := by with_unfolding_all rfl
  staging := by with_unfolding_all rfl
  named := ⟨rfl, by with_unfolding_all decide, by decide⟩
  alias_ne := by with_unfolding_all decide
  key_mem := by decide
  fields_mem := by decide
  declared := ready.declared

/-- The tables after the update, the staging table among them. -/
def behind (temp : List Table) : MemoryDatabase :=
  ⟨⟨[holding (.real (.zero false))], temp⟩, some ⟨[holding .null], []⟩, 1, 1⟩

theorem runs_applyUpdate : Session.Runs (staging.applyUpdate schema plan.fields)
    (during [staged] 1) 1 (behind [staged]) := by
  have hperform : (during [staged] 1).perform (.update .main (holding .null)
      ((["x"].map schema.fieldIndex).any fun j => (holding .null).key = some j)
      fun e => (StagingTable.meeting? schema ["id", "x"] ⟨"id", .blob, false⟩ staged e).map
        (schema.assignments ["id", "x"] ["x"])) = (.ok (), behind [staged]) := by
    with_unfolding_all rfl
  exact StagingTable.runs_applyUpdate updates rfl rfl (by decide) (by decide) rfl
    (by decide) hperform

theorem runs_apply : Session.Runs (plan.apply schema staging) (during [] 1) (1, []) (behind []) := by
  have hdrop : (Database.script staging.dropScript : Step MemoryDatabase Unit).run
      (behind [staged]) = (.ok (), behind []) := by
    with_unfolding_all rfl
  have hstage : Session.Runs (plan.stage schema staging) (during [] 1) () (during [staged] 1) := by
    have hchunks : plan.chunks = [plan.rows] := by with_unfolding_all rfl
    unfold Plan.stage
    rw [hchunks]
    exact Session.runs_bind runs_create (Session.runs_pure ())
  refine Session.runs_bind hstage (Session.runs_bind runs_applyUpdate ?_)
  refine Session.runs_bind (Session.runs_pure []) ?_
  exact Session.runs_bind (StagingTable.runs_discard hdrop) (Session.runs_pure _)

/-- A pool of which the database holds the table. -/
def pool : Pool MemoryDatabase :=
  .ofDatabase ⟨⟨[holding .null], []⟩, none, 1, 1⟩ none

theorem update_sets : ∃ b pool', Pool.update schema staging sets pool = (b, pool') ∧
    b.result = .ok 1 ∧
    pool'.database = some ⟨⟨[holding (.real (.zero false))], []⟩, none, 1, 1⟩ := by
  obtain ⟨p, hrun, hdatabase⟩ := Pool.transaction_eq (p := pool) rfl rfl runs_apply rfl rfl
  unfold Pool.update
  rw [compile_sets]
  dsimp only
  rw [if_neg (by decide), show (Pool.transaction (plan.apply schema staging)).run pool = _ from hrun]
  exact ⟨_, _, rfl, rfl, hdatabase⟩

end SignedZero

end StagedStore
