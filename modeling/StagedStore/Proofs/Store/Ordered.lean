import StagedStore.Proofs.Memory.Order
import StagedStore.Proofs.Store.Agreement

/-!
# Reports in the order of a filter

The rows of a filter keep its order on their way through the staging table: the keys and the values
that a patch or a deletion tells stand as the filter puts the rows. The order is lost only where a
staged column has the name of the hidden key, which the staged rows are read back by.
-/

namespace StagedStore

open Memory MemoryDatabase Sql

namespace Filter

variable {s : Schema} {t : Table} {f : Filter}

/-- Rows stand as the ordering of a filter asks. -/
def Ordered (s : Schema) (f : Filter) (es : List Entry) : Prop :=
  es.Pairwise fun a b => orderedBefore (f.orderCells s a) (f.orderCells s b) = true

theorem orderedBefore_orderCells (a b : Entry) :
    orderedBefore (f.orderCells s a) (f.orderCells s b) =
      (keysCmp (fun c : String × Direction => decide (c.2 = .descending)) f.order
        (fun c => s.fieldCell c.1 a) fun c => s.fieldCell c.1 b).isLE :=
  orderedBefore_eq (fun c : String × Direction => decide (c.2 = .descending)) f.order
    (fun c => s.fieldCell c.1 a) fun c => s.fieldCell c.1 b

theorem ordered_arrange (es : List Entry) : f.Ordered s (f.arrange s es) := by
  unfold arrange
  split
  · rename_i hempty
    have hcells (e : Entry) : f.orderCells s e = [] := by
      rw [orderCells, List.isEmpty_iff.1 hempty, List.map_nil]
    refine List.pairwise_iff_forall_sublist.2 fun {a b} _ => ?_
    rw [hcells a, hcells b]
    rfl
  · refine List.pairwise_mergeSort (fun a b c hab hbc => ?_) (fun a b => ?_) es
    · rw [orderedBefore_orderCells] at hab hbc ⊢
      exact Std.TransCmp.isLE_trans hab hbc
    · rw [orderedBefore_orderCells, orderedBefore_orderCells]
      exact isLE_or_isLE ..

/-- The rows that a filter matches stand in its order. -/
theorem ordered_matched (p : Params) : f.Ordered s (f.matched s t p) :=
  (f.ordered_arrange _).sublist (f.cut_sublist _)

/-- The names in the filter of a deletion that succeeds are declared. -/
theorem declared_of_delete {stg : StagingTable} {p p' : Pool MemoryDatabase} {d : Deleted}
    (h : outcome (Pool.delete s stg f) p = (.ok d, p')) :
    ∀ n ∈ f.columns, ∃ g, s.requireField n = .ok g := by
  obtain ⟨q, p₁, hselect, -⟩ := Action.outcome_bind_eq_ok_iff.1 h
  exact declared_of_select (Prod.mk.inj hselect).1

end Filter

variable {b : SchemaBuilder} {s : Schema} {t : Table} {f : Filter} {a : Area} {m : MemoryDatabase}
  {p : Pool MemoryDatabase} {stg : StagingTable} {name : String}

/-- Reports stand in the order in which the filter puts the rows it matches, and staged rows are read
back in the order in which their query gives them, as long as no staged column has the name of the
hidden key. -/
theorem staged_order_is_reported_order (hb : b.build = .ok s) (hstate : s.TableState t)
    (hrows : t.entries.length < 2 ^ 63) (hcomplete : Condition.AllComplete f.conditions)
    (hstg : StagingTable.new name = .ok stg) (hclear : s.table.Clear stg.name)
    (halias : foldName s.table.name ≠ "_staged")
    (hfind : m.catalog.find s.table.allQuoted = .ok (a, t)) (hp : p.database = some m) :
    (∀ ps, f.Ordered s (f.matched s t ps)) ∧
      (∀ c returning r p', (∀ n ∈ PatchPlan.stagedNames s c returning, foldName n ≠ "rowid") →
        outcome (Pool.patch s stg f c returning) p = (.ok r, p') →
        r.Tells s c returning (f.matched s t (c.bound s))) ∧
      (∀ d p', foldName s.primaryKey.name ≠ "rowid" →
        outcome (Pool.delete s stg f) p = (.ok d, p') →
        (f.matched s t #[]).mapM s.keyOf = .ok d.keys) ∧
      ∀ (σ σ₁ σ₂ : Session MemoryDatabase) q q' rest ps n os out columns rows,
        readings (.createTemporary (.quoted stg.name) q) =
          some (.createTemporary (.quoted stg.name) (.select q')) :: rest →
        evalSelect ⟨σ.database.catalog.drop .temp stg.name, ps, σ.database.lastKey⟩ q' =
          .ok (os, out) →
        (os.map fun o => foldName o.name).Nodup → (∀ o ∈ os, foldName o.name ≠ "rowid") →
        out.length < 2 ^ 63 → (∀ c ∈ columns, c ∈ os.map Output.name) →
        outcome (stg.create q ps) σ = (.ok n, σ₁) →
        outcome (stg.readBack columns) σ₁ = (.ok rows, σ₂) →
        rows = StagingTable.recalled os columns out := by
  have hnul := StagingTable.nul_notMem_of_new hstg
  have hfew (ps : Params) : (f.matched s t ps).length < 2 ^ 63 :=
    Nat.lt_of_le_of_lt (f.length_matched_le ps) hrows
  refine ⟨f.ordered_matched, ?_, ?_, ?_⟩
  · intro c returning r p' hnames h
    obtain ⟨⟨es, hes, htells⟩, -⟩ := Pool.patch_recalled
      ⟨⟨b, hb⟩, hstate, Filter.declared_of_patch h, hcomplete⟩ hnul hclear (fun _ => halias) hfind hp h
    rwa [hes.ordered hnames (hfew _)] at htells
  · intro d p' hkey h
    obtain ⟨⟨es, hes, hkeys⟩, -⟩ := Pool.delete_recalled
      ⟨⟨b, hb⟩, hstate, Filter.declared_of_delete h, hcomplete⟩ hnul hclear hfind hp h
    rwa [hes.ordered (by simpa using hkey) (hfew _)] at hkeys
  · intro σ σ₁ σ₂ q q' rest ps n os out columns rows hread hq hnodup hrowid hout hcolumns
    exact StagingTable.readBack_created hread hq hnodup hrowid hout hcolumns

/-! ## Two rows, the larger value first -/

namespace ThreeRows

def falling : Filter := below.orderBy "x" .descending

theorem suits_falling : falling.Suits schema (table 3 entries) where
  built := ⟨builder, build_builder⟩
  state := tableState
  declared n hn := declared n ((show falling.columns ⊆ ["id", "x"] by decide) hn)
  complete := ⟨trivial, trivial⟩

def fallingPlan : PatchPlan :=
  { plan with
    query := falling.query schema (PatchPlan.selected schema raise ["id"]
      [.expr (.add (.ofName "x") (.param (some 1))) (some (.quoted "x"))])
      (falling.build #[.integer 10]).1 }

theorem compile_falling : PatchPlan.compile schema falling raise ["id"] = .ok fallingPlan := by
  with_unfolding_all rfl

/-- The staged rows: the second one has the smaller key. -/
def stagedFalling : Table :=
  { staged with entries := [⟨2, #[.integer 1, .integer 15]⟩, ⟨1, #[.integer 3, .integer 17]⟩] }

/-- A session before the rows are staged. -/
def session : Session MemoryDatabase := .start (during entries [] 3) none

def resultsFalling : List Output :=
  [⟨"id", .slot 1, .integer⟩, ⟨"x", .add (.slot 2) (.cell (.integer 10)), .none⟩]

def rowsFalling : List (Array Storage) :=
  [#[.integer 3, .integer 17], #[.integer 1, .integer 15]]

def readBackFalling : List Row :=
  [⟨["id", "x"], [.integer 3, .integer 17]⟩, ⟨["id", "x"], [.integer 1, .integer 15]⟩]

def reportFalling : Patched :=
  ⟨2, [.integer 3, .integer 1],
    [("id", [.integer 3, .integer 1]), ("x", [.integer 17, .integer 15])]⟩

theorem runs_createFalling : Session.Runs (staging.create (.select fallingPlan.query) plan.params)
    (during entries [] 3) 2 (during entries [stagedFalling] 3) := by
  have hprepare : prepare ((during entries [] 3).context plan.params)
      (.createTemporary (.quoted "stage") (.select fallingPlan.query)) =
        .ok (.create .temp stagedFalling) := by
    cbv
  have hfill : (Database.run (.createTemporary (.quoted "stage") (.select fallingPlan.query))
      plan.params : Step MemoryDatabase Nat).run (during entries [] 3) =
        (.ok 3, during entries [stagedFalling] 3) :=
    run_eq (by decide) hprepare (by decide) rfl rfl
  have hcount : (Database.query staging.countQuery #[] : Step MemoryDatabase (List Row)).run
      (during entries [stagedFalling] 3) =
        (.ok [⟨["n"], [.integer 2]⟩], during entries [stagedFalling] 3) := by
    with_unfolding_all rfl
  exact StagingTable.runs_create run_drop hfill hcount

theorem updates_falling : StagingTable.Updates schema staging
    (during entries [stagedFalling] 3).catalog .main (table 3 entries) stagedFalling ["id", "x"]
    ["x"] :=
  { updates with
    origin := by with_unfolding_all rfl
    staging := by with_unfolding_all rfl
    named := ⟨rfl, by with_unfolding_all decide, by decide⟩ }

theorem runs_updateFalling : Session.Runs (staging.applyUpdate schema ["x"])
    (during entries [stagedFalling] 3) 2 (during raised [stagedFalling] 2) := by
  have hperform : (during entries [stagedFalling] 3).perform (.update .main (table 3 entries)
      ((["x"].map schema.fieldIndex).any fun j => (table 3 entries).key = some j)
      fun e => (StagingTable.meeting? schema ["id", "x"] ⟨"id", .integer, false⟩ stagedFalling e).map
        (schema.assignments ["id", "x"] ["x"])) = (.ok (), during raised [stagedFalling] 2) := by
    with_unfolding_all rfl
  exact StagingTable.runs_applyUpdate updates_falling rfl rfl (by decide) (by decide) rfl
    (by decide) hperform

theorem runs_readBackFalling (rows : List Entry) (n : Nat) (h : rows = entries ∨ rows = raised) :
    Session.Runs (staging.readBack ["id", "x"]) (during rows [stagedFalling] n) readBackFalling
      (during rows [stagedFalling] n) := by
  refine StagingTable.runs_readBack ?_
  rcases h with rfl | rfl <;> cbv

theorem patch_falling : ∃ p', outcome (Pool.patch schema staging falling raise ["id"]) pool =
    (.ok reportFalling, p') := by
  have hdrop : (Database.script staging.dropScript : Step MemoryDatabase Unit).run
      (during raised [stagedFalling] 2) = (.ok (), during raised [] 2) := by
    with_unfolding_all rfl
  have hdecode : readBackFalling.mapM (fallingPlan.decodeRow schema) =
      .ok [(.integer 3, [.integer 17, .integer 3]), (.integer 1, [.integer 15, .integer 1])] := by
    with_unfolding_all rfl
  have hruns : Session.Runs (fallingPlan.apply schema staging) (during entries [] 3) reportFalling
      (during raised [] 2) := by
    rw [PatchPlan.apply_eq]
    refine Session.runs_bind runs_createFalling (Session.runs_bind runs_updateFalling ?_)
    refine Session.runs_bind (runs_readBackFalling _ _ (.inr rfl)) ?_
    refine Session.runs_bind (StagingTable.runs_discard hdrop) ?_
    exact Session.runs_bind (Session.runs_ofExcept hdecode) (Session.runs_pure _)
  obtain ⟨q, hrun, -⟩ := Pool.withLease_eq (p := pool) rfl rfl hruns rfl rfl
  refine ⟨q.note (.patchApplied "t" 2 2), ?_⟩
  refine Action.outcome_bind_eq_ok_iff.2 ⟨fallingPlan, pool, ?_, ?_⟩
  · rw [Action.outcome_ofExcept, compile_falling]
  · exact Action.outcome_bind_eq_ok_iff.2 ⟨_, q, hrun, rfl⟩

/-- The staged keys: the second one is the smaller. -/
def keysFalling : Table :=
  { keys with sequence := 2, entries := [⟨2, #[.integer 1]⟩, ⟨1, #[.integer 3]⟩] }

def queryKeys : Sql.Select :=
  falling.query schema (Filter.columnsOf ["id"]) (falling.build #[]).1

theorem runs_createKeysFalling : Session.Runs (staging.create (.select queryKeys) #[.integer 8])
    (during entries [] 3) 2 (during entries [keysFalling] 3) := by
  have hprepare : prepare ((during entries [] 3).context #[.integer 8])
      (.createTemporary (.quoted "stage") (.select queryKeys)) = .ok (.create .temp keysFalling) := by
    cbv
  have hfill : (Database.run (.createTemporary (.quoted "stage") (.select queryKeys))
      #[.integer 8] : Step MemoryDatabase Nat).run (during entries [] 3) =
        (.ok 3, during entries [keysFalling] 3) :=
    run_eq (by decide) hprepare (by decide) rfl rfl
  have hcount : (Database.query staging.countQuery #[] : Step MemoryDatabase (List Row)).run
      (during entries [keysFalling] 3) =
        (.ok [⟨["n"], [.integer 2]⟩], during entries [keysFalling] 3) := by
    with_unfolding_all rfl
  exact StagingTable.runs_create run_drop hfill hcount

/-- The rows that the filter matches. -/
def doomedRows : List Entry :=
  [⟨3, #[.integer 3, .integer 7]⟩, ⟨1, #[.integer 1, .integer 5]⟩]

/-- The row that stays. -/
def spared : List Entry := [⟨2, #[.integer 2, .null]⟩]

theorem delete_falling : ∃ p', outcome (Pool.delete schema staging falling) pool =
    (.ok ⟨2, [.integer 3, .integer 1]⟩, p') := by
  have hfilled : StagingTable.Filled staging [schema.keyResult] doomedRows
      (during entries [keysFalling] 3).catalog keysFalling :=
    ⟨by with_unfolding_all rfl, by with_unfolding_all rfl, by with_unfolding_all rfl,
      fun _ => by with_unfolding_all decide⟩
  have hperform : (during entries [keysFalling] 3).perform (.delete .main (table 3 entries) fun e =>
      decide (e ∈ doomedRows)) = (.ok (), during spared [keysFalling] 2) := by
    with_unfolding_all rfl
  have hdelete : Session.Runs (staging.applyDelete schema) (during entries [keysFalling] 3) 2
      (during spared [keysFalling] 2) :=
    StagingTable.runs_applyDelete (Schema.fits_of_tableState tableState) (by decide)
      (by with_unfolding_all rfl) hfilled (by decide) rfl (by decide) hperform
  have hread : (Database.query (staging.readBackQuery ["id"]) #[] :
      Step MemoryDatabase (List Row)).run (during spared [keysFalling] 2) =
        (.ok [⟨["id"], [.integer 3]⟩, ⟨["id"], [.integer 1]⟩], during spared [keysFalling] 2) := by
    cbv
  have hdrop : (Database.script staging.dropScript : Step MemoryDatabase Unit).run
      (during spared [keysFalling] 2) = (.ok (), during spared [] 2) := by
    with_unfolding_all rfl
  have hdecode : [(⟨["id"], [.integer 3]⟩ : Row), ⟨["id"], [.integer 1]⟩].mapM schema.decodeKey =
      .ok [.integer 3, .integer 1] := by
    with_unfolding_all rfl
  obtain ⟨q, hrun, -⟩ := Pool.withLease_eq (p := pool) rfl rfl (StagingTable.runs_deleteSelected
    runs_createKeysFalling hdelete (StagingTable.runs_readBack hread)
    (StagingTable.runs_discard hdrop) hdecode) rfl rfl
  exact ⟨q, (Filter.outcome_select suits_falling ["id"] _ pool).trans hrun⟩

end ThreeRows

open ThreeRows in
/-- The filter takes the third row before the first: so do a patch of the field that it orders by, a
deletion, and the staged rows. -/
theorem staged_order_is_reported_order_of_two :
    falling.Ordered schema doomedRows ∧
      (∃ p', outcome (Pool.patch schema staging falling raise ["id"]) pool =
          (.ok reportFalling, p') ∧ reportFalling.Tells schema raise ["id"] doomedRows) ∧
      (∃ p', outcome (Pool.delete schema staging falling) pool =
          (.ok ⟨2, [.integer 3, .integer 1]⟩, p') ∧
        doomedRows.mapM schema.keyOf = .ok [.integer 3, .integer 1]) ∧
      ∃ σ₁ σ₂, outcome (staging.create (.select fallingPlan.query) plan.params) session =
          (.ok 2, σ₁) ∧
        outcome (staging.readBack ["id", "x"]) σ₁ = (.ok readBackFalling, σ₂) ∧
        readBackFalling = StagingTable.recalled resultsFalling ["id", "x"] rowsFalling := by
  obtain ⟨hordered, hpatch, hdelete, hback⟩ := staged_order_is_reported_order (f := falling)
    (m := ⟨⟨[table 3 entries], []⟩, none, 3, 3⟩) (p := pool) build_builder tableState (by decide)
    suits_falling.complete new_staging (by with_unfolding_all decide)
    (by with_unfolding_all decide) (by with_unfolding_all rfl) rfl
  obtain ⟨p₁, hrun₁⟩ := patch_falling
  obtain ⟨p₂, hrun₂⟩ := delete_falling
  have hraise : falling.matched schema (table 3 entries) (raise.bound schema) = doomedRows := by
    cbv
  have hnone : falling.matched schema (table 3 entries) #[] = doomedRows := by
    cbv
  have htells := hpatch raise ["id"] reportFalling p₁ (by with_unfolding_all decide) hrun₁
  have hkeys := hdelete _ p₂ (by with_unfolding_all decide) hrun₂
  obtain ⟨σ₁, hcreate, hσ₁⟩ := runs_createFalling session rfl
  obtain ⟨σ₂, hread, -⟩ := runs_readBackFalling _ _ (.inl rfl) σ₁ hσ₁
  have hselect : evalSelect ⟨session.database.catalog.drop .temp staging.name, plan.params,
      session.database.lastKey⟩ fallingPlan.query = .ok (resultsFalling, rowsFalling) := by
    cbv
  rw [hraise] at htells
  rw [hnone] at hkeys
  exact ⟨hnone ▸ hordered #[], ⟨p₁, hrun₁, htells⟩, ⟨p₂, hrun₂, hkeys⟩, σ₁, σ₂, hcreate, hread,
    hback session σ₁ σ₂ _ _ _ _ _ resultsFalling rowsFalling _ _
      (readings_of_isPlain (by decide)) hselect (by with_unfolding_all decide)
      (by with_unfolding_all decide) (by decide) (by decide) hcreate hread⟩

end StagedStore
