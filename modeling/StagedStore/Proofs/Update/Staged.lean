import StagedStore.Proofs.Staging
import StagedStore.Proofs.Update.Joined

/-!
# Staged batches

What the chunks of a plan leave in the staging table.  The first chunk fills it and the others are
added; in the end it holds what all rows of the plan stage, in no order that matters.
-/

namespace StagedStore

open Memory MemoryDatabase

namespace Plan

variable {s : Schema} {p : Plan} {t : Table}

/-! ## The query is the library's own -/

theorem isMade_ofStorage (v : Storage) : ∀ e ∈ (Sql.Expr.ofStorage v).leaves, e.isMade = true := by
  unfold Sql.Expr.ofStorage
  split
  · split <;> simp [Sql.Expr.leaves, Sql.Expr.isMade]
  · simp [Sql.Expr.leaves, Sql.Expr.isMade]

theorem isMade_qualified (q : Part) (n : String) :
    ∀ e ∈ (Sql.Expr.qualified q n).leaves, e.isMade = true := by
  simp [Sql.Expr.qualified, Sql.Expr.leaves, Sql.Expr.isMade]

theorem isMade_bindRow (p : Plan) (r : PlanRow) : Sql.Binds (p.bindRow r) fun _ es =>
    ∀ e ∈ Sql.Expr.leavesAll es, e.isMade = true := by
  have cell (c : Cell) : Sql.Binds (bindCell c) fun _ e => ∀ l ∈ e.leaves, l.isMade = true := by
    have null : Sql.Binds (return .literal .null : Sql.Binding Sql.Expr) fun _ e =>
        ∀ l ∈ e.leaves, l.isMade = true :=
      Sql.binds_pure fun _ => by simp [Sql.Expr.leaves, Sql.Expr.isMade]
    cases c with
    | value v =>
        refine (Sql.binds_bindValue v).imp ?_
        rintro q e ⟨n, rfl, -⟩
        simp [Sql.Expr.leaves, Sql.Expr.isMade]
    | increment a => exact null
    | untouched => exact null
  unfold bindRow
  refine Sql.binds_bind (cell (.value r.key)) fun key => ?_
  refine Sql.binds_bind (Sql.binds_mapM fun f _ => cell (r.cell f)) fun es => ?_
  refine Sql.binds_pure fun q hes hkey l hl => ?_
  rcases List.mem_append.1 hl with hl | hl
  · exact hkey l hl
  · rw [Sql.Expr.leavesAll_eq] at hl
    obtain ⟨e, he, hl⟩ := List.mem_flatMap.1 hl
    obtain ⟨i, hi, rfl⟩ := List.getElem_of_mem he
    exact hes.get (by rw [hes.length_eq]; exact hi) hi l hl

theorem isMade_resolveField (p : Plan) (rows : List PlanRow) (n : String) :
    ∀ e ∈ (p.resolveField rows n).leaves, e.isMade = true := by
  refine resolveField_induction (P := fun x => ∀ e ∈ x.leaves, e.isMade = true)
    (fun q _ => isMade_qualified q) isMade_ofStorage ?_ ?_ ?_ ?_ p rows n
  · exact fun a b ha hb => List.forall_mem_append.2 ⟨ha, hb⟩
  · exact fun a b ha hb => List.forall_mem_append.2 ⟨ha, hb⟩
  · intro a es ha hes
    rw [Sql.Expr.leaves, Sql.Expr.leavesAll_eq, List.forall_mem_append]
    exact ⟨ha, fun e he => (List.mem_flatMap.1 he).elim fun x hx => hes x hx.1 e hx.2⟩
  · intro arms e harms he
    rw [Sql.Expr.leaves, Sql.Expr.leavesArms_eq, List.forall_mem_append]
    refine ⟨fun l hl => ?_, he⟩
    obtain ⟨a, ha, hl⟩ := List.mem_flatMap.1 hl
    exact (List.mem_append.1 hl).elim ((harms a ha).1 l) ((harms a ha).2 l)

theorem isMade_select (p : Plan) (s : Schema) (rows : List PlanRow) :
    ∀ e ∈ (p.select s rows).1.leaves, e.isMade = true := by
  have htuples : ∀ es ∈ (rows.mapM p.bindRow #[]).1, ∀ e ∈ Sql.Expr.leavesAll es,
      e.isMade = true := by
    have hall := ((Sql.binds_mapM fun r (_ : r ∈ rows) => isMade_bindRow p r) #[]).2 _ (.refl _)
    intro es hes
    obtain ⟨i, hi, rfl⟩ := List.getElem_of_mem hes
    exact hall.get (by rw [hall.length_eq]; exact hi) hi
  intro e he
  change e ∈ Sql.Select.leaves (.mk
    (.expr (.qualified planned p.key) (some (.quoted p.key)) ::
      p.fields.map fun f => .expr (p.resolveField rows f) (some (.quoted f)))
    (some (.join (p.plannedSource (rows.mapM p.bindRow #[]).1)
      (.table s.table.allQuoted (some origin))
      (.compare .eq (.qualified origin p.key) (.qualified planned p.key)))) none [] none) at he
  simp only [Sql.Select.leaves, Sql.ResultColumn.leaves, Sql.leavesFrom, Sql.Source.leaves,
    plannedSource, Sql.leaves?, Sql.Expr.leaves, List.flatMap_cons, List.flatMap_map,
    List.mem_append, List.mem_flatMap, List.mem_mapIdx, Option.elim_none, List.flatMap_nil,
    List.not_mem_nil, or_false] at he
  rcases he with (he | ⟨n, -, he⟩) | (⟨c, ⟨i, hi, rfl⟩, he⟩ | ⟨es, hes, he⟩) | he | he
  · exact isMade_qualified _ _ e he
  · exact isMade_resolveField p rows n e he
  · obtain rfl : e = _ := by simpa [Sql.Expr.leaves] using he
    rfl
  · exact htuples es hes e he
  · exact isMade_qualified _ _ e he
  · exact isMade_qualified _ _ e he

/-! ## The staging table -/

theorem length_staged (s : Schema) (p : Plan) (r : PlanRow) (e : Entry) :
    (r.staged s p e).length = p.columns.length := by
  simp [PlanRow.staged, columns]

theorem mem_stagedRows {rows : List PlanRow} {row : Array Storage} :
    row ∈ stagedRows s p t rows ↔
      ∃ r ∈ rows, ∃ e ∈ t.entries, s.keyCell e = r.key.kept ∧
        (r.staged s p e).toArray = row := by
  simp [stagedRows, mem_matching, PlanRow.kept, and_assoc]

theorem stagedRows_append (rows rows' : List PlanRow) :
    stagedRows s p t (rows ++ rows') = stagedRows s p t rows ++ stagedRows s p t rows' :=
  List.flatMap_append

/-- A column that is filled from a computed result. -/
def stagedColumn (n : String) : Column :=
  ⟨n, .blob, false⟩

/-- Beside the origin table, the staging table holds some rows. -/
structure Staged (s : Schema) (p : Plan) (a : Area) (t : Table) (stg : StagingTable)
    (rows : List (Array Storage)) (c : Catalog) : Prop where
  origin : c.find s.table.allQuoted = .ok (a, t)
  staging : ∃ u, c.findIn? .temp stg.name = some u ∧ u.columns = p.columns.map stagedColumn ∧
    u.key = none ∧ u.cells.Perm rows

theorem convert_staged {u : Table} (hu : u.columns = p.columns.map stagedColumn)
    {row : List Storage} (hrow : row.length = p.columns.length) :
    u.convert row = row.toArray := by
  unfold Table.convert
  rw [hu, List.zipWith_map_left]
  congr 1
  exact List.ext_getElem (by simp [hrow]) fun i _ _ => by simp [stagedColumn, Affinity.store]

theorem map_convert_stagedRows {u : Table} (hu : u.columns = p.columns.map stagedColumn)
    (rows : List PlanRow) :
    (stagedRows s p t rows).map (fun row => u.convert row.toList) = stagedRows s p t rows := by
  refine (List.map_congr_left fun row hrow => ?_).trans (List.map_id _)
  obtain ⟨r, -, e, -, -, rfl⟩ := mem_stagedRows.1 hrow
  exact convert_staged hu (length_staged s p r e)

theorem Ready.columns_tableOfRows (h : p.Ready s t) {os : List Output}
    (hnames : os.map Output.name = p.columns) (haff : ∀ o ∈ os, o.affinity = .none) (name : String)
    (rows : List (Array Storage)) :
    (tableOfRows name os rows).columns = p.columns.map stagedColumn := by
  unfold tableOfRows
  dsimp only
  rw [hnames, distinctNames_eq h.columns_nodup (by simp), ← hnames, List.zip_map_left]
  refine List.ext_getElem (by simp) fun i hi hi' => ?_
  have hi : i < os.length := by simpa using hi
  simp [stagedColumn, haff _ (List.getElem_mem hi), storedAffinity]

section Run

variable {stg : StagingTable} {a : Area} {rows : List PlanRow}
  {σ σ' : Session MemoryDatabase} (h : p.Ready s t)
  (hclear : s.table.Clear stg.name) (hrows : ∀ r ∈ rows, r ∈ p.rows)

include h hclear hrows

/-- The first chunk makes the staging table. -/
theorem Ready.staged_create (hne : rows ≠ [])
    (hfind : σ.database.catalog.find s.table.allQuoted = .ok (a, t)) {n : UInt64}
    (hrun : outcome (stg.create (.select (p.select s rows).1) (p.select s rows).2) σ =
      (.ok n, σ')) :
    Staged s p a t stg (stagedRows s p t rows) σ'.database.catalog := by
  obtain ⟨os, out, heval, hdb⟩ := StagingTable.create_made (isMade_select p s rows) hrun
  have hdropped := Catalog.dropped_drop stg.name σ.database.catalog
  generalize σ.database.catalog.drop .temp stg.name = c at hdropped heval hdb
  have horigin : c.find s.table.allQuoted = .ok (a, t) := by
    rw [hdropped.find (Identifier.clear_allQuoted.2 hclear), hfind]
  obtain ⟨os', heval', hnames, haff⟩ := h.evalSelect_select ⟨c, _, _⟩ hrows hne horigin rfl
  obtain ⟨rfl, rfl⟩ := Prod.mk.inj (Except.ok.inj (heval.symm.trans heval'))
  have hcols := h.columns_tableOfRows hnames haff stg.name (stagedRows s p t rows)
  have hself : (c.add .temp (tableOfRows stg.name os (stagedRows s p t rows))).findIn? .temp
      stg.name = some (tableOfRows stg.name os (stagedRows s p t rows)) :=
    Catalog.findIn?_add_self (show foldName stg.name = _ from rfl) hdropped.gone
  rw [hdb]
  refine ⟨?_, _, hself, hcols, rfl, ?_⟩
  · rw [← horigin]
    exact (Catalog.beside_add rfl).find (Identifier.clear_allQuoted.2 hclear)
  · rw [cells_tableOfRows, map_convert_stagedRows hcols]
    exact List.reverse_perm _

/-- A further chunk is added to the rows before it. -/
theorem Ready.staged_append (hne : rows ≠ []) {before : List (Array Storage)}
    (hstaged : Staged s p a t stg before σ.database.catalog)
    (hrun : outcome (p.stageNext s stg rows) σ = (.ok (), σ')) :
    Staged s p a t stg (before ++ stagedRows s p t rows) σ'.database.catalog := by
  obtain ⟨n, σ₁, happend, hrun⟩ := Action.outcome_bind_eq_ok_iff.1 hrun
  obtain ⟨-, rfl⟩ := Prod.mk.inj hrun
  obtain ⟨b, u, os, out, i, lastKey, hfind, heval, hinsert, hdb⟩ :=
    StagingTable.append_ok (isMade_select p s rows) happend
  obtain ⟨u', hu', hcols, hkey, hcells⟩ := hstaged.staging
  obtain ⟨rfl, rfl⟩ := Prod.mk.inj (Except.ok.inj (hfind.symm.trans (Catalog.find_staging hu')))
  obtain ⟨os', heval', -, -⟩ := h.evalSelect_select
    (σ.database.context (p.select s rows).2) hrows hne hstaged.origin rfl
  obtain ⟨rfl, rfl⟩ := Prod.mk.inj (Except.ok.inj (heval.symm.trans heval'))
  obtain ⟨hcols', hname', hkey', hcells'⟩ :=
    Insertion.cells_insertAll (s := Insertion.start u) hkey hinsert
  have hin : foldName i.table.name = foldName stg.name :=
    (congrArg foldName hname').trans (Catalog.name_of_findIn? hu')
  rw [hdb]
  refine ⟨?_, i.table, Catalog.findIn?_replace_self hin hu', hcols'.trans hcols, hkey', ?_⟩
  · rw [← hstaged.origin]
    exact (Catalog.beside_replace hin).find (Identifier.clear_allQuoted.2 hclear)
  · refine hcells'.trans (hcells.append ?_)
    rw [List.map_map]
    exact .of_eq (map_convert_stagedRows hcols rows)

omit hrows in
/-- Every further chunk is added behind the others. -/
theorem Ready.staged_forM {chunks : List (List PlanRow)}
    (hchunks : ∀ c ∈ chunks, c ≠ [] ∧ ∀ r ∈ c, r ∈ p.rows) {before : List (Array Storage)}
    (hstaged : Staged s p a t stg before σ.database.catalog)
    (hrun : outcome (chunks.forM (p.stageNext s stg)) σ = (.ok (), σ')) :
    Staged s p a t stg (before ++ stagedRows s p t chunks.flatten) σ'.database.catalog := by
  induction chunks generalizing σ before with
  | nil =>
      obtain ⟨-, rfl⟩ := Prod.mk.inj hrun
      rw [List.flatten_nil]
      exact (List.append_nil before).symm ▸ hstaged
  | cons c chunks ih =>
      change outcome (p.stageNext s stg c >>= fun _ => chunks.forM (p.stageNext s stg)) σ = _ at hrun
      obtain ⟨⟨⟩, σ₁, hc, hrun⟩ := Action.outcome_bind_eq_ok_iff.1 hrun
      obtain ⟨hne, hrows⟩ := hchunks c (by simp)
      have hstep := h.staged_append hclear hrows hne hstaged hc
      have hrest := ih (fun d hd => hchunks d (by simp [hd])) hstep hrun
      rw [List.flatten_cons, stagedRows_append, ← List.append_assoc]
      exact hrest

omit hrows in
/-- When every chunk is staged, the staging table holds what all rows of the plan stage. -/
theorem Ready.staged_stage (hne : p.rows ≠ [])
    (hfind : σ.database.catalog.find s.table.allQuoted = .ok (a, t))
    (hrun : outcome (p.stage s stg) σ = (.ok (), σ')) :
    Staged s p a t stg (stagedRows s p t p.rows) σ'.database.catalog := by
  have hflat : p.chunks.flatten = p.rows := flatten_chunksOf _ p.chunkSize_ne_zero _
  have hmem : ∀ c ∈ p.chunks, c ≠ [] ∧ ∀ r ∈ c, r ∈ p.rows := by
    intro c hc
    refine ⟨ne_nil_of_mem_chunksOf hc, fun r hr => ?_⟩
    rw [← hflat]
    exact List.mem_flatten.2 ⟨c, hc, hr⟩
  unfold stage at hrun
  cases hchunks : p.chunks with
  | nil =>
      rw [hchunks] at hflat
      exact absurd hflat.symm hne
  | cons c cs =>
      rw [hchunks] at hrun hmem hflat
      obtain ⟨n, σ₁, hcreate, hrun⟩ := Action.outcome_bind_eq_ok_iff.1 hrun
      obtain ⟨hcne, hc⟩ := hmem c (by simp)
      have hfirst := h.staged_create hclear hc hcne hfind hcreate
      have hall := h.staged_forM hclear (fun d hd => hmem d (by simp [hd])) hfirst hrun
      rw [← stagedRows_append, ← List.flatten_cons, hflat] at hall
      exact hall

end Run

end Plan

end StagedStore
