import Mathlib.Data.List.Perm.Basic
import StagedStore.Proofs.Staging.Filled

/-!
# Staged rows read back

Reading a staging table back gives its rows, and gives them in the order in which they were staged
unless one of its columns has the name of the hidden key: such a column is what they are ordered by.
-/

namespace StagedStore

open Memory MemoryDatabase Sql

/-- What is a permutation of images has images of a permutation. -/
theorem exists_perm_map {α β : Type} {g : β → α} {xs : List α} {ys : List β}
    (h : xs.Perm (ys.map g)) : ∃ zs : List β, zs.Perm ys ∧ xs = zs.map g := by
  have himages : List.Forall₂ (fun x y => x = g y) (ys.map g) ys := by
    rw [List.forall₂_map_left_iff, List.forall₂_same]
    exact fun _ _ => rfl
  obtain ⟨zs, hzs, hperm⟩ := List.perm_comp_forall₂ h himages
  refine ⟨zs, hperm, ?_⟩
  rwa [← List.forall₂_map_right_iff, List.forall₂_eq_eq_eq] at hzs

namespace Memory

theorem sortRows_perm (terms : List (Term × Bool)) (rows : List (Array Storage)) :
    (sortRows terms rows).Perm rows := by
  unfold sortRows
  split
  · exact .refl _
  · refine ((List.mergeSort_perm _ _).map Prod.snd).trans ?_
    rw [List.map_map]
    exact .of_eq (List.map_id _)

/-- Rows that stand as the terms ask stay as they are. -/
theorem sortRows_of_pairwise {terms : List (Term × Bool)} {rows : List (Array Storage)}
    (h : rows.Pairwise fun a b => orderedBefore (terms.map fun c => (c.1.eval a, c.2))
      (terms.map fun c => (c.1.eval b, c.2)) = true) : sortRows terms rows = rows := by
  unfold sortRows
  split
  · rfl
  · dsimp only
    rw [List.mergeSort_of_pairwise]
    · rw [List.map_map]
      exact List.map_id _
    · exact List.pairwise_map.2 h

/-- Rows that stand by ascending key stay as they are when they are ordered by the key. -/
theorem sortRows_hidden {es : List Entry} (h : es.Pairwise fun a b => a.id < b.id) :
    sortRows [(.slot 0, false)] (es.map Table.rowOf) = es.map Table.rowOf := by
  refine sortRows_of_pairwise (List.pairwise_map.2 (h.imp fun {a b} hab => ?_))
  have hkey (e : Entry) : (Term.slot 0).eval (Table.rowOf e) = .integer e.id := by
    simp [Term.eval, Table.rowOf]
  have hcmp : (Storage.integer a.id).cmp (.integer b.id) = .lt := by
    rw [Storage.cmp, Int.compare_eq_lt]
    exact Int64.lt_iff_toInt_lt.1 hab
  simp only [List.map_cons, List.map_nil, hkey, orderedBefore, Bool.false_eq_true, if_false, hcmp]

/-- Without a column of that name, `rowid` is the hidden key. -/
theorem orderTerm_hidden {r : Resolver} {u : Table} {source : String}
    (hslots : r.slots = u.slots source) (halias : r.aliases = [])
    (hcolumns : ∀ c ∈ u.columns, foldName c.name ≠ "rowid") :
    orderTerm r (.column none (.bare "rowid")) = .ok (.slot 0) := by
  have hfold : foldName "rowid" = "rowid" := by decide +kernel
  have hvisible : Resolver.placesFrom (fun s => s.key = foldName "rowid" && !s.isHidden &&
      Resolver.inSource none s) 0 r.slots = [] := by
    refine Resolver.placesFrom_eq_nil fun s hs => ?_
    rw [hslots, Table.slots] at hs
    rcases List.mem_cons.1 hs with rfl | hs
    · simp [Slot.hidden]
    · obtain ⟨c, hc, rfl⟩ := List.mem_map.1 hs
      simp [Slot.ofColumn, hfold, hcolumns c hc]
  have hhidden : Resolver.placesFrom (fun s => s.isHidden && Resolver.inSource none s) 0 r.slots =
      [(.hidden source, 0)] := by
    rw [hslots, Table.slots, Resolver.placesFrom, if_pos (by rfl), Resolver.placesFrom_eq_nil]
    intro s hs
    obtain ⟨c, -, rfl⟩ := List.mem_map.1 hs
    rfl
  have hplace : r.place? none "rowid" = .ok (some (.hidden source, 0)) := by
    unfold Resolver.place?
    dsimp only [Option.map_none]
    rw [hvisible, hhidden]
    rw [hfold]
    rfl
  have hname : r.resolveName none (.bare "rowid") = .ok ⟨.slot 0, .integer⟩ := by
    unfold Resolver.resolveName
    rw [show r.place? none (Part.bare "rowid").name = _ from hplace]
    rfl
  unfold orderTerm
  rw [halias]
  exact congrArg (Except.map Resolved.term) hname

/-- Results without labels give no aliases. -/
theorem aliasesOf_unlabelled {cs : List ResultColumn} (h : ∀ c ∈ cs, ∃ e, c = .expr e none)
    (results : List (List Output)) : aliasesOf cs results = [] := by
  unfold aliasesOf
  rw [List.filterMap_eq_nil_iff]
  rintro ⟨c, os⟩ hx
  obtain ⟨e, rfl⟩ := h c (List.of_mem_zip hx).1
  rfl

/-- Staged rows are read back by ascending key, if no column has the name of the hidden key. -/
theorem orderTerms_hidden {r : Resolver} {u : Table} {source : String} {cs : List ResultColumn}
    {results : List (List Output)} (hslots : r.slots = u.slots source)
    (hcs : ∀ c ∈ cs, ∃ e, c = .expr e none) (hcolumns : ∀ c ∈ u.columns, foldName c.name ≠ "rowid") :
    orderTerms { r with aliases := aliasesOf cs results }
      [⟨.column none (.bare "rowid"), none⟩] = .ok [(.slot 0, false)] := by
  have hterm : orderTerm { r with aliases := aliasesOf cs results }
      (.column none (.bare "rowid")) = .ok (.slot 0) :=
    orderTerm_hidden hslots (aliasesOf_unlabelled hcs results) hcolumns
  unfold orderTerms
  rw [List.mapM_cons, List.mapM_nil, hterm]
  rfl

end Memory

/-- Rows as they are told of others: all of them, and in the same order unless a column has the name
of the hidden key or there are more rows than keys. -/
structure Recalled (names : List String) (es es' : List Entry) : Prop where
  perm : es'.Perm es
  ordered : (∀ n ∈ names, foldName n ≠ "rowid") → es.length < 2 ^ 63 → es' = es

namespace StagingTable

variable {stg : StagingTable} {os : List Output} {es : List Entry} {u : Table}
  {names columns : List String} {rows : List Row} {σ σ' : Session MemoryDatabase}

/-- The results that staged columns are read back by. -/
def readBackResults (u : Table) (names columns : List String) : List (List Output) :=
  columns.map fun c => [⟨c, .slot (1 + names.idxOf c),
    ((u.columns[names.idxOf c]?).map Column.affinity).getD .none⟩]

theorem outputs_readBack (hu : u.Named names) (hcolumns : ∀ c ∈ columns, c ∈ names) {r : Resolver}
    (hslots : r.slots = u.slots u.name) :
    (columns.map fun c => Sql.ResultColumn.expr (.ofName c) none).mapM (outputs r) =
      .ok (readBackResults u names columns) := by
  have hnodup := hu.nodup
  rw [← hu.columns, List.map_map] at hnodup
  rw [List.mapM_map]
  refine Except.mapM_eq_ok_map fun c hc => ?_
  obtain ⟨d, hd, rfl⟩ := exists_column hu (hcolumns c hc)
  rw [Function.comp_apply, Table.outputs_ofName hslots hnodup hd, hd]
  rfl

/-- The rows that are read back, before their columns are chosen. -/
theorem sortRows_readBack (hu : u.Named names) {r : Resolver} (hslots : r.slots = u.slots u.name)
    {results : List (List Output)} {terms : List (Term × Bool)}
    (hterms : orderTerms { r with
        aliases := aliasesOf (columns.map fun c => .expr (.ofName c) none) results }
      [⟨.column none (.bare "rowid"), none⟩] = .ok terms) :
    ∃ es : List Entry, es.Perm u.entries ∧
      ((∀ n ∈ names, foldName n ≠ "rowid") → (u.entries.Pairwise fun a b => b.id < a.id) →
        es = u.entries.reverse) ∧ sortRows terms u.scan = es.map Table.rowOf := by
  have hscan : u.scan = u.entries.reverse.map Table.rowOf := by
    rw [Table.scan_eq, List.map_reverse]
  rw [hscan]
  by_cases hcond : (∀ n ∈ names, foldName n ≠ "rowid") ∧
      u.entries.Pairwise fun a b => b.id < a.id
  · obtain ⟨hnames, hsorted⟩ := hcond
    have hunlabelled (c : Sql.ResultColumn)
        (hc : c ∈ columns.map fun c => Sql.ResultColumn.expr (.ofName c) none) :
        ∃ e, c = .expr e none := by
      obtain ⟨n, -, rfl⟩ := List.mem_map.1 hc
      exact ⟨_, rfl⟩
    have hhidden (c : Column) (hc : c ∈ u.columns) : foldName c.name ≠ "rowid" :=
      hnames c.name (hu.columns ▸ List.mem_map_of_mem hc)
    obtain rfl := Except.ok.inj
      ((orderTerms_hidden hslots hunlabelled hhidden).symm.trans hterms)
    exact ⟨u.entries.reverse, List.reverse_perm _, fun _ _ => rfl,
      sortRows_hidden (List.pairwise_reverse.2 hsorted)⟩
  · obtain ⟨es, hes, hrows⟩ :=
      exists_perm_map (sortRows_perm terms (u.entries.reverse.map Table.rowOf))
    exact ⟨es, hes.trans (List.reverse_perm _),
      fun hnames hsorted => absurd ⟨hnames, hsorted⟩ hcond, hrows⟩

/-- The rows of a staging table are read back, and by ascending key unless a column has the name of
the hidden key. -/
theorem readBack_entries (hfind : σ.database.catalog.findIn? .temp stg.name = some u)
    (hu : u.Named names) (hcolumns : ∀ c ∈ columns, c ∈ names)
    (h : outcome (stg.readBack columns) σ = (.ok rows, σ')) :
    σ'.database = σ.database ∧ ∃ es : List Entry, es.Perm u.entries ∧
      ((∀ n ∈ names, foldName n ≠ "rowid") → (u.entries.Pairwise fun a b => b.id < a.id) →
        es = u.entries.reverse) ∧
      rows = es.map fun e => ⟨columns, columns.map (namedCell names e.cells)⟩ := by
  obtain ⟨r, hfirst, rfl, -⟩ := Session.queryAll_ok h
  obtain ⟨hsame, os, rows, hq, rfl⟩ := executeFirst_select
    (readings_of_isPlain (stg.isPlain_readBackQuery columns)) hfirst
  refine ⟨hsame, ?_⟩
  obtain ⟨src, results, c, terms, hsource, hresults, hc, hterms, rfl, rfl⟩ :=
    evalSelect_ok (by simp [isCount, Expr.ofName]) hq
  obtain rfl : ⟨u.slots u.name, u.scan⟩ = src := by
    change evalSource _ (.table stg.table none) = _ at hsource
    rw [evalSource] at hsource
    change (σ.database.catalog.find stg.table >>= _) = _ at hsource
    rw [Catalog.find_staging hfind] at hsource
    exact Except.ok.inj hsource
  obtain rfl := Except.ok.inj ((outputs_readBack hu hcolumns rfl).symm.trans hresults)
  obtain rfl : Term.cell (.ofBool true) = c := Except.ok.inj hc
  have hall : u.scan.filter (Term.cell (.ofBool true)).holds = u.scan :=
    List.filter_eq_self.2 fun _ _ => rfl
  obtain ⟨es, hes, hordered, hrows⟩ := sortRows_readBack hu rfl hterms
  have hcell (e : Entry) (c : String) :
      (Term.slot (1 + names.idxOf c)).eval (Table.rowOf e) = namedCell names e.cells c := by
    have hget := Table.getElem?_append_rowOf (l := #[]) (n := 0) rfl e (names.idxOf c)
    simp only [Array.empty_append, Nat.zero_add] at hget
    rw [Term.eval, hget, namedCell]
  refine ⟨es, hes, hordered, ?_⟩
  rw [hall, rowsOf, readBackResults, flatten_singletons, cutRows, hrows]
  simp only [resultRows, project, List.map_map, Function.comp_def, hcell, List.map_id_fun', id]

/-- The rows of a staging table are read back. -/
theorem readBack_named (hfind : σ.database.catalog.findIn? .temp stg.name = some u)
    (hu : u.Named names) (hcolumns : ∀ c ∈ columns, c ∈ names)
    (h : outcome (stg.readBack columns) σ = (.ok rows, σ')) :
    σ'.database = σ.database ∧ ∃ vs : List (Array Storage), vs.Perm u.cells ∧
      rows = vs.map fun cells => ⟨columns, columns.map (namedCell names cells)⟩ := by
  obtain ⟨hsame, es, hes, -, rfl⟩ := readBack_entries hfind hu hcolumns h
  refine ⟨hsame, es.map Entry.cells, hes.map Entry.cells, ?_⟩
  rw [List.map_map]
  rfl

/-- Rows are told alike of what has the same cells. -/
theorem told_of_cells {α : Type} {es : List Entry} {xs : List α} {cells : α → Array Storage}
    (h : es.map Entry.cells = xs.map cells) (names columns : List String) :
    (es.map fun e => (⟨columns, columns.map (namedCell names e.cells)⟩ : Row)) =
      xs.map fun x => ⟨columns, columns.map (namedCell names (cells x))⟩ := by
  have hrows := congrArg (List.map fun cells =>
    (⟨columns, columns.map (namedCell names cells)⟩ : Row)) h
  rwa [List.map_map, List.map_map] at hrows

/-- The staged rows of a filter's rows are read back. -/
theorem readBack_ok (hu : stg.Filled os es σ.database.catalog u)
    (hn : (os.map fun o => foldName o.name).Nodup) (hcolumns : ∀ c ∈ columns, c ∈ os.map Output.name)
    (h : outcome (stg.readBack columns) σ = (.ok rows, σ')) :
    σ'.database = σ.database ∧ ∃ es' : List Entry, Recalled (os.map Output.name) es es' ∧
      rows = es'.map fun e =>
        ⟨columns, columns.map (namedCell (os.map Output.name) (stagedCells os e))⟩ := by
  obtain ⟨hsame, vs, hvs, hordered, rfl⟩ := readBack_entries hu.staging (hu.named hn) hcolumns h
  refine ⟨hsame, ?_⟩
  by_cases hcond : (∀ n ∈ os.map Output.name, foldName n ≠ "rowid") ∧ es.length < 2 ^ 63
  · obtain ⟨hnames, hfew⟩ := hcond
    obtain rfl := hordered hnames (hu.sorted hfew)
    refine ⟨es, ⟨.refl _, fun _ _ => rfl⟩, ?_⟩
    have hcells : u.entries.reverse.map Entry.cells = es.map (stagedCells os) := by
      have hstaged : u.entries.map Entry.cells = (es.map (stagedCells os)).reverse := hu.staged
      rw [List.map_reverse, hstaged, List.reverse_reverse]
    exact told_of_cells hcells _ columns
  · obtain ⟨es', hes, hcells⟩ := exists_perm_map ((hvs.map Entry.cells).trans hu.cells)
    refine ⟨es', ⟨hes, fun hnames hfew => absurd ⟨hnames, hfew⟩ hcond⟩, ?_⟩
    exact told_of_cells hcells _ columns

/-! ## The rows of any query -/

/-- A row of results, as a table that is filled with them keeps it. -/
def keptCells (os : List Output) (row : Array Storage) : Array Storage :=
  (os.zipWith (fun o v => (storedAffinity o.affinity).store v) row.toList).toArray

/-- Columns of a query's rows, as they are read back from the staging table that it fills. -/
def recalled (os : List Output) (columns : List String) (out : List (Array Storage)) : List Row :=
  out.map fun row => ⟨columns, columns.map (namedCell (os.map Output.name) (keptCells os row))⟩

theorem convert_tableOfRows (hn : (os.map fun o => foldName o.name).Nodup) (name : String)
    (rows : List (Array Storage)) (row : Array Storage) :
    (tableOfRows name os rows).convert row.toList = keptCells os row := by
  simp only [Table.convert, columns_tableOfRows hn, stagedColumns, keptCells, List.zipWith_map_left]

/-- Every row of a query has a cell for each result. -/
theorem size_of_evalSelect {ctx : Context} {q : Sql.Select} {rows : List (Array Storage)}
    (h : evalSelect ctx q = .ok (os, rows)) : ∀ row ∈ rows, row.size = os.length := by
  cases q with
  | mk columns source condition order limit =>
      rw [evalSelect] at h
      obtain ⟨s, -, h⟩ := Except.bind_eq_ok_iff.1 h
      obtain ⟨results, -, h⟩ := Except.bind_eq_ok_iff.1 h
      obtain ⟨c, -, h⟩ := Except.bind_eq_ok_iff.1 h
      obtain ⟨terms, -, h⟩ := Except.bind_eq_ok_iff.1 h
      obtain ⟨rfl, rfl⟩ := Prod.mk.inj (Except.ok.inj h)
      intro row hrow
      obtain ⟨x, -, rfl⟩ := List.mem_map.1 hrow
      rw [List.size_toArray, List.length_map]

/-- Whatever query fills a staging table, its rows are read back as the query gives them and in this
order, if no column has the name of the hidden key. -/
theorem readBack_created {q : Sql.Query} {q' : Sql.Select} {params : Sql.Params} {n : UInt64}
    {rest : List (Option Sql.Statement)} {out : List (Array Storage)} {σ₁ : Session MemoryDatabase}
    (hread : readings (.createTemporary (.quoted stg.name) q) =
      some (.createTemporary (.quoted stg.name) (.select q')) :: rest)
    (hq : evalSelect ⟨σ.database.catalog.drop .temp stg.name, params, σ.database.lastKey⟩ q' =
      .ok (os, out))
    (hn : (os.map fun o => foldName o.name).Nodup) (hrowid : ∀ o ∈ os, foldName o.name ≠ "rowid")
    (hfew : out.length < 2 ^ 63) (hcolumns : ∀ c ∈ columns, c ∈ os.map Output.name)
    (hcreate : outcome (stg.create q params) σ = (.ok n, σ₁))
    (hback : outcome (stg.readBack columns) σ₁ = (.ok rows, σ')) :
    rows = recalled os columns out := by
  obtain ⟨os', out', hq', hdb⟩ := create_ok hread hcreate
  obtain ⟨rfl, rfl⟩ := Prod.mk.inj (Except.ok.inj (hq.symm.trans hq'))
  have hcells := cells_tableOfRows stg.name os out
  simp only [convert_tableOfRows hn] at hcells
  have hnamed : (tableOfRows stg.name os out).Named (os.map Output.name) :=
    { columns := by rw [columns_tableOfRows hn, stagedColumns, List.map_map]; rfl
      nodup := by rwa [List.map_map]
      sizes := fun row hrow => by
        rw [hcells, List.mem_reverse] at hrow
        obtain ⟨x, hx, rfl⟩ := List.mem_map.1 hrow
        simp [keptCells, size_of_evalSelect hq x hx] }
  have hstaging : σ₁.database.catalog.findIn? .temp stg.name = some (tableOfRows stg.name os out) := by
    rw [hdb]
    exact Catalog.findIn?_add_self (show foldName stg.name = foldName stg.name from rfl)
      (Catalog.dropped_drop ..).gone
  obtain ⟨-, es, -, hordered, rfl⟩ := readBack_entries hstaging hnamed hcolumns hback
  obtain rfl := hordered (fun n hn => by
    obtain ⟨o, ho, rfl⟩ := List.mem_map.1 hn
    exact hrowid o ho) (sorted_tableOfRows hfew _ _)
  have hall : (tableOfRows stg.name os out).entries.reverse.map Entry.cells =
      out.map (keptCells os) := by
    have hstaged : (tableOfRows stg.name os out).entries.map Entry.cells = _ := hcells
    rw [List.map_reverse, hstaged, List.reverse_reverse]
  exact told_of_cells hall _ columns

end StagingTable

end StagedStore
