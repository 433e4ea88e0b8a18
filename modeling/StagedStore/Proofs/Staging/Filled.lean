import Mathlib.Data.List.Perm.Basic
import StagedStore.Proofs.Filter.Statements
import StagedStore.Proofs.Staging.Update

/-!
# Staging tables filled from a filter

A staging table that a query of a filter fills has a row for each row that the filter matches: the
cells of the query's results, as the columns of the staging table keep them. The rows stand under
ascending keys in the order in which the filter gives them.
-/

namespace StagedStore

open Memory MemoryDatabase Sql

namespace Memory

variable {os : List Output}

/-- The cells of results for a row, as a table that is filled with them keeps them. -/
def stagedCells (os : List Output) (e : Entry) : Array Storage :=
  (os.map fun o => (storedAffinity o.affinity).store (o.term.eval (Table.rowOf e))).toArray

/-- The columns of a table that is filled with results. -/
def stagedColumns (os : List Output) : List Column :=
  os.map fun o => ⟨o.name, storedAffinity o.affinity, false⟩

theorem columns_tableOfRows (hn : (os.map fun o => foldName o.name).Nodup) (name : String)
    (rows : List (Array Storage)) : (tableOfRows name os rows).columns = stagedColumns os := by
  have hnames : distinctNames [] (os.map Output.name) = os.map Output.name :=
    distinctNames_eq (by rwa [List.map_map]) (by simp)
  unfold tableOfRows stagedColumns
  dsimp only
  rw [hnames]
  refine List.ext_getElem (by simp) fun i hi hi' => ?_
  simp

theorem cells_staged (hn : (os.map fun o => foldName o.name).Nodup) (name : String)
    (es : List Entry) :
    (tableOfRows name os (project os (es.map Table.rowOf))).cells =
      (es.map (stagedCells os)).reverse := by
  rw [cells_tableOfRows, project, List.map_map, List.map_map]
  refine congrArg List.reverse (List.map_congr_left fun e _ => ?_)
  simp only [Function.comp_apply, Table.convert, columns_tableOfRows hn, stagedColumns,
    stagedCells, List.zipWith_map_left, List.zipWith_map_right, List.zipWith_self]

/-- The name of a column as a result. -/
theorem Table.outputs_ofName {t : Table} {r : Resolver} {source : String}
    (hslots : r.slots = t.slots source) (hn : (t.columns.map fun c => foldName c.name).Nodup)
    {i : Nat} {c : Column} (hi : t.columns[i]? = some c) :
    outputs r (.expr (.ofName c.name) none) = .ok [⟨c.name, .slot (1 + i), c.affinity⟩] := by
  have hplace : (t.columnSlots source)[i]? = some (.ofColumn (some source) c.name c.affinity) := by
    rw [columnSlots, List.getElem?_map, hi, Option.map_some]
  have hname := Resolver.resolveName_eq (.quoted c.name) [.hidden source] []
    (hslots.trans (t.slots_eq source)) (run_columnSlots (q := none) (by simp) hn)
    (by simpa using Resolver.picks_hidden rfl) (by simp) hplace rfl
  have hslot : r.slots[1 + i]? = some (.ofColumn (some source) c.name c.affinity) := by
    rw [hslots, slots_eq, List.append_nil, List.getElem?_append_right (by simp)]
    simpa using hplace
  change (r.resolveName none (.quoted c.name) >>= fun t => Except.ok [(⟨_, t.term, t.affinity⟩ :
    Output)]) = _
  rw [hname]
  change Except.ok [(⟨((r.slots[1 + i]?).map Slot.name).getD _, .slot (1 + i), c.affinity⟩ :
    Output)] = _
  rw [hslot]
  rfl

end Memory

namespace StagingTable

/-- In a catalog stands a staging table with the rows of some entries. -/
structure Filled (stg : StagingTable) (os : List Output) (es : List Entry) (c : Catalog)
    (u : Table) : Prop where
  staging : c.findIn? .temp stg.name = some u
  columns : u.columns = stagedColumns os
  staged : u.cells = (es.map (stagedCells os)).reverse
  sorted : es.length < 2 ^ 63 → u.entries.Pairwise fun a b => b.id < a.id

variable {stg : StagingTable} {os : List Output} {es : List Entry} {c : Catalog} {u : Table}

theorem Filled.cells (h : stg.Filled os es c u) : u.cells.Perm (es.map (stagedCells os)) :=
  h.staged ▸ List.reverse_perm _

theorem Filled.named (h : stg.Filled os es c u) (hn : (os.map fun o => foldName o.name).Nodup) :
    u.Named (os.map Output.name) where
  columns := by
    rw [h.columns, stagedColumns, List.map_map]
    rfl
  nodup := by rwa [List.map_map]
  sizes row hrow := by
    obtain ⟨e, -, rfl⟩ := List.mem_map.1 (h.cells.subset hrow)
    simp [stagedCells]

/-- The staging table stays as another table changes. -/
theorem Filled.replace (h : stg.Filled os es c u) {a : Area} {t : Table}
    (ht : a = .main ∨ foldName t.name ≠ foldName stg.name) :
    stg.Filled os es (c.replace a t) u where
  staging := (Catalog.findIn?_temp_replace ht).trans h.staging
  columns := h.columns
  staged := h.staged
  sorted := h.sorted

/-- The staged cell of a result. -/
theorem namedCell_staged (hn : (os.map fun o => foldName o.name).Nodup) {o : Output} (ho : o ∈ os)
    (e : Entry) : namedCell (os.map Output.name) (stagedCells os e) o.name =
      (storedAffinity o.affinity).store (o.term.eval (Table.rowOf e)) := by
  have hnames : (os.map Output.name).Nodup :=
    List.Nodup.of_map foldName (by rwa [List.map_map])
  obtain ⟨i, hi⟩ := List.getElem?_of_mem ho
  obtain ⟨hlt, hget⟩ := List.getElem?_eq_some_iff.1 hi
  have hindex : (os.map Output.name).idxOf o.name = i := by
    have hlt' : i < (os.map Output.name).length := by simpa using hlt
    have hname : (os.map Output.name)[i] = o.name := by rw [List.getElem_map, hget]
    rw [← hname, hnames.idxOf_getElem]
  unfold namedCell stagedCells
  rw [hindex]
  simp [hi]

section Run

variable {s : Schema} {t : Table} {f : Filter} {a : Area} {p : Params} {css : List (List Token)}
  {cs : List ResultColumn} {σ σ' : Session MemoryDatabase} {n : UInt64}

/-- The staging table is filled with the columns of a query for the rows that the filter matches. -/
theorem create_matched (hf : f.Suits s t) (hcs : Filter.Takes s p.size css cs)
    (hnul : '\x00' ∉ stg.name.toList) (hclear : s.table.Clear stg.name)
    (hfind : σ.database.catalog.find s.table.allQuoted = .ok (a, t))
    (h : outcome (stg.create (.select (f.query s cs (f.build p).1)) (f.build p).2) σ =
      (.ok n, σ')) :
    ∃ c results, σ.database.catalog.Dropped stg.name c ∧
      cs.mapM (outputs ((⟨c, (f.build p).2, σ.database.lastKey⟩ : Context).resolver
        (t.slots t.name))) = .ok results ∧
      σ'.database = { σ.database with
        catalog := c.add .temp (tableOfRows stg.name results.flatten
          (project results.flatten ((f.matched s t p).map Table.rowOf))) } := by
  obtain ⟨statement, rest, r, hread, -⟩ := create_run h
  obtain ⟨q, rfl, hquery⟩ := Filter.readings_matched (frame_fillTemporary hnul) hf hcs hread
  obtain ⟨os, rows, hq, hdb⟩ := create_ok hread h
  have hdropped := Catalog.dropped_drop stg.name σ.database.catalog
  have horigin : (σ.database.catalog.drop .temp stg.name).find s.table.allQuoted = .ok (a, t) := by
    rw [hdropped.find (Identifier.clear_allQuoted.2 hclear), hfind]
  obtain ⟨results, hresults, rfl, rfl⟩ := hquery horigin rfl hq
  exact ⟨_, results, hdropped, hresults, hdb⟩

/-- Where the results of the columns are known, the staging table is filled with them. -/
theorem create_filled (hf : f.Suits s t) (hcs : Filter.Takes s p.size css cs)
    (hnul : '\x00' ∉ stg.name.toList) (hclear : s.table.Clear stg.name)
    (hfind : σ.database.catalog.find s.table.allQuoted = .ok (a, t))
    (hresults : ∀ (r : Resolver) (results : List (List Output)), r.slots = t.slots t.name →
      r.params = (f.build p).2 → cs.mapM (outputs r) = .ok results → results.flatten = os)
    (hn : (os.map fun o => foldName o.name).Nodup)
    (h : outcome (stg.create (.select (f.query s cs (f.build p).1)) (f.build p).2) σ =
      (.ok n, σ')) :
    ∃ c u, σ.database.catalog.Dropped stg.name c ∧ u.name = stg.name ∧
      σ'.database = { σ.database with catalog := c.add .temp u } ∧
      stg.Filled os (f.matched s t p) σ'.database.catalog u ∧
      σ'.database.catalog.find s.table.allQuoted = .ok (a, t) := by
  obtain ⟨c, results, hdropped, hrun, hdb⟩ := create_matched hf hcs hnul hclear hfind h
  obtain rfl := hresults _ results rfl rfl hrun
  refine ⟨c, _, hdropped, rfl, hdb, ?_, ?_⟩
  · rw [hdb]
    refine ⟨Catalog.findIn?_add_self (show foldName stg.name = foldName stg.name from rfl)
      hdropped.gone, columns_tableOfRows hn _ _, cells_staged hn _ _, fun hfew => ?_⟩
    exact sorted_tableOfRows (by simpa [project] using hfew) _ _
  · rw [hdb, ← hfind]
    exact (hdropped.beside.trans (Catalog.beside_add rfl)).find
      (Identifier.clear_allQuoted.2 hclear)

end Run

end StagingTable

end StagedStore
