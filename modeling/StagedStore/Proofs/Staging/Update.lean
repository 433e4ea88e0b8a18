import StagedStore.Proofs.Memory.Query
import StagedStore.Proofs.Schema.Fields
import StagedStore.Proofs.Staging

/-!
# Updates from staged rows

What updating the origin table from a staging table does.  Each row of the origin table takes the
assigned cells from the one staged row whose key is found equal to its own; a row without one stays.
-/

namespace StagedStore

open Memory MemoryDatabase

/-- A staging table as far as updates read it: the names of its columns and the size of its rows. -/
structure Memory.Table.Named (u : Table) (names : List String) : Prop where
  columns : u.columns.map Column.name = names
  nodup : (names.map foldName).Nodup
  sizes : ∀ row ∈ u.cells, row.size = names.length

/-- The cell of a staged row in the column of a name. -/
def namedCell (names : List String) (row : Array Storage) (n : String) : Storage :=
  row[names.idxOf n]?.getD .null

/-- The assignments that a staged row stands for. -/
def Schema.assignments (s : Schema) (names fields : List String) (row : Array Storage) :
    List (Nat × Storage) :=
  fields.map fun f => (s.fieldIndex f, namedCell names row f)

namespace StagingTable

variable {stg : StagingTable} {s : Schema} {t u : Table} {ctx : Context} {names fields : List String}

theorem foldName_staged : foldName staged.name = "_staged" := by
  with_unfolding_all decide

/-- The resolver of names in an update from staged rows. -/
def beside (ctx : Context) (u t : Table) : Resolver :=
  ctx.resolver (u.slots "_staged" ++ t.slots t.name)

section Named

variable (hu : u.Named names)

include hu

theorem length_slots : (u.slots "_staged").length = names.length + 1 := by
  rw [← hu.columns]
  simp [Table.slots]

theorem resolve_staged (halias : foldName t.name ≠ "_staged") {i : Nat} {c : Column}
    (hc : u.columns[i]? = some c) :
    (beside ctx u t).resolve (.qualified staged c.name) = .ok ⟨.slot (1 + i), c.affinity⟩ := by
  have hslots : (beside ctx u t).slots =
      [Slot.hidden "_staged"] ++ (u.columnSlots "_staged" ++ t.slots t.name) := by
    change u.slots "_staged" ++ t.slots t.name = _
    rw [Table.slots_eq, List.append_nil, List.append_assoc]
  have hrun : Resolver.Run (some staged) (u.columnSlots "_staged") := by
    refine Table.run_columnSlots (by simp [staged, Part.name]) ?_
    have hn := hu.nodup
    rw [← hu.columns, List.map_map] at hn
    exact hn
  have hi : (u.columnSlots "_staged")[i]? =
      some (.ofColumn (some "_staged") c.name c.affinity) := by
    rw [Table.columnSlots, List.getElem?_map, hc, Option.map_some]
  have hbefore : ∀ x ∈ [Slot.hidden "_staged"],
      Resolver.picks (some staged) c.name x = false := by
    intro x hx
    rw [List.mem_singleton.1 hx]
    exact Resolver.picks_hidden rfl
  have hbehind : ∀ x ∈ t.slots t.name, Resolver.picks (some staged) c.name x = false := by
    intro x hx
    refine Resolver.picks_other ?_
    rw [Table.source_of_mem_slots hx, foldName_staged]
    exact fun he => halias (Option.some.inj he)
  rw [Sql.Expr.qualified, Resolver.resolve,
    Resolver.resolveName_eq (.quoted c.name) _ _ hslots hrun hbefore hbehind hi rfl]
  simp [Slot.ofColumn]

theorem resolve_origin (h : s.Fits t) (htable : foldName t.name = foldName s.table.name)
    (halias : foldName t.name ≠ "_staged") {i : Nat} {f : Field} (hf : s.fields[i]? = some f) :
    (beside ctx u t).resolve (.qualified (.quoted s.table.name) f.name) =
      .ok ⟨.slot (names.length + 1 + 1 + i), f.affinity⟩ := by
  have hres := h.resolve_field (r := beside ctx u t) (q := some (.quoted s.table.name))
    (u.slots "_staged") [] t.name (by rw [List.append_nil]; rfl)
    (by simp [Part.name, htable]) (fun x hx => Resolver.picks_other ?_) (by simp) hf
  · rw [length_slots hu] at hres
    exact hres
  · rw [Table.source_of_mem_slots hx]
    intro he
    have hstaged : foldName "_staged" = "_staged" := foldName_staged
    exact halias (htable.trans ((Option.some.inj he).symm.trans hstaged))

theorem exists_column {n : String} (hn : n ∈ names) :
    ∃ c, u.columns[names.idxOf n]? = some c ∧ c.name = n := by
  have hlt := List.idxOf_lt_length_of_mem hn
  have hlt' : names.idxOf n < u.columns.length := by
    have hlength := congrArg List.length hu.columns
    rw [List.length_map] at hlength
    omega
  refine ⟨u.columns[names.idxOf n], List.getElem?_eq_getElem hlt', ?_⟩
  have hget : (u.columns.map Column.name)[names.idxOf n]? = some n := by
    rw [hu.columns, List.getElem?_eq_getElem hlt, List.getElem_idxOf]
  rw [List.getElem?_map, List.getElem?_eq_getElem hlt', Option.map_some] at hget
  exact Option.some.inj hget

end Named

/-! ## The assignments of a row -/

/-- The condition that joins staged rows with rows of the origin table. -/
def keyTerm (s : Schema) (names : List String) (c : Column) : Term :=
  .compare .eq (s.primaryKey.affinity.forComparison c.affinity)
    (.slot (names.length + 1 + 1 + s.keyIndex)) (.slot (1 + names.idxOf s.primaryKey.name))

/-- The terms of the assigned cells. -/
def assignedTerms (names fields : List String) : List Term :=
  fields.map fun f => .slot (1 + names.idxOf f)

/-- Whether the key of a staged row is found equal to that of a row. -/
def meets (s : Schema) (names : List String) (c : Column) (row : Array Storage) (e : Entry) : Bool :=
  ((s.keyCell e).compareBy .eq (s.primaryKey.affinity.forComparison c.affinity)
    (namedCell names row s.primaryKey.name)).holds

section Pairs

variable {v e : Entry} (hsize : v.cells.size = names.length)

include hsize

theorem getElem?_staged {n : String} (hn : n ∈ names) :
    (Table.rowOf v ++ Table.rowOf e)[1 + names.idxOf n]?.getD .null = namedCell names v.cells n := by
  have hlt := List.idxOf_lt_length_of_mem hn
  have hrow : (Table.rowOf v).size = v.cells.size + 1 := by
    simp [Table.rowOf, Nat.add_comm]
  rw [Array.getElem?_append_left (by omega), Table.rowOf, Array.getElem?_append_right (by simp)]
  simp [namedCell]

theorem getElem?_origin (i : Nat) :
    (Table.rowOf v ++ Table.rowOf e)[names.length + 1 + 1 + i]? = e.cells[i]? :=
  Table.getElem?_append_rowOf (by simp [Table.rowOf, hsize, Nat.add_comm]) e i

theorem getElem?_id :
    (Table.rowOf v ++ Table.rowOf e)[names.length + 1]? = some (.integer e.id) := by
  have hrow : (Table.rowOf v).size = names.length + 1 := by
    simp [Table.rowOf, hsize, Nat.add_comm]
  rw [Array.getElem?_append_right (by omega), hrow, Nat.sub_self, Table.rowOf,
    Array.getElem?_append_left (by simp)]
  rfl

theorem holds_keyTerm {c : Column} (hkey : s.primaryKey.name ∈ names) :
    (keyTerm s names c).holds (Table.rowOf v ++ Table.rowOf e) = meets s names c v.cells e := by
  unfold keyTerm meets Term.holds
  rw [Term.eval, Term.eval, Term.eval, getElem?_staged hsize hkey, getElem?_origin hsize]
  rfl

theorem evalAll_assignedTerms (hfields : ∀ f ∈ fields, f ∈ names) :
    Term.evalAll (Table.rowOf v ++ Table.rowOf e) (assignedTerms names fields) =
      fields.map (namedCell names v.cells) := by
  rw [Term.evalAll_eq, assignedTerms, List.map_map]
  exact List.map_congr_left fun f hf => getElem?_staged hsize (hfields f hf)

end Pairs

/-- What is known of an update of the origin table from staged rows. -/
structure Updates (s : Schema) (stg : StagingTable) (c : Catalog) (a : Area) (t u : Table)
    (names fields : List String) : Prop where
  fits : s.Fits t
  origin : c.find s.table.allQuoted = .ok (a, t)
  staging : c.findIn? .temp stg.name = some u
  named : u.Named names
  alias_ne : foldName s.table.name ≠ "_staged"
  key_mem : s.primaryKey.name ∈ names
  fields_mem : ∀ f ∈ fields, f ∈ names
  declared : ∀ f ∈ fields, ∃ g, s.requireField f = .ok g

/-- The pairs of staged rows and rows of the origin table that an update joins. -/
def pairs (s : Schema) (names : List String) (c : Column) (t u : Table) : List (Array Storage) :=
  u.scan.flatMap fun l => (t.scan.map (l ++ ·)).filter (keyTerm s names c).holds

/-- The assignments that an update finds for a row. -/
def found (s : Schema) (names fields : List String) (c : Column) (t u : Table) :
    Entry → Option (List (Nat × Storage)) :=
  let values : Std.HashMap Storage (List (Nat × Storage)) :=
    (pairs s names c t u).foldl (fun m row => m.insert (row[names.length + 1]?.getD .null)
      ((fields.map s.fieldIndex).zip (Term.evalAll row (assignedTerms names fields)))) ∅
  fun e => values[Storage.integer e.id]?

theorem mapM_assignedColumn (h : s.Fits t)
    (hd : ∀ f ∈ fields, ∃ g, s.requireField f = .ok g) :
    (fields.map fun f => (Part.quoted f, Sql.Expr.qualified staged f)).mapM
      (fun (c, _) => assignedColumn t c) = .ok (fields.map s.fieldIndex) := by
  refine Except.mapM_eq_ok ?_
  rw [List.forall₂_map_left_iff, List.forall₂_map_right_iff, List.forall₂_same]
  intro f hf
  obtain ⟨g, hg⟩ := hd f hf
  obtain ⟨hi, rfl⟩ := Schema.getElem?_fieldIndex hg
  unfold assignedColumn
  simp only [Part.name, h.columnIndex?_field hi]

theorem prepare_updateOrigin_eq {c : Catalog} {a : Area} {params : Sql.Params} {lastKey : Int64}
    (h : Updates s stg c a t u names fields) {key : Column}
    (hkey : u.columns[names.idxOf s.primaryKey.name]? = some key)
    (hkeyName : key.name = s.primaryKey.name) :
    prepare ⟨c, params, lastKey⟩ (stg.updateOrigin s fields) = (do
      checkParents ⟨c, params, lastKey⟩ a t (fields.map s.fieldIndex).contains
      return .update a t ((fields.map s.fieldIndex).any fun j => t.key = some j)
        (found s names fields key t u)) := by
  have hname : foldName t.name = foldName s.table.name :=
    Catalog.name_of_find_allQuoted h.origin
  have halias : foldName t.name ≠ "_staged" := hname ▸ h.alias_ne
  generalize hctx : (⟨c, params, lastKey⟩ : Context) = ctx
  have horigin : ctx.catalog.find s.table.allQuoted = .ok (a, t) := by rw [← hctx]; exact h.origin
  have hsource : evalSource ctx (.table stg.table (some staged)) =
      .ok ⟨u.slots "_staged", u.scan⟩ := by
    rw [evalSource, ← hctx, Catalog.find_staging h.staging]
    rfl
  have hterms : (beside ctx u t).resolveAll
      ((fields.map fun f => (Part.quoted f, Sql.Expr.qualified staged f)).map Prod.snd) =
      .ok (assignedTerms names fields) := by
    refine Resolver.resolveAll_eq ?_
    rw [List.map_map, List.forall₂_map_left_iff, assignedTerms, List.forall₂_map_right_iff,
      List.forall₂_same]
    intro f hf
    obtain ⟨d, hd, rfl⟩ := exists_column h.named (h.fields_mem f hf)
    exact ⟨d.affinity, resolve_staged h.named halias hd⟩
  have hcond : (beside ctx u t).resolveCondition
      (some (.compare .eq (.qualified (.quoted s.table.name) s.primaryKey.name)
        (.qualified staged s.primaryKey.name))) = .ok (keyTerm s names key) := by
    have hstaged : (beside ctx u t).resolve (.qualified staged key.name) = _ :=
      resolve_staged h.named halias hkey
    rw [hkeyName] at hstaged
    unfold Resolver.resolveCondition
    dsimp only
    rw [Resolver.resolve, resolve_origin h.named h.fits hname halias s.getElem?_keyIndex,
      Except.ok_bind, hstaged]
    rfl
  have hleft : ∀ l ∈ u.scan, l.size = (u.slots "_staged").length := by
    intro l hl
    obtain ⟨v, hv, rfl⟩ := Table.mem_scan.1 hl
    rw [length_slots h.named, ← h.named.sizes v.cells (List.mem_map_of_mem hv)]
    simp [Table.rowOf, Nat.add_comm]
  change prepareUpdateFrom ctx _ _ _ _ = _
  unfold prepareUpdateFrom
  rw [horigin, Except.ok_bind]
  dsimp only
  rw [mapM_assignedColumn h.fits h.declared, Except.ok_bind, hsource, Except.ok_bind]
  change (beside ctx u t).resolveAll _ >>= _ = _
  rw [hterms, Except.ok_bind]
  change (beside ctx u t).resolveCondition _ >>= _ = _
  rw [hcond, Except.ok_bind]
  dsimp only
  rw [joinRows_eq hleft, length_slots h.named]
  rfl

theorem prepare_updateOrigin {c : Catalog} {a b : Area} {t' : Table} {changesKey : Bool}
    {values : Entry → Option (List (Nat × Storage))} {params : Sql.Params} {lastKey : Int64}
    (h : Updates s stg c a t u names fields) {key : Column}
    (hkey : u.columns[names.idxOf s.primaryKey.name]? = some key)
    (hkeyName : key.name = s.primaryKey.name)
    (hp : prepare ⟨c, params, lastKey⟩ (stg.updateOrigin s fields) =
      .ok (.update b t' changesKey values)) :
    b = a ∧ t' = t ∧ values = found s names fields key t u := by
  rw [prepare_updateOrigin_eq h hkey hkeyName] at hp
  obtain ⟨⟨⟩, -, hp⟩ := Except.bind_eq_ok_iff.1 hp
  obtain ⟨rfl, rfl, -, rfl⟩ := Prepared.update.inj (Except.ok.inj hp)
  exact ⟨rfl, rfl, rfl⟩

/-! ## The rows of the origin table -/

/-- A row after the update, given the staged row whose key it has. -/
def updated (s : Schema) (t : Table) (names fields : List String)
    (source : Entry → Option (Array Storage)) (e : Entry) : Entry :=
  match source e with
  | none => e
  | some row => ⟨e.id, Revision.cellsAfter t (s.assignments names fields row) e.cells⟩

section Found

variable {c : Catalog} {a : Area} {key : Column} {source : Entry → Option (Array Storage)}

/-- The assignments of a row are those of the one staged row whose key it has. -/
theorem found_eq (h : Updates s stg c a t u names fields)
    (hsource : ∀ e ∈ t.entries, ∀ row,
      source e = some row ↔ row ∈ u.cells ∧ meets s names key row e = true)
    {e : Entry} (he : e ∈ t.entries) :
    found s names fields key t u e = (source e).map (s.assignments names fields) := by
  have hpairs (x : Array Storage) : x ∈ pairs s names key t u ↔
      ∃ v ∈ u.entries, ∃ e ∈ t.entries, x = Table.rowOf v ++ Table.rowOf e ∧
        meets s names key v.cells e = true := by
    unfold pairs
    rw [List.mem_flatMap]
    constructor
    · rintro ⟨l, hl, hx⟩
      obtain ⟨v, hv, rfl⟩ := Table.mem_scan.1 hl
      obtain ⟨hx, hholds⟩ := List.mem_filter.1 hx
      obtain ⟨r, hr, rfl⟩ := List.mem_map.1 hx
      obtain ⟨e, he, rfl⟩ := Table.mem_scan.1 hr
      have hsize := h.named.sizes v.cells (List.mem_map_of_mem hv)
      rw [holds_keyTerm hsize h.key_mem] at hholds
      exact ⟨v, hv, e, he, rfl, hholds⟩
    · rintro ⟨v, hv, e, he, rfl, hmeets⟩
      have hsize := h.named.sizes v.cells (List.mem_map_of_mem hv)
      refine ⟨_, Table.mem_scan.2 ⟨v, hv, rfl⟩, List.mem_filter.2 ⟨?_, ?_⟩⟩
      · exact List.mem_map_of_mem (Table.mem_scan.2 ⟨e, he, rfl⟩)
      · rw [holds_keyTerm hsize h.key_mem]
        exact hmeets
  unfold found
  rcases getElem?_foldl_insert (fun row => row[names.length + 1]?.getD .null)
      (fun row => (fields.map s.fieldIndex).zip (Term.evalAll row (assignedTerms names fields)))
      (pairs s names key t u) (Storage.integer e.id) with ⟨x, hx, hid, hget⟩ | ⟨hnone, hget⟩
  · obtain ⟨v, hv, e', he', rfl, hmeets⟩ := (hpairs x).1 hx
    have hsize := h.named.sizes v.cells (List.mem_map_of_mem hv)
    rw [getElem?_id hsize] at hid
    obtain rfl : e' = e := h.fits.eq_of_id_eq he' he (Storage.integer.inj hid)
    have hrow := (hsource e' he' v.cells).2 ⟨List.mem_map_of_mem hv, hmeets⟩
    rw [hrow, Option.map_some]
    refine hget.trans (congrArg some ?_)
    rw [evalAll_assignedTerms hsize h.fields_mem, List.zip_map']
    rfl
  · cases hrow : source e with
    | none => exact hget
    | some row =>
        obtain ⟨hmem, hmeets⟩ := (hsource e he row).1 hrow
        obtain ⟨v, hv, rfl⟩ := List.mem_map.1 hmem
        have hsize := h.named.sizes v.cells (List.mem_map_of_mem hv)
        refine absurd ?_ (hnone _ ((hpairs _).2 ⟨v, hv, e, he, rfl, hmeets⟩))
        rw [getElem?_id hsize]
        rfl

/-- Updating the origin table changes the rows whose keys are staged, in the assigned fields. -/
theorem applyUpdate_rows {σ σ' : Session MemoryDatabase} {n : Nat}
    (h : Updates s stg σ.database.catalog a t u names fields)
    (hkey : u.columns[names.idxOf s.primaryKey.name]? = some key)
    (hkeyName : key.name = s.primaryKey.name) (hnot : s.primaryKey.name ∉ fields)
    (hsource : ∀ e ∈ t.entries, ∀ row,
      source e = some row ↔ row ∈ u.cells ∧ meets s names key row e = true)
    (hrun : outcome (stg.applyUpdate s fields) σ = (.ok n, σ')) :
    n = (t.entries.countP fun e => (source e).isSome) ∧
      σ'.database = { σ.database with
        catalog := σ.database.catalog.replace a
          { t with entries := t.entries.map (updated s t names fields source) }
        changes := n } := by
  obtain ⟨b, t₁, changesKey, values, t', hp, hu, hdb⟩ := applyUpdate_ok hrun
  obtain ⟨rfl, rfl, rfl⟩ := prepare_updateOrigin h hkey hkeyName hp
  have hkeep : ∀ e ∈ t₁.entries, ∀ vs new, found s names fields key t₁ u e = some vs →
      Revision.assign t₁ vs e = .ok new → new = ⟨e.id, Revision.cellsAfter t₁ vs e.cells⟩ := by
    intro e he vs new hvs
    refine Revision.assign_keeps fun i hi => ?_
    rw [h.fits.key] at hi
    split at hi
    · rename_i hrow
      obtain rfl := Option.some.inj hi
      refine ⟨(h.fits.rows e he).rowKey hrow, ?_⟩
      rw [found_eq h hsource he] at hvs
      obtain ⟨row, -, rfl⟩ := Option.map_eq_some_iff.1 hvs
      intro hin
      simp only [Schema.assignments, List.map_map, List.mem_map, Function.comp_apply] at hin
      obtain ⟨f, hf, hindex⟩ := hin
      obtain ⟨g, hg⟩ := h.declared f hf
      obtain ⟨hi, rfl⟩ := Schema.getElem?_fieldIndex hg
      rw [hindex, s.getElem?_keyIndex] at hi
      exact hnot (Option.some.inj hi ▸ hf)
    · simp at hi
  obtain ⟨rfl, hn⟩ := Revision.updateAll_ok h.fits.sorted hkeep hu
  have hentries : t₁.entries.map (Revision.revised t₁ (found s names fields key t₁ u)) =
      t₁.entries.map (updated s t₁ names fields source) := by
    refine List.map_congr_left fun e he => ?_
    unfold Revision.revised updated
    rw [found_eq h hsource he]
    cases source e <;> rfl
  refine ⟨?_, by rw [hdb, hentries]⟩
  rw [hn]
  refine List.countP_congr fun e he => ?_
  rw [found_eq h hsource he, Option.isSome_map]

end Found

end StagingTable

end StagedStore
