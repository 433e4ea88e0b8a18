import StagedStore.Proofs.Insert.Numbered
import StagedStore.Proofs.Memory.Query
import StagedStore.Proofs.Schema.Fields
import StagedStore.Proofs.Sql.Binding
import StagedStore.Proofs.Update.RowWise
import StagedStore.Store.Insert

/-!
# Inserted rows

What a row of a schema's table holds when it was inserted from cells for some of the fields.  A
statement that inserts rows spreads these cells over the columns, and each column keeps its own.
-/

namespace StagedStore

open Memory

/-! ## Cells in their places -/

namespace Memory

private theorem getElem?_foldl_set_of_notMem {ps : List (Nat × Storage)} {row : Array Storage}
    {j : Nat} (h : j ∉ ps.map Prod.fst) :
    (ps.foldl (fun row (i, v) => row.setIfInBounds i v) row)[j]? = row[j]? := by
  induction ps generalizing row with
  | nil => rfl
  | cons p ps ih =>
      simp only [List.map_cons, List.mem_cons, not_or] at h
      rw [List.foldl_cons, ih h.2]
      exact Array.getElem?_setIfInBounds_ne (Ne.symm h.1)

private theorem getElem?_foldl_set_of_mem {ps : List (Nat × Storage)} {row : Array Storage}
    {j : Nat} {v : Storage} (hn : (ps.map Prod.fst).Nodup) (hv : (j, v) ∈ ps) (hj : j < row.size) :
    (ps.foldl (fun row (i, v) => row.setIfInBounds i v) row)[j]? = some v := by
  induction ps generalizing row with
  | nil => simp at hv
  | cons p ps ih =>
      simp only [List.map_cons, List.nodup_cons] at hn
      rw [List.foldl_cons]
      rcases List.mem_cons.1 hv with rfl | hv
      · rw [getElem?_foldl_set_of_notMem hn.1]
        exact Array.getElem?_setIfInBounds_self_of_lt hj
      · exact ih hn.2 hv (by simpa using hj)

theorem getElem?_spread_of_mem {width : Nat} {positions : List Nat} {cells : List Storage} {j : Nat}
    {v : Storage} (hn : positions.Nodup) (hlen : positions.length = cells.length)
    (hv : (j, v) ∈ positions.zip cells) (hj : j < width) :
    (spread width positions cells)[j]? = some v := by
  unfold spread
  rw [Array.getElem?_toList]
  refine getElem?_foldl_set_of_mem ?_ hv (by simpa using hj)
  rwa [List.map_fst_zip (by omega)]

theorem getElem?_spread_of_notMem {width : Nat} {positions : List Nat} {cells : List Storage}
    {j : Nat} (h : j ∉ positions) (hj : j < width) :
    (spread width positions cells)[j]? = some .null := by
  unfold spread
  rw [Array.getElem?_toList, getElem?_foldl_set_of_notMem]
  · simp [hj]
  · intro hmem
    obtain ⟨⟨i, v⟩, hp, rfl⟩ := List.mem_map.1 hmem
    exact h (List.of_mem_zip hp).1

end Memory

namespace Schema

variable {s : Schema} {t : Table} {fields : List Field} {row : List Storage} {e : Entry}

theorem fieldIndex_inj {f g : Field} (hf : f ∈ s.fields) (hg : g ∈ s.fields)
    (h : s.fieldIndex f.name = s.fieldIndex g.name) : f = g := by
  obtain ⟨i, hi⟩ := List.getElem?_of_mem hf
  obtain ⟨j, hj⟩ := List.getElem?_of_mem hg
  rw [fieldIndex_eq hi, fieldIndex_eq hj] at h
  rw [h, hj] at hi
  exact (Option.some.inj hi).symm

theorem getElem?_fieldIndex_of_mem {f : Field} (hf : f ∈ s.fields) :
    s.fields[s.fieldIndex f.name]? = some f := by
  obtain ⟨i, hi⟩ := List.getElem?_of_mem hf
  rwa [fieldIndex_eq hi]

/-- Where the cells of some fields stand. -/
def positions (s : Schema) (fields : List Field) : List Nat :=
  fields.map fun f => s.fieldIndex f.name

theorem nodup_positions (hsub : fields.Sublist s.fields) : (s.positions fields).Nodup := by
  refine (List.nodup_map_iff_inj_on (s.fields_nodup.sublist hsub)).2 ?_
  exact fun f hf g hg => fieldIndex_inj (hsub.subset hf) (hsub.subset hg)

/-- The cells of a row in the order of the columns, those of other fields null. -/
def spreadRow (s : Schema) (fields : List Field) (row : List Storage) : List Storage :=
  spread s.fields.length (s.positions fields) (row.map Storage.bound)

theorem getElem?_spreadRow (hsub : fields.Sublist s.fields) (hlen : row.length = fields.length)
    {f : Field} {w : Storage} (hw : (f, w) ∈ fields.zip row) :
    (s.spreadRow fields row)[s.fieldIndex f.name]? = some w.bound := by
  refine getElem?_spread_of_mem (nodup_positions hsub) (by simp [positions, hlen]) ?_ ?_
  · unfold positions
    rw [List.zip_map]
    exact List.mem_map_of_mem (f := Prod.map _ Storage.bound) hw
  · have hf := getElem?_fieldIndex_of_mem (s := s) (hsub.subset (List.of_mem_zip hw).1)
    exact (List.getElem?_eq_some_iff.1 hf).1

theorem getElem?_spreadRow_other {i : Nat} (hi : i < s.fields.length)
    (h : ∀ f ∈ fields, s.fieldIndex f.name ≠ i) : (s.spreadRow fields row)[i]? = some .null := by
  refine getElem?_spread_of_notMem ?_ hi
  intro hmem
  obtain ⟨f, hf, he⟩ := List.mem_map.1 hmem
  exact h f hf he

/-- A row that was inserted from some cells: it holds what the columns keep of them, and the key
is its own. -/
structure Holds (s : Schema) (fields : List Field) (row : List Storage) (e : Entry) : Prop where
  key : s.keyCell e = .integer e.id
  cells : ∀ f w, (f, w) ∈ fields.zip row → s.fieldCell f.name e = f.affinity.store w.bound

theorem getElem?_convert (h : s.Fits t) {cells : List Storage} {i : Nat} {f : Field} {v : Storage}
    (hf : s.fields[i]? = some f) (hv : cells[i]? = some v) :
    (t.convert cells)[i]? = some (f.affinity.store v) := by
  unfold Table.convert
  rw [List.getElem?_toArray, List.getElem?_zipWith, h.getElem?_columns, hf, hv]
  rfl

/-- A row with the hidden key as its key holds the cells it was inserted from. -/
theorem holds_of_convert (h : s.Fits t) (hsub : fields.Sublist s.fields)
    (hlen : row.length = fields.length)
    (hkey : ∀ w, (s.primaryKey, w) ∈ fields.zip row → w = .integer e.id)
    (hrow : s.hasRowKey = true)
    (he : e.cells = (t.convert (s.spreadRow fields row)).setIfInBounds s.keyIndex (.integer e.id)) :
    s.Holds fields row e := by
  have hwidth : (t.convert (s.spreadRow fields row)).size = s.fields.length := by
    refine (stored_convert h ?_).1
    unfold spreadRow
    rw [length_spread, h.columns, List.length_map]
  have hself : e.cells[s.keyIndex]? = some (.integer e.id) := by
    rw [he, Array.getElem?_setIfInBounds_self_of_lt (hwidth ▸ s.keyIndex_lt)]
  refine ⟨by unfold keyCell; rw [hself]; rfl, ?_⟩
  intro f w hw
  have hf := getElem?_fieldIndex_of_mem (s := s) (hsub.subset (List.of_mem_zip hw).1)
  by_cases hfk : f = s.primaryKey
  · subst hfk
    have haff : s.primaryKey.affinity = .integer := of_decide_eq_true hrow
    rw [fieldCell_primaryKey, keyCell, hself, hkey w hw, haff]
    rfl
  · have hne : s.keyIndex ≠ s.fieldIndex f.name := by
      rw [← fieldIndex_primaryKey]
      exact fun he => hfk (fieldIndex_inj s.key_mem (hsub.subset (List.of_mem_zip hw).1) he).symm
    unfold fieldCell
    rw [he, Array.getElem?_setIfInBounds_ne hne,
      getElem?_convert h hf (getElem?_spreadRow hsub hlen hw)]
    rfl

/-! ## The statement -/

/-- The cells that a statement inserts are parameters that mean them. -/
theorem tuples_statement (s : Schema) (fields : List Field) (rows : List (List Storage)) :
    ∃ tuples, (Inserts.statement s fields rows).1 =
        .insert s.table.allQuoted (fields.map fun f => Part.quoted f.name) tuples ∧
      List.Forall₂ (List.Forall₂ fun v e => ∃ n, e = .param (some n) ∧
        Sql.paramValue (Inserts.statement s fields rows).2 n = v.bound) rows tuples := by
  have hbinds : Sql.Binds (rows.mapM (·.mapM Sql.bind)) fun q tuples => List.Forall₂ (List.Forall₂
      fun v e => ∃ n, e = .param (some n) ∧ Sql.paramValue q n = v.bound) rows tuples :=
    Sql.binds_mapM fun row _ => Sql.binds_mapM fun v _ => Sql.binds_bindValue v
  exact ⟨_, rfl, (hbinds #[]).2 _ (.refl _)⟩

theorem resolveAll_params {ctx : Context} {row : List Storage} {es : List Sql.Expr}
    (h : List.Forall₂ (fun v e => ∃ n, e = Sql.Expr.param (some n) ∧
      Sql.paramValue ctx.params n = v.bound) row es) :
    (ctx.resolver []).resolveAll es = .ok (row.map fun v => .cell v.bound) := by
  refine Resolver.resolveAll_eq ?_
  rw [List.forall₂_map_right_iff]
  refine h.flip.imp fun e v hev => ?_
  obtain ⟨n, rfl, hn⟩ := hev
  exact ⟨.none, by rw [Resolver.resolve, ← hn]; rfl⟩

/-- A statement that inserts rows of cells spreads them over the columns. -/
theorem prepare_statement {ctx : Context} {a : Area} {rows : List (List Storage)} {p : Prepared}
    (h : s.Fits t) (hfind : ctx.catalog.find s.table.allQuoted = .ok (a, t))
    (hfields : fields ≠ []) (hsub : fields.Sublist s.fields)
    (hparams : ctx.params = (Inserts.statement s fields rows).2)
    (hp : prepare ctx (Inserts.statement s fields rows).1 = .ok p) :
    ∃ many, p = .insert a t many (rows.map (s.spreadRow fields)) := by
  obtain ⟨tuples, hstatement, htuples⟩ := tuples_statement s fields rows
  rw [hstatement] at hp
  rw [← hparams] at htuples
  change prepareInsert ctx _ _ _ = _ at hp
  have hcells : tuples.mapM (fun es => do
      return Term.evalAll #[] (← (ctx.resolver []).resolveAll es)) =
        (.ok (rows.map (·.map Storage.bound)) : Except Fault (List (List Storage))) := by
    refine Except.mapM_eq_ok ?_
    rw [List.forall₂_map_right_iff]
    refine htuples.flip.imp fun es row hrow => ?_
    rw [resolveAll_params hrow, Except.ok_bind, Term.evalAll_eq, List.map_map]
    rfl
  unfold prepareInsert at hp
  rw [hfind, Except.ok_bind] at hp
  obtain ⟨positions, hpositions, hp⟩ := Except.bind_eq_ok_iff.1 hp
  obtain rfl : positions = s.positions fields := by
    refine (Except.ok.inj (hpositions.symm.trans (Except.mapM_eq_ok ?_)) :)
    unfold Schema.positions
    rw [List.forall₂_map_left_iff, List.forall₂_map_right_iff, List.forall₂_same]
    intro f hf
    have hi := h.columnIndex?_field (getElem?_fieldIndex_of_mem (hsub.subset hf))
    simp only [Part.name, hi]
  dsimp only at hp
  rw [hcells, Except.ok_bind] at hp
  obtain ⟨⟨⟩, -, hp⟩ := Except.bind_eq_ok_iff.1 hp
  obtain ⟨⟨⟩, -, hp⟩ := Except.bind_eq_ok_iff.1 hp
  refine ⟨decide (1 < tuples.length), (Except.ok.inj hp).symm.trans ?_⟩
  rw [if_neg (by simpa using hfields), List.map_map, h.columns, List.length_map]
  rfl

/-- A statement that inserts a row of its own accord inserts one without cells. -/
theorem prepare_insertDefault {ctx : Context} {a : Area} {p : Prepared} (h : s.Fits t)
    (hfind : ctx.catalog.find s.table.allQuoted = .ok (a, t))
    (hp : prepare ctx (.insertDefault s.table.allQuoted) = .ok p) :
    p = .insert a t false [s.spreadRow [] []] := by
  obtain ⟨⟨a', t'⟩, hfind', hp⟩ := Except.bind_eq_ok_iff.1 hp
  obtain ⟨rfl, rfl⟩ := Prod.mk.inj (Except.ok.inj (hfind.symm.trans hfind'))
  obtain ⟨⟨⟩, -, hp⟩ := Except.bind_eq_ok_iff.1 hp
  rw [← Except.ok.inj hp]
  have hnulls : t.columns.map (fun _ => Storage.null) = s.spreadRow [] [] := by
    rw [h.columns, List.map_map]
    simp [spreadRow, spread, positions, Function.comp_def]
  rw [hnulls]

end Schema

end StagedStore
