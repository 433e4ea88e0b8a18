import StagedStore.Proofs.Sql.Shown
import StagedStore.Proofs.Update.Joined
import StagedStore.Proofs.Update.Layout
import StagedStore.Store.Insert

/-!
# Tuples and their parameters

A statement that stages or inserts rows of cells binds the values of the cells row by row. Each
value stands in its own place of its tuple as the placeholder of its own parameter, every other cell
as a null, and the statement has no other placeholders.
-/

namespace StagedStore

open Sql

/-! ## Cells -/

namespace Cell

/-- The value of a cell that a statement binds. -/
def bound? : Cell → Option Storage
  | .value v => some v
  | _ => none

/-- The values that a statement binds for some cells. -/
def boundOf (cells : List Cell) : List Storage :=
  cells.filterMap bound?

/-- A cell in a tuple behind which `k` values are bound. -/
def text (k : Nat) : Cell → String
  | .value _ => "?" ++ toString (k + 1)
  | _ => "NULL"

/-- A cell as an expression, `k` values being bound before it. -/
def entry (k : Nat) : Cell → Expr
  | .value _ => .param (some (k + 1))
  | _ => .literal .null

theorem render_entry (k : Nat) (c : Cell) : (c.entry k).render = c.text k := by
  cases c <;> rfl

/-- The expressions of cells, their values numbered behind the first `k`. -/
def entries (k : Nat) : List Cell → List Expr
  | [] => []
  | c :: cs => c.entry k :: entries (k + (boundOf [c]).length) cs

/-- The expressions of rows of cells, their values numbered behind the first `k`. -/
def tuples (k : Nat) : List (List Cell) → List (List Expr)
  | [] => []
  | r :: rs => entries k r :: tuples (k + (boundOf r).length) rs

/-- How many values are bound before a place in rows of cells. -/
def boundBefore (rows : List (List Cell)) (r c : Nat) : Nat :=
  ((rows.take r).flatMap boundOf).length + (boundOf ((rows[r]?.getD []).take c)).length

variable {cells row : List Cell} {rows : List (List Cell)} {k : Nat} {c : Cell}

theorem boundOf_cons (c : Cell) (cs : List Cell) :
    boundOf (c :: cs) = boundOf [c] ++ boundOf cs := by
  cases c <;> rfl

@[simp] theorem length_entries : (entries k cells).length = cells.length := by
  induction cells generalizing k with
  | nil => rfl
  | cons c cs ih => rw [entries, List.length_cons, ih, List.length_cons]

@[simp] theorem length_tuples : (tuples k rows).length = rows.length := by
  induction rows generalizing k with
  | nil => rfl
  | cons r rs ih => rw [tuples, List.length_cons, ih, List.length_cons]

theorem getElem?_entries {i : Nat} (h : cells[i]? = some c) :
    (entries k cells)[i]? = some (c.entry (k + (boundOf (cells.take i)).length)) := by
  induction cells generalizing k i with
  | nil => simp at h
  | cons d cs ih =>
      cases i with
      | zero =>
          obtain rfl : d = c := by simpa using h
          rfl
      | succ i =>
          rw [entries, List.getElem?_cons_succ, ih (by simpa using h), List.take_succ_cons,
            boundOf_cons d (cs.take i), List.length_append, Nat.add_assoc]

theorem getElem?_tuples {i : Nat} (h : rows[i]? = some row) :
    (tuples k rows)[i]? = some (entries (k + ((rows.take i).flatMap boundOf).length) row) := by
  induction rows generalizing k i with
  | nil => simp at h
  | cons r rs ih =>
      cases i with
      | zero =>
          obtain rfl : r = row := by simpa using h
          rfl
      | succ i =>
          rw [tuples, List.getElem?_cons_succ, ih (by simpa using h), List.take_succ_cons,
            List.flatMap_cons, List.length_append, Nat.add_assoc]

/-- The value of a cell is the one that stands at its place among the bound ones. -/
theorem getElem?_bound {i j : Nat} {v : Storage} (hrow : rows[i]? = some row)
    (hcell : row[j]? = some (.value v)) :
    (rows.flatMap boundOf)[boundBefore rows i j]? = some v := by
  obtain ⟨hi, rfl⟩ := List.getElem?_eq_some_iff.1 hrow
  obtain ⟨hj, hv⟩ := List.getElem?_eq_some_iff.1 hcell
  have hrows : rows = rows.take i ++ rows[i] :: rows.drop (i + 1) := by
    rw [← List.drop_eq_getElem_cons hi, List.take_append_drop]
  have hcells : rows[i] = rows[i].take j ++ .value v :: rows[i].drop (j + 1) := by
    rw [← hv, ← List.drop_eq_getElem_cons hj, List.take_append_drop]
  have hbound : rows.flatMap boundOf = (rows.take i).flatMap boundOf ++
      boundOf (rows[i].take j) ++ v :: (boundOf (rows[i].drop (j + 1)) ++
        (rows.drop (i + 1)).flatMap boundOf) := by
    calc rows.flatMap boundOf
      _ = (rows.take i).flatMap boundOf ++ (boundOf rows[i] ++
          (rows.drop (i + 1)).flatMap boundOf) := by
            conv_lhs => rw [hrows]
            rw [List.flatMap_append, List.flatMap_cons]
      _ = _ := by
            conv_lhs => rw [hcells]
            simp [boundOf, bound?]
  rw [hbound, boundBefore, hrow, Option.getD_some, ← List.length_append,
    List.getElem?_append_right (Nat.le_refl _), Nat.sub_self]
  rfl

/-! ## What is bound -/

/-- What binds a list binds its head first. -/
theorem mapM_cons_apply {α β : Type} (f : α → Binding β) (a : α) (as : List α) (params : Params) :
    ((a :: as).mapM f : Binding _) params =
      ((f a params).1 :: ((as.mapM f : Binding _) (f a params).2).1,
        ((as.mapM f : Binding _) (f a params).2).2) := by
  rw [List.mapM_cons]
  rfl

theorem mapM_bindCell (cells : List Cell) (params : Params) :
    (cells.mapM Plan.bindCell : Binding _) params =
      (entries params.size cells, params ++ (boundOf cells).toArray) := by
  induction cells generalizing params with
  | nil => simp [entries, boundOf]; rfl
  | cons c cs ih =>
      have hcell : (Plan.bindCell c : Binding _) params =
          (c.entry params.size, params ++ (boundOf [c]).toArray) := by
        cases c <;> simp [Plan.bindCell, Sql.bind, entry, boundOf, bound?] <;> rfl
      rw [mapM_cons_apply, hcell]
      dsimp only
      rw [ih, boundOf_cons c cs, entries]
      simp

theorem mapM_bindCells (rows : List (List Cell)) (params : Params) :
    (rows.mapM (fun r : List Cell => r.mapM Plan.bindCell) : Binding _) params =
      (tuples params.size rows, params ++ (rows.flatMap boundOf).toArray) := by
  induction rows generalizing params with
  | nil => simp [tuples]; rfl
  | cons r rs ih =>
      rw [mapM_cons_apply, mapM_bindCell]
      dsimp only
      rw [ih, tuples, List.flatMap_cons]
      simp

/-! ## What is written -/

theorem legible_entries : ∀ e ∈ entries k cells, e.Legible := by
  induction cells generalizing k with
  | nil => simp [entries]
  | cons c cs ih =>
      rw [entries, List.forall_mem_cons]
      exact ⟨by cases c <;> trivial, ih⟩

theorem legible_tuples : ∀ r ∈ tuples k rows, ∀ e ∈ r, e.Legible := by
  induction rows generalizing k with
  | nil => simp [tuples]
  | cons r rs ih =>
      rw [tuples, List.forall_mem_cons]
      exact ⟨legible_entries, ih⟩

theorem marks_entries (k : Nat) (cells : List Cell) :
    Expr.marksAll (entries k cells) = numberedMarks k (boundOf cells).length := by
  induction cells generalizing k with
  | nil => rfl
  | cons c cs ih =>
      rw [entries, Expr.marksAll, ih, boundOf_cons c cs, List.length_append, numberedMarks_add]
      cases c <;> rfl

theorem marks_tuples (k : Nat) (rows : List (List Cell)) :
    (tuples k rows).flatMap Expr.marksAll = numberedMarks k (rows.flatMap boundOf).length := by
  induction rows generalizing k with
  | nil => rfl
  | cons r rs ih =>
      rw [tuples, List.flatMap_cons, ih, marks_entries, List.flatMap_cons, List.length_append,
        numberedMarks_add]

end Cell

/-! ## Tables of cells -/

/-- Tuples in which every cell of some rows has its place, and every value a parameter of its
own. -/
structure Tabulated (rows : List (List Cell)) (params : Params) (tuples : List (List String)) :
    Prop where
  /-- The values are bound row by row, and nothing else is. -/
  bound : params.toList = rows.flatMap Cell.boundOf
  /-- In each place stands its cell. -/
  entry : ∀ r c, (tuples[r]?.bind (·[c]?)) =
    (rows[r]?.bind (·[c]?)).map (Cell.text (Cell.boundBefore rows r c))
  /-- The parameter of a cell is its own value. -/
  own : ∀ r c v, rows[r]?.bind (·[c]?) = some (.value v) →
    params[Cell.boundBefore rows r c]? = some v
  /-- No cell is missing, and none is added. -/
  widths : tuples.map List.length = rows.map List.length

theorem Tabulated.width {rows : List (List Cell)} {params : Params} {tuples : List (List String)}
    {n : Nat} (h : Tabulated rows params tuples) (hrows : ∀ r ∈ rows, r.length = n) :
    ∀ t ∈ tuples, t.length = n := by
  intro t ht
  have hlength : t.length ∈ rows.map List.length := h.widths ▸ List.mem_map_of_mem ht
  obtain ⟨r, hr, hlength⟩ := List.mem_map.1 hlength
  exact hlength.symm.trans (hrows r hr)

/-- Tuples as they are written. -/
def tuplesText (tuples : List (List String)) : String :=
  ", ".intercalate (tuples.map fun t => "(" ++ ", ".intercalate t ++ ")")

theorem tuplesText_renderAll (rows : List (List Expr)) :
    tuplesText (rows.map Expr.renderAll) = renderTuples rows := by
  rw [tuplesText, renderTuples, List.map_map]
  rfl

theorem tabulated_tuples (rows : List (List Cell)) :
    Tabulated rows (rows.flatMap Cell.boundOf).toArray
      ((Cell.tuples 0 rows).map Expr.renderAll) where
  bound := rfl
  entry := by
    intro r c
    rw [List.getElem?_map]
    rcases hrow : rows[r]? with _ | row
    · rw [List.getElem?_eq_none_iff] at hrow
      rw [List.getElem?_eq_none (by simpa using hrow)]
      rfl
    rw [Cell.getElem?_tuples hrow, Option.map_some, Option.bind_some, Option.bind_some,
      Expr.renderAll_eq, List.getElem?_map]
    rcases hcell : row[c]? with _ | cell
    · rw [List.getElem?_eq_none_iff] at hcell
      rw [List.getElem?_eq_none (by simpa using hcell)]
      rfl
    rw [Cell.getElem?_entries hcell, Option.map_some, Cell.render_entry, Option.map_some,
      Cell.boundBefore, hrow, Option.getD_some, Nat.zero_add]
  own := by
    intro r c v hv
    obtain ⟨row, hrow, hcell⟩ := Option.bind_eq_some_iff.1 hv
    rw [List.getElem?_toArray]
    exact Cell.getElem?_bound hrow hcell
  widths := by
    refine List.ext_getElem? fun r => ?_
    simp only [List.getElem?_map, Option.map_map]
    rcases hrow : rows[r]? with _ | row
    · rw [List.getElem?_eq_none_iff] at hrow
      rw [List.getElem?_eq_none (by simpa using hrow)]
      rfl
    · simp [Cell.getElem?_tuples hrow, Expr.renderAll_eq]

/-! ## Rows that are staged -/

namespace Plan

/-- The planned rows of a statement. -/
def laidOut (p : Plan) (rows : List PlanRow) : List (List Cell) :=
  rows.map p.layout

/-- The columns that a statement gives the staging table. -/
def resolved (p : Plan) (rows : List PlanRow) : List ResultColumn :=
  .expr (.qualified planned p.key) (some (.quoted p.key)) ::
    p.fields.map fun f => .expr (p.resolveField rows f) (some (.quoted f))

theorem select_eq (p : Plan) (s : Schema) (rows : List PlanRow) :
    p.select s rows =
      (.mk (p.resolved rows)
        (some (.join (p.plannedSource (Cell.tuples 0 (p.laidOut rows)))
          (.table s.table.allQuoted (some origin))
          (.compare .eq (.qualified origin p.key) (.qualified planned p.key))))
        none [] none, ((p.laidOut rows).flatMap Cell.boundOf).toArray) := by
  have hbind : (rows.mapM p.bindRow).run #[] =
      (Cell.tuples 0 (p.laidOut rows), ((p.laidOut rows).flatMap Cell.boundOf).toArray) := by
    have hrows : rows.mapM p.bindRow =
        (p.laidOut rows).mapM (fun r : List Cell => r.mapM bindCell) := by
      rw [laidOut, List.mapM_map]
      exact congrArg rows.mapM (funext p.bindRow_eq)
    rw [hrows]
    exact (Cell.mapM_bindCells _ #[]).trans (by simp)
  rw [select, hbind]
  rfl

theorem onlyNames_qualified {q : Part} (hq : q ∈ [planned, origin]) (n : String) :
    (Expr.qualified q n).OnlyNames := by
  obtain rfl | rfl : q = planned ∨ q = origin := by simpa using hq
  · exact ⟨⟨by decide, trivial⟩, rfl⟩
  · exact ⟨⟨by decide, trivial⟩, rfl⟩

theorem onlyNames_ofStorage (v : Storage) : (Expr.ofStorage v).OnlyNames := by
  unfold Expr.ofStorage
  split
  · split <;> exact ⟨trivial, rfl⟩
  · exact ⟨trivial, rfl⟩

theorem onlyNames_resolveField (p : Plan) (rows : List PlanRow) (f : String) :
    (p.resolveField rows f).OnlyNames := by
  refine resolveField_induction (fun q hq n => onlyNames_qualified hq n) onlyNames_ofStorage
    ?_ ?_ ?_ ?_ p rows f
  · intro a b ha hb
    exact ⟨⟨ha.1, hb.1⟩, by rw [Expr.marks, List.filterMap_append, ha.2, hb.2]; rfl⟩
  · intro a b ha hb
    exact ⟨⟨ha.1, hb.1⟩, by rw [Expr.marks, List.filterMap_append, ha.2, hb.2]; rfl⟩
  · intro a es ha hes
    refine ⟨⟨ha.1, Expr.legibleAll_iff.2 fun e he => (hes e he).1⟩, ?_⟩
    rw [Expr.marks, List.filterMap_append, ha.2, Expr.marksAll_eq]
    exact placeholders_flatMap fun e he => (hes e he).2
  · intro arms e harms he
    refine ⟨⟨Expr.legibleArms_iff.2 fun a ha => ⟨(harms a ha).1.1, (harms a ha).2.1⟩, he.1⟩, ?_⟩
    rw [Expr.marks, List.filterMap_append, he.2, List.append_nil, Expr.marksArms_eq]
    refine placeholders_flatMap fun a ha => ?_
    rw [List.filterMap_append, (harms a ha).1.2, (harms a ha).2.2]
    rfl

theorem isInert_column (i : Nat) : (Part.bare ("column" ++ toString i)).IsInert := by
  change ("column" ++ toString i).toList.all isInert = true
  rw [String.toList_append, List.all_append, show toString i = i.repr from rfl, Nat.toList_repr,
    Bool.and_eq_true]
  exact ⟨by decide, List.all_eq_true.2 fun c hc => isInert_of_isDigit (isDigit_of_mem_toDigits hc)⟩

/-- The parameters of a statement that stages rows are those of its tuples. -/
theorem placeholders_select (p : Plan) (s : Schema) (rows : List PlanRow) :
    placeholders (p.select s rows).1.render = numbered 0 (p.select s rows).2.size := by
  have honly (n : String) : (Expr.qualified planned n).OnlyNames := onlyNames_qualified (by simp) n
  have hresolved : ∀ c ∈ p.resolved rows, c.OnlyNames :=
    List.forall_mem_cons.2 ⟨(honly p.key).named p.key,
      List.forall_mem_map.2 fun f _ => (onlyNames_resolveField p rows f).named f⟩
  have hrenamed : ∀ c ∈ p.columns.mapIdx fun i c =>
      ResultColumn.expr (.column none (.bare ("column" ++ toString (i + 1)))) (some (.quoted c)),
      c.OnlyNames := by
    intro c hc
    obtain ⟨i, hi, rfl⟩ := List.mem_mapIdx.1 hc
    have hcolumn : (Expr.column none (.bare ("column" ++ toString (i + 1)))).OnlyNames :=
      ⟨isInert_column (i + 1), rfl⟩
    exact hcolumn.named _
  rw [select_eq, placeholders, Shows.marks_eq (Select.shows_render _ ?_)]
  · simp only [Select.marks, marksFromSource, Source.marks, plannedSource, List.filterMap_append,
      placeholders_columns hresolved, placeholders_columns hrenamed, Cell.marks_tuples,
      placeholder?_numberedMarks]
    simp [conditionMarks, Expr.marks, Expr.qualified]
  · simp only [Select.Legible, LegibleFrom, Source.Legible, plannedSource]
    refine ⟨fun c hc => (hresolved c hc).1, ⟨⟨⟨fun c hc => (hrenamed c hc).1,
      Cell.legible_tuples, by simp, by simp⟩, ?_⟩, ⟨isInert_allQuoted, ?_⟩, ?_⟩, by simp, by simp⟩
    · rintro q ⟨⟩
      decide
    · rintro q ⟨⟩
      decide
    · exact ⟨(onlyNames_qualified (by simp) p.key).1, (honly p.key).1⟩

/-- The columns of the tuples under the names of the fields. -/
def renamed (p : Plan) : String :=
  ", ".intercalate (p.columns.mapIdx fun i c =>
    "column" ++ toString (i + 1) ++ " AS " ++ quoteName c)

theorem render_plannedSource (p : Plan) (tuples : List (List Expr)) :
    (p.plannedSource tuples).render =
      "(SELECT " ++ p.renamed ++ " FROM (VALUES " ++ renderTuples tuples ++ ")) AS _rows" := by
  have hrenamed : (p.columns.mapIdx fun i c =>
      ResultColumn.expr (.column none (.bare ("column" ++ toString (i + 1))))
        (some (.quoted c))).map ResultColumn.render =
      p.columns.mapIdx fun i c => "column" ++ toString (i + 1) ++ " AS " ++ quoteName c := by
    refine List.ext_getElem (by simp) fun i hi _ => ?_
    simp [ResultColumn.render, renderAlias, Expr.render, Part.render, ← String.append_assoc]
  have halias : renderAlias (some planned) = " AS _rows" := rfl
  have hselect : "(SELECT " = "(" ++ "SELECT " := rfl
  have hvalues : " FROM (VALUES " = " FROM " ++ "(VALUES " := rfl
  have hclose : ")) AS _rows" = ")" ++ (")" ++ " AS _rows") := rfl
  rw [hselect, hvalues, hclose]
  simp only [plannedSource, Source.render, Select.render, renderFrom, hrenamed, renamed,
    renderWhere, halias, List.isEmpty_nil, if_true, String.append_empty, String.append_assoc]

/-- The text of the query. -/
theorem render_select (p : Plan) (s : Schema) (rows : List PlanRow) :
    (p.select s rows).1.render =
      "SELECT " ++ ", ".intercalate ((p.resolved rows).map ResultColumn.render) ++
        " FROM (SELECT " ++ p.renamed ++ " FROM (VALUES " ++
        renderTuples (Cell.tuples 0 (p.laidOut rows)) ++ ")) AS _rows INNER JOIN " ++
        s.table.renderQuoted ++ " AS _origin ON _origin." ++ quoteName p.key ++ " = _rows." ++
        quoteName p.key := by
  have halias : renderAlias (some origin) = " AS _origin" := rfl
  have hfrom : " FROM (SELECT " = " FROM " ++ "(SELECT " := rfl
  have hjoin : ")) AS _rows INNER JOIN " = ")) AS _rows" ++ " INNER JOIN " := rfl
  have hon : " AS _origin ON _origin." = " AS _origin" ++ (" ON " ++ ("_origin" ++ ".")) := rfl
  have heq : " = _rows." = " " ++ ("=" ++ (" " ++ ("_rows" ++ "."))) := rfl
  have hliteral (q : Part) (n : String) : (Expr.qualified q n).isLiteral = false := rfl
  have hqualified (q : Part) (n : String) :
      (Expr.qualified q n).render = q.render ++ "." ++ quoteName n := rfl
  have hplanned : planned.render = "_rows" := rfl
  have horigin : origin.render = "_origin" := rfl
  rw [select_eq, hfrom, hjoin, hon, heq]
  simp only [Select.render, renderFrom, Source.render, render_plannedSource, halias,
    renderWhere, Identifier.renderQuoted, Expr.render, hliteral, hqualified, hplanned, horigin,
    Comparison.text, List.isEmpty_nil, if_true, Bool.and_false, Bool.false_eq_true, if_false,
    String.append_empty, String.append_assoc]

end Plan

/-! ## Rows that are inserted -/

namespace Inserts

/-- Rows of which every cell is bound. -/
def laidOut (rows : List (List Storage)) : List (List Cell) :=
  rows.map (·.map .value)

theorem statement_eq (s : Schema) (fields : List Field) (rows : List (List Storage)) :
    statement s fields rows =
      (.insert s.table.allQuoted (fields.map fun f => Part.quoted f.name)
        (Cell.tuples 0 (laidOut rows)), ((laidOut rows).flatMap Cell.boundOf).toArray) := by
  have hbind : (rows.mapM (·.mapM Sql.bind) : Sql.Binding _).run #[] =
      (Cell.tuples 0 (laidOut rows), ((laidOut rows).flatMap Cell.boundOf).toArray) := by
    have hrows : (rows.mapM (·.mapM Sql.bind) : Sql.Binding _) =
        (laidOut rows).mapM (fun r : List Cell => r.mapM Plan.bindCell) := by
      rw [laidOut, List.mapM_map]
      refine congrArg rows.mapM (funext fun r => ?_)
      rw [Function.comp_apply, List.mapM_map]
      rfl
    rw [hrows]
    exact (Cell.mapM_bindCells _ #[]).trans (by simp)
  rw [statement, hbind]

/-- The text of the statement. -/
theorem render_statement (s : Schema) (fields : List Field) (rows : List (List Storage)) :
    (statement s fields rows).1.render =
      "INSERT INTO " ++ s.table.renderQuoted ++ " (" ++
        ", ".intercalate (fields.map fun f => quoteName f.name) ++ ") VALUES " ++
        renderTuples (Cell.tuples 0 (laidOut rows)) := by
  have hcolumns : (fields.map fun f => Part.quoted f.name).map Part.render =
      fields.map fun f => quoteName f.name :=
    List.map_map
  rw [statement_eq]
  unfold Statement.render
  dsimp only
  rw [hcolumns]
  rfl

theorem placeholders_statement (s : Schema) (fields : List Field) (rows : List (List Storage)) :
    placeholders (statement s fields rows).1.render =
      numbered 0 (statement s fields rows).2.size := by
  have hcolumns : Shows (", ".intercalate (fields.map fun f => quoteName f.name))
      (fields.flatMap fun f => [.name f.name]) :=
    shows_intercalate ", " rfl fun f _ => shows_quoteName f.name
  have hnone : (fields.flatMap fun f => [Mark.name f.name]).filterMap Mark.placeholder? = [] :=
    placeholders_flatMap fun f _ => rfl
  have htable := (shows_identifier (isInert_allQuoted (i := s.table))).behind "INSERT INTO " rfl
  have htuples : Shows (renderTuples (Cell.tuples 0 (laidOut rows))) _ :=
    shows_tuples Cell.legible_tuples
  have htext := (htable.join " (" rfl hcolumns).join ") VALUES " rfl htuples
  have hmarks := htext.marks_eq
  rw [placeholders, render_statement, Identifier.renderQuoted, hmarks]
  simp [statement_eq, hnone, Cell.marks_tuples, placeholder?_numberedMarks]

end Inserts

/-- Rows that are staged, and rows of one width that are inserted, stand in their statement cell by
cell. The parameters are the values of the cells, row by row; at its place in the tuples, and under
its column, stands for each value the placeholder of its own parameter, and a null for any other
cell; and the statement has no other placeholders. -/
theorem tuples_hold_their_cells (p : Plan) (s : Schema) (rows : List PlanRow) (fields : List Field)
    {inserted : List (List Storage)} (hwidth : ∀ r ∈ inserted, r.length = fields.length) :
    (∃ tuples, Tabulated (rows.map p.layout) (p.select s rows).2 tuples ∧
      (∀ t ∈ tuples, t.length = p.columns.length) ∧
      (p.select s rows).1.render =
        "SELECT " ++ ", ".intercalate ((p.resolved rows).map ResultColumn.render) ++
          " FROM (SELECT " ++ p.renamed ++ " FROM (VALUES " ++ tuplesText tuples ++
          ")) AS _rows INNER JOIN " ++ s.table.renderQuoted ++ " AS _origin ON _origin." ++
          quoteName p.key ++ " = _rows." ++ quoteName p.key ∧
      placeholders (p.select s rows).1.render = numbered 0 (p.select s rows).2.size) ∧
    ∃ tuples, Tabulated (inserted.map (·.map .value)) (Inserts.statement s fields inserted).2
        tuples ∧
      (∀ t ∈ tuples, t.length = fields.length) ∧
      (Inserts.statement s fields inserted).1.render =
        "INSERT INTO " ++ s.table.renderQuoted ++ " (" ++
          ", ".intercalate (fields.map fun f => quoteName f.name) ++ ") VALUES " ++
          tuplesText tuples ∧
      placeholders (Inserts.statement s fields inserted).1.render =
        numbered 0 (Inserts.statement s fields inserted).2.size := by
  constructor
  · have htabulated := tabulated_tuples (p.laidOut rows)
    refine ⟨_, ?_, htabulated.width ?_, ?_, p.placeholders_select s rows⟩
    · rw [Plan.select_eq]
      exact htabulated
    · refine List.forall_mem_map.2 fun r _ => ?_
      simp [Plan.layout, Plan.columns]
    · rw [tuplesText_renderAll]
      exact p.render_select s rows
  · have htabulated := tabulated_tuples (Inserts.laidOut inserted)
    refine ⟨_, ?_, htabulated.width ?_, ?_, Inserts.placeholders_statement s fields inserted⟩
    · rw [Inserts.statement_eq]
      exact htabulated
    · refine List.forall_mem_map.2 fun r hr => ?_
      rw [List.length_map, hwidth r hr]
    · rw [tuplesText_renderAll]
      exact Inserts.render_statement s fields inserted

namespace Padded

/-- A row that increments its last field and one that sets it. -/
def plan : Plan :=
  ⟨"id", ["y", "x"],
    [⟨.integer 2, [("y", .value .null), ("x", .increment (.integer 1))]⟩,
      ⟨.integer 1, [("x", .value (.integer 7))]⟩]⟩

end Padded

open Padded in
/-- Two staged rows have four values, and two inserted rows with three fields have six. -/
theorem tuples_hold_their_cells_of_two :
    (∀ r ∈ [[Storage.integer 5, .null, .text "a"], [.integer 6, .text "?", .null]],
      r.length = schema.fields.length) ∧
    placeholders (plan.select schema plan.rows).1.render = ["?1", "?2", "?3", "?4"] ∧
    placeholders (Inserts.statement schema schema.fields
      [[.integer 5, .null, .text "a"], [.integer 6, .text "?", .null]]).1.render =
        ["?1", "?2", "?3", "?4", "?5", "?6"] := by
  have hwidth : ∀ r ∈ [[Storage.integer 5, .null, .text "a"], [.integer 6, .text "?", .null]],
      r.length = schema.fields.length := by decide
  obtain ⟨⟨_, hstaged, -, -, hselect⟩, _, hinserted, -, -, hinsert⟩ :=
    tuples_hold_their_cells plan schema plan.rows schema.fields hwidth
  refine ⟨hwidth, ?_, ?_⟩
  · rw [hselect, ← Array.length_toList, hstaged.bound]
    rfl
  · rw [hinsert, ← Array.length_toList, hinserted.bound]
    rfl

end StagedStore
