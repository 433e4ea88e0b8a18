import StagedStore.Proofs.Filter.Evaluated
import StagedStore.Proofs.Filter.Selected
import StagedStore.Proofs.Filter.Written
import StagedStore.Proofs.Schema.Invariant

/-!
# Conditions read back

The text of a condition is read, by the grammar of statements, as an expression that gives the
verdict of the condition's tree on every row. In the query of a filter the condition is that of all
the filter's members.
-/

namespace StagedStore

open Memory Sql

variable {s : Schema} {t : Table}

/-! ## Texts of conditions -/

/-- A text is read as one expression, which gives truth values on the rows of a table. -/
def Sql.Means (text : String) (t : Table) (q : Params) (v : Entry → Truth) : Prop :=
  ∃ ts x, Token.scan text = ts.map Token.limited ∧ numberParams 0 ts = ts ∧
    readExpr? (8 * ts.length + 8) ts = some (x, []) ∧ x.Gives t q v

namespace Sql.Expr

variable {x : Expr} {q : Params} {v : Entry → Truth} {numbers : Nat → Prop}

theorem WrittenBy.means (h : x.WrittenBy numbers Disjoined) (hgives : x.Gives t q v) :
    Means x.render t q v := by
  obtain ⟨ts, hlex, hclosed, hform⟩ := h
  exact ⟨ts, x, hlex.scan_eq, numberParams_closed hclosed, hform.reads_whole, hgives⟩

theorem WrittenBy.render_ne_empty (h : x.WrittenBy numbers Disjoined) : x.render ≠ "" := by
  obtain ⟨ts, hlex, -, hform⟩ := h
  exact hform.text_ne_empty hlex

end Sql.Expr

namespace Condition

/-- The text of a condition is empty if no test stands in it, and else that of what is built. -/
theorem render_of_build (c : Condition) {P : Params → String → Prop}
    (h : c.isEmpty = false → Binds c.build fun q x => ∃ y, x = some y ∧ y.render ≠ "" ∧
      P q y.render) (p : Params) :
    p.Extends (c.render p).2 ∧ ((c.render p).1 = "" ↔ c.isEmpty = true) ∧
      (c.isEmpty = false → ∀ q, (c.render p).2.Extends q → P q (c.render p).1) := by
  have hrender : c.render p = (((c.build p).1.map Expr.render).getD "", (c.build p).2) := rfl
  cases hempty : c.isEmpty with
  | true =>
      rw [hrender, build_of_isEmpty c hempty]
      exact ⟨.refl p, by simp, nofun⟩
  | false =>
      obtain ⟨hext, hbuilt⟩ := h hempty p
      rw [hrender]
      refine ⟨hext, ?_, fun _ q hq => ?_⟩
      · obtain ⟨y, hy, hne, -⟩ := hbuilt _ (.refl _)
        rw [hy]
        simpa using hne
      · obtain ⟨y, hy, -, hP⟩ := hbuilt q hq
        rw [hy]
        exact hP

variable (h : s.Fits t) (c : Condition) (hcolumns : ∀ n ∈ c.columns, ∃ f, s.requireField n = .ok f)
  (hfree : c.hasFragment = false)

include h hcolumns hfree

theorem build_written_gives (htests : c.isEmpty = false) :
    Binds c.build fun q x => ∃ y, x = some y ∧ y.Written Disjoined ∧
      y.Gives t q fun e => c.verdict s e := by
  intro p
  obtain ⟨hext, hgives⟩ := c.build_gives h hcolumns hfree htests p
  obtain ⟨-, hwritten⟩ := c.build_written (fun n hn => (hcolumns n hn).elim fun f hf =>
    Schema.nul_notMem_field hf) hfree htests p
  refine ⟨hext, fun q hq => ?_⟩
  obtain ⟨y, hy, hv⟩ := hgives q hq
  obtain ⟨z, hz, hw, -⟩ := hwritten q hq
  obtain rfl := Option.some.inj (hy.symm.trans hz)
  exact ⟨y, hy, hw, hv⟩

/-- The text of a condition is empty if no test stands in it, and else means the verdict. -/
theorem render_means (p : Params) :
    p.Extends (c.render p).2 ∧ ((c.render p).1 = "" ↔ c.isEmpty = true) ∧
      (c.isEmpty = false → ∀ q, (c.render p).2.Extends q →
        Means (c.render p).1 t q fun e => c.verdict s e) := by
  refine c.render_of_build (P := fun q text => Means text t q fun e => c.verdict s e)
    (fun htests => (c.build_written_gives h hcolumns hfree htests).imp fun q x => ?_) p
  rintro ⟨y, rfl, hw, hv⟩
  exact ⟨y, rfl, hw.render_ne_empty, hw.means hv⟩

end Condition

/-! ## Queries of filters -/

namespace Filter

variable {f : Filter}

/-- The columns of a query that takes some fields, or all when none is named. -/
def columnsOf (fields : List String) : List ResultColumn :=
  if fields.isEmpty then [.all] else fields.map fun n => .expr (.ofName n) none

theorem select_eq {fields : List String} :
    f.select s fields = (Selection.mk s f (columnsOf fields)).toSelect #[] := by
  unfold select columnsOf
  split <;> rfl

/-- A selection that passes its check names declared columns. -/
theorem declared_of_check {q : Selection} (h : q.check = .ok ()) {n : String}
    (hn : n ∈ q.filter.columns) : ∃ g, q.schema.requireField n = .ok g := by
  obtain ⟨⟨⟩, hall, -⟩ := Except.bind_eq_ok_iff.1 h
  obtain ⟨g, hg, -⟩ := Except.bind_eq_ok_iff.1 (Except.forM_eq_ok_iff.1 hall n hn)
  exact ⟨g, hg⟩

theorem declared_of_select {fields : List String} {q : Select × Params}
    (h : f.select s fields = .ok q) : ∀ n ∈ f.columns, ∃ g, s.requireField n = .ok g := by
  rw [select_eq, Selection.toSelect] at h
  obtain ⟨⟨⟩, hcheck, -⟩ := Except.bind_eq_ok_iff.1 h
  exact fun n hn => declared_of_check hcheck hn

theorem select_ok (h : ∀ n ∈ f.columns, ∃ g, s.requireField n = .ok g) (fields : List String) :
    f.select s fields = .ok (.mk (columnsOf fields) (some (.table s.table.allQuoted none))
      (f.build #[]).1 (f.terms s) f.sqlLimit?, (f.build #[]).2) := by
  have hcolumns : (columnsOf fields).isEmpty = false := by
    unfold columnsOf
    cases fields <;> rfl
  have hdeclared : (f.columns.forM fun c => do let _ ← s.requireField c : Except Error Unit) =
      .ok () := by
    rw [Except.forM_eq_ok_iff]
    intro n hn
    obtain ⟨g, hg⟩ := h n hn
    rw [hg]
    rfl
  have hcheck : (Selection.mk s f (columnsOf fields)).check = .ok () := by
    unfold Selection.check
    dsimp only
    rw [hdeclared, hcolumns]
    rfl
  rw [select_eq, Selection.toSelect, hcheck]
  rfl

theorem exists_columnTokens {fields : List String} (hnul : ∀ n ∈ fields, '\x00' ∉ n.toList) :
    ∃ css, css ≠ [] ∧ (∀ ts ∈ css, Fixed ts) ∧ List.Forall₂ ColumnTokens css (columnsOf fields) ∧
      List.Forall₂ Lexes ((columnsOf fields).map ResultColumn.render) css := by
  unfold columnsOf
  cases fields with
  | nil => exact ⟨[[.symbol '*']], by simp, by simp [Token.isFixed], .cons .all .nil,
      .cons separates_star.lexes .nil⟩
  | cons n ns =>
      refine ⟨(n :: ns).map fun n => [.name n], by simp, by simp [Token.isFixed], ?_, ?_⟩
      · rw [List.isEmpty_cons, if_neg Bool.false_ne_true, List.forall₂_map_left_iff,
          List.forall₂_map_right_iff, List.forall₂_same]
        exact fun m _ => .plain (.one (.one ((readAgain 20).negation rfl)))
      · rw [List.isEmpty_cons, if_neg Bool.false_ne_true, List.map_map, List.forall₂_map_left_iff,
          List.forall₂_map_right_iff, List.forall₂_same]
        intro m hm
        have htext : (ResultColumn.expr (.ofName m) none).render = (Expr.ofName m).render :=
          String.append_empty
        rw [Function.comp_apply, htext]
        exact Expr.lexes_ofName (hnul m hm)

theorem limited_columns {css : List (List Token)} (h : ∀ ts ∈ css, Fixed ts) :
    css.map (List.map Token.limited) = css :=
  (List.map_congr_left fun ts hts => (h ts hts).limited).trans (List.map_id css)

/-- The statement of a query of a filter, whatever its condition is, is read as that query. -/
theorem ofTokens_tokens {css : List (List Token)} {cs : List ResultColumn}
    {ts? : Option (List Token)} {x? : Option Expr} (hparts : s.table.parts.length ≤ 2)
    (hcs : List.Forall₂ ColumnTokens css cs) (hne : css ≠ []) (hx : Option.Rel Disjoined ts? x?) :
    ofTokens? (f.tokens s css ts?) = some (.select
      (.mk cs (some (.table s.table.allQuoted none)) x? (f.terms s) f.sqlLimit?)) := by
  have hread := f.read_tokens (r := []) (d := 8 * (f.tokens s css ts?).length + 8) hparts hcs hne
    hx (.nil _) (by omega)
  rw [List.append_nil] at hread
  obtain ⟨r, hr⟩ : ∃ r, f.tokens s css ts? = .keyword .select :: r := ⟨_, rfl⟩
  rw [hr] at hread ⊢
  simp only [ofTokens?, readStatement?, hread, Option.bind_eq_bind, Option.bind_some]
  rfl

/-- The text of a query of a filter, given that of its condition and what this is read as. -/
theorem select_reads {fields : List String} {y? x? : Option Expr} {ts? : Option (List Token)}
    (hparts : s.table.parts.length ≤ 2) (hnul : ∀ p ∈ s.table.parts, '\x00' ∉ p.name.toList)
    (hfields : ∀ n ∈ fields, '\x00' ∉ n.toList) (horder : ∀ c ∈ f.order, '\x00' ∉ c.1.toList)
    (hlex : Option.Rel (fun y ts => Lexes (Expr.render y) ts) y?
      (ts?.map (List.map Token.limited)))
    (hclosed : ∀ ts ∈ ts?, Closed ts) (hx : Option.Rel Disjoined ts? x?) :
    ∃ ts, Token.scan (Select.mk (columnsOf fields) (some (.table s.table.allQuoted none)) y?
        (f.terms s) f.sqlLimit?).render = ts.map Token.limited ∧ numberParams 0 ts = ts ∧
      ofTokens? ts = some (.select (.mk (columnsOf fields) (some (.table s.table.allQuoted none))
        x? (f.terms s) f.sqlLimit?)) := by
  obtain ⟨css, hne, hfixed, hread, hcolumns⟩ := exists_columnTokens hfields
  refine ⟨f.tokens s css ts?, ?_, ?_, ofTokens_tokens hparts hread hne hx⟩
  · rw [tokens, limited_selectTokens _ _ (Identifier.fixed_tokens hparts) fixed_termTokens,
      limited_columns hfixed]
    exact (lexes_tokens hparts hnul horder hcolumns hlex).scan_eq
  · rw [tokens, numberParams_selectTokens _ _ (Identifier.fixed_tokens hparts) fixed_termTokens
      (fixed_intercalate hfixed).closed]
    congr 1
    cases ts? with
    | none => rfl
    | some ts => exact congrArg some (numberParams_closed (hclosed ts rfl))

end Filter

/-! ## What filters mean -/

/-- A condition and a filter are read as what their trees say: the text of a condition is empty if
no test stands in it, and else it is an expression that gives the condition's verdict; the query of
a filter has the conjunction of the members for its condition, and none if they are all empty. -/
theorem filters_mean_their_trees {b : SchemaBuilder} (hb : b.build = .ok s)
    (hstate : s.TableState t) :
    (∀ c : Condition, (∀ n ∈ c.columns, ∃ f, s.requireField n = .ok f) → c.hasFragment = false →
      ∀ p : Params, p.Extends (c.render p).2 ∧ ((c.render p).1 = "" ↔ c.isEmpty = true) ∧
        (c.isEmpty = false → ∀ q, (c.render p).2.Extends q →
          Means (c.render p).1 t q fun e => c.verdict s e)) ∧
    ∀ (f : Filter) (fields : List String), (∀ n ∈ f.columns, ∃ g, s.requireField n = .ok g) →
      Condition.anyFragment f.conditions = false →
      (∀ n ∈ fields, ∃ g, s.requireField n = .ok g) →
      ∃ x? q ps ts, f.select s fields = .ok (q, ps) ∧
        q = .mk (Filter.columnsOf fields) (some (.table s.table.allQuoted none)) x? (f.terms s)
          f.sqlLimit? ∧
        (x? = none ↔ ∀ c ∈ f.conditions, c.isEmpty = true) ∧
        (∀ x ∈ x?, x.Gives t ps fun e => Truth.conjunction (Condition.verdicts s e f.conditions)) ∧
        Token.scan q.render = ts.map Token.limited ∧ numberParams 0 ts = ts ∧
        ofTokens? ts = some (.select q) := by
  have hfits := Schema.fits_of_tableState hstate
  refine ⟨fun c hcolumns hfree p => c.render_means hfits hcolumns hfree p, ?_⟩
  intro f fields hcolumns hfree hfields
  have hparts := Schema.length_parts_of_tableState hstate
  have hnul {n : String} (hn : ∃ g, s.requireField n = .ok g) : '\x00' ∉ n.toList :=
    hn.elim fun g hg => Schema.nul_notMem_field hg
  have hconditions : ∀ n ∈ (Condition.all f.conditions).columns, ∃ g, s.requireField n = .ok g :=
    fun n hn => hcolumns n (List.mem_append_left _ hn)
  have horder : ∀ c ∈ f.order, '\x00' ∉ c.1.toList := fun c hc =>
    hnul (hcolumns c.1 (List.mem_append_right _ (List.mem_map_of_mem hc)))
  have hempty : (Condition.all f.conditions).isEmpty = true ↔ ∀ c ∈ f.conditions,
      c.isEmpty = true := by
    rw [Condition.isEmpty, Condition.allEmpty_eq, List.all_eq_true]
  have hreads {x? : Option Expr} {ts? : Option (List Token)} := @Filter.select_reads s f fields x?
    x? ts? hparts (SchemaBuilder.nul_notMem_table hb) (fun n hn => hnul (hfields n hn)) horder
  have hselect := Filter.select_ok hcolumns fields
  cases htests : (Condition.all f.conditions).isEmpty with
  | true =>
      have hbuilt : f.build #[] = (none, #[]) := Condition.build_of_isEmpty _ htests #[]
      rw [hbuilt] at hselect
      obtain ⟨ts, hread⟩ := @hreads none none .none (by simp) .none
      exact ⟨none, _, _, ts, hselect, rfl, by simp [← hempty, htests], by simp, hread⟩
  | false =>
      obtain ⟨x, hx, hwritten, hgives⟩ := ((Condition.all f.conditions).build_written_gives hfits
        hconditions hfree htests #[]).2 _ (.refl _)
      obtain ⟨us, hlex, hclosed, hform⟩ := hwritten
      have hbuilt : (f.build #[]).1 = some x := hx
      rw [hbuilt] at hselect
      obtain ⟨ts, hread⟩ := @hreads (some x) (some us) (.some hlex) (by simpa using hclosed)
        (.some hform)
      refine ⟨some x, _, _, ts, hselect, rfl, by simp [← hempty, htests], ?_, hread⟩
      rintro _ ⟨⟩
      simp only [Condition.verdict] at hgives
      exact hgives

/-! ## Three rows -/

namespace ThreeRows

def builder : SchemaBuilder :=
  ((SchemaBuilder.new "t").key "id" .integer).nullable "x" .integer

def schema : Schema where
  table := .ofPart (.bare "t")
  fields := [⟨"id", .integer, false⟩, ⟨"x", .integer, true⟩]
  primaryKey := ⟨"id", .integer, false⟩
  autoIncrement := false
  names_nodup := by decide
  names_valid := by decide +kernel
  key_mem := by decide
  key_required := Eq.refl false
  generated_integer := fun _ => Eq.refl FieldKind.integer

theorem build_builder : builder.build = .ok schema := by
  with_unfolding_all rfl

theorem declared : ∀ n ∈ ["id", "x"], ∃ f, schema.requireField n = .ok f := by
  simp only [List.mem_cons, List.not_mem_nil, or_false, forall_eq_or_imp, forall_eq]
  exact ⟨⟨_, rfl⟩, ⟨_, rfl⟩⟩

/-- The table of the schema with some rows. -/
def table (sequence : Int64) (entries : List Entry) : Table :=
  ⟨"t", [⟨"id", .integer, true⟩, ⟨"x", .integer, false⟩], some 0, false, [], [], [], sequence,
    entries⟩

def entries : List Entry :=
  [⟨3, #[.integer 3, .integer 7]⟩, ⟨2, #[.integer 2, .null]⟩, ⟨1, #[.integer 1, .integer 5]⟩]

theorem prepare_createTable : prepare ⟨.empty, #[], 0⟩ schema.createTable =
    .ok (.create .main (table 0 [])) := by
  with_unfolding_all rfl

def insertion : Sql.Statement :=
  .insert schema.table.allQuoted [.quoted "id", .quoted "x"]
    [[.literal (.integer 1), .literal (.integer 5)], [.literal (.integer 2), .literal .null],
      [.literal (.integer 3), .literal (.integer 7)]]

theorem prepare_insertion : prepare ⟨⟨[table 0 []], []⟩, #[], 0⟩ insertion =
    .ok (.insert .main (table 0 []) true [[.integer 1, .integer 5], [.integer 2, .null],
      [.integer 3, .integer 7]]) := by
  with_unfolding_all rfl

theorem insertAll_rows : (Insertion.start (table 0 [])).insertAll [[.integer 1, .integer 5],
    [.integer 2, .null], [.integer 3, .integer 7]] = (⟨table 3 entries, [], some 3⟩, none) := by
  with_unfolding_all rfl

theorem tableState : schema.TableState (table 3 entries) :=
  .inserted (.created prepare_createTable) prepare_insertion insertAll_rows

/-- Larger than five or not known to be smaller, in a group that an empty one stands in. -/
def condition : Condition :=
  .all [.any [], .not (.test "x" .lt (.integer 6)), .any [.null "id" true, .member "x" [] false]]

end ThreeRows

open ThreeRows in
/-- A negation and an alternative: true of one row, unknown for the next and false of the last. -/
theorem filters_mean_their_trees_of_three :
    (condition.render #[]).1 = "NOT (\"x\" < ?1) AND (\"id\" IS NOT NULL OR 1=0)" ∧
      Means (condition.render #[]).1 (table 3 entries) #[.integer 6]
        (fun e => condition.verdict schema e) ∧
      entries.map (condition.verdict schema) = [some true, none, some false] := by
  have hmeans := (filters_mean_their_trees build_builder tableState).1 condition
    (fun n hn => declared n ((show condition.columns ⊆ ["id", "x"] by decide) hn)) rfl #[]
  exact ⟨by decide +kernel, hmeans.2.2 rfl _ (.refl _), by decide +kernel⟩

end StagedStore
