import StagedStore.Proofs.Filter.Shown
import StagedStore.Proofs.Filter.Statements

/-!
# Columns of filters

The columns that a filter is checked for are those that its text names.  They are collected from the
tree of the tests, and the text is made from it; each leaves other parts out, but only tests for
membership in an empty list are collected and not written.
-/

namespace StagedStore

open Sql

namespace Condition

/-! ## Columns that tests name -/

/-- A test in a condition names a column. -/
inductive Mentions : Condition → String → Prop
  | all {cs : List Condition} {c : Condition} {n : String} (hc : c ∈ cs) (h : Mentions c n) :
    Mentions (.all cs) n
  | any {cs : List Condition} {c : Condition} {n : String} (hc : c ∈ cs) (h : Mentions c n) :
    Mentions (.any cs) n
  | not {c : Condition} {n : String} (h : Mentions c n) : Mentions (.not c) n
  | test (n : String) (op : TestOp) (v : Value) : Mentions (.test n op v) n
  | null (n : String) (negated : Bool) : Mentions (.null n negated) n
  | member (n : String) (vs : List Value) (negated : Bool) : Mentions (.member n vs negated) n
  | between (n : String) (low high : Value) (negated : Bool) :
    Mentions (.between n low high negated) n

mutual

theorem mem_columns_iff (c : Condition) (n : String) : n ∈ c.columns ↔ c.Mentions n := by
  cases c with
  | all cs =>
      rw [columns, mem_allColumns_iff cs n]
      exact ⟨fun ⟨c, hc, h⟩ => .all hc h, fun | .all hc h => ⟨_, hc, h⟩⟩
  | any cs =>
      rw [columns, mem_allColumns_iff cs n]
      exact ⟨fun ⟨c, hc, h⟩ => .any hc h, fun | .any hc h => ⟨_, hc, h⟩⟩
  | not c =>
      rw [columns, mem_columns_iff c n]
      exact ⟨.not, fun | .not h => h⟩
  | test column op v =>
      rw [columns, List.mem_singleton]
      exact ⟨fun h => h ▸ .test n op v, fun | .test .. => rfl⟩
  | null column negated =>
      rw [columns, List.mem_singleton]
      exact ⟨fun h => h ▸ .null n negated, fun | .null .. => rfl⟩
  | member column vs negated =>
      rw [columns, List.mem_singleton]
      exact ⟨fun h => h ▸ .member n vs negated, fun | .member .. => rfl⟩
  | between column low high negated =>
      rw [columns, List.mem_singleton]
      exact ⟨fun h => h ▸ .between n low high negated, fun | .between .. => rfl⟩
  | _ => exact ⟨nofun, nofun⟩

theorem mem_allColumns_iff (cs : List Condition) (n : String) :
    n ∈ allColumns cs ↔ ∃ c ∈ cs, c.Mentions n := by
  cases cs with
  | nil => simp [allColumns]
  | cons c cs =>
      rw [allColumns, List.mem_append, mem_columns_iff c n, mem_allColumns_iff cs n,
        List.exists_mem_cons_iff]

end

mutual

/-- A condition in which a test for membership in an empty list is the truth value that it is. -/
def withoutEmptyLists : Condition → Condition
  | .all cs => .all (allWithoutEmptyLists cs)
  | .any cs => .any (allWithoutEmptyLists cs)
  | .not c => .not (withoutEmptyLists c)
  | .member column vs negated =>
    if vs.isEmpty then (if negated then .always else .never) else .member column vs negated
  | c => c

def allWithoutEmptyLists : List Condition → List Condition
  | [] => []
  | c :: cs => withoutEmptyLists c :: allWithoutEmptyLists cs

end

mutual

theorem columns_of_isEmpty (c : Condition) (h : c.isEmpty = true) :
    c.withoutEmptyLists.columns = [] := by
  cases c with
  | all cs => exact allColumns_of_allEmpty cs h
  | any cs => exact allColumns_of_allEmpty cs h
  | not c => exact columns_of_isEmpty c h
  | _ => simp [isEmpty] at h

theorem allColumns_of_allEmpty (cs : List Condition) (h : allEmpty cs = true) :
    allColumns (allWithoutEmptyLists cs) = [] := by
  cases cs with
  | nil => rfl
  | cons c cs =>
      obtain ⟨hc, hcs⟩ := Bool.and_eq_true_iff.1 h
      rw [allWithoutEmptyLists, allColumns, columns_of_isEmpty c hc, allColumns_of_allEmpty cs hcs]
      rfl

end

mutual

theorem sublist_columns (c : Condition) : c.withoutEmptyLists.columns.Sublist c.columns := by
  cases c with
  | all cs => exact sublist_allColumns cs
  | any cs => exact sublist_allColumns cs
  | not c => exact sublist_columns c
  | member column vs negated =>
      rw [withoutEmptyLists]
      split
      · split <;> exact List.nil_sublist _
      · exact .refl _
  | _ => exact .refl _

theorem sublist_allColumns (cs : List Condition) :
    (allColumns (allWithoutEmptyLists cs)).Sublist (allColumns cs) := by
  cases cs with
  | nil => exact .refl _
  | cons c cs => exact (sublist_columns c).append (sublist_allColumns cs)

end

/-! ## Columns that are written -/

/-- Goes through an expression from left to right and tells its columns. -/
structure TellsColumns (tell : Expr → List String) : Prop where
  name : ∀ n, tell (.ofName n) = [n]
  param : ∀ n, tell (.param n) = []
  literal : ∀ v, tell (.literal v) = []
  paren : ∀ e, tell (.paren e) = tell e
  not : ∀ e, tell (.not e) = tell e
  nullCheck : ∀ negated e, tell (.nullCheck negated e) = tell e
  and : ∀ a b, tell (.and a b) = tell a ++ tell b
  or : ∀ a b, tell (.or a b) = tell a ++ tell b
  compare : ∀ op a b, tell (.compare op a b) = tell a ++ tell b
  like : ∀ negated a b, tell (.like negated a b) = tell a ++ tell b
  between : ∀ negated a l h, tell (.between negated a l h) = tell a ++ tell l ++ tell h
  inList : ∀ negated a es, tell (.inList negated a es) = tell a ++ es.flatMap tell

variable {tell : Expr → List String}

theorem TellsColumns.truth (ht : TellsColumns tell) (b : Bool) : tell (truth b) = [] := by
  rw [Condition.truth, ht.compare, ht.literal, ht.literal]
  rfl

theorem TellsColumns.params (ht : TellsColumns tell) (n k : Nat) :
    (paramsFrom n k).flatMap tell = [] := by
  rw [paramsFrom, List.flatMap_map]
  exact List.flatMap_eq_nil_iff.2 fun i _ => ht.param _

mutual

/-- What is built for a condition tells the columns that the condition does, but for those tested
for membership in an empty list. -/
theorem TellsColumns.build (ht : TellsColumns tell) (c : Condition)
    (hfragment : c.hasFragment = true → ∀ t, tell (.fragment t) = []) (p : Params) :
    (c.build p).1.toList.flatMap tell = c.withoutEmptyLists.columns := by
  have htext (t : String) (hnone : tell (.fragment t) = []) :
      (fragment? t).toList.flatMap tell = [] := by
    unfold fragment?
    split
    · rfl
    · simpa using hnone
  cases c with
  | all cs =>
      rw [build_all, flatMap_joinBy ht.and]
      exact ht.buildAll cs hfragment p
  | any cs =>
      rw [build_any, flatMap_joinBy ht.or]
      exact ht.buildAll cs hfragment p
  | not c =>
      have hc := ht.build c hfragment p
      rw [build_not, Option.toList_map, List.flatMap_map]
      simp only [ht.not, ht.paren]
      exact hc
  | test column op v =>
      rw [build_test]
      cases op <;> simp [TestOp.apply, ht.compare, ht.like, ht.name, ht.param, withoutEmptyLists,
        columns]
  | null column negated =>
      rw [build_null]
      simp [ht.nullCheck, ht.name, withoutEmptyLists, columns]
  | member column vs negated =>
      cases vs with
      | nil =>
          rw [build_member_nil]
          cases negated <;> simp [ht.truth, withoutEmptyLists, columns]
      | cons v vs =>
          rw [build_member (List.cons_ne_nil v vs)]
          simp [ht.inList, ht.name, ht.params, withoutEmptyLists, columns]
  | between column low high negated =>
      rw [build_between]
      simp [ht.between, ht.name, ht.param, withoutEmptyLists, columns]
  | template sql vs =>
      rw [build_template]
      exact htext _ (hfragment rfl _)
  | raw sql =>
      rw [build_raw]
      exact htext sql (hfragment rfl sql)
  | always =>
      rw [build_always]
      simpa [withoutEmptyLists, columns] using ht.truth true
  | never =>
      rw [build_never]
      simpa [withoutEmptyLists, columns] using ht.truth false

theorem TellsColumns.buildAll (ht : TellsColumns tell) (cs : List Condition)
    (hfragment : anyFragment cs = true → ∀ t, tell (.fragment t) = []) (p : Params) :
    (Condition.buildAll cs p).1.flatMap tell = allColumns (allWithoutEmptyLists cs) := by
  cases cs with
  | nil =>
      rw [buildAll_nil]
      rfl
  | cons c cs =>
      have hrest (q : Params) := ht.buildAll cs (fun h => hfragment (by simp [anyFragment, h])) q
      rw [buildAll_cons, allWithoutEmptyLists, allColumns]
      split
      · rename_i hempty
        rw [columns_of_isEmpty c hempty]
        exact hrest p
      · have hc := ht.build c (fun h => hfragment (by simp [anyFragment, h])) p
        have hplaced (e : Expr) : tell (c.placed e) = tell e := by
          unfold placed
          split
          · exact ht.paren e
          · rfl
        rw [List.flatMap_append, hrest, Option.toList_map, List.flatMap_map]
        simp only [hplaced, hc]

end

/-! ## Names in the text -/

theorem tellsColumns_names : TellsColumns fun e => e.marks.filterMap Mark.name? where
  name _ := rfl
  param n := by cases n <;> rfl
  literal _ := rfl
  paren _ := rfl
  not _ := rfl
  nullCheck _ _ := rfl
  and a b := by rw [Expr.marks, List.filterMap_append]
  or a b := by rw [Expr.marks, List.filterMap_append]
  compare op a b := by rw [Expr.marks, List.filterMap_append]
  like negated a b := by rw [Expr.marks, List.filterMap_append]
  between negated a l h := by rw [Expr.marks, List.filterMap_append, List.filterMap_append]
  inList negated a es := by
    rw [Expr.marks, List.filterMap_append, Expr.marksAll_eq, List.filterMap_flatMap]

/-- The names in a column. -/
def columnNames : Expr → List String
  | .column none n => [n.name]
  | .column (some q) n => [q.name, n.name]
  | _ => []

theorem tellsColumns_leaves : TellsColumns fun e => e.leaves.flatMap columnNames where
  name _ := rfl
  param _ := rfl
  literal _ := rfl
  paren _ := rfl
  not _ := rfl
  nullCheck _ _ := rfl
  and a b := by rw [Expr.leaves, List.flatMap_append]
  or a b := by rw [Expr.leaves, List.flatMap_append]
  compare op a b := by rw [Expr.leaves, List.flatMap_append]
  like negated a b := by rw [Expr.leaves, List.flatMap_append]
  between negated a l h := by rw [Expr.leaves, List.flatMap_append, List.flatMap_append]
  inList negated a es := by
    rw [Expr.leaves, List.flatMap_append, Expr.leavesAll_eq, List.flatMap_assoc]

mutual

/-- Without the caller's own texts there is nothing untidy. -/
theorem tidy_of_free (c : Condition) (h : c.hasFragment = false) : c.Tidy := by
  cases c with
  | all cs => exact allTidy_of_free cs h
  | any cs => exact allTidy_of_free cs h
  | not c => exact tidy_of_free c h
  | template sql vs => cases h
  | raw sql => cases h
  | _ => trivial

theorem allTidy_of_free (cs : List Condition) (h : anyFragment cs = false) : AllTidy cs := by
  cases cs with
  | nil => trivial
  | cons c cs =>
      obtain ⟨hc, hcs⟩ := Bool.or_eq_false_iff.1 h
      exact ⟨tidy_of_free c hc, allTidy_of_free cs hcs⟩

end

theorem quotedNames_render {c : Condition} (h : c.hasFragment = false) (p : Params) :
    quotedNames (c.render p).1 = c.withoutEmptyLists.columns := by
  have hnames := tellsColumns_names.build c (fun hfragment => by simp [h] at hfragment) p
  rw [quotedNames, marks_render (tidy_of_free c h), List.filterMap_flatMap]
  exact hnames

/-- The columns that are written are among those that are checked. -/
theorem mentions_of_leaf {c : Condition} {p : Params} {x e : Expr} {n : String}
    (hx : x ∈ (c.build p).1) (he : e ∈ x.leaves) (hn : n ∈ columnNames e) : c.Mentions n := by
  have htold := tellsColumns_leaves.build c (fun _ t => rfl) p
  have hmem : n ∈ (c.build p).1.toList.flatMap fun e => e.leaves.flatMap columnNames :=
    List.mem_flatMap.2 ⟨x, Option.mem_toList.2 hx, List.mem_flatMap.2 ⟨e, he, hn⟩⟩
  rw [htold] at hmem
  exact (mem_columns_iff c n).1 ((sublist_columns c).subset hmem)

end Condition

/-! ## The check -/

/-- A field of the schema has the name. -/
def Schema.Declares (s : Schema) (n : String) : Prop :=
  ∃ f ∈ s.fields, f.name = n

theorem Schema.declares_iff {s : Schema} {n : String} :
    s.Declares n ↔ ∃ f, s.requireField n = .ok f := by
  constructor
  · rintro ⟨f, hf, rfl⟩
    exact ⟨f, requireField_of_mem hf⟩
  · rintro ⟨f, hf⟩
    obtain ⟨hi, rfl⟩ := getElem?_fieldIndex hf
    exact ⟨f, List.mem_of_getElem? hi, rfl⟩

theorem Schema.requireField_error {s : Schema} {n : String} {e : Error}
    (h : s.requireField n = .error e) :
    ¬ s.Declares n ∧ e = .validation (.unknownField n s.table.name) := by
  constructor
  · rw [declares_iff]
    rintro ⟨f, hf⟩
    rw [hf] at h
    cases h
  · unfold requireField at h
    split at h
    · cases h
    · exact (Except.error.inj h).symm

theorem Except.forM_eq_error {ε α : Type} {f : α → Except ε Unit} {xs : List α} {e : ε}
    (h : xs.forM f = .error e) : ∃ x ∈ xs, f x = .error e := by
  induction xs with
  | nil => cases h
  | cons x xs ih =>
      change (f x >>= fun _ => xs.forM f) = .error e at h
      rcases Except.bind_eq_error_iff.1 h with hx | ⟨⟨⟩, -, h⟩
      · exact ⟨x, List.mem_cons_self, hx⟩
      · obtain ⟨y, hy, he⟩ := ih h
        exact ⟨y, List.mem_cons_of_mem x hy, he⟩

/-- A test or the ordering of a filter names a column. -/
def Filter.Names (f : Filter) (n : String) : Prop :=
  (∃ c ∈ f.conditions, c.Mentions n) ∨ ∃ o ∈ f.order, o.1 = n

theorem Filter.mem_columns_iff {f : Filter} {n : String} : n ∈ f.columns ↔ f.Names n := by
  rw [columns, List.mem_append, Condition.mem_allColumns_iff, List.mem_map]
  rfl

namespace Selection

/-- A query built into a list of parameters that others have bound values in. -/
def buildInto (q : Selection) : Action Params Select := do
  Action.ofExcept q.check
  ExceptT.lift q.build

variable {s : Schema} {f : Filter} {columns : List ResultColumn} {bound : Params}

theorem outcome_buildInto (q : Selection) (bound : Params) :
    outcome q.buildInto bound =
      match q.toSelect bound with
      | .ok (query, params) => (.ok query, params)
      | .error e => (.error e, bound) := by
  rw [buildInto, Action.outcome_bind, Action.outcome_ofExcept, toSelect]
  cases q.check <;> rfl

/-- The check of one column after the other. -/
def checkColumns (s : Schema) (f : Filter) : Except Error Unit :=
  f.columns.forM fun c => do
    let _ ← s.requireField c

theorem check_eq (hcolumns : columns ≠ []) :
    (Selection.mk s f columns).check = checkColumns s f := by
  have hempty : columns.isEmpty = false := List.isEmpty_eq_false_iff.2 hcolumns
  rw [check, hempty]
  change (checkColumns s f >>= fun _ => .ok ()) = _
  cases checkColumns s f <;> rfl

theorem checkColumns_eq_ok_iff : checkColumns s f = .ok () ↔ ∀ n, f.Names n → s.Declares n := by
  rw [checkColumns, Except.forM_eq_ok_iff]
  refine forall_congr' fun n => ?_
  rw [Filter.mem_columns_iff, Schema.declares_iff]
  refine imp_congr_right fun _ => ?_
  rw [Except.bind_eq_ok_iff]
  exact ⟨fun ⟨g, hg, _⟩ => ⟨g, hg⟩, fun ⟨g, hg⟩ => ⟨g, hg, rfl⟩⟩

theorem checkColumns_eq_error {e : Error} (h : checkColumns s f = .error e) :
    ∃ n, f.Names n ∧ ¬ s.Declares n ∧ e = .validation (.unknownField n s.table.name) := by
  obtain ⟨n, hn, he⟩ := Except.forM_eq_error h
  rcases Except.bind_eq_error_iff.1 he with he | ⟨g, -, he⟩
  · exact ⟨n, Filter.mem_columns_iff.1 hn, Schema.requireField_error he⟩
  · cases he

end Selection

/-- The columns that a filter is checked for are those that its text names.  Without text of the
caller's own, a condition is written with the columns of its tests in order, but for those tested
for membership in an empty list.  A query is built just when each column that a test or the ordering
names is declared; else it is refused for one that is not, and nothing is bound.  So each column
that is written in a query outside of the caller's own texts is declared. -/
theorem check_sees_every_column (s : Schema) (f : Filter) {columns : List ResultColumn}
    (hcolumns : columns ≠ []) (bound : Params) :
    (∀ c : Condition, c.hasFragment = false → ∀ p,
      quotedNames (c.render p).1 = c.withoutEmptyLists.columns) ∧
    ((∃ r, Selection.toSelect ⟨s, f, columns⟩ bound = .ok r) ↔ ∀ n, f.Names n → s.Declares n) ∧
    (∀ e, Selection.toSelect ⟨s, f, columns⟩ bound = .error e →
      (∃ n, f.Names n ∧ ¬ s.Declares n ∧ e = .validation (.unknownField n s.table.name)) ∧
      outcome (Selection.buildInto ⟨s, f, columns⟩) bound = (.error e, bound)) ∧
    ∀ query params, Selection.toSelect ⟨s, f, columns⟩ bound = .ok (query, params) →
      outcome (Selection.buildInto ⟨s, f, columns⟩) bound = (.ok query, params) ∧
      query = f.query s columns (f.build bound).1 ∧
      (∀ x ∈ (f.build bound).1, ∀ e ∈ x.leaves, ∀ n ∈ Condition.columnNames e, s.Declares n) ∧
      ∀ t ∈ f.terms s, ∃ n, t.term = .qualified (.quoted s.table.name) n ∧ s.Declares n := by
  have hcheck := Selection.check_eq (s := s) (f := f) hcolumns
  have hiff := Selection.checkColumns_eq_ok_iff (s := s) (f := f)
  refine ⟨fun c hfree p => Condition.quotedNames_render hfree p, ?_, fun e h => ?_,
    fun query params h => ?_⟩
  · rw [← hiff, Selection.toSelect, hcheck]
    constructor
    · rintro ⟨r, hr⟩
      obtain ⟨⟨⟩, hok, -⟩ := Except.bind_eq_ok_iff.1 hr
      exact hok
    · intro hok
      rw [hok]
      exact ⟨_, rfl⟩
  · refine ⟨?_, by rw [Selection.outcome_buildInto, h]⟩
    rw [Selection.toSelect, hcheck] at h
    cases hfailed : Selection.checkColumns s f with
    | ok u =>
        rw [hfailed] at h
        cases h
    | error e' =>
        rw [hfailed] at h
        obtain rfl := Except.error.inj h
        exact Selection.checkColumns_eq_error hfailed
  · refine ⟨by rw [Selection.outcome_buildInto, h], ?_⟩
    obtain ⟨⟨⟩, hok, h⟩ := Except.bind_eq_ok_iff.1 h
    obtain ⟨rfl, -⟩ := Prod.mk.inj (Except.ok.inj h)
    have hdeclared := hiff.1 (hcheck.symm.trans hok)
    refine ⟨rfl, fun x hx e he n hn => hdeclared n (.inl ?_), ?_⟩
    · obtain ⟨c, hc, hmentions⟩ : ∃ c ∈ f.conditions, c.Mentions n := by
        have hall : (Condition.all f.conditions).Mentions n :=
          Condition.mentions_of_leaf (p := bound) hx he hn
        cases hall with
        | all hc h => exact ⟨_, hc, h⟩
      exact ⟨c, hc, hmentions⟩
    · exact List.forall_mem_map.2 fun o ho => ⟨o.1, rfl, hdeclared o.1 (.inr ⟨o, ho, rfl⟩)⟩

open ThreeRows in
/-- Two columns are written, and a third test names no column in the text.  Under the same check a
column that is not declared is refused. -/
theorem check_sees_every_column_of_three :
    [ResultColumn.all] ≠ [] ∧
      quotedNames (condition.render #[]).1 = ["x", "id"] ∧
      condition.columns = ["x", "id", "x"] ∧
      (∃ r, Selection.toSelect ⟨schema, Filter.all.and condition, [.all]⟩ #[] = .ok r) ∧
      ¬ ∃ r, Selection.toSelect ⟨schema, Filter.all.and (.null "y" true), [.all]⟩ #[] = .ok r := by
  have hne : [ResultColumn.all] ≠ [] := List.cons_ne_nil _ _
  obtain ⟨hnames, haccepted, -, -⟩ :=
    check_sees_every_column schema (Filter.all.and condition) hne #[]
  obtain ⟨-, hrefused, -, -⟩ :=
    check_sees_every_column schema (Filter.all.and (.null "y" true)) hne #[]
  refine ⟨hne, (hnames condition rfl #[]).trans (by decide), by decide, haccepted.2 fun n hn => ?_,
    fun hok => ?_⟩
  · have hcolumns : (Filter.all.and condition).columns ⊆ ["id", "x"] := by decide
    exact Schema.declares_iff.2 (declared n (hcolumns (Filter.mem_columns_iff.2 hn)))
  · obtain ⟨g, hg⟩ := Schema.declares_iff.1
      (hrefused.1 hok "y" (.inl ⟨_, List.mem_singleton_self _, .null "y" true⟩))
    cases hg

end StagedStore
