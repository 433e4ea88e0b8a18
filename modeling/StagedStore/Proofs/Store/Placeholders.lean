import StagedStore.Proofs.Filter.Shown
import StagedStore.Proofs.Store.Planned

/-!
# Placeholders of filters and patches

The values of a filter are bound behind those already bound, and the placeholders of its condition
follow on theirs.  A patch binds the amounts of its changes first, so that each placeholder of its
query is the only one of its number.
-/

namespace StagedStore

open Sql

/-! ## Filters -/

namespace Filter

/-- The values of the conditions, from left to right. -/
def values (f : Filter) : List Value :=
  Condition.allValues f.conditions

/-- The text of the conditions behind some parameters, empty if no test stands in them. -/
def conditionText (f : Filter) (bound : Params) : String :=
  ((Condition.all f.conditions).render bound).1

/-- The parameters behind a filter's own. -/
def boundBehind (f : Filter) (bound : Params) : Params :=
  bound ++ (f.values.map Value.toStorage).toArray

variable {s : Schema} {f : Filter} (hf : Condition.AllTidy f.conditions)

include hf

theorem shown_build (bound : Params) :
    Condition.Shown bound (f.build bound).2 f.values (f.build bound).1.toList :=
  Condition.shown_build (.all f.conditions) hf bound

theorem build_bound (bound : Params) : (f.build bound).2 = f.boundBehind bound :=
  (shown_build hf bound).bound

theorem conditionMarks_build (bound : Params) :
    (conditionMarks (f.build bound).1).filterMap Mark.placeholder? =
      numbered bound.size (f.boundBehind bound).size := by
  have hshown := (shown_build hf bound).placeholders
  rw [build_bound hf] at hshown
  rw [← hshown]
  cases (f.build bound).1 <;> simp [conditionMarks]

theorem placeholders_conditionText (bound : Params) :
    placeholders (f.conditionText bound) = numbered bound.size (f.boundBehind bound).size := by
  have hmarks : Sql.marks (f.conditionText bound).toList = _ :=
    Condition.marks_render (c := .all f.conditions) hf bound
  rw [placeholders, hmarks, ← build_bound hf]
  exact (shown_build hf bound).placeholders

/-- The query of a filter has the placeholders of its columns and then its own. -/
theorem placeholders_query {columns : List ResultColumn} (hcolumns : ∀ c ∈ columns, c.Legible)
    (bound : Params) :
    placeholders (f.query s columns (f.build bound).1).render =
      placeholders (", ".intercalate (columns.map ResultColumn.render)) ++
        numbered bound.size (f.boundBehind bound).size := by
  have hlegible := (shown_build hf bound).legible
  have horder : (f.terms s).flatMap (fun t => t.term.marks) =
      f.order.flatMap fun c => [.name s.table.name, .name c.1] := by
    rw [terms, List.flatMap_map]
    rfl
  have hnone : ((f.terms s).flatMap fun t => t.term.marks).filterMap Mark.placeholder? = [] := by
    rw [horder]
    exact placeholders_flatMap fun c _ => rfl
  have hquery : (f.query s columns (f.build bound).1).Legible := by
    refine ⟨hcolumns, ⟨isInert_allQuoted, by simp⟩, fun x hx => hlegible x (by simpa using hx), ?_⟩
    exact List.forall_mem_map.2 fun c _ => ⟨trivial, trivial⟩
  rw [placeholders, (Select.shows_render _ hquery).marks_eq, placeholders,
    (shows_columns hcolumns).marks_eq, ← conditionMarks_build hf bound]
  simp only [query, Select.marks, marksFromSource, Source.marks, List.filterMap_append, hnone]
  simp

end Filter

/-! ## Numbers of placeholders -/

theorem nodup_numbered (n m : Nat) : (numbered n m).Nodup := by
  refine List.Nodup.map (fun i j hij => ?_) List.nodup_range'
  have hrepr : i.repr = j.repr := (String.append_right_inj "?").1 hij
  exact toDigits_inj (by rw [← Nat.toList_repr, ← Nat.toList_repr, hrepr])

theorem disjoint_numbered {n m k : Nat} (h : n ≤ m) (h' : m ≤ k) :
    List.Disjoint (numbered n m) (numbered m k) := by
  have hnodup := nodup_numbered n k
  rw [← numbered_append h h'] at hnodup
  exact List.disjoint_of_nodup_append hnodup

/-! ## Patches -/

namespace Delta

/-- The value that a change binds. -/
def operand? : Delta → Option Value
  | .set v | .increment v => some v
  | .unset => none

/-- The new value of a field in the select list, behind `k` bound values. -/
def columnText (name : String) (k : Nat) : Delta → String
  | .set _ => "?" ++ toString (k + 1) ++ " AS " ++ quoteName name
  | .unset => "NULL AS " ++ quoteName name
  | .increment _ => quoteName name ++ " + ?" ++ toString (k + 1) ++ " AS " ++ quoteName name

end Delta

/-- The new values of fields in the select list, their values numbered behind the first `k`. -/
def changedTexts (k : Nat) : List (String × Delta) → List String
  | [] => []
  | (n, d) :: r => d.columnText n k :: changedTexts (k + d.operand?.toList.length) r

/-- The values that changes bind, under the names of their fields. -/
def operands (entries : List (String × Delta)) : List (String × Value) :=
  entries.filterMap fun (n, d) => d.operand?.map fun v => (n, v)

namespace Assigns

variable {s : Schema} {p q : Params} {ds : List (String × Delta)} {cs : List ResultColumn}

theorem exists_cells (h : Assigns s p ds cs q) : ∃ cells : List Storage,
    List.Forall₂ (fun x w => ∃ f, s.requireField x.1 = .ok f ∧ f.encode x.2 = .ok w)
      (operands ds) cells ∧ q = p ++ cells.toArray := by
  induction h with
  | nil p => exact ⟨[], .nil, by simp⟩
  | @set p q n f v w ds cs hf hw _ ih =>
      obtain ⟨cells, hcells, rfl⟩ := ih
      exact ⟨w :: cells, .cons ⟨f, hf, hw⟩ hcells, by simp⟩
  | unset _ _ ih => exact ih
  | @increment p q n f v w ds cs hf hw _ ih =>
      obtain ⟨cells, hcells, rfl⟩ := ih
      exact ⟨w :: cells, .cons ⟨f, hf, hw⟩ hcells, by simp⟩

theorem render_columns (h : Assigns s p ds cs q) :
    cs.map ResultColumn.render = changedTexts p.size ds := by
  have hplus : " + ?" = " + " ++ "?" := rfl
  induction h with
  | nil => rfl
  | set _ _ _ ih =>
      rw [List.map_cons, ih, Array.size_push, changedTexts, Delta.columnText, ResultColumn.render,
        renderAlias, ← String.append_assoc]
      rfl
  | unset _ _ ih =>
      rw [List.map_cons, ih]
      rfl
  | increment _ _ _ ih =>
      rw [List.map_cons, ih, Array.size_push, changedTexts, Delta.columnText, hplus]
      simp only [ResultColumn.render, renderAlias, Expr.render, Expr.ofName, Part.render,
        String.append_assoc]
      rfl

theorem shown (h : Assigns s p ds cs q) : (∀ c ∈ cs, c.Legible) ∧
    (cs.flatMap ResultColumn.marks).filterMap Mark.placeholder? = numbered p.size q.size := by
  have step {p q : Params} {w : Storage} {e : Expr} {n : String} {cs : List ResultColumn}
      (hq : ∃ cells : List Storage, q = p.push w ++ cells.toArray)
      (hmarks : e.marks.filterMap Mark.placeholder? = numbered p.size (p.size + 1))
      (hrest : (cs.flatMap ResultColumn.marks).filterMap Mark.placeholder? =
        numbered (p.push w).size q.size) :
      ((ResultColumn.expr e (some (.quoted n)) :: cs).flatMap ResultColumn.marks).filterMap
        Mark.placeholder? = numbered p.size q.size := by
    obtain ⟨cells, rfl⟩ := hq
    rw [List.flatMap_cons, List.filterMap_append, hrest, ResultColumn.marks, List.filterMap_append,
      hmarks, placeholders_aliasMarks, List.append_nil, Array.size_push]
    exact numbered_append (by omega) (by simp)
  have hquoted (n : String) : ∀ a ∈ some (Part.quoted n), a.IsInert := by
    rintro a ⟨⟩
    trivial
  induction h with
  | nil p => exact ⟨List.forall_mem_nil _, by simp [numbered]⟩
  | set _ _ h ih =>
      obtain ⟨hlegible, hmarks⟩ := ih
      obtain ⟨cells, -, hq⟩ := h.exists_cells
      exact ⟨List.forall_mem_cons.2 ⟨⟨trivial, hquoted _⟩, hlegible⟩,
        step ⟨cells, hq⟩ (numbered_one _).symm hmarks⟩
  | unset _ _ ih =>
      obtain ⟨hlegible, hmarks⟩ := ih
      exact ⟨List.forall_mem_cons.2 ⟨⟨trivial, hquoted _⟩, hlegible⟩, hmarks⟩
  | increment _ _ h ih =>
      obtain ⟨hlegible, hmarks⟩ := ih
      obtain ⟨cells, -, hq⟩ := h.exists_cells
      exact ⟨List.forall_mem_cons.2 ⟨⟨⟨trivial, trivial⟩, hquoted _⟩, hlegible⟩,
        step ⟨cells, hq⟩ (numbered_one _).symm hmarks⟩

end Assigns

/-- The values of a filter are bound behind those already bound, from left to right, and the
placeholders of its condition are their numbers in order.  A patch binds the amounts of its changes
before the values of its filter, and each placeholder of its query stands for one of them: those of
the select list for the amounts, in the order of the changes, and those of the condition for the
filter's values. -/
theorem placeholders_follow_on {f : Filter} (hf : Condition.AllTidy f.conditions) (s : Schema) :
    (∀ columns bound query params,
      Selection.toSelect ⟨s, f, columns⟩ bound = .ok (query, params) →
        params = bound ++ (f.values.map Value.toStorage).toArray ∧
        query = f.query s columns (f.build bound).1 ∧
        placeholders (f.conditionText bound) = numbered bound.size params.size) ∧
    ∀ c returning plan, PatchPlan.compile s f c returning = .ok plan →
      ∃ columns cells, List.Forall₂ (fun x w => ∃ g, s.requireField x.1 = .ok g ∧
          g.encode x.2 = .ok w) (operands c.entries) cells ∧
        plan.params = (cells ++ f.values.map Value.toStorage).toArray ∧
        plan.query = f.query s columns (f.build cells.toArray).1 ∧
        columns.map ResultColumn.render = quoteName s.primaryKey.name ::
          (changedTexts 0 c.entries ++ (PatchPlan.furtherNames s c returning).map fun n =>
            quoteName n ++ " AS " ++ quoteName n) ∧
        placeholders (", ".intercalate (columns.map ResultColumn.render)) =
          numbered 0 cells.length ∧
        placeholders (f.conditionText cells.toArray) =
          numbered cells.length plan.params.size ∧
        List.Disjoint (numbered 0 cells.length) (numbered cells.length plan.params.size) ∧
        placeholders plan.query.render = numbered 0 plan.params.size := by
  constructor
  · intro columns bound query params h
    obtain ⟨⟨⟩, -, h⟩ := Except.bind_eq_ok_iff.1 h
    obtain ⟨rfl, hparams⟩ := Prod.mk.inj (Except.ok.inj h)
    obtain rfl : (f.build bound).2 = params := hparams
    rw [Filter.build_bound hf]
    exact ⟨rfl, rfl, Filter.placeholders_conditionText hf bound⟩
  · intro c returning plan h
    obtain ⟨cs, hplan⟩ := PatchPlan.planned_of_compile h
    obtain ⟨cells, hcells, hbound⟩ := hplan.assigns.exists_cells
    obtain ⟨hlegible, hmarks⟩ := hplan.assigns.shown
    rw [Array.empty_append] at hbound
    rw [hbound] at hmarks
    have hparams : plan.params = f.boundBehind cells.toArray := by
      rw [hplan.params, hbound, Filter.build_bound hf]
    have hquery := hplan.query
    rw [hbound] at hquery
    have hkey : (ResultColumn.expr (.ofName s.primaryKey.name) none).OnlyNames :=
      ⟨⟨trivial, nofun⟩, rfl⟩
    have hname (n : String) : (Expr.ofName n).OnlyNames := ⟨trivial, rfl⟩
    have hfurther : ∀ x ∈ (PatchPlan.furtherNames s c returning).map fun n =>
        ResultColumn.expr (.ofName n) (some (.quoted n)), x.OnlyNames :=
      List.forall_mem_map.2 fun n _ => (hname n).named n
    have hcolumns : ∀ x ∈ PatchPlan.selected s c returning cs, x.Legible :=
      List.forall_mem_cons.2 ⟨hkey.1,
        List.forall_mem_append.2 ⟨hlegible, fun x hx => (hfurther x hx).1⟩⟩
    have hselected : placeholders (", ".intercalate ((PatchPlan.selected s c returning cs).map
        ResultColumn.render)) = numbered 0 cells.length := by
      rw [placeholders, (shows_columns hcolumns).marks_eq, PatchPlan.selected, List.flatMap_cons,
        List.flatMap_append, List.filterMap_append, List.filterMap_append, hkey.2, hmarks,
        placeholders_columns hfurther]
      simp
    have hsize : cells.length ≤ plan.params.size := by
      rw [hparams]
      simp [Filter.boundBehind]
    refine ⟨PatchPlan.selected s c returning cs, cells, hcells, ?_, hquery, ?_, hselected, ?_,
      disjoint_numbered (Nat.zero_le _) hsize, ?_⟩
    · rw [hparams]
      simp [Filter.boundBehind]
    · rw [PatchPlan.selected, List.map_cons, List.map_append, hplan.assigns.render_columns]
      simp [ResultColumn.render, renderAlias, Expr.render, Expr.ofName, Part.render,
        String.append_assoc]
    · rw [hparams]
      exact Filter.placeholders_conditionText hf _
    · rw [hquery, Filter.placeholders_query hf hcolumns, hselected, ← hparams]
      exact numbered_append (Nat.zero_le _) hsize

namespace ThreeRows

/-- A test, a template and the caller's own text. -/
def mixed : Filter :=
  (Filter.all.or [.test "x" .gt (.integer 3), .template "x - ? = ?" [.integer 5, .integer 2]]).and
    (.not (.raw "x IS '-'"))

theorem tidy_mixed : Condition.AllTidy mixed.conditions :=
  ⟨⟨trivial, ⟨by decide, by decide, by decide⟩, trivial⟩, ⟨by decide, by decide⟩, trivial⟩

/-- A number is added to one field, and the key is told. -/
def increase : Changes := Changes.empty.increment "x" (.integer 10)

def mixedPlan : PatchPlan where
  query := mixed.query schema (PatchPlan.selected schema increase ["id"]
    [.expr (.add (.ofName "x") (.param (some 1))) (some (.quoted "x"))])
    (mixed.build #[.integer 10]).1
  params := #[.integer 10, .integer 3, .integer 5, .integer 2]
  staged := ["id", "x"]
  touched := ["x"]
  reported := ["x", "id"]

theorem compile_mixed : PatchPlan.compile schema mixed increase ["id"] = .ok mixedPlan := by
  with_unfolding_all rfl

theorem toSelect_mixed : Selection.toSelect ⟨schema, mixed, [.all]⟩ #[.null] =
    .ok (mixed.query schema [.all] (mixed.build #[.null]).1,
      #[.null, .integer 3, .integer 5, .integer 2]) := by
  with_unfolding_all rfl

end ThreeRows

open ThreeRows in
/-- Three values behind one that was bound before, and behind the amount of a change. -/
theorem placeholders_follow_on_of_mixed :
    Condition.AllTidy mixed.conditions ∧
      placeholders (mixed.conditionText #[.null]) = ["?2", "?3", "?4"] ∧
      placeholders mixedPlan.query.render = ["?1", "?2", "?3", "?4"] := by
  obtain ⟨hselect, hpatch⟩ := placeholders_follow_on tidy_mixed schema
  obtain ⟨-, -, hcondition⟩ := hselect _ _ _ _ toSelect_mixed
  obtain ⟨columns, cells, -, -, -, -, -, -, -, hquery⟩ := hpatch _ _ _ compile_mixed
  exact ⟨tidy_mixed, hcondition.trans (by decide +kernel), hquery.trans (by decide +kernel)⟩

end StagedStore
