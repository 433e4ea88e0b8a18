import StagedStore.Proofs.Filter.Evaluated
import StagedStore.Proofs.Filter.Fragments
import StagedStore.Proofs.Filter.Selected
import StagedStore.Proofs.Memory.Catalog
import StagedStore.Proofs.Memory.OverRow

/-!
# The rows that a filter matches

`Filter.matched` lists the rows of a table that a filter matches: those that pass its condition, in
its order and within its limit. Whatever columns a query of the filter takes, it gives them for these
rows.
-/

namespace StagedStore

open Memory Sql

/-- Names mean the columns of a table alone. -/
def Memory.Table.resolver (t : Table) (q : Params) : Resolver :=
  ⟨t.slots t.name, [], q, 0, fun _ _ => .error .malformed⟩

namespace Filter

/-- The condition of a filter as the store takes it behind some parameters: its tree, if that tells
all there is to it, and else what its text is read as. -/
def condition? (f : Filter) (p : Params) : Option (Option Expr) :=
  match (f.build p).1 with
  | none => some none
  | some y =>
    if y.leaves.all Expr.isPlainLeaf then some (some y)
    else
      let ts := numberParams p.size (Token.scan y.render)
      match readExpr? (8 * ts.length + 8) ts with
      | some (x, []) => some (some x)
      | _ => none

/-- Whether a row passes the condition of a filter. -/
def passes (f : Filter) (t : Table) (p : Params) (e : Entry) : Bool :=
  match f.condition? p with
  | none => false
  | some x? =>
    match (t.resolver (f.build p).2).resolveCondition x? with
    | .ok c => c.holds (Table.rowOf e)
    | .error _ => false

/-- The cells that a row is ordered by, with whether they descend. -/
def orderCells (s : Schema) (f : Filter) (e : Entry) : List (Storage × Bool) :=
  f.order.map fun c => (s.fieldCell c.1 e, decide (c.2 = .descending))

/-- Rows in the order of a filter. -/
def arrange (s : Schema) (f : Filter) (es : List Entry) : List Entry :=
  if f.order.isEmpty then es
  else es.mergeSort fun a b => orderedBefore (f.orderCells s a) (f.orderCells s b)

/-- The rows that the limit and the offset of a filter leave. -/
def cut (f : Filter) (es : List Entry) : List Entry :=
  let es := es.drop ((f.offset.map Int64.toInt).getD 0).toNat
  match f.limit with
  | none => es
  | some n => if n.toInt < 0 then es else es.take n.toInt.toNat

/-- The rows that a filter matches, by ascending key where it does not order them. -/
def matched (s : Schema) (f : Filter) (t : Table) (p : Params) : List Entry :=
  f.cut (f.arrange s (t.entries.reverse.filter (f.passes t p)))

variable {s : Schema} {t : Table} {f : Filter}

/-! ## Few and distinct -/

theorem cut_sublist (es : List Entry) : (f.cut es).Sublist es := by
  unfold cut
  dsimp only
  split
  · exact List.drop_sublist _ _
  · split
    · exact List.drop_sublist _ _
    · exact (List.take_sublist _ _).trans (List.drop_sublist _ _)

theorem subperm_matched (p : Params) : ∃ es, List.Sublist (f.matched s t p) es ∧
    es.Perm (t.entries.filter (f.passes t p)) := by
  refine ⟨f.arrange s (t.entries.reverse.filter (f.passes t p)), f.cut_sublist _, ?_⟩
  have hreverse : (t.entries.reverse.filter (f.passes t p)).Perm
      (t.entries.filter (f.passes t p)) := (List.reverse_perm _).filter _
  unfold arrange
  split
  · exact hreverse
  · exact (List.mergeSort_perm _ _).trans hreverse

theorem mem_of_matched {p : Params} {e : Entry} (he : e ∈ f.matched s t p) :
    e ∈ t.entries ∧ f.passes t p e = true := by
  obtain ⟨es, hsub, hperm⟩ := f.subperm_matched (s := s) (t := t) p
  exact List.mem_filter.1 (hperm.mem_iff.1 (hsub.subset he))

theorem length_matched_le (p : Params) : (f.matched s t p).length ≤ t.entries.length := by
  obtain ⟨es, hsub, hperm⟩ := f.subperm_matched (s := s) (t := t) p
  calc (f.matched s t p).length ≤ es.length := hsub.length_le
    _ = (t.entries.filter (f.passes t p)).length := hperm.length_eq
    _ ≤ t.entries.length := List.length_filter_le _ _

/-- Without a limit and an offset a row is matched if it passes. -/
theorem mem_matched {p : Params} (hlimit : f.limit = none) (hoffset : f.offset = none) {e : Entry} :
    e ∈ f.matched s t p ↔ e ∈ t.entries ∧ f.passes t p e = true := by
  have hcut (es : List Entry) : f.cut es = es := by
    unfold cut
    simp [hlimit, hoffset]
  have harrange (es : List Entry) : e ∈ f.arrange s es ↔ e ∈ es := by
    unfold arrange
    split
    · rfl
    · exact List.mem_mergeSort
  rw [matched, hcut, harrange, List.mem_filter, List.mem_reverse]

/-! ## What passes -/

theorem isTestLeaf_plain {e : Expr} (h : Condition.isTestLeaf e = true) :
    e.isPlainLeaf = true := by
  unfold Condition.isTestLeaf at h
  split at h <;> simp_all [Expr.isPlainLeaf]

theorem condition?_of_plain {p : Params} (h : ∀ y ∈ (f.build p).1,
    y.leaves.all Expr.isPlainLeaf = true) : f.condition? p = some (f.build p).1 := by
  unfold condition?
  cases hbuild : (f.build p).1 with
  | none => rfl
  | some y => exact if_pos (h y hbuild)

/-- Without text of the caller's own, a row passes if the conjunction of the conditions' verdicts is
true. -/
theorem passes_of_free (h : s.Fits t) (hcolumns : ∀ n ∈ f.columns, ∃ g, s.requireField n = .ok g)
    (hfree : Condition.anyFragment f.conditions = false) (p : Params) {e : Entry}
    (he : e ∈ t.entries) :
    f.passes t p e = true ↔
      Truth.conjunction (Condition.verdicts s e f.conditions) = some true := by
  have hplain : ∀ y ∈ (f.build p).1, y.leaves.all Expr.isPlainLeaf = true := by
    obtain ⟨-, hleaves⟩ := Condition.binds_leaves (fun _ => isTestLeaf_plain)
      (.all f.conditions) (by simp [Condition.hasFragment, hfree]) p
    exact fun y hy => List.all_eq_true.2 (hleaves _ (.refl _) y hy)
  unfold passes
  rw [condition?_of_plain hplain]
  cases htests : (Condition.all f.conditions).isEmpty with
  | true =>
      have hbuild : f.build p = (none, p) := Condition.build_of_isEmpty _ htests p
      have hverdicts : Condition.verdicts s e f.conditions = [] := by
        rw [Condition.isEmpty, Condition.allEmpty_eq, List.all_eq_true] at htests
        rw [Condition.verdicts_eq, List.filter_eq_nil_iff.2 fun c hc => by simp [htests c hc]]
        rfl
      rw [hbuild, hverdicts]
      simp [Resolver.resolveCondition, Term.holds, Term.eval, Truth.conjunction]
  | false =>
      obtain ⟨-, hgives⟩ := Condition.build_gives h (.all f.conditions)
        (fun n hn => hcolumns n (List.mem_append_left _ hn)) hfree htests p
      obtain ⟨y, hy, hy'⟩ := hgives _ (.refl _)
      have hbuild : (f.build p).1 = some y := hy
      obtain ⟨a, ha, hv⟩ := hy' (t.resolver (f.build p).2) t.name rfl rfl
      rw [hbuild]
      dsimp only
      rw [Resolver.resolveCondition, ha]
      change a.term.holds (Table.rowOf e) = true ↔ _
      rw [Term.holds, hv e he, Storage.holds, Storage.truth?_ofTruth, decide_eq_true_iff]
      rfl

/-- Without text of the caller's own, the rows that are matched depend on no parameters. -/
theorem matched_of_free (h : s.Fits t)
    (hcolumns : ∀ n ∈ f.columns, ∃ g, s.requireField n = .ok g)
    (hfree : Condition.anyFragment f.conditions = false) (p q : Params) :
    f.matched s t p = f.matched s t q := by
  have hpasses : t.entries.reverse.filter (f.passes t p) =
      t.entries.reverse.filter (f.passes t q) := by
    refine List.filter_congr fun e he => Bool.eq_iff_iff.2 ?_
    rw [passes_of_free h hcolumns hfree p (List.mem_reverse.1 he),
      passes_of_free h hcolumns hfree q (List.mem_reverse.1 he)]
  rw [matched, matched, hpasses]

/-! ## What a query of the filter gives -/

theorem cutRows_map (es : List Entry) :
    cutRows f.sqlLimit? (es.map Table.rowOf) = (f.cut es).map Table.rowOf := by
  unfold sqlLimit? cut
  cases hlimit : f.limit with
  | none =>
      cases hoffset : f.offset with
      | none => rfl
      | some o => simp [cutRows, List.map_drop]
  | some n =>
      simp only [cutRows, ← List.map_drop]
      split
      · rfl
      · rw [List.map_take]

/-- The terms that rows are ordered by. -/
def orderSlots (s : Schema) (f : Filter) : List (Term × Bool) :=
  f.order.map fun c => (.slot (1 + s.fieldIndex c.1), decide (c.2 = .descending))

theorem sortRows_map (es : List Entry) :
    sortRows (f.orderSlots s) (es.map Table.rowOf) = (f.arrange s es).map Table.rowOf := by
  have hcells (e : Entry) : ((f.orderSlots s).map fun c => (c.1.eval (Table.rowOf e), c.2)) =
      f.orderCells s e := by
    simp only [orderSlots, orderCells, List.map_map, Function.comp_def, s.eval_slot]
  unfold sortRows arrange
  cases horder : f.order.isEmpty with
  | true =>
      have hempty : (f.orderSlots s).isEmpty = true := by simpa [orderSlots] using horder
      rw [if_pos hempty, if_pos rfl]
  | false =>
      have hempty : (f.orderSlots s).isEmpty = false := by simpa [orderSlots] using horder
      rw [hempty, if_neg Bool.false_ne_true, if_neg Bool.false_ne_true]
      dsimp only
      rw [List.map_map, ← List.map_mergeSort
        (r := fun a b => orderedBefore (f.orderCells s a) (f.orderCells s b))]
      · rw [List.map_map]
        rfl
      · intro a _ b _
        simp only [Function.comp_apply, hcells]

theorem orderTerms_eq (h : s.Fits t) (hname : foldName t.name = foldName s.table.name)
    (hcolumns : ∀ c ∈ f.order, ∃ g, s.requireField c.1 = .ok g) {r : Resolver}
    (hslots : r.slots = t.slots t.name) : orderTerms r (f.terms s) = .ok (f.orderSlots s) := by
  unfold orderTerms terms orderSlots
  refine Except.mapM_eq_ok ?_
  rw [List.forall₂_map_left_iff, List.forall₂_map_right_iff, List.forall₂_same]
  rintro ⟨n, d⟩ hc
  obtain ⟨g, hg⟩ := hcolumns _ hc
  obtain ⟨hi, rfl⟩ := Schema.getElem?_fieldIndex hg
  have hfield := h.resolve_field (r := r) (q := some (.quoted s.table.name)) [] [] t.name
    (by simpa using hslots) (by rintro _ ⟨⟩; exact hname.symm) (by simp) (by simp) hi
  have hterm : orderTerm r (.qualified (.quoted s.table.name) g.name) =
      .ok (.slot (1 + s.fieldIndex g.name)) := by
    change (r.resolve (.column (some (.quoted s.table.name)) (.quoted g.name))).map _ = _
    rw [hfield]
    simp [Except.map]
  rw [hterm]
  cases d <;> rfl

theorem shadowed_of_named {r : Resolver} {cs : List ResultColumn} (results : List (List Output))
    (h : s.Fits t) (hslots : r.slots = t.slots t.name)
    (hnames : ∀ e p, ResultColumn.expr e (some p) ∈ cs → ∃ g, s.requireField p.name = .ok g) :
    Resolver.Shadowed { r with aliases := aliasesOf cs results } := by
  intro k a ha
  have hmem : (k, a) ∈ aliasesOf cs results := by
    obtain ⟨xs, ys, hsplit, -⟩ := List.lookup_eq_some_iff.1 ha
    change aliasesOf cs results = _ at hsplit
    rw [hsplit]
    simp
  obtain ⟨⟨c, os⟩, hzip, hpair⟩ := List.mem_filterMap.1 hmem
  split at hpair
  · rename_i e p o hcos
    obtain ⟨rfl, rfl⟩ := Prod.mk.inj hcos
    obtain ⟨rfl, -⟩ := Prod.mk.inj (Option.some.inj hpair)
    obtain ⟨g, hg⟩ := hnames e p (List.of_mem_zip hzip).1
    obtain ⟨hi, hname⟩ := Schema.getElem?_fieldIndex hg
    refine ⟨.ofColumn (some t.name) g.name g.affinity, ?_, by rw [← hname]; rfl, rfl⟩
    change _ ∈ r.slots
    rw [hslots, Table.slots, h.columns, List.map_map]
    exact List.mem_cons_of_mem _ (List.mem_map.2 ⟨g, List.mem_of_getElem? hi, rfl⟩)
  · simp at hpair

/-- The rows of a table that a condition holds for. -/
theorem scan_filter {c : Term} {pass : Entry → Bool}
    (h : ∀ e ∈ t.entries, c.holds (Table.rowOf e) = pass e) :
    t.scan.filter c.holds = (t.entries.reverse.filter pass).map Table.rowOf := by
  rw [Table.scan_eq, ← List.map_reverse, List.filter_map]
  exact congrArg _ (List.filter_congr fun e he => h e (List.mem_reverse.1 he))

/-- Whatever columns a query of a filter takes, it gives them for the rows that the filter
matches. -/
theorem evalSelect_matched {ctx : Context} {a : Area} {p : Params} {x? : Option Expr}
    {cs : List ResultColumn} {os : List Output} {rows : List (Array Storage)} (h : s.Fits t)
    (hfind : ctx.catalog.find s.table.allQuoted = .ok (a, t))
    (hcolumns : ∀ c ∈ f.order, ∃ g, s.requireField c.1 = .ok g)
    (hparams : ctx.params = (f.build p).2) (hcondition : f.condition? p = some x?)
    (hrow : ∀ x ∈ x?, x.overRow = true) (hcount : cs.any isCount = false)
    (hnames : ∀ e p, ResultColumn.expr e (some p) ∈ cs → ∃ g, s.requireField p.name = .ok g)
    (hq : evalSelect ctx (.mk cs (some (.table s.table.allQuoted none)) x? (f.terms s)
      f.sqlLimit?) = .ok (os, rows)) :
    ∃ results, cs.mapM (outputs (ctx.resolver (t.slots t.name))) = .ok results ∧
      os = results.flatten ∧ rows = project os ((f.matched s t p).map Table.rowOf) := by
  obtain ⟨src, results, c, terms, hsource, hresults, hc, hterms, hos, hrows⟩ :=
    evalSelect_ok hcount hq
  have hsrc : src = ⟨t.slots t.name, t.scan⟩ := by
    change evalSource ctx (.table s.table.allQuoted none) = _ at hsource
    rw [evalSource, hfind] at hsource
    exact (Except.ok.inj hsource).symm
  subst hsrc
  have hname : foldName t.name = foldName s.table.name :=
    Catalog.name_of_find_allQuoted hfind
  have hshadowed := shadowed_of_named (r := ctx.resolver (t.slots t.name)) results h rfl hnames
  have halike : Resolver.Alike
      { ctx.resolver (t.slots t.name) with aliases := aliasesOf cs results }
      (t.resolver (f.build p).2) := ⟨rfl, hparams, hshadowed, fun k a hk => by
        simp [Table.resolver] at hk⟩
  have hresolved : (t.resolver (f.build p).2).resolveCondition x? = .ok c := by
    rw [← hc]
    cases x? with
    | none => rfl
    | some x =>
        have hsame := Resolver.resolve_alike halike x (hrow x rfl)
        exact congrArg (fun r => r.map Resolved.term) hsame.symm
  have hpasses (e : Entry) : f.passes t p e = c.holds (Table.rowOf e) := by
    unfold passes
    rw [hcondition]
    dsimp only
    rw [hresolved]
  have hfilter := scan_filter fun e (_ : e ∈ t.entries) => (hpasses e).symm
  obtain rfl : f.orderSlots s = terms :=
    Except.ok.inj ((orderTerms_eq h hname hcolumns rfl).symm.trans hterms)
  refine ⟨results, hresults, hos, ?_⟩
  rw [hrows, hfilter, sortRows_map, cutRows_map]
  rfl

end Filter

end StagedStore
