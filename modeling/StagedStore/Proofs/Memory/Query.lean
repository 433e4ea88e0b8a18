import StagedStore.Memory.Query
import StagedStore.Proofs.Action
import StagedStore.Proofs.Memory.Names

/-!
# Queries

What queries give, once the names in them are resolved.
-/

namespace StagedStore

namespace Term

theorem evalAll_eq (row : Array Storage) (ts : List Term) :
    evalAll row ts = ts.map (eval row) := by
  induction ts with
  | nil => rfl
  | cons t ts ih => rw [evalAll, ih, List.map_cons]

theorem evalArms_eq_none {row : Array Storage} {arms : List (Term × Term)}
    (h : ∀ a ∈ arms, (eval row a.1).holds = false) : evalArms row arms = none := by
  induction arms with
  | nil => rfl
  | cons a arms ih =>
      obtain ⟨c, t⟩ := a
      rw [evalArms, h (c, t) (by simp), if_neg Bool.false_ne_true]
      exact ih fun b hb => h b (by simp [hb])

/-- The only arm whose condition holds decides, wherever it stands. -/
theorem evalArms_eq_some {row : Array Storage} {arms : List (Term × Term)} {a : Term × Term}
    (ha : a ∈ arms) (hholds : (eval row a.1).holds = true)
    (hu : ∀ b ∈ arms, (eval row b.1).holds = true → b = a) :
    evalArms row arms = some (eval row a.2) := by
  induction arms with
  | nil => simp at ha
  | cons b arms ih =>
      obtain ⟨c, t⟩ := b
      rw [evalArms]
      split
      · rename_i hc
        rw [← hu (c, t) (by simp) hc]
      · rename_i hc
        rcases List.mem_cons.1 ha with rfl | ha
        · exact absurd hholds hc
        · exact ih ha fun b hb => hu b (by simp [hb])

theorem ofMembers_cells (f : Affinity) (a : Term) (vs : List Storage) :
    ofMembers f a (vs.map Term.cell) = .inSet f a (.ofList f vs) := by
  have hcells : (vs.map Term.cell).mapM cell? = some vs := by
    induction vs with
    | nil => rfl
    | cons v vs ih => rw [List.map_cons, List.mapM_cons, ih]; rfl
  unfold ofMembers
  rw [hcells]

end Term

namespace Resolver

variable {r : Resolver}

theorem resolveAll_eq {es : List Sql.Expr} {ts : List Term}
    (h : List.Forall₂ (fun e t => ∃ f, r.resolve e = .ok ⟨t, f⟩) es ts) :
    r.resolveAll es = .ok ts := by
  induction h with
  | nil => rfl
  | cons he _ ih =>
      obtain ⟨f, he⟩ := he
      rw [resolveAll, he, Except.ok_bind, ih]
      rfl

theorem resolveArms_eq {arms : List (Sql.Expr × Sql.Expr)} {ts : List (Term × Term)}
    (h : List.Forall₂ (fun a t => (∃ f, r.resolve a.1 = .ok ⟨t.1, f⟩) ∧
      ∃ f, r.resolve a.2 = .ok ⟨t.2, f⟩) arms ts) : r.resolveArms arms = .ok ts := by
  induction h with
  | nil => rfl
  | @cons a t _ _ ha _ ih =>
      obtain ⟨c, e⟩ := a
      obtain ⟨⟨f, hc⟩, g, he⟩ := ha
      rw [resolveArms, hc, Except.ok_bind, he, Except.ok_bind, ih]
      rfl

variable {x y : Sql.Expr}

theorem resolve_and {a b : Resolved} (hx : r.resolve x = .ok a) (hy : r.resolve y = .ok b) :
    r.resolve (.and x y) = .ok ⟨.and a.term b.term, .none⟩ := by
  rw [resolve, hx, Except.ok_bind, hy]
  rfl

theorem resolve_or {a b : Resolved} (hx : r.resolve x = .ok a) (hy : r.resolve y = .ok b) :
    r.resolve (.or x y) = .ok ⟨.or a.term b.term, .none⟩ := by
  rw [resolve, hx, Except.ok_bind, hy]
  rfl

end Resolver

namespace Memory

variable {ctx : Context}

theorem outputs_expr {r : Resolver} {e : Sql.Expr} {t : Resolved} (h : r.resolve e = .ok t)
    (label : Option Part) : outputs r (.expr e label) =
      .ok [⟨(label.map Part.name).getD (outputName r e t.term), t.term, t.affinity⟩] := by
  cases e with
  | countAll => simp [Resolver.resolve] at h
  | _ =>
      simp only [outputs, h, Except.ok_bind]
      rfl

theorem outputs_labelled {r : Resolver} {e : Sql.Expr} {a : Part} {t : Resolved}
    (h : r.resolve e = .ok t) :
    outputs r (.expr e (some a)) = .ok [⟨a.name, t.term, t.affinity⟩] :=
  outputs_expr h (some a)

/-- The rows of results. -/
def project (os : List Output) (rows : List (Array Storage)) : List (Array Storage) :=
  rows.map fun row => (os.map fun o => o.term.eval row).toArray

theorem flatten_singletons {α : Type} (f : α → Output) (xs : List α) :
    (xs.map fun x => [f x]).flatten = xs.map f := by
  rw [← List.flatMap_def, ← List.map_eq_flatMap]

/-- The terms of an ordering. -/
def orderTerms (r : Resolver) (order : List Sql.OrderTerm) :
    Except Fault (List (Term × Bool)) :=
  order.mapM fun t => return (← orderTerm r t.term, decide (t.direction = some .descending))

/-- The rows that meet the condition are ordered, cut and projected. -/
theorem evalSelect_rows {columns : List Sql.ResultColumn} {source : Option Sql.Source}
    {condition : Option Sql.Expr} {order : List Sql.OrderTerm} {limit : Option Sql.Limit}
    {s : Relation} {results : List (List Output)} {c : Term} {terms : List (Term × Bool)}
    (hs : evalFrom ctx source = .ok s)
    (hresults : columns.mapM (outputs (ctx.resolver s.slots)) = .ok results)
    (hc : Resolver.resolveCondition
      { ctx.resolver s.slots with aliases := aliasesOf columns results } condition = .ok c)
    (hterms : orderTerms
      { ctx.resolver s.slots with aliases := aliasesOf columns results } order = .ok terms)
    (hcount : columns.any isCount = false) :
    evalSelect ctx (.mk columns source condition order limit) = .ok (results.flatten,
      project results.flatten (cutRows limit (sortRows terms (s.rows.filter c.holds)))) := by
  rw [evalSelect, hs, Except.ok_bind]
  unfold orderTerms at hterms
  dsimp only at hc hterms ⊢
  simp only [hresults, Except.ok_bind, hc, hterms, hcount, Bool.false_eq_true, if_false]
  rfl

/-- A query that gives rows has resolved all its names. -/
theorem evalSelect_ok {columns : List Sql.ResultColumn} {source : Option Sql.Source}
    {condition : Option Sql.Expr} {order : List Sql.OrderTerm} {limit : Option Sql.Limit}
    {os : List Output} {rows : List (Array Storage)} (hcount : columns.any isCount = false)
    (h : evalSelect ctx (.mk columns source condition order limit) = .ok (os, rows)) :
    ∃ s results c terms, evalFrom ctx source = .ok s ∧
      columns.mapM (outputs (ctx.resolver s.slots)) = .ok results ∧
      Resolver.resolveCondition
        { ctx.resolver s.slots with aliases := aliasesOf columns results } condition = .ok c ∧
      orderTerms { ctx.resolver s.slots with aliases := aliasesOf columns results } order =
        .ok terms ∧
      os = results.flatten ∧
      rows = project os (cutRows limit (sortRows terms (s.rows.filter c.holds))) := by
  rw [evalSelect] at h
  obtain ⟨s, hs, h⟩ := Except.bind_eq_ok_iff.1 h
  obtain ⟨results, hresults, h⟩ := Except.bind_eq_ok_iff.1 h
  obtain ⟨c, hc, h⟩ := Except.bind_eq_ok_iff.1 h
  obtain ⟨terms, hterms, h⟩ := Except.bind_eq_ok_iff.1 h
  obtain ⟨rfl, rfl⟩ := Prod.mk.inj (Except.ok.inj h)
  refine ⟨s, results, c, terms, hs, hresults, hc, hterms, rfl, ?_⟩
  rw [hcount, if_neg Bool.false_ne_true]
  rfl

/-- A query without condition, ordering and limit only computes its results. -/
theorem evalSelect_results {columns : List Sql.ResultColumn} {source : Option Sql.Source}
    {s : Relation} {results : List (List Output)} (hs : evalFrom ctx source = .ok s)
    (hresults : columns.mapM (outputs (ctx.resolver s.slots)) = .ok results)
    (hcount : columns.any isCount = false) :
    evalSelect ctx (.mk columns source none [] none) =
      .ok (results.flatten, project results.flatten s.rows) := by
  have hall : s.rows.filter (Term.cell (.ofBool true)).holds = s.rows := by
    rw [List.filter_eq_self]
    intro row _
    rfl
  have hterms : orderTerms
      { ctx.resolver s.slots with aliases := aliasesOf columns results } [] = .ok [] := rfl
  rw [evalSelect_rows hs hresults (c := .cell (.ofBool true)) rfl hterms hcount, hall]
  rfl

/-- The places of rows of values. -/
def valueSlots (width : Nat) : List Slot :=
  (List.range width).map fun i => .ofColumn none ("column" ++ toString (i + 1)) .none

theorem evalValues_eq {tuples : List (List Sql.Expr)} {cells : List (List Storage)}
    (h : List.Forall₂ (fun es vs => (ctx.resolver []).resolveAll es = .ok (vs.map Term.cell))
      tuples cells) :
    evalValues ctx tuples = .ok ⟨valueSlots ((cells.head?.map List.length).getD 0),
      cells.map List.toArray⟩ := by
  have hmap : tuples.mapM (fun es => do
      let ts ← (ctx.resolver []).resolveAll es
      return (Term.evalAll #[] ts).toArray : List Sql.Expr → Except Fault (Array Storage)) =
        .ok (cells.map List.toArray) := by
    refine Except.mapM_eq_ok ?_
    rw [List.forall₂_map_right_iff]
    refine h.imp fun es vs hvs => ?_
    rw [hvs, Except.ok_bind, Term.evalAll_eq, List.map_map]
    simp [Function.comp_def, Term.eval]
  have hwidth : ((cells.map List.toArray).head?.map Array.size).getD 0 =
      (cells.head?.map List.length).getD 0 := by
    cases cells <;> simp
  unfold evalValues
  simp only [hmap, Except.ok_bind, hwidth, valueSlots]
  rfl

end Memory

end StagedStore
