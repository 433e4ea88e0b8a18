import StagedStore.Proofs.Filter.Filled
import StagedStore.Proofs.Filter.Judged
import StagedStore.Proofs.Filter.Written
import StagedStore.Proofs.Memory.Renumbered

/-!
# Text of the caller's own, by itself and in its place

A text of the caller's own is an expression by itself, in which the values are its parameters.  In a
statement the parameters have the next free numbers instead, and mean the same.
-/

namespace StagedStore

open Memory

namespace Sql

/-! ## By itself -/

/-- The expression that a text is by itself, its parameters numbered from the first on. -/
def ownExpr? (text : String) : Option Expr :=
  match readExpr? (8 * (Token.scan text).length + 8) (numberParams 0 (Token.scan text)) with
  | some (x, []) => some x
  | _ => none

/-- A text that is an expression with `k` parameters by itself, and that nothing behind it runs
into: no comment and no null character is open at its end.  Its parameters have no numbers of the
caller's own and are its first question marks. -/
structure IsUnit (text : String) (k : Nat) (x : Expr) : Prop where
  reads : ownExpr? text = some x
  apart : Lexes text (Token.scan text)
  single : .symbol ';' ∉ Token.scan text
  unnumbered : ∀ n, .param (some n) ∉ Token.scan text
  params : Token.openParams (Token.scan text) = k
  asks : Asks text k

/-- Under numbers from `m + 1` on the first `k` parameters have the same values; all others have
none, as the numbers behind `l` have. -/
def placed (k m l n : Nat) : Nat :=
  if max n 1 ≤ k then max n 1 + m else n + l + 1

/-- An expression that no alternative outside of parentheses keeps from standing in a
conjunction. -/
theorem Disjoined.conjoined {ts : List Token} {x : Expr} (h : Disjoined ts x)
    (hor : ∀ a b, x ≠ .or a b) : Conjoined ts x := by
  cases h with
  | one h => exact h
  | or _ _ => exact absurd rfl (hor _ _)

theorem closed_numberParams {m : Nat} {ts : List Token} (h : .symbol ';' ∉ ts) :
    Closed (numberParams m ts) := by
  induction ts generalizing m with
  | nil => exact closed_nil
  | cons t ts ih =>
      rw [List.mem_cons, not_or] at h
      cases t with
      | param i => cases i <;> exact closed_cons.2 ⟨trivial, ih h.2⟩
      | symbol c => exact closed_cons.2 ⟨fun hc => h.1 (hc ▸ rfl), ih h.2⟩
      | _ => exact closed_cons.2 ⟨trivial, ih h.2⟩

theorem Expr.or_of_renumber {f : Nat → Nat} {x a b : Expr} (h : x.renumber f = .or a b) :
    ∃ c d, x = .or c d := by
  cases x with
  | or c d => exact ⟨c, d, rfl⟩
  | param n => cases n <;> simp [Expr.renumber] at h
  | _ => simp [Expr.renumber] at h

/-- Behind `m` parameters a text is read as the expression that it is by itself, its parameters
numbered behind these. -/
theorem IsUnit.disjoined {text : String} {k : Nat} {x : Expr} (h : IsUnit text k x) (m l : Nat) :
    Disjoined (numberParams m (Token.scan text)) (x.renumber (placed k m l)) := by
  have hown := h.reads
  unfold ownExpr? at hown
  split at hown
  · rename_i y hread
    obtain rfl := Option.some.inj hown
    have hnumbers (n : Nat) (hpos : 0 < n) (hn : n ≤ 0 + (Token.scan text).count (.param none)) :
        placed k m l n = n + m := by
      have hk : (Token.scan text).count (.param none) = k := h.params
      rw [placed, if_pos (by omega)]
      omega
    have hread' := (readRenumbered (placed k m l) _).expr hread
    rw [← numberParams_eq_renumber h.unnumbered m hnumbers, Nat.zero_add] at hread'
    obtain ⟨pre, hpre, hform⟩ := disjoined_of_read hread'
    have hnil : renumberTokens (placed k m l) [] = [] := rfl
    rw [hnil, List.append_nil] at hpre
    exact hpre ▸ hform
  · simp at hown

end Sql

open Sql

/-! ## Texts read in place -/

/-- The text of an expression is read, in some form, as one that judges the rows of a table. -/
def Sql.Expr.ReadsAs (y : Expr) (r : Resolver) (t : Table) (form : List Token → Expr → Prop)
    (v : Entry → Truth) : Prop :=
  ∃ x ts, Lexes y.render (ts.map Token.limited) ∧ Closed ts ∧ form ts x ∧ r.Judges t x v

/-- A text is read as one expression, which judges the rows of a table. -/
def Sql.Says (text : String) (r : Resolver) (t : Table) (v : Entry → Truth) : Prop :=
  ∃ ts x, Token.scan text = ts.map Token.limited ∧ numberParams 0 ts = ts ∧
    readExpr? (8 * ts.length + 8) ts = some (x, []) ∧ r.Judges t x v

namespace Sql.Expr

variable {y z : Expr} {r : Resolver} {t : Table} {form : List Token → Expr → Prop}
  {v w : Entry → Truth} {vs : Entry → List Truth}

theorem ReadsAs.imp {form' : List Token → Expr → Prop} (h : y.ReadsAs r t form v)
    (himp : ∀ ts x, form ts x → form' ts x) : y.ReadsAs r t form' v := by
  obtain ⟨x, ts, hlex, hclosed, hform, hjudges⟩ := h
  exact ⟨x, ts, hlex, hclosed, himp ts x hform, hjudges⟩

theorem Written.readsAs (h : y.Written form) {source : String} (hslots : r.slots = t.slots source)
    (hgives : y.Gives t r.params v) : y.ReadsAs r t form v := by
  obtain ⟨ts, hlex, hclosed, hform⟩ := h
  exact ⟨y, ts, hlex, hclosed, hform, Resolver.judges_of_gives hslots hgives⟩

theorem ReadsAs.render_ne_empty (h : y.ReadsAs r t Disjoined v) : y.render ≠ "" := by
  obtain ⟨x, ts, hlex, -, hform, -⟩ := h
  exact hform.text_ne_empty hlex

theorem ReadsAs.says (h : y.ReadsAs r t Disjoined v) : Says y.render r t v := by
  obtain ⟨x, ts, hlex, hclosed, hform, hjudges⟩ := h
  exact ⟨ts, x, hlex.scan_eq, numberParams_closed hclosed, hform.reads_whole, hjudges⟩

theorem ReadsAs.paren (h : y.ReadsAs r t Disjoined v) : (paren y).ReadsAs r t Sole v := by
  obtain ⟨x, ts, hlex, hclosed, hform, hjudges⟩ := h
  refine ⟨.paren x, .symbol '(' :: (ts ++ [Token.symbol ')']), ?_, by simp [hclosed], hform.paren,
    hjudges.paren⟩
  rw [List.map_cons, List.map_append]
  exact hlex.parens

theorem ReadsAs.not (h : y.ReadsAs r t Sole v) :
    (not y).ReadsAs r t Sole fun e => (v e).negate := by
  obtain ⟨x, ts, hlex, hclosed, hform, hjudges⟩ := h
  exact ⟨.not x, .keyword .not :: ts, hlex.behindNot, by simp [hclosed], again_not hform,
    hjudges.not⟩

/-- Conjunctions joined by `AND` keep their meaning. -/
theorem ReadsAs.and (h : y.ReadsAs r t Conjoined fun e => Truth.conjunction (vs e))
    (h' : z.ReadsAs r t Conjoined w) :
    (and y z).ReadsAs r t Conjoined fun e => Truth.conjunction (vs e ++ [w e]) := by
  obtain ⟨a, ts, hlex, hclosed, hform, hjudges⟩ := h
  obtain ⟨b, us, hlex', hclosed', hform', hjudges'⟩ := h'
  obtain ⟨c, hc, hgroups⟩ := hform.join hform'
  refine ⟨c, ts ++ .keyword .and :: us, ?_, by simp [hclosed, hclosed'], hc,
    (hjudges.and hjudges').regroups hgroups⟩
  rw [List.map_append]
  exact hlex.and hlex'

/-- Alternatives joined by `OR` keep their meaning. -/
theorem ReadsAs.or (h : y.ReadsAs r t Disjoined fun e => Truth.disjunction (vs e))
    (h' : z.ReadsAs r t Disjoined w) :
    (or y z).ReadsAs r t Disjoined fun e => Truth.disjunction (vs e ++ [w e]) := by
  obtain ⟨a, ts, hlex, hclosed, hform, hjudges⟩ := h
  obtain ⟨b, us, hlex', hclosed', hform', hjudges'⟩ := h'
  obtain ⟨c, hc, hgroups⟩ := hform.append_or hform'
  refine ⟨c, ts ++ .keyword .or :: us, ?_, by simp [hclosed, hclosed'], hc,
    (hjudges.or hjudges').regroups hgroups⟩
  rw [List.map_append]
  exact hlex.or hlex'

end Sql.Expr

/-! ## The caller's own texts -/

namespace Condition

/-- Filling a template binds its values, if it has a question mark for each. -/
theorem params_fillTemplate {cs : List Char} {values : List Value}
    (h : values.length ≤ cs.count '?') (p : Params) :
    (fillTemplate cs values p).2 = p ++ (values.map Value.toStorage).toArray := by
  induction cs generalizing values p with
  | nil =>
      obtain rfl : values = [] := List.eq_nil_of_length_eq_zero (Nat.le_zero.1 h)
      rw [fillTemplate_nil]
      simp
  | cons c cs ih =>
      cases values with
      | nil =>
          rw [fillTemplate_nil]
          simp
      | cons v vs =>
          by_cases hc : c = '?'
          · rw [hc, List.count_cons_self, List.length_cons] at h
            rw [hc, fillTemplate_question, ih (Nat.le_of_succ_le_succ h)]
            simp
          · rw [List.count_cons_of_ne hc] at h
            rw [fillTemplate_cons hc, ih h]

end Condition

namespace Resolver

/-- Values are the parameters. -/
def withValues (r : Resolver) (values : List Value) : Resolver :=
  { r with params := (values.map Value.toStorage).toArray }

/-- What a text of the caller's own gives for a row by itself, as a truth value. -/
def ownTruth (r : Resolver) (sql : String) (values : List Value) (e : Entry) : Truth :=
  match ownExpr? sql with
  | none => none
  | some x =>
    match (r.withValues values).resolve x with
    | .ok a => (a.term.eval (Table.rowOf e)).truth?
    | .error _ => none

/-- A text of the caller's own is a unit in which every name means something. -/
def StandsAlone (r : Resolver) (sql : String) (values : List Value) : Prop :=
  ∃ x a, IsUnit sql values.length x ∧ (r.withValues values).resolve x = .ok a

variable {r : Resolver} {p q : Params} {values : List Value}

/-- The parameters under their numbers in the statement have the values. -/
theorem param_placed (h : Params.Extends (p ++ (values.map Value.toStorage).toArray) q) (n : Nat) :
    { r with params := q }.param (placed values.length p.size q.size n) =
      (r.withValues values).param n := by
  rw [param, param, withValues, placed]
  congr 2
  dsimp only
  by_cases hn : max n 1 ≤ values.length
  · have hlt : n - 1 < values.length := by omega
    have hindex : max n 1 + p.size - 1 = p.size + (n - 1) := by omega
    have hown : (values.map Value.toStorage).toArray[n - 1]? = some values[n - 1].toStorage := by
      simp [List.getElem?_eq_getElem hlt]
    rw [if_pos hn, hindex, hown]
    refine h _ _ ?_
    rw [Array.getElem?_append_right (Nat.le_add_right _ _), Nat.add_sub_cancel_left, hown]
  · rw [if_neg hn, Array.getElem?_eq_none (by omega), Array.getElem?_eq_none (by simp; omega)]

/-- In its place in a statement a text of the caller's own means what it means by itself, in
parentheses or not; as long as it is no alternative, also beside an `AND`. -/
theorem StandsAlone.readsAs {t : Table} {sql : String} (h : r.StandsAlone sql values)
    (hq : (Condition.fillTemplate sql.toList values p).2.Extends q) :
    (Expr.fragment (String.ofList (Condition.fillTemplate sql.toList values p).1)).ReadsAs
        { r with params := q } t Disjoined (r.ownTruth sql values) ∧
      ((∀ a b, ownExpr? sql ≠ some (.or a b)) →
        (Expr.fragment (String.ofList (Condition.fillTemplate sql.toList values p).1)).ReadsAs
          { r with params := q } t Conjoined (r.ownTruth sql values)) := by
  obtain ⟨x, a, hunit, hx⟩ := h
  obtain ⟨front, back, hsql, -, hcount, -⟩ := hunit.asks
  have hquestions : values.length ≤ sql.toList.count '?' := by
    rw [hsql, List.count_append]
    omega
  rw [Condition.params_fillTemplate hquestions] at hq
  have hform := hunit.disjoined p.size q.size
  have hjudges : Judges { r with params := q } t (x.renumber (placed values.length p.size q.size))
      (r.ownTruth sql values) := by
    refine ⟨a, (resolve_renumber (param_placed hq) x).trans hx, fun e _ => ?_⟩
    simp only [ownTruth, hunit.reads, hx]
  have hlex := Condition.lexes_fillTemplate hunit.apart hunit.unnumbered hunit.params hunit.asks p
  have hclosed : Closed (numberParams p.size (Token.scan sql)) := closed_numberParams hunit.single
  refine ⟨⟨_, _, hlex, hclosed, hform, hjudges⟩, fun hor => ⟨_, _, hlex, hclosed, ?_, hjudges⟩⟩
  refine hform.conjoined fun b c hbc => ?_
  obtain ⟨b, c, rfl⟩ := Expr.or_of_renumber hbc
  exact hor b c hunit.reads

end Resolver

end StagedStore
