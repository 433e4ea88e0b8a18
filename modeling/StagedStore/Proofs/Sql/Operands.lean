import StagedStore.Proofs.Sql.Clause
import StagedStore.Proofs.Sql.Numbered

/-!
# Operands put together

Operands that are added, compared, looked up among others or chosen from are read as the sums, tests
and choices that they are put together to, whatever stands behind them that does not prolong these.
-/

namespace StagedStore.Sql

/-- Tokens of an operand. -/
abbrev Operand (ts : List Token) (x : Expr) : Prop :=
  Again readOperand? 1 0 1 1 ts x []

/-- Tokens of a test, a negation or an expression in parentheses. -/
abbrev Sole (ts : List Token) (x : Expr) : Prop :=
  Again readNegation? 4 0 4 1 ts x []

variable {ts us r : List Token} {x y : Expr} {d : Nat}

/-! ## Operands read -/

theorem Operand.ne_not (h : Operand ts x) (q : List Token) : ts ++ r ≠ .keyword .not :: q := by
  obtain ⟨-, hlen, hread⟩ := again_nil h
  intro heq
  obtain ⟨t, ts, rfl⟩ := List.exists_cons_of_length_pos hlen
  obtain ⟨rfl, -⟩ := List.cons.inj heq
  have hnone := readOperand_startsNone (t := .keyword .not) rfl (ts ++ [])
  have hsome := hread [] (by simp [follow]) _ (Nat.le_refl _)
  rw [List.cons_append, hnone] at hsome
  cases hsome

theorem Operand.readSum (h : Operand ts x) (hr : 2 ≤ follow r) (hd : 8 * ts.length + 2 ≤ d) :
    readSum? d (ts ++ r) = some (x, r) := by
  obtain ⟨-, hlen, hread⟩ := again_nil h
  obtain ⟨n, rfl⟩ : ∃ n, d = n + 2 := ⟨d - 2, by omega⟩
  rw [readSum?, hread r (by omega) (n + 1) (by omega)]
  dsimp only
  rw [readAddends_stop hr]

theorem Operand.readComparison (h : Operand ts x) (hr : 3 ≤ follow r)
    (hd : 8 * ts.length + 3 ≤ d) : readComparison? d (ts ++ r) = some (x, r) := by
  obtain ⟨n, rfl⟩ : ∃ n, d = n + 2 := ⟨d - 2, by omega⟩
  rw [readComparison?, h.readSum (by omega) (by omega)]
  dsimp only
  rw [readComparisons_stop hr]

/-- An operand in front of tests. -/
theorem Operand.readNegation (h : Operand ts x) (hr : 3 ≤ follow r) {n : Nat}
    (hn : 8 * ts.length + 3 ≤ n) : readNegation? (n + 1) (ts ++ r) = readTests? n x r := by
  rw [readNegation?, h.readComparison hr hn]
  exact h.ne_not

theorem Operand.sole (h : Operand ts x) : Sole ts x := by
  obtain ⟨hlegal, hlen, -⟩ := again_nil h
  refine ⟨ts, (List.append_nil ts).symm, hlegal, hlen, fun r hr => ⟨Nat.zero_le _, fun d hd => ?_⟩⟩
  obtain ⟨n, rfl⟩ : ∃ n, d = n + 2 := ⟨d - 2, by omega⟩
  rw [h.readNegation (by omega) (by omega), readTests_stop hr]

theorem Operand.disjoined (h : Operand ts x) : Disjoined ts x :=
  .one (.one h.sole)

/-! ## Sums and tests -/

theorem Operand.add (h : Operand ts x) (h' : Operand us y) :
    Sole (ts ++ .symbol '+' :: us) (.add x y) := by
  obtain ⟨hlegal, hlen, hread⟩ := again_nil h
  obtain ⟨hlegal', -, hread'⟩ := again_nil h'
  refine ⟨_, (List.append_nil _).symm, by simp [hlegal, hlegal'], ?_, fun r hr => ?_⟩
  · simp only [List.length_append, List.length_cons]
    omega
  refine ⟨Nat.zero_le _, fun d hd => ?_⟩
  rw [List.length_append, List.length_cons] at hd
  obtain ⟨n, rfl⟩ : ∃ n, d = n + 5 := ⟨d - 5, by omega⟩
  have hsum : readComparison? (n + 4) (ts ++ .symbol '+' :: (us ++ r)) = some (.add x y, r) := by
    rw [readComparison?, readSum?, hread (.symbol '+' :: (us ++ r)) (Nat.le_refl 1) _ (by omega)]
    dsimp only
    rw [readAddends?, hread' r (by omega) _ (by omega)]
    dsimp only
    obtain ⟨m, rfl⟩ : ∃ m, n = m + 1 := ⟨n - 1, by omega⟩
    rw [readAddends_stop (by omega)]
    dsimp only
    rw [readComparisons_stop (by omega)]
  rw [List.append_assoc, List.cons_append, readNegation?, hsum]
  · dsimp only
    rw [readTests_stop hr]
  · exact h.ne_not

theorem Operand.equal (h : Operand ts x) (h' : Operand us y) :
    Sole (ts ++ .equal :: us) (.compare .eq x y) := by
  obtain ⟨hlegal, hlen, -⟩ := again_nil h
  obtain ⟨hlegal', -, -⟩ := again_nil h'
  refine ⟨_, (List.append_nil _).symm, by simp [hlegal, hlegal'], ?_, fun r hr => ?_⟩
  · simp only [List.length_append, List.length_cons]
    omega
  refine ⟨Nat.zero_le _, fun d hd => ?_⟩
  rw [List.length_append, List.length_cons] at hd
  obtain ⟨n, rfl⟩ : ∃ n, d = n + 3 := ⟨d - 3, by omega⟩
  rw [List.append_assoc, List.cons_append,
    h.readNegation (by simp [follow, Token.binding]) (by omega), readTests?,
    h'.readComparison (by omega) (by omega)]
  dsimp only
  rw [readTests_stop hr]

theorem legal_intercalate {tss : List (List Token)} {xs : List Expr}
    (h : List.Forall₂ Disjoined tss xs) :
    Token.illegal ∉ List.intercalate [.symbol ','] tss := by
  induction h with
  | nil => simp
  | cons hx hxs ih =>
      cases hxs with
      | nil => simpa using hx.legal
      | cons hx' hxs => simp [List.intercalate_cons_cons, hx.legal, ih]

theorem intercalate_ne_cons {tss : List (List Token)} {xs : List Expr} {t : Token}
    (h : List.Forall₂ Disjoined tss xs) (hne : tss ≠ []) (ht : t.startsNone = true)
    (hnot : t ≠ .keyword .not) (q : List Token) :
    List.intercalate [.symbol ','] tss ++ r ≠ t :: q := by
  cases h with
  | nil => exact absurd rfl hne
  | cons hx hxs =>
      cases hxs with
      | nil =>
          rw [List.intercalate_singleton]
          exact hx.ne_cons ht hnot q
      | cons hx' hxs =>
          rw [List.intercalate_cons_cons, List.append_assoc, List.append_assoc]
          exact hx.ne_cons ht hnot q

/-- The tokens of the word in front of an operator. -/
def Expr.notTokens (negated : Bool) : List Token :=
  if negated then [.keyword .not] else []

theorem readTests_in (negated : Bool) (n : Nat) (r : List Token) :
    readTests? (n + 1) x (Expr.notTokens negated ++ .keyword .in :: r) =
      readNegatable? n negated x (.keyword .in :: r) := by
  cases negated <;> rfl

/-- An operand among expressions. -/
theorem Operand.isIn (h : Operand ts x) {tss : List (List Token)} {xs : List Expr}
    (hxs : List.Forall₂ Disjoined tss xs) (hne : tss ≠ []) (negated : Bool) :
    Sole (ts ++ (Expr.notTokens negated ++ .keyword .in :: .symbol '(' ::
      (List.intercalate [.symbol ','] tss ++ [Token.symbol ')']))) (.inList negated x xs) := by
  obtain ⟨hlegal, -, -⟩ := again_nil h
  have hnot : Token.illegal ∉ Expr.notTokens negated := by cases negated <;> simp [Expr.notTokens]
  refine ⟨_, (List.append_nil _).symm, by simp [hlegal, hnot, legal_intercalate hxs], ?_,
    fun r hr => ⟨Nat.zero_le _, fun d hd => ?_⟩⟩
  · simp only [List.length_append, List.length_cons]
    omega
  simp only [List.length_append, List.length_cons, List.length_nil] at hd
  obtain ⟨n, rfl⟩ : ∃ n, d = n + 3 := ⟨d - 3, by omega⟩
  have hmembers : readExprs? n [] (List.intercalate [.symbol ','] tss ++ .symbol ')' :: r) =
      some (xs, .symbol ')' :: r) :=
    readExprs_intercalate hxs hne (by simp [follow, Token.binding]) (by omega)
  have hfollow (q : List Token) : 3 ≤ follow (Expr.notTokens negated ++ .keyword .in :: q) := by
    cases negated <;> simp [Expr.notTokens, follow, Token.binding]
  rw [List.append_assoc, List.append_assoc, List.cons_append, List.cons_append, List.append_assoc,
    List.singleton_append, h.readNegation (hfollow _) (by omega), readTests_in, readNegatable?,
    hmembers]
  · obtain ⟨m, rfl⟩ : ∃ m, n = m + 1 := ⟨n - 1, by omega⟩
    exact readTests_stop hr
  · exact intercalate_ne_cons hxs hne rfl (by simp)
  · exact fun c q => intercalate_ne_cons hxs hne rfl (by simp) _

/-! ## Choices -/

/-- Tokens of an arm of a choice. -/
def IsArm (ts : List Token) (a : Expr × Expr) : Prop :=
  ∃ us vs, ts = .keyword .when :: (us ++ .keyword .then :: vs) ∧ Disjoined us a.1 ∧
    Disjoined vs a.2

theorem readArms_flatten {tss : List (List Token)} {arms before : List (Expr × Expr)}
    (h : List.Forall₂ IsArm tss arms) (hy : Disjoined us y) (hne : before.reverse ++ arms ≠ [])
    (hd : 8 * (tss.flatten.length + us.length + 2) + 1 ≤ d) :
    readArms? d before (tss.flatten ++ .keyword .else :: (us ++ .keyword .end :: r)) =
      some (.choose (before.reverse ++ arms) y, r) := by
  induction h generalizing before d with
  | nil =>
      rw [List.flatten_nil, List.length_nil] at hd
      obtain ⟨n, rfl⟩ : ∃ n, d = n + 1 := ⟨d - 1, by omega⟩
      have hbefore : before.isEmpty = false := by simpa using hne
      rw [List.flatten_nil, List.nil_append, readArms?,
        hy.reads (by simp [follow, Token.binding]) (by omega)]
      simp [hbefore]
  | @cons ts a tss arms harm harms ih =>
      obtain ⟨cs, es, rfl, hc, he⟩ := harm
      simp only [List.flatten_cons, List.length_append, List.length_cons] at hd
      obtain ⟨n, rfl⟩ : ∃ n, d = n + 1 := ⟨d - 1, by omega⟩
      have hrest := @ih n (a :: before) (by simp) (by omega)
      have hend : 6 ≤ follow (tss.flatten ++ .keyword .else :: (us ++ .keyword .end :: r)) := by
        cases harms with
        | nil => simp [follow, Token.binding]
        | cons harm harms =>
            obtain ⟨cs, es, rfl, -, -⟩ := harm
            simp [follow, Token.binding]
      rw [List.flatten_cons, List.append_assoc, List.cons_append, List.append_assoc,
        List.cons_append, readArms?, hc.reads (by simp [follow, Token.binding]) (by omega)]
      dsimp only
      rw [he.reads hend (by omega)]
      dsimp only
      rw [hrest]
      simp

theorem IsArm.legal {a : Expr × Expr} (h : IsArm ts a) : Token.illegal ∉ ts := by
  obtain ⟨us, vs, rfl, hu, hv⟩ := h
  simp [hu.legal, hv.legal]

theorem operand_choose {tss : List (List Token)} {arms : List (Expr × Expr)}
    (h : List.Forall₂ IsArm tss arms) (hne : arms ≠ []) (hy : Disjoined us y) :
    Operand (.keyword .case :: (tss.flatten ++ .keyword .else :: (us ++ [Token.keyword .end])))
      (.choose arms y) := by
  have hlegal : Token.illegal ∉ tss.flatten := by
    intro hin
    obtain ⟨ts, hts, hin⟩ := List.mem_flatten.1 hin
    obtain ⟨i, hi, rfl⟩ := List.getElem_of_mem hts
    exact (h.get hi (h.length_eq ▸ hi)).legal hin
  refine ⟨_, (List.append_nil _).symm, by simp [hlegal, hy.legal], by simp, fun r hr => ?_⟩
  refine ⟨Nat.zero_le _, fun d hd => ?_⟩
  simp only [List.length_append, List.length_cons, List.length_nil] at hd
  obtain ⟨n, rfl⟩ : ∃ n, d = n + 1 := ⟨d - 1, by omega⟩
  rw [List.cons_append, List.append_assoc, List.cons_append, List.append_assoc,
    List.singleton_append, readOperand?]
  exact readArms_flatten h hy (by simpa using hne) (by omega)

end StagedStore.Sql
