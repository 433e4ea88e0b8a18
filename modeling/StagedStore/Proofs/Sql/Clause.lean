import StagedStore.Proofs.Sql.Again
import StagedStore.Proofs.Sql.Lexing

/-!
# Clauses put together

Complete expressions that are joined by `AND` or `OR`, or stand in parentheses, are again complete
expressions.  How the joined text nests may differ from how its parts do: an alternative in a part
ends where the part is joined by `AND`.
-/

namespace StagedStore.Sql

/-- Tokens that are negations with `AND` between them. -/
inductive Conjoined : List Token → Expr → Prop
  | one {ts : List Token} {a : Expr} (h : Again readNegation? 4 0 4 1 ts a []) : Conjoined ts a
  | and {ts us : List Token} {a b : Expr} (h : Conjoined ts a)
      (h' : Again readNegation? 4 0 4 1 us b []) :
      Conjoined (ts ++ .keyword .and :: us) (.and a b)

/-- Tokens that are conjunctions with `OR` between them. -/
inductive Disjoined : List Token → Expr → Prop
  | one {ts : List Token} {a : Expr} (h : Conjoined ts a) : Disjoined ts a
  | or {ts us : List Token} {a b : Expr} (h : Disjoined ts a) (h' : Conjoined us b) :
      Disjoined (ts ++ .keyword .or :: us) (.or a b)

variable {n : Nat} {ts us r : List Token} {a b x : Expr}

/-! ## They are read -/

theorem again_nil {α : Type} {read : Nat → List Token → Option (α × List Token)}
    {level inner base least : Nat} {y : α} (h : Again read level inner base least ts y []) :
    Token.illegal ∉ ts ∧ least ≤ ts.length ∧ ∀ r', level ≤ follow r' →
      ∀ fuel, 8 * ts.length + base ≤ fuel → read fuel (ts ++ r') = some (y, r') := by
  obtain ⟨p, rfl, hlegal, hlen, h⟩ := h
  simp only [List.append_nil] at *
  exact ⟨hlegal, hlen, fun r' hr => (h r' hr).2⟩

theorem Conjoined.read (h : Conjoined ts a) (hr : 4 ≤ follow r) {d : Nat}
    (hfuel : 8 * ts.length + 5 ≤ d) : ∃ n, d ≤ n + 8 * ts.length ∧
      readConjunction? d (ts ++ r) = readAnds? n a r := by
  induction h generalizing r d with
  | one h =>
      obtain ⟨-, hlen, h⟩ := again_nil h
      obtain ⟨n, rfl⟩ : ∃ n, d = n + 1 := ⟨d - 1, by omega⟩
      refine ⟨n, by omega, ?_⟩
      rw [readConjunction?, h r hr n (by omega)]
  | @and ts us a b _ h' ih =>
      obtain ⟨-, -, h'⟩ := again_nil h'
      rw [List.length_append, List.length_cons] at hfuel
      obtain ⟨m, hm, hread⟩ := ih (r := .keyword .and :: (us ++ r)) (Nat.le_refl 4)
        (d := d) (by omega)
      obtain ⟨n, rfl⟩ : ∃ n, m = n + 1 := ⟨m - 1, by omega⟩
      refine ⟨n, by rw [List.length_append, List.length_cons]; omega, ?_⟩
      rw [List.append_assoc, List.cons_append, hread, readAnds?, h' r hr n (by omega)]

theorem Disjoined.read (h : Disjoined ts a) (hr : 5 ≤ follow r) {d : Nat}
    (hfuel : 8 * ts.length + 6 ≤ d) : ∃ n, d ≤ n + 8 * ts.length + 1 ∧
      readExpr? d (ts ++ r) = readOrs? n a r := by
  induction h generalizing r d with
  | one h =>
      obtain ⟨n, rfl⟩ : ∃ n, d = n + 1 := ⟨d - 1, by omega⟩
      obtain ⟨m, hm, hread⟩ := h.read (r := r) (Nat.le_of_succ_le hr) (d := n) (by omega)
      obtain ⟨k, rfl⟩ : ∃ k, m = k + 1 := ⟨m - 1, by omega⟩
      refine ⟨n, by omega, ?_⟩
      rw [readExpr?, hread, readAnds_stop hr]
  | @or ts us a b _ h' ih =>
      rw [List.length_append, List.length_cons] at hfuel
      obtain ⟨m, hm, hread⟩ := ih (r := .keyword .or :: (us ++ r)) (Nat.le_refl 5)
        (d := d) (by omega)
      obtain ⟨n, rfl⟩ : ∃ n, m = n + 1 := ⟨m - 1, by omega⟩
      obtain ⟨m, hm', hread'⟩ := h'.read (r := r) (Nat.le_of_succ_le hr) (d := n) (by omega)
      obtain ⟨k, rfl⟩ : ∃ k, m = k + 1 := ⟨m - 1, by omega⟩
      refine ⟨n, by rw [List.length_append, List.length_cons]; omega, ?_⟩
      rw [List.append_assoc, List.cons_append, hread, readOrs?, hread', readAnds_stop hr]

theorem Disjoined.reads (h : Disjoined ts a) (hr : 6 ≤ follow r) {d : Nat}
    (hfuel : 8 * ts.length + 6 ≤ d) : readExpr? d (ts ++ r) = some (a, r) := by
  obtain ⟨m, hm, hread⟩ := h.read (Nat.le_of_succ_le hr) hfuel
  obtain ⟨n, rfl⟩ : ∃ n, m = n + 1 := ⟨m - 1, by omega⟩
  rw [hread, readOrs_stop hr]

/-- With as many steps as a statement is given, the tokens are read as the expression. -/
theorem Disjoined.reads_whole (h : Disjoined ts a) :
    readExpr? (8 * ts.length + 8) ts = some (a, []) := by
  have hread := h.reads (r := []) (d := 8 * ts.length + 8) (by simp [follow]) (by omega)
  rwa [List.append_nil] at hread

/-- Expressions with commas between them. -/
theorem readExprs_intercalate {tss : List (List Token)} {xs before : List Expr}
    (h : List.Forall₂ Disjoined tss xs) (hne : tss ≠ []) (hr : 7 ≤ follow r) {d : Nat}
    (hfuel : 8 * (List.intercalate [.symbol ','] tss).length + 7 ≤ d) :
    readExprs? d before (List.intercalate [.symbol ','] tss ++ r) =
      some (before.reverse ++ xs, r) := by
  induction h generalizing before d with
  | nil => exact absurd rfl hne
  | @cons ts x tss xs hx hxs ih =>
      obtain ⟨d, rfl⟩ : ∃ n, d = n + 1 := ⟨d - 1, by omega⟩
      cases hxs with
      | nil =>
          rw [List.intercalate_singleton] at hfuel ⊢
          rw [readExprs?, hx.reads (by omega) (by omega)]
          split
          · rename_i heq
            obtain ⟨-, rfl⟩ := Prod.mk.inj (Option.some.inj heq)
            simp [follow, Token.binding] at hr
          · rename_i heq
            obtain ⟨rfl, rfl⟩ := Prod.mk.inj (Option.some.inj heq)
            simp
          · simp at *
      | cons hx' hxs =>
          rw [List.intercalate_cons_cons] at hfuel ⊢
          simp only [List.length_append, List.length_singleton] at hfuel
          have hread := @ih (x :: before) (by simp) d (by omega)
          rw [List.append_assoc, List.append_assoc, readExprs?,
            hx.reads (by simp [follow, Token.binding]) (by omega)]
          simpa using hread

theorem Conjoined.legal (h : Conjoined ts a) : Token.illegal ∉ ts := by
  induction h with
  | one h => exact (again_nil h).1
  | and _ h' ih => simp [ih, (again_nil h').1]

theorem Disjoined.legal (h : Disjoined ts a) : Token.illegal ∉ ts := by
  induction h with
  | one h => exact h.legal
  | or _ h' ih => simp [ih, h'.legal]

theorem Conjoined.ne_nil (h : Conjoined ts a) : ts ≠ [] := by
  cases h with
  | one h => exact List.ne_nil_of_length_pos (again_nil h).2.1
  | and _ _ => simp

theorem Disjoined.ne_nil (h : Disjoined ts a) : ts ≠ [] := by
  cases h with
  | one h => exact h.ne_nil
  | or _ _ => simp

/-- No expression starts with a token that starts no operand. -/
theorem Disjoined.ne_cons {t : Token} (h : Disjoined ts a) (ht : t.startsNone = true)
    (hnot : t ≠ .keyword .not) (us : List Token) : ts ++ r ≠ t :: us := by
  intro heq
  obtain ⟨u, us, rfl⟩ := List.exists_cons_of_ne_nil h.ne_nil
  obtain ⟨rfl, -⟩ := List.cons.inj heq
  have hread := h.reads (r := []) (by simp [follow]) (Nat.le_refl _)
  rw [List.append_nil, readExpr_eq_none (readOperand_startsNone ht us) hnot] at hread
  simp at hread

/-! ## What is read is put together so -/

theorem again_of_prefix {α : Type} {read : Nat → List Token → Option (α × List Token)}
    {level inner base least : Nat} {y : α} (h : Again read level inner base least ts y r) :
    ∃ pre, ts = pre ++ r ∧ Again read level inner base least pre y [] := by
  obtain ⟨p, rfl, hlegal, hlen, h⟩ := h
  exact ⟨p, rfl, p, (List.append_nil p).symm, hlegal, hlen, h⟩

theorem conjoined_of_readAnds {pre : List Token} (hpre : Conjoined pre a)
    (h : readAnds? n a ts = some (x, r)) : ∃ mid, ts = mid ++ r ∧ Conjoined (pre ++ mid) x := by
  induction n generalizing pre a ts with
  | zero => simp [readAnds?] at h
  | succ n ih =>
      unfold readAnds? at h
      split at h
      · split at h
        · rename_i h₁
          obtain ⟨us, rfl, hus⟩ := again_of_prefix ((readAgain n).negation h₁)
          obtain ⟨mid, rfl, hmid⟩ := ih (.and hpre hus) h
          exact ⟨.keyword .and :: (us ++ mid), by simp, by simpa using hmid⟩
        · simp at h
      · obtain ⟨rfl, rfl⟩ := Prod.mk.inj (Option.some.inj h)
        exact ⟨[], rfl, by simpa using hpre⟩

theorem conjoined_of_read (h : readConjunction? n ts = some (x, r)) :
    ∃ pre, ts = pre ++ r ∧ Conjoined pre x := by
  cases n with
  | zero => simp [readConjunction?] at h
  | succ n =>
      unfold readConjunction? at h
      split at h
      · rename_i h₁
        obtain ⟨us, rfl, hus⟩ := again_of_prefix ((readAgain n).negation h₁)
        obtain ⟨mid, rfl, hmid⟩ := conjoined_of_readAnds (.one hus) h
        exact ⟨us ++ mid, (List.append_assoc ..).symm, hmid⟩
      · simp at h

theorem disjoined_of_readOrs {pre : List Token} (hpre : Disjoined pre a)
    (h : readOrs? n a ts = some (x, r)) : ∃ mid, ts = mid ++ r ∧ Disjoined (pre ++ mid) x := by
  induction n generalizing pre a ts with
  | zero => simp [readOrs?] at h
  | succ n ih =>
      unfold readOrs? at h
      split at h
      · split at h
        · rename_i h₁
          obtain ⟨us, rfl, hus⟩ := conjoined_of_read h₁
          obtain ⟨mid, rfl, hmid⟩ := ih (.or hpre hus) h
          exact ⟨.keyword .or :: (us ++ mid), by simp, by simpa using hmid⟩
        · simp at h
      · obtain ⟨rfl, rfl⟩ := Prod.mk.inj (Option.some.inj h)
        exact ⟨[], rfl, by simpa using hpre⟩

theorem disjoined_of_read (h : readExpr? n ts = some (x, r)) :
    ∃ pre, ts = pre ++ r ∧ Disjoined pre x := by
  cases n with
  | zero => simp [readExpr?] at h
  | succ n =>
      unfold readExpr? at h
      split at h
      · rename_i h₁
        obtain ⟨us, rfl, hus⟩ := conjoined_of_read h₁
        obtain ⟨mid, rfl, hmid⟩ := disjoined_of_readOrs (.one hus) h
        exact ⟨us ++ mid, (List.append_assoc ..).symm, hmid⟩
      · simp at h

/-! ## Expressions over a row -/

namespace Expr

mutual

/-- Whether nothing but the row and the parameters decides what an expression gives. -/
def overRow : Expr → Bool
  | .literal _ | .column _ _ => true
  | .param n => n.isSome
  | .paren e | .not e | .nullCheck _ e => overRow e
  | .add a b | .compare _ a b | .like _ a b | .and a b | .or a b => overRow a && overRow b
  | .between _ a l h => overRow a && overRow l && overRow h
  | .inList _ a ms => overRow a && overRowAll ms
  | .choose arms e => overRowArms arms && overRow e
  | .inTable .. | .call .. | .countAll | .fragment _ => false

def overRowAll : List Expr → Bool
  | [] => true
  | e :: es => overRow e && overRowAll es

def overRowArms : List (Expr × Expr) → Bool
  | [] => true
  | (c, r) :: arms => overRow c && overRow r && overRowArms arms

end

end Expr

/-! ## Joined clauses -/

/-- An expression in which chains of one operator are grouped from the left. -/
inductive Expr.Regroups : Expr → Expr → Prop
  | refl (x : Expr) : Regroups x x
  | and {x a b c : Expr} (h : Regroups x (.and a b)) : Regroups (.and x c) (.and a (.and b c))
  | or {x a b c : Expr} (h : Regroups x (.or a b)) : Regroups (.or x c) (.or a (.or b c))

theorem Expr.Regroups.overRow {y : Expr} (h : x.Regroups y) : x.overRow = y.overRow := by
  induction h with
  | refl x => rfl
  | and _ ih => simp [Expr.overRow, ih, Bool.and_assoc]
  | or _ ih => simp [Expr.overRow, ih, Bool.and_assoc]

theorem Conjoined.join (h : Conjoined ts a) (h' : Conjoined us b) :
    ∃ c, Conjoined (ts ++ .keyword .and :: us) c ∧ c.Regroups (.and a b) := by
  induction h' with
  | one h' => exact ⟨_, .and h h', .refl _⟩
  | and _ h' ih =>
      obtain ⟨c, hc, hgroups⟩ := ih
      exact ⟨_, by simpa using hc.and h', hgroups.and⟩

theorem Disjoined.append_or (h : Disjoined ts a) (h' : Disjoined us b) :
    ∃ c, Disjoined (ts ++ .keyword .or :: us) c ∧ c.Regroups (.or a b) := by
  induction h' with
  | one h' => exact ⟨_, h.or h', .refl _⟩
  | or _ h' ih =>
      obtain ⟨c, hc, hgroups⟩ := ih
      exact ⟨_, by simpa using hc.or h', hgroups.or⟩

/-! The next two do not keep their parts together: an alternative in one of them is joined in part
only. -/

theorem Disjoined.join_conjoined (h : Disjoined ts a) (h' : Conjoined us b) :
    ∃ c, Disjoined (ts ++ .keyword .and :: us) c ∧ c.overRow = (a.overRow && b.overRow) := by
  cases h with
  | one h =>
      obtain ⟨c, hc, hgroups⟩ := h.join h'
      exact ⟨c, .one hc, hgroups.overRow⟩
  | or h₁ h₂ =>
      obtain ⟨c, hc, hgroups⟩ := h₂.join h'
      refine ⟨_, by simpa using h₁.or hc, ?_⟩
      simp [Expr.overRow, hgroups.overRow, Bool.and_assoc]

theorem Disjoined.and (h : Disjoined ts a) (h' : Disjoined us b) :
    ∃ c, Disjoined (ts ++ .keyword .and :: us) c ∧ c.overRow = (a.overRow && b.overRow) := by
  induction h' with
  | one h' => exact h.join_conjoined h'
  | or _ h' ih =>
      obtain ⟨c, hc, hrow⟩ := ih
      refine ⟨_, by simpa using hc.or h', ?_⟩
      simp [Expr.overRow, hrow, Bool.and_assoc]

theorem Disjoined.paren (h : Disjoined ts a) :
    Again readNegation? 4 0 4 1 (.symbol '(' :: (ts ++ [Token.symbol ')'])) (.paren a) [] := by
  refine ⟨.symbol '(' :: (ts ++ [Token.symbol ')']), by simp, by simp [h.legal], by simp, ?_⟩
  refine fun r hr => ⟨Nat.zero_le _, fun fuel hfuel => ?_⟩
  simp only [List.length_cons, List.length_append, List.length_nil] at hfuel
  obtain ⟨n, rfl⟩ : ∃ n, fuel = n + 5 := ⟨fuel - 5, by omega⟩
  have hexpr : readExpr? (n + 1) (ts ++ .symbol ')' :: r) = some (a, .symbol ')' :: r) :=
    h.reads (by simp [follow, Token.binding]) (by omega)
  have hoperand : readOperand? (n + 2) (.symbol '(' :: (ts ++ .symbol ')' :: r)) =
      some (.paren a, r) := by
    rw [readOperand?, hexpr]
    rfl
  have hcomparison : readComparison? (n + 4) (.symbol '(' :: (ts ++ .symbol ')' :: r)) =
      some (.paren a, r) := by
    rw [readComparison?, readSum?, hoperand]
    dsimp only
    rw [readAddends_stop (by omega)]
    dsimp only
    rw [readComparisons_stop (by omega)]
  rw [List.cons_append, List.append_assoc, List.singleton_append, readNegation?, hcomparison]
  · dsimp only
    rw [readTests_stop hr]
  · simp

theorem again_not (h : Again readNegation? 4 0 4 1 ts a []) :
    Again readNegation? 4 0 4 1 (.keyword .not :: ts) (.not a) [] := by
  refine .behind [.keyword .not] (fun n ts => ?_) (by simp) (by simp) (Nat.zero_le _)
    (h.map Expr.not) (by omega) (by omega)
  rw [List.singleton_append, readNegation?]
  rcases readNegation? n ts with _ | ⟨_, _⟩ <;> rfl

end StagedStore.Sql
