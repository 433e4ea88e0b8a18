import StagedStore.Proofs.Sql.Again
import StagedStore.Proofs.Sql.Numbered

/-!
# Parameters under other numbers

Giving parameters other numbers changes nothing but the numbers in what tokens are read as.  So an
expression is read the same wherever it stands in a statement: only its parameters count from where
those in front of it end.
-/

namespace StagedStore.Sql

/-- A token whose parameter has another number. -/
def Token.renumber (f : Nat → Nat) : Token → Token
  | .param (some n) => .param (some (f n))
  | t => t

namespace Expr

mutual

/-- An expression whose parameters have other numbers. -/
def renumber (f : Nat → Nat) : Expr → Expr
  | .literal v => .literal v
  | .param n => .param (n.map f)
  | .column q c => .column q c
  | .paren e => .paren (renumber f e)
  | .add a b => .add (renumber f a) (renumber f b)
  | .compare op a b => .compare op (renumber f a) (renumber f b)
  | .like negated a p => .like negated (renumber f a) (renumber f p)
  | .nullCheck negated a => .nullCheck negated (renumber f a)
  | .between negated a l h => .between negated (renumber f a) (renumber f l) (renumber f h)
  | .inList negated a ms => .inList negated (renumber f a) (renumberAll f ms)
  | .inTable negated a c t => .inTable negated (renumber f a) c t
  | .not e => .not (renumber f e)
  | .and a b => .and (renumber f a) (renumber f b)
  | .or a b => .or (renumber f a) (renumber f b)
  | .choose arms e => .choose (renumberArms f arms) (renumber f e)
  | .call g args => .call g (renumberAll f args)
  | .countAll => .countAll
  | .fragment t => .fragment t

def renumberAll (f : Nat → Nat) : List Expr → List Expr
  | [] => []
  | e :: es => renumber f e :: renumberAll f es

def renumberArms (f : Nat → Nat) : List (Expr × Expr) → List (Expr × Expr)
  | [] => []
  | (c, e) :: arms => (renumber f c, renumber f e) :: renumberArms f arms

end

variable {f : Nat → Nat}

theorem renumberAll_eq (es : List Expr) : renumberAll f es = es.map (renumber f) := by
  induction es with
  | nil => rfl
  | cons e es ih => rw [renumberAll, ih, List.map_cons]

theorem renumberArms_eq (arms : List (Expr × Expr)) :
    renumberArms f arms = arms.map (Prod.map (renumber f) (renumber f)) := by
  induction arms with
  | nil => rfl
  | cons a arms ih =>
      obtain ⟨c, e⟩ := a
      rw [renumberArms, ih, List.map_cons]
      rfl

end Expr

variable {f : Nat → Nat} {n : Nat} {a x : Expr} {ts r : List Token}

/-- Tokens whose parameters have other numbers. -/
abbrev renumberTokens (f : Nat → Nat) (ts : List Token) : List Token :=
  ts.map (Token.renumber f)

theorem Token.renumber_eq_iff {t u : Token} (hu : ∀ n, u ≠ .param (some n)) :
    t.renumber f = u ↔ t = u := by
  unfold renumber
  split
  · exact iff_of_false (fun h => hu _ h.symm) (fun h => hu _ h.symm)
  · rfl

/-- Tokens without parameters in front of others are so under other numbers only. -/
theorem cons_of_renumbered {t : Token} (ht : ∀ n, t ≠ .param (some n))
    (h : renumberTokens f ts = t :: r) : ∃ q, ts = t :: q ∧ r = renumberTokens f q := by
  obtain ⟨u, q, rfl, hu, rfl⟩ := List.map_eq_cons_iff.1 h
  exact ⟨q, by rw [(Token.renumber_eq_iff ht).1 hu], rfl⟩

/-- Tokens that do not start with some without parameters do not do so under other numbers. -/
theorem starts_otherwise (pre : List Token) (hpre : ∀ t ∈ pre, ∀ n, t ≠ .param (some n))
    (h : ∀ r, ts = pre ++ r → False) (r : List Token) (hr : renumberTokens f ts = pre ++ r) :
    False := by
  obtain ⟨us, vs, rfl, hus, -⟩ := List.map_eq_append_iff.1 hr
  refine h vs (congrArg (· ++ vs) ?_)
  rw [← hus]
  refine ((List.map_congr_left fun t ht => ?_).trans (List.map_id us)).symm
  exact (Token.renumber_eq_iff (hpre _ (hus ▸ List.mem_map_of_mem ht))).1 rfl |>.symm

theorem partOfToken?_renumber (t : Token) : partOfToken? (t.renumber f) = partOfToken? t := by
  cases t with
  | param n => cases n <;> rfl
  | _ => rfl

theorem qualifies_otherwise (h : ∀ c r, ts = .symbol '.' :: c :: r → False) (c : Token)
    (r : List Token) (hr : renumberTokens f ts = .symbol '.' :: c :: r) : False := by
  obtain ⟨us, rfl, hus⟩ := cons_of_renumbered (by simp) hr
  obtain ⟨d, vs, rfl, -, -⟩ := List.map_eq_cons_iff.1 hus.symm
  exact h d vs rfl

/-- Names are no parameters. -/
theorem renumber_of_part {t : Token} {p : Part} (h : partOfToken? t = some p) :
    t.renumber f = t := by
  rcases token_of_part h with rfl | rfl <;> rfl

/-- A name that neither is called nor qualifies another is a column. -/
theorem readOperand_column {t : Token} {p : Part} (hp : partOfToken? t = some p)
    (hcall : ∀ g, t = .word g → ∀ r, ts = .symbol '(' :: r → False)
    (hdot : ∀ c r, ts = .symbol '.' :: c :: r → False) :
    readOperand? (n + 1) (t :: ts) = some (.column none p, ts) := by
  rcases token_of_part hp with rfl | rfl
  · rw [readOperand?, hp]
    · rfl
    all_goals first | exact hdot | simp
  · rw [readOperand?, hp]
    · rfl
    case x_8 => exact fun g r _ => hcall _ rfl _
    case x_9 => exact fun g r _ => hcall _ rfl _
    case x_10 => exact fun g r _ => hcall _ rfl r
    all_goals first | exact hdot | simp

theorem readPart_renumbered {p : Part} (h : readPart? ts = some (p, r)) :
    readPart? (renumberTokens f ts) = some (p, renumberTokens f r) := by
  cases ts with
  | nil => cases h
  | cons t ts =>
      obtain ⟨q, hq, he⟩ := Option.map_eq_some_iff.1 h
      obtain ⟨rfl, rfl⟩ := Prod.mk.inj he
      rw [renumberTokens, List.map_cons, readPart?, partOfToken?_renumber, hq]
      rfl

theorem readTableName_renumbered {i : Identifier} (h : readTableName? ts = some (i, r)) :
    readTableName? (renumberTokens f ts) = some (i, renumberTokens f r) := by
  obtain ⟨⟨p, us⟩, hp, h⟩ := Option.bind_eq_some_iff.1 h
  rw [readTableName?, readPart_renumbered hp, Option.bind_eq_bind, Option.bind_some]
  dsimp only at h ⊢
  split at h
  · obtain ⟨⟨q, vs⟩, hq, h⟩ := Option.bind_eq_some_iff.1 h
    obtain ⟨rfl, rfl⟩ := Prod.mk.inj (Option.some.inj h)
    simp only [renumberTokens, List.map_cons, Token.renumber]
    rw [readPart_renumbered hq]
    rfl
  · rename_i hdot
    obtain ⟨rfl, rfl⟩ := Prod.mk.inj (Option.some.inj h)
    split
    · rename_i hr
      exact (starts_otherwise [_] (by simp) hdot _ hr).elim
    · rfl

/-- What is known of all readers with some steps. -/
structure ReadRenumbered (f : Nat → Nat) (n : Nat) : Prop where
  expr : ∀ {ts x r}, readExpr? n ts = some (x, r) →
    readExpr? n (renumberTokens f ts) = some (x.renumber f, renumberTokens f r)
  ors : ∀ {a ts x r}, readOrs? n a ts = some (x, r) →
    readOrs? n (a.renumber f) (renumberTokens f ts) = some (x.renumber f, renumberTokens f r)
  conjunction : ∀ {ts x r}, readConjunction? n ts = some (x, r) →
    readConjunction? n (renumberTokens f ts) = some (x.renumber f, renumberTokens f r)
  ands : ∀ {a ts x r}, readAnds? n a ts = some (x, r) →
    readAnds? n (a.renumber f) (renumberTokens f ts) = some (x.renumber f, renumberTokens f r)
  negation : ∀ {ts x r}, readNegation? n ts = some (x, r) →
    readNegation? n (renumberTokens f ts) = some (x.renumber f, renumberTokens f r)
  tests : ∀ {a ts x r}, readTests? n a ts = some (x, r) →
    readTests? n (a.renumber f) (renumberTokens f ts) = some (x.renumber f, renumberTokens f r)
  negatable : ∀ {b a ts x r}, readNegatable? n b a ts = some (x, r) →
    readNegatable? n b (a.renumber f) (renumberTokens f ts) =
      some (x.renumber f, renumberTokens f r)
  comparison : ∀ {ts x r}, readComparison? n ts = some (x, r) →
    readComparison? n (renumberTokens f ts) = some (x.renumber f, renumberTokens f r)
  comparisons : ∀ {a ts x r}, readComparisons? n a ts = some (x, r) →
    readComparisons? n (a.renumber f) (renumberTokens f ts) =
      some (x.renumber f, renumberTokens f r)
  sum : ∀ {ts x r}, readSum? n ts = some (x, r) →
    readSum? n (renumberTokens f ts) = some (x.renumber f, renumberTokens f r)
  addends : ∀ {a ts x r}, readAddends? n a ts = some (x, r) →
    readAddends? n (a.renumber f) (renumberTokens f ts) = some (x.renumber f, renumberTokens f r)
  operand : ∀ {ts x r}, readOperand? n ts = some (x, r) →
    readOperand? n (renumberTokens f ts) = some (x.renumber f, renumberTokens f r)
  arms : ∀ {before ts x r}, readArms? n before ts = some (x, r) →
    readArms? n (Expr.renumberArms f before) (renumberTokens f ts) =
      some (x.renumber f, renumberTokens f r)
  exprs : ∀ {before ts xs r}, readExprs? n before ts = some (xs, r) →
    readExprs? n (Expr.renumberAll f before) (renumberTokens f ts) =
      some (Expr.renumberAll f xs, renumberTokens f r)

namespace ReadRenumbered

variable (ih : ReadRenumbered f n)

include ih

theorem readExpr (h : readExpr? (n + 1) ts = some (x, r)) :
    readExpr? (n + 1) (renumberTokens f ts) = some (x.renumber f, renumberTokens f r) := by
  unfold readExpr? at h
  split at h
  · rename_i h₁
    rw [readExpr?, ih.conjunction h₁]
    exact ih.ors h
  · cases h

theorem readOrs (h : readOrs? (n + 1) a ts = some (x, r)) :
    readOrs? (n + 1) (a.renumber f) (renumberTokens f ts) =
      some (x.renumber f, renumberTokens f r) := by
  unfold readOrs? at h
  split at h
  · split at h
    · rename_i h₁
      rw [renumberTokens, List.map_cons, Token.renumber, readOrs?, ih.conjunction h₁]
      · exact ih.ors h
      · simp
    · cases h
  · rename_i hor
    obtain ⟨rfl, rfl⟩ := Prod.mk.inj (Option.some.inj h)
    rw [readOrs?]
    exact starts_otherwise [_] (by simp) hor

theorem readConjunction (h : readConjunction? (n + 1) ts = some (x, r)) :
    readConjunction? (n + 1) (renumberTokens f ts) = some (x.renumber f, renumberTokens f r) := by
  unfold readConjunction? at h
  split at h
  · rename_i h₁
    rw [readConjunction?, ih.negation h₁]
    exact ih.ands h
  · cases h

theorem readAnds (h : readAnds? (n + 1) a ts = some (x, r)) :
    readAnds? (n + 1) (a.renumber f) (renumberTokens f ts) =
      some (x.renumber f, renumberTokens f r) := by
  unfold readAnds? at h
  split at h
  · split at h
    · rename_i h₁
      simp only [renumberTokens, List.map_cons, Token.renumber, readAnds?, ih.negation h₁]
      exact ih.ands h
    · cases h
  · rename_i hand
    obtain ⟨rfl, rfl⟩ := Prod.mk.inj (Option.some.inj h)
    rw [readAnds?]
    exact starts_otherwise [_] (by simp) hand

theorem readNegation (h : readNegation? (n + 1) ts = some (x, r)) :
    readNegation? (n + 1) (renumberTokens f ts) = some (x.renumber f, renumberTokens f r) := by
  unfold readNegation? at h
  split at h
  · split at h
    · rename_i h₁
      obtain ⟨rfl, rfl⟩ := Prod.mk.inj (Option.some.inj h)
      simp only [renumberTokens, List.map_cons, Token.renumber, readNegation?, ih.negation h₁,
        Expr.renumber]
    · cases h
  · rename_i hnot
    split at h
    · rename_i h₁
      rw [readNegation?, ih.comparison h₁]
      · exact ih.tests h
      · exact starts_otherwise [_] (by simp) hnot
    · cases h

theorem readTests (h : readTests? (n + 1) a ts = some (x, r)) :
    readTests? (n + 1) (a.renumber f) (renumberTokens f ts) =
      some (x.renumber f, renumberTokens f r) := by
  unfold readTests? at h
  split at h
  · split at h
    · rename_i h₁
      simp only [renumberTokens, List.map_cons, Token.renumber, readTests?, ih.comparison h₁]
      exact ih.tests h
    · cases h
  · split at h
    · rename_i h₁
      simp only [renumberTokens, List.map_cons, Token.renumber, readTests?, ih.comparison h₁]
      exact ih.tests h
    · cases h
  · exact ih.tests h
  · exact ih.tests h
  · exact ih.tests h
  · exact ih.tests h
  · exact ih.tests h
  · rename_i hnull
    simp only [renumberTokens, List.map_cons, Token.renumber]
    rw [readTests?]
    · exact ih.negatable h
    · exact starts_otherwise [_] (by simp) hnull
  · exact ih.negatable h
  · exact ih.negatable h
  · exact ih.negatable h
  · obtain ⟨rfl, rfl⟩ := Prod.mk.inj (Option.some.inj h)
    rw [readTests?]
    all_goals first
      | exact starts_otherwise [_] (by simp) (by assumption)
      | exact starts_otherwise [_, _] (by simp) (by assumption)
      | exact starts_otherwise [_, _, _] (by simp) (by assumption)

theorem readNegatable {b : Bool} (h : readNegatable? (n + 1) b a ts = some (x, r)) :
    readNegatable? (n + 1) b (a.renumber f) (renumberTokens f ts) =
      some (x.renumber f, renumberTokens f r) := by
  unfold readNegatable? at h
  split at h
  · split at h
    · rename_i h₁
      simp only [renumberTokens, List.map_cons, Token.renumber, readNegatable?, ih.comparison h₁]
      exact ih.tests h
    · cases h
  · split at h
    · rename_i h₁
      split at h
      · rename_i h₂
        have hlow := ih.comparison h₁
        simp only [renumberTokens, List.map_cons, Token.renumber] at hlow
        simp only [renumberTokens, List.map_cons, Token.renumber, readNegatable?, hlow,
          ih.comparison h₂]
        exact ih.tests h
      · cases h
    · cases h
  · exact ih.tests h
  · split at h
    · rename_i hc ht
      have htable := readTableName_renumbered (f := f) ht
      simp only [renumberTokens, List.map_cons, renumber_of_part hc] at htable ⊢
      simp only [Token.renumber, readNegatable?, hc] at htable ⊢
      rw [htable]
      exact ih.tests h
    · cases h
  · split at h
    · rename_i hempty hselect _ _ _ h₁
      have hmembers := ih.exprs h₁
      simp only [renumberTokens, List.map_cons, Token.renumber] at hmembers
      simp only [renumberTokens, List.map_cons, Token.renumber]
      rw [readNegatable?]
      · rw [Expr.renumberAll] at hmembers
        rw [hmembers]
        exact ih.tests h
      · exact starts_otherwise [_] (by simp) hempty
      · intro c us hus
        obtain ⟨vs, rfl, hvs⟩ := cons_of_renumbered (by simp) hus
        obtain ⟨d, ws, rfl, -, hws⟩ := List.map_eq_cons_iff.1 hvs.symm
        obtain ⟨q, rfl, -⟩ := cons_of_renumbered (by simp) hws
        exact hselect d q rfl
    · cases h
  · cases h

theorem readComparison (h : readComparison? (n + 1) ts = some (x, r)) :
    readComparison? (n + 1) (renumberTokens f ts) = some (x.renumber f, renumberTokens f r) := by
  unfold readComparison? at h
  split at h
  · rename_i h₁
    rw [readComparison?, ih.sum h₁]
    exact ih.comparisons h
  · cases h

theorem readComparisons (h : readComparisons? (n + 1) a ts = some (x, r)) :
    readComparisons? (n + 1) (a.renumber f) (renumberTokens f ts) =
      some (x.renumber f, renumberTokens f r) := by
  unfold readComparisons? at h
  dsimp only at h
  split at h
  case h_5 hlt hle hgt hge =>
    obtain ⟨rfl, rfl⟩ := Prod.mk.inj (Option.some.inj h)
    rw [readComparisons?]
    · exact starts_otherwise [_] (by simp) hlt
    · exact starts_otherwise [_] (by simp) hle
    · exact starts_otherwise [_] (by simp) hgt
    · exact starts_otherwise [_] (by simp) hge
  all_goals
    split at h
    · rename_i h₁
      simp only [renumberTokens, List.map_cons, Token.renumber, readComparisons?, ih.sum h₁]
      exact ih.comparisons h
    · cases h

theorem readSum (h : readSum? (n + 1) ts = some (x, r)) :
    readSum? (n + 1) (renumberTokens f ts) = some (x.renumber f, renumberTokens f r) := by
  unfold readSum? at h
  split at h
  · rename_i h₁
    rw [readSum?, ih.operand h₁]
    exact ih.addends h
  · cases h

theorem readAddends (h : readAddends? (n + 1) a ts = some (x, r)) :
    readAddends? (n + 1) (a.renumber f) (renumberTokens f ts) =
      some (x.renumber f, renumberTokens f r) := by
  unfold readAddends? at h
  split at h
  · split at h
    · rename_i h₁
      simp only [renumberTokens, List.map_cons, Token.renumber, readAddends?, ih.operand h₁]
      exact ih.addends h
    · cases h
  · rename_i hadd
    obtain ⟨rfl, rfl⟩ := Prod.mk.inj (Option.some.inj h)
    rw [readAddends?]
    exact starts_otherwise [_] (by simp) hadd

theorem readOperand (h : readOperand? (n + 1) ts = some (x, r)) :
    readOperand? (n + 1) (renumberTokens f ts) = some (x.renumber f, renumberTokens f r) := by
  unfold readOperand? at h
  split at h
  case h_6 i _ =>
    obtain ⟨rfl, rfl⟩ := Prod.mk.inj (Option.some.inj h)
    cases i <;> rfl
  case h_7 =>
    split at h
    · rename_i h₁
      obtain ⟨rfl, rfl⟩ := Prod.mk.inj (Option.some.inj h)
      have hinner := ih.expr h₁
      simp only [renumberTokens, List.map_cons, Token.renumber] at hinner
      simp only [renumberTokens, List.map_cons, Token.renumber, readOperand?, hinner, Expr.renumber]
    · cases h
  case h_8 => exact ih.arms h
  case h_9 =>
    split at h
    · rename_i hcount
      obtain ⟨rfl, rfl⟩ := Prod.mk.inj (Option.some.inj h)
      simp only [renumberTokens, List.map_cons, Token.renumber, readOperand?, if_pos hcount,
        Expr.renumber]
    · cases h
  case h_11 hstar hclose =>
    split at h
    · rename_i h₁
      obtain ⟨rfl, rfl⟩ := Prod.mk.inj (Option.some.inj h)
      have hargs := ih.exprs h₁
      rw [Expr.renumberAll] at hargs
      simp only [renumberTokens, List.map_cons, Token.renumber] at hargs ⊢
      rw [readOperand?]
      · rw [hargs]
        rfl
      · exact starts_otherwise [_, _] (by simp) hstar
      · exact starts_otherwise [_] (by simp) hclose
    · cases h
  case h_12 =>
    split at h
    · rename_i hq hc
      obtain ⟨rfl, rfl⟩ := Prod.mk.inj (Option.some.inj h)
      simp only [renumberTokens, List.map_cons, renumber_of_part hq, renumber_of_part hc]
      simp only [Token.renumber]
      rcases token_of_part hq with rfl | rfl <;> simp only [readOperand?, hq, hc] <;> rfl
    · cases h
  case h_13 _ _ hcall hdot =>
    obtain ⟨p, hp, he⟩ := Option.map_eq_some_iff.1 h
    obtain ⟨rfl, rfl⟩ := Prod.mk.inj he
    simp only [renumberTokens, List.map_cons, renumber_of_part hp]
    exact readOperand_column hp
      (fun g hg => starts_otherwise [_] (by simp) fun r => hcall g r hg) (qualifies_otherwise hdot)
  case h_14 => cases h
  all_goals
    obtain ⟨rfl, rfl⟩ := Prod.mk.inj (Option.some.inj h)
    rfl

theorem readArms {before : List (Expr × Expr)} (h : readArms? (n + 1) before ts = some (x, r)) :
    readArms? (n + 1) (Expr.renumberArms f before) (renumberTokens f ts) =
      some (x.renumber f, renumberTokens f r) := by
  have hreverse (arms : List (Expr × Expr)) : (Expr.renumberArms f arms).reverse =
      Expr.renumberArms f arms.reverse := by
    rw [Expr.renumberArms_eq, Expr.renumberArms_eq, List.map_reverse]
  have hnil : (Expr.renumberArms f before).isEmpty = before.isEmpty := by
    rw [Expr.renumberArms_eq, List.isEmpty_map]
  unfold readArms? at h
  split at h
  · split at h
    · rename_i h₁
      split at h
      · rename_i h₂
        have hcondition := ih.expr h₁
        simp only [renumberTokens, List.map_cons, Token.renumber] at hcondition
        simp only [renumberTokens, List.map_cons, Token.renumber, readArms?, hcondition,
          ih.expr h₂]
        exact ih.arms h
      · cases h
    · cases h
  · split at h
    · rename_i h₁
      split at h
      · cases h
      · rename_i hbefore
        obtain ⟨rfl, rfl⟩ := Prod.mk.inj (Option.some.inj h)
        have hlast := ih.expr h₁
        simp only [renumberTokens, List.map_cons, Token.renumber] at hlast
        simp only [renumberTokens, List.map_cons, Token.renumber, readArms?, hlast, hnil,
          if_neg hbefore, hreverse, Expr.renumber]
    · cases h
  · split at h
    · cases h
    · rename_i hbefore
      obtain ⟨rfl, rfl⟩ := Prod.mk.inj (Option.some.inj h)
      simp only [renumberTokens, List.map_cons, Token.renumber, readArms?, hnil, if_neg hbefore,
        hreverse, Expr.renumber]
  · cases h

theorem readExprs {before xs : List Expr} (h : readExprs? (n + 1) before ts = some (xs, r)) :
    readExprs? (n + 1) (Expr.renumberAll f before) (renumberTokens f ts) =
      some (Expr.renumberAll f xs, renumberTokens f r) := by
  unfold readExprs? at h
  split at h
  · rename_i h₁
    have hfirst := ih.expr h₁
    simp only [renumberTokens, List.map_cons, Token.renumber] at hfirst
    rw [readExprs?, hfirst]
    exact ih.exprs h
  · rename_i hcomma h₁
    obtain ⟨rfl, rfl⟩ := Prod.mk.inj (Option.some.inj h)
    rw [readExprs?, ih.expr h₁]
    split
    · rename_i heq
      obtain ⟨q, rfl, -⟩ := cons_of_renumbered (by simp) (Prod.mk.inj (Option.some.inj heq)).2
      exact (hcomma _ rfl).elim
    · rename_i heq
      obtain ⟨rfl, rfl⟩ := Prod.mk.inj (Option.some.inj heq)
      simp [Expr.renumberAll_eq]
    · rename_i heq
      cases heq
  · cases h

end ReadRenumbered

/-- What a reader gives for tokens whose parameters have other numbers is what it gives for the
tokens themselves, under the other numbers. -/
theorem readRenumbered (f : Nat → Nat) : ∀ n, ReadRenumbered f n
  | 0 =>
    { expr := by simp [readExpr?]
      ors := by simp [readOrs?]
      conjunction := by simp [readConjunction?]
      ands := by simp [readAnds?]
      negation := by simp [readNegation?]
      tests := by simp [readTests?]
      negatable := by simp [readNegatable?]
      comparison := by simp [readComparison?]
      comparisons := by simp [readComparisons?]
      sum := by simp [readSum?]
      addends := by simp [readAddends?]
      operand := by simp [readOperand?]
      arms := by simp [readArms?]
      exprs := by simp [readExprs?] }
  | n + 1 =>
    have ih := readRenumbered f n
    { expr := ih.readExpr
      ors := ih.readOrs
      conjunction := ih.readConjunction
      ands := ih.readAnds
      negation := ih.readNegation
      tests := ih.readTests
      negatable := ih.readNegatable
      comparison := ih.readComparison
      comparisons := ih.readComparisons
      sum := ih.readSum
      addends := ih.readAddends
      operand := ih.readOperand
      arms := ih.readArms
      exprs := ih.readExprs }

/-! ## Numbers behind others -/

/-- Tokens without numbered parameters, of which the first are in front of a statement and the
others behind some parameters. -/
theorem numberParams_eq_renumber {k : Nat} (h : ∀ n, Token.param (some n) ∉ ts) (m : Nat)
    (hf : ∀ n, k < n → n ≤ k + ts.count (.param none) → f n = n + m) :
    numberParams (k + m) ts = renumberTokens f (numberParams k ts) := by
  induction ts generalizing k with
  | nil => rfl
  | cons t ts ih =>
      have hrest : ∀ n, Token.param (some n) ∉ ts := fun n hn => h n (List.mem_cons_of_mem _ hn)
      cases t with
      | param i =>
          cases i with
          | none =>
              rw [List.count_cons_self] at hf
              have hnext := ih (k := k + 1) hrest fun n hk hn => hf n (by omega) (by omega)
              rw [numberParams, numberParams, renumberTokens, List.map_cons, ← renumberTokens,
                ← hnext, Token.renumber, hf (k + 1) (by omega) (by omega), Nat.add_right_comm]
          | some n => exact absurd List.mem_cons_self (h n)
      | _ =>
          rw [List.count_cons_of_ne (by simp)] at hf
          simp only [numberParams, ih hrest hf, renumberTokens, List.map_cons, Token.renumber]

end StagedStore.Sql
