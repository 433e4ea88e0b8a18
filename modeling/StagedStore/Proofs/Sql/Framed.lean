import StagedStore.Proofs.Sql.Leaves
import StagedStore.Proofs.Sql.Legal
import StagedStore.Staging
import StagedStore.Store.Read

/-!
# Statements around a query

Some statements are a query, a count of its rows or a temporary table that it fills. Fixed tokens
stand around the query, and the statement is read from them and the query.
-/

namespace StagedStore.Sql

variable {ts : List Token} {q : Select}

/-- Statements with a query between tokens that are always the same. -/
structure Frame (K : Select → Statement) (pre post : List Token) : Prop where
  before : Fixed pre
  behind : Fixed post
  lexes : ∀ {q ts}, Lexes q.render ts → Lexes (K q).render (pre ++ (ts ++ post))
  reads : ∀ {q ts}, ts.head? = some (.keyword .select) →
    (∀ d r, EndsQuery r → 8 * ts.length ≤ d → readSelect? d (ts ++ r) = some (q, r)) →
    ofTokens? (pre ++ (ts ++ post)) = some (K q)
  legal : ∀ {ts s}, ts.head? = some (.keyword .select) → ofTokens? (pre ++ (ts ++ post)) = some s →
    Token.illegal ∉ ts
  isPlain : ∀ q, (K q).isPlain = q.leaves.all Expr.isPlainLeaf
  endsEarly : ∀ q, (K q).endsEarly = q.leaves.any Expr.endsEarly

/-! ## The query alone -/

theorem readStatement_select (n : Nat) (r : List Token) :
    readStatement? n (.keyword .select :: r) =
      (readSelect? n (.keyword .select :: r)).map fun p => (.select p.1, p.2) := by
  simp only [readStatement?, Option.bind_eq_bind, Option.map_eq_bind]
  rfl

theorem ofTokens_select {r : List Token}
    (h : readSelect? (8 * (.keyword .select :: r).length + 8) (.keyword .select :: r) =
      some (q, [])) : ofTokens? (.keyword .select :: r) = some (.select q) := by
  rw [ofTokens?, readStatement_select, h]
  rfl

theorem legal_of_select {r : List Token} {s : Statement}
    (h : ofTokens? (.keyword .select :: r) = some s) : Token.illegal ∉ .keyword .select :: r := by
  rw [ofTokens?, readStatement_select] at h
  generalize 8 * (Token.keyword .select :: r).length + 8 = n at h
  rcases hq : readSelect? n (.keyword .select :: r) with _ | ⟨q, us⟩
  · simp [hq] at h
  · cases us with
    | nil => exact ((readLegally n).select hq).legal
    | cons t us => simp [hq] at h

theorem frame_select : Frame .select [] [] where
  before := fixed_nil
  behind := fixed_nil
  lexes {q ts} h := by
    rw [List.append_nil, List.nil_append]
    exact h
  reads {q ts} hhead hread := by
    obtain ⟨r, rfl⟩ := List.head?_eq_some_iff.1 hhead
    have hselect := hread _ [] (.nil _) (Nat.le_add_right _ 8)
    rw [List.append_nil] at hselect
    simpa using ofTokens_select hselect
  legal {ts s} hhead hread := by
    obtain ⟨r, rfl⟩ := List.head?_eq_some_iff.1 hhead
    exact legal_of_select (by simpa using hread)
  isPlain q := Statement.isPlain_eq _
  endsEarly q := Statement.endsEarly_eq _

/-! ## Counting -/

theorem readSelect_of_source {d : Nat} {r r' : List Token} {cs : List ResultColumn} {src : Source}
    (hcolumns : readColumns? (d + 1) [] r = some (cs, .keyword .from :: r'))
    (hsource : readSource? d r' = some (src, [])) :
    readSelect? (d + 1) (.keyword .select :: r) =
      some (.mk cs (some src) none [] none, []) := by
  simp only [readSelect?, expectWord, expect, if_true, Option.bind_eq_bind, Option.bind_some,
    hcolumns, hsource, Option.map_some, readWhere?, readOrder?, readLimit?]
  rfl

/-- Tokens in front of a query whose rows are counted. -/
def countTokens : List Token :=
  [.keyword .select, .word "COUNT", .symbol '(', .symbol '*', .symbol ')', .keyword .as, .word "n",
    .keyword .from, .symbol '(']

theorem lexes_count (h : Lexes q.render ts) :
    Lexes (countQuery q).render (countTokens ++ (ts ++ [Token.symbol ')'])) := by
  have hcount : Separates "COUNT(" [.word "COUNT", .symbol '('] := by
    intro r
    rw [show "COUNT(".toList ++ r = ['C', 'O', 'U', 'N', 'T'] ++ '(' :: r from rfl,
      lexed_word rfl rfl, show '(' :: r = "(".toList ++ r from rfl, separates_open,
      show Token.ofWord ['C', 'O', 'U', 'N', 'T'] = .word "COUNT" by decide +kernel]
    rfl
  have hname : Separates ("n" ++ " ") [.word "n"] :=
    separates_word (by decide +kernel) (by decide +kernel)
  have hselect : Separates "SELECT " [.keyword .select] := separates_keyword "SELECT" (by decide) rfl
  have has : Separates " AS " [.keyword .as] := separates_operator "AS" (by decide) rfl
  have hfrom : Separates "FROM " [.keyword .from] := separates_keyword "FROM" (by decide) rfl
  have hbefore := hselect.append (hcount.append (separates_star.append (separates_close.append
    (has.append (hname.append (hfrom.append separates_open))))))
  have hrender : (countQuery q).render =
      "SELECT " ++ ("COUNT(" ++ ("*" ++ (")" ++ (" AS " ++ (("n" ++ " ") ++ ("FROM " ++ "(")))))) ++
        (q.render ++ ")") := by
    have hcount : "COUNT(*)" = "COUNT(" ++ ("*" ++ ")") := rfl
    have hfrom : " FROM " = " " ++ "FROM " := rfl
    change (Select.mk [.expr .countAll (some (.bare "n"))] (some (.query q none)) none [] none).render
      = _
    simp only [Select.render, renderFrom, Source.render, ResultColumn.render, Expr.render,
      renderAlias, renderWhere, Part.render, List.map_cons, List.map_nil, List.isEmpty_nil, if_true,
      String.intercalate_singleton, String.append_empty, String.append_assoc]
    rw [hcount, hfrom]
    simp only [String.append_assoc]
  rw [hrender]
  exact hbefore.append_lexes (h.append separates_close.lexes rfl)

theorem frame_count : Frame countQuery countTokens [.symbol ')'] where
  before := by simp [countTokens, Token.isFixed]
  behind := by simp [Token.isFixed]
  lexes := lexes_count
  reads {q ts} hhead hread := by
    obtain ⟨n, hn⟩ : ∃ n, 8 * (countTokens ++ (ts ++ [Token.symbol ')'])).length + 8 = n + 3 :=
      ⟨_, rfl⟩
    have hlen : 8 * ts.length + 80 ≤ n := by
      simp only [countTokens, List.length_append, List.length_cons, List.length_nil] at hn
      omega
    have hselect := hread n [.symbol ')'] (.cons (by simp) _) (by omega)
    have hsource : readSource? (n + 2) (.symbol '(' :: (ts ++ [Token.symbol ')'])) =
        some (.query q none, []) := by
      obtain ⟨r, rfl⟩ := List.head?_eq_some_iff.1 hhead
      have hplain : readPlainSource? (n + 1) (.symbol '(' :: (.keyword .select :: r ++
          [.symbol ')'])) = some (.query q none, []) := by
        rw [readPlainSource?]
        · simp only [hselect, Option.bind_eq_bind, Option.bind_some]
          rfl
        · simp
      rw [readSource?, hplain]
      rfl
    have hcolumn : Disjoined [.word "COUNT", .symbol '(', .symbol '*', .symbol ')'] .countAll :=
      .one (.one ((readAgain 20).negation (by with_unfolding_all rfl)))
    have hcolumns := @readColumns_intercalate (n + 3)
      (.keyword .from :: .symbol '(' :: (ts ++ [Token.symbol ')'])) _ _ []
      (.cons (.named (t := .word "n") (p := .bare "n") hcolumn rfl) .nil) (by simp)
      ⟨by simp [follow, Token.binding], by simp⟩ (by simp; omega)
    rw [List.intercalate_singleton] at hcolumns
    simp only [List.cons_append, List.nil_append, List.reverse_nil] at hcolumns
    refine ofTokens_select ?_
    change readSelect? (8 * (countTokens ++ (ts ++ [Token.symbol ')'])).length + 8) _ = _
    rw [hn]
    exact readSelect_of_source hcolumns hsource
  legal {ts s} _ hread hin := by
    have hlegal := legal_of_select (r := countTokens.tail ++ (ts ++ [Token.symbol ')'])) hread
    exact hlegal (List.mem_cons_of_mem _ (List.mem_append_right _ (List.mem_append_left _ hin)))
  isPlain q := by
    rw [Statement.isPlain_eq]
    simp [countQuery, Statement.leaves, Select.leaves, ResultColumn.leaves, Expr.leaves, leavesFrom,
      Source.leaves, leaves?, Expr.isPlainLeaf]
  endsEarly q := by
    rw [Statement.endsEarly_eq]
    simp [countQuery, Statement.leaves, Select.leaves, ResultColumn.leaves, Expr.leaves, leavesFrom,
      Source.leaves, leaves?, Expr.endsEarly]

/-! ## Temporary tables -/

section Temporary

variable {n : String}

/-- A temporary table filled by a query. -/
def fillTemporary (n : String) (q : Select) : Statement :=
  .createTemporary (.quoted n) (.select q)

/-- Tokens in front of a query that fills a temporary table. -/
def temporaryTokens (n : String) : List Token :=
  [.keyword .create, .word "TEMPORARY", .keyword .table, .name n, .keyword .as]

theorem readStatement_fillTemporary (d : Nat) (r : List Token) :
    readStatement? d (temporaryTokens n ++ r) =
      (readSelect? d r).map fun p => (fillTemporary n p.1, p.2) := by
  have hword : "TEMPORARY".toUpper = "TEMPORARY" := by decide +kernel
  simp only [temporaryTokens, List.cons_append, List.nil_append, readStatement?,
    Option.bind_eq_bind, Option.map_eq_bind, hword]
  rfl

theorem lexes_fillTemporary (hn : '\x00' ∉ n.toList) (h : Lexes q.render ts) :
    Lexes (fillTemporary n q).render (temporaryTokens n ++ ts) := by
  have hcreate : Separates "CREATE " [.keyword .create] :=
    separates_keyword "CREATE" (by decide) rfl
  have htemporary : Separates ("TEMPORARY" ++ " ") [.word "TEMPORARY"] :=
    separates_word (by decide +kernel) (by decide +kernel)
  have htable : Separates "TABLE " [.keyword .table] := separates_keyword "TABLE" (by decide) rfl
  have has : Separates " AS " [.keyword .as] := separates_operator "AS" (by decide) rfl
  have hname := (lexes_quoteName hn).append (has.append_lexes h) (by simp [startsApart])
  have hrender : (fillTemporary n q).render =
      "CREATE " ++ (("TEMPORARY" ++ " ") ++ ("TABLE " ++ (quoteName n ++ (" AS " ++ q.render)))) := by
    have hwords : "CREATE TEMPORARY TABLE " = "CREATE " ++ (("TEMPORARY" ++ " ") ++ "TABLE ") := rfl
    change "CREATE TEMPORARY TABLE " ++ quoteName n ++ " AS " ++ q.render = _
    rw [hwords]
    simp only [String.append_assoc]
  rw [hrender]
  exact hcreate.append_lexes (htemporary.append_lexes (htable.append_lexes hname))

theorem frame_fillTemporary (hn : '\x00' ∉ n.toList) :
    Frame (fillTemporary n) (temporaryTokens n) [] where
  before := by simp [temporaryTokens, Token.isFixed]
  behind := fixed_nil
  lexes {q ts} h := by
    rw [List.append_nil]
    exact lexes_fillTemporary hn h
  reads {q ts} _ hread := by
    have hselect := hread (8 * (temporaryTokens n ++ (ts ++ [])).length + 8) [] (.nil _)
      (by simp only [List.length_append]; omega)
    rw [ofTokens?, readStatement_fillTemporary, hselect]
    rfl
  legal {ts s} _ hread := by
    rw [List.append_nil, ofTokens?, readStatement_fillTemporary] at hread
    generalize 8 * (temporaryTokens n ++ ts).length + 8 = d at hread
    rcases hq : readSelect? d ts with _ | ⟨q, us⟩
    · simp [hq] at hread
    · cases us with
      | nil => exact ((readLegally d).select hq).legal
      | cons t us => simp [hq] at hread
  isPlain q := Statement.isPlain_eq _
  endsEarly q := Statement.endsEarly_eq _

end Temporary

end StagedStore.Sql
