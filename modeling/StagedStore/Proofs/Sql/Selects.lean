import StagedStore.Proofs.Sql.Clause
import StagedStore.Proofs.Sql.Numbered

/-!
# Queries read back

The text of a query on a table is cut into the tokens of its columns, its table, its condition, its
ordering and its limit, and from these tokens the query is read again.
-/

namespace StagedStore.Sql

variable {d : Nat} {ts r : List Token} {x : Expr}

/-! ## Columns -/

/-- Tokens of a column of a result. -/
inductive ColumnTokens : List Token → ResultColumn → Prop
  | all : ColumnTokens [.symbol '*'] .all
  | plain {ts : List Token} {x : Expr} (h : Disjoined ts x) : ColumnTokens ts (.expr x none)
  | named {ts : List Token} {x : Expr} {t : Token} {p : Part} (h : Disjoined ts x)
      (hp : partOfToken? t = some p) : ColumnTokens (ts ++ [Token.keyword .as, t]) (.expr x (some p))

/-- Tokens that end a list of columns. -/
def endsColumns (r : List Token) : Prop :=
  7 ≤ follow r ∧ r.head? ≠ some (.keyword .as)

theorem readAlias_stop (has : r.head? ≠ some (.keyword .as)) : readAlias? r = some (none, r) := by
  unfold readAlias?
  split
  · simp at has
  · rfl

theorem readAlias_part {t : Token} {p : Part} (hp : partOfToken? t = some p) :
    readAlias? (.keyword .as :: t :: r) = some (some p, r) := by
  rw [readAlias?, readPart?, hp]
  rfl

/-- Columns behind others, which stand in reverse, if a comma follows. -/
def readFurther? (n : Nat) (before : List ResultColumn) :
    List Token → Option (List ResultColumn × List Token)
  | .symbol ',' :: r => readColumns? n before r
  | r => some (before.reverse, r)

theorem readFurther_eq {n : Nat} {before : List ResultColumn} :
    (match r with
      | .symbol ',' :: r => readColumns? n before r
      | _ => pure (before.reverse, r) : Option (List ResultColumn × List Token)) =
        readFurther? n before r := by
  split
  · rfl
  · rename_i hcomma
    rw [readFurther?]
    · rfl
    · exact hcomma

theorem readColumns_expr {n : Nat} {before : List ResultColumn} {r' : List Token} {a : Option Part}
    (hx : Disjoined ts x) (hread : readExpr? (n + 1) (ts ++ r) = some (x, r))
    (halias : readAlias? r = some (a, r')) :
    readColumns? (n + 1) before (ts ++ r) = readFurther? n (.expr x a :: before) r' := by
  unfold readColumns?
  split
  · rename_i heq
    exact absurd heq (hx.ne_cons rfl (by simp) _)
  · simp only [hread, halias, Option.bind_eq_bind, Option.bind_some]
    exact readFurther_eq

/-- One column is read, and what follows decides whether further ones are. -/
theorem readColumns_cons {n : Nat} {c : ResultColumn} {before : List ResultColumn}
    (h : ColumnTokens ts c) (hr : 6 ≤ follow r) (has : r.head? ≠ some (.keyword .as))
    (hfuel : 8 * ts.length + 6 ≤ n + 1) :
    readColumns? (n + 1) before (ts ++ r) = readFurther? n (c :: before) r := by
  cases h with
  | all => exact readFurther_eq
  | plain h => exact readColumns_expr h (h.reads hr hfuel) (readAlias_stop has)
  | named h hp =>
      simp only [List.length_append, List.length_cons, List.length_nil] at hfuel
      rw [List.append_assoc]
      exact readColumns_expr h (h.reads (by simp [follow, Token.binding]) (by omega))
        (readAlias_part hp)

theorem readColumns_intercalate {tss : List (List Token)} {cs before : List ResultColumn}
    (h : List.Forall₂ ColumnTokens tss cs) (hne : tss ≠ []) (hr : endsColumns r)
    (hfuel : 8 * (List.intercalate [.symbol ','] tss).length + 6 ≤ d) :
    readColumns? d before (List.intercalate [.symbol ','] tss ++ r) =
      some (before.reverse ++ cs, r) := by
  induction h generalizing before d with
  | nil => exact absurd rfl hne
  | @cons ts c tss cs hc hcs ih =>
      obtain ⟨d, rfl⟩ : ∃ n, d = n + 1 := ⟨d - 1, by omega⟩
      cases hcs with
      | nil =>
          rw [List.intercalate_singleton] at hfuel ⊢
          rw [readColumns_cons hc (Nat.le_of_succ_le hr.1) hr.2 hfuel, readFurther?]
          · simp
          · rintro q rfl
            simp [endsColumns, follow, Token.binding] at hr
      | cons hc' hcs =>
          rw [List.intercalate_cons_cons] at hfuel ⊢
          simp only [List.length_append, List.length_singleton] at hfuel
          have hread := @ih d (c :: before) (by simp) (by omega)
          rw [List.append_assoc, List.append_assoc,
            readColumns_cons hc (by simp [follow, Token.binding]) (by simp) (by omega)]
          simpa [readFurther?] using hread

/-! ## What may follow -/

/-- Tokens that start with one of some tokens, if there are any. -/
def StartsIn (ks r : List Token) : Prop :=
  ∀ t ∈ r.head?, t ∈ ks

/-- Tokens that end a query. -/
abbrev EndsQuery (r : List Token) : Prop :=
  StartsIn [.symbol ')'] r

theorem StartsIn.imp {ks ks' : List Token} (h : StartsIn ks r) (hks : ks ⊆ ks') : StartsIn ks' r :=
  fun t ht => hks (h t ht)

theorem StartsIn.nil (ks : List Token) : StartsIn ks [] :=
  fun _ h => by simp at h

theorem StartsIn.cons {ks : List Token} {t : Token} (h : t ∈ ks) (r : List Token) :
    StartsIn ks (t :: r) := by
  intro u hu
  obtain rfl : t = u := by simpa using hu
  exact h

theorem StartsIn.ne_cons {ks : List Token} {t : Token} (h : StartsIn ks r) (ht : t ∉ ks)
    (q : List Token) : r ≠ t :: q := by
  rintro rfl
  exact ht (h t rfl)

theorem StartsIn.follow {ks : List Token} (h : StartsIn ks r) (hks : ∀ t ∈ ks, 7 ≤ t.binding) :
    7 ≤ follow r := by
  cases r with
  | nil => exact Nat.le_refl 7
  | cons t r => exact hks t (h t rfl)

/-! ## Tables -/

/-- Tokens of a table's name, in quotes and perhaps behind its database. -/
inductive TableTokens : List Token → Identifier → Prop
  | name (n : String) : TableTokens [.name n] (.ofPart (.quoted n))
  | within (q n : String) :
      TableTokens [.name q, .symbol '.', .name n] (.cons (.quoted q) (.ofPart (.quoted n)))

theorem readTableName_tokens {i : Identifier} (h : TableTokens ts i)
    (hr : ∀ q, r ≠ .symbol '.' :: q) : readTableName? (ts ++ r) = some (i, r) := by
  cases h with
  | name n =>
      simp only [readTableName?, readPart?, partOfToken?, List.cons_append, List.nil_append,
        Option.map_some, Option.bind_eq_bind, Option.bind_some]
      rfl
  | within q n => rfl

theorem readSource_table {i : Identifier} (h : TableTokens ts i)
    (hr : StartsIn [.keyword .where, .keyword .order, .keyword .limit, .symbol ')'] r)
    (hfuel : 3 ≤ d) : readSource? d (ts ++ r) = some (.table i none, r) := by
  obtain ⟨d, rfl⟩ : ∃ n, d = n + 3 := ⟨d - 3, by omega⟩
  have hname := readTableName_tokens h (hr.ne_cons (t := .symbol '.') (by simp))
  have halias : readAlias? r = some (none, r) := by
    refine readAlias_stop fun hhead => ?_
    simpa using hr _ hhead
  have hplain : readPlainSource? (d + 2) (ts ++ r) = some (.table i none, r) := by
    obtain ⟨n, q, hq⟩ : ∃ n q, ts ++ r = .name n :: q := by cases h <;> exact ⟨_, _, rfl⟩
    rw [hq] at hname ⊢
    rw [readPlainSource?]
    · simp [hname, halias]
    · simp
    · simp
  rw [readSource?, hplain]
  dsimp only
  rw [readJoins?]
  · exact fun q => hr.ne_cons (by simp) _
  · exact fun q => hr.ne_cons (by simp) _

/-! ## Conditions, orderings and limits -/

/-- Tokens of a condition behind its word, if there is one. -/
def whereTokens : Option (List Token) → List Token
  | none => []
  | some ts => .keyword .where :: ts

theorem readWhere_tokens {ts? : Option (List Token)} {x? : Option Expr}
    (h : Option.Rel Disjoined ts? x?)
    (hr : StartsIn [.keyword .order, .keyword .limit, .symbol ')'] r)
    (hfuel : 8 * (whereTokens ts?).length ≤ d) :
    readWhere? d (whereTokens ts? ++ r) = some (x?, r) := by
  cases h with
  | none =>
      rw [whereTokens, List.nil_append, readWhere?]
      exact hr.ne_cons (by simp)
  | some h =>
      rw [whereTokens, List.length_cons] at hfuel
      have hfollow := hr.follow (by decide)
      rw [whereTokens, List.cons_append, readWhere?, h.reads (by omega) (by omega)]
      rfl

/-- The token of a direction. -/
def Direction.token : Direction → Token
  | .ascending => .keyword .asc
  | .descending => .keyword .desc

/-- Tokens of a term of an ordering. -/
inductive OrderTokens : List Token → OrderTerm → Prop
  | directed {ts : List Token} {x : Expr} (h : Disjoined ts x) (d : Direction) :
      OrderTokens (ts ++ [d.token]) ⟨x, some d⟩

/-- Tokens of an ordering behind its words, if there is one. -/
def orderTokens : List (List Token) → List Token
  | [] => []
  | ts :: tss => .keyword .order :: .keyword .by :: List.intercalate [.symbol ','] (ts :: tss)

/-- Tokens of a limit. -/
def limitTokens : Option Limit → List Token
  | none => []
  | some ⟨n, none⟩ => .keyword .limit :: intTokens n
  | some ⟨n, some o⟩ => .keyword .limit :: (intTokens n ++ .keyword .offset :: intTokens o)

/-- Terms behind others, which stand in reverse, if a comma follows. -/
def readFurtherTerms? (n : Nat) (before : List OrderTerm) :
    List Token → Option (List OrderTerm × List Token)
  | .symbol ',' :: r => readOrderTerms? n before r
  | r => some (before.reverse, r)

theorem readFurtherTerms_eq {n : Nat} {before : List OrderTerm} :
    (match r with
      | .symbol ',' :: r => readOrderTerms? n before r
      | _ => pure (before.reverse, r) : Option (List OrderTerm × List Token)) =
        readFurtherTerms? n before r := by
  split
  · rfl
  · rename_i hcomma
    rw [readFurtherTerms?]
    · rfl
    · exact hcomma

theorem readOrderTerms_cons {n : Nat} {o : OrderTerm} {before : List OrderTerm}
    (h : OrderTokens ts o) (hfuel : 8 * ts.length + 6 ≤ n + 1) :
    readOrderTerms? (n + 1) before (ts ++ r) = readFurtherTerms? n (o :: before) r := by
  obtain ⟨h, dir⟩ := h
  rename_i us x
  simp only [List.length_append, List.length_singleton] at hfuel
  have hexpr : readExpr? (n + 1) (us ++ dir.token :: r) = some (x, dir.token :: r) :=
    h.reads (by cases dir <;> simp [follow, Token.binding, Direction.token]) (by omega)
  rw [List.append_assoc, List.singleton_append, readOrderTerms?, hexpr]
  cases dir with
  | ascending =>
      simp only [Direction.token, Option.bind_eq_bind, Option.bind_some]
      exact readFurtherTerms_eq
  | descending =>
      simp only [Direction.token, Option.bind_eq_bind, Option.bind_some]
      exact readFurtherTerms_eq

theorem readOrderTerms_intercalate {tss : List (List Token)} {os before : List OrderTerm}
    (h : List.Forall₂ OrderTokens tss os) (hne : tss ≠ [])
    (hr : StartsIn [.keyword .limit, .symbol ')'] r)
    (hfuel : 8 * (List.intercalate [.symbol ','] tss).length + 6 ≤ d) :
    readOrderTerms? d before (List.intercalate [.symbol ','] tss ++ r) =
      some (before.reverse ++ os, r) := by
  induction h generalizing before d with
  | nil => exact absurd rfl hne
  | @cons ts o tss os ho hos ih =>
      obtain ⟨d, rfl⟩ : ∃ n, d = n + 1 := ⟨d - 1, by omega⟩
      cases hos with
      | nil =>
          rw [List.intercalate_singleton] at hfuel ⊢
          rw [readOrderTerms_cons ho hfuel, readFurtherTerms?]
          · simp
          · exact fun q => hr.ne_cons (by simp) q
      | cons ho' hos =>
          rw [List.intercalate_cons_cons] at hfuel ⊢
          simp only [List.length_append, List.length_singleton] at hfuel
          have hread := @ih d (o :: before) (by simp) (by omega)
          rw [List.append_assoc, List.append_assoc, readOrderTerms_cons ho (by omega)]
          simpa [readFurtherTerms?] using hread

theorem readOrder_tokens {tss : List (List Token)} {os : List OrderTerm}
    (h : List.Forall₂ OrderTokens tss os) (hr : StartsIn [.keyword .limit, .symbol ')'] r)
    (hfuel : 8 * (orderTokens tss).length ≤ d) :
    readOrder? d (orderTokens tss ++ r) = some (os, r) := by
  cases h with
  | nil =>
      rw [orderTokens, List.nil_append, readOrder?]
      exact fun q => hr.ne_cons (by simp) _
  | cons ho hos =>
      simp only [orderTokens, List.length_cons] at hfuel
      rw [orderTokens, List.cons_append, List.cons_append, readOrder?,
        readOrderTerms_intercalate (.cons ho hos) (by simp) hr (by omega)]
      rfl

theorem readInteger_tokens (n : Int) (r : List Token) :
    readInteger? (intTokens n ++ r) = some (n, r) := by
  cases n with
  | ofNat n => rfl
  | negSucc n => rfl

theorem readLimit_tokens (l : Option Limit) (hr : EndsQuery r) :
    readLimit? (limitTokens l ++ r) = some (l, r) := by
  match l with
  | none =>
      rw [limitTokens, List.nil_append, readLimit?]
      exact hr.ne_cons (by simp)
  | some ⟨n, none⟩ =>
      simp only [limitTokens, List.cons_append, readLimit?, readInteger_tokens,
        Option.bind_eq_bind, Option.bind_some]
      split
      · exact absurd rfl (hr.ne_cons (by simp) _)
      · rfl
  | some ⟨n, some o⟩ =>
      rw [limitTokens, List.cons_append, readLimit?, List.append_assoc, readInteger_tokens]
      simp [readInteger_tokens]

/-! ## Queries -/

/-- Tokens of a query on a table. -/
def selectTokens (columns : List (List Token)) (table : List Token)
    (condition : Option (List Token)) (order : List (List Token)) (limit : Option Limit) :
    List Token :=
  .keyword .select :: (List.intercalate [.symbol ','] columns ++ .keyword .from :: (table ++
    (whereTokens condition ++ (orderTokens order ++ limitTokens limit))))

theorem startsIn_limitTokens (l : Option Limit) {ks : List Token} (hl : .keyword .limit ∈ ks)
    (hr : StartsIn ks r) : StartsIn ks (limitTokens l ++ r) := by
  match l with
  | none => exact hr
  | some ⟨n, none⟩ => exact .cons hl _
  | some ⟨n, some o⟩ => exact .cons hl _

theorem startsIn_orderTokens (tss : List (List Token)) {ks : List Token}
    (hk : .keyword .order ∈ ks) (hr : StartsIn ks r) : StartsIn ks (orderTokens tss ++ r) := by
  cases tss with
  | nil => exact hr
  | cons ts tss => exact .cons hk _

theorem startsIn_whereTokens (ts? : Option (List Token)) {ks : List Token}
    (hk : .keyword .where ∈ ks) (hr : StartsIn ks r) : StartsIn ks (whereTokens ts? ++ r) := by
  cases ts? with
  | none => exact hr
  | some ts => exact .cons hk _

theorem readSelect_tokens {css : List (List Token)} {cs : List ResultColumn} {i : Identifier}
    {table : List Token} {ts? : Option (List Token)} {x? : Option Expr} {oss : List (List Token)}
    {os : List OrderTerm} {l : Option Limit} (hcs : List.Forall₂ ColumnTokens css cs)
    (hne : css ≠ []) (hi : TableTokens table i) (hx : Option.Rel Disjoined ts? x?)
    (hos : List.Forall₂ OrderTokens oss os) (hr : EndsQuery r)
    (hfuel : 8 * (selectTokens css table ts? oss l).length ≤ d) :
    readSelect? d (selectTokens css table ts? oss l ++ r) =
      some (.mk cs (some (.table i none)) x? os l, r) := by
  simp only [selectTokens, List.length_cons, List.length_append] at hfuel
  obtain ⟨d, rfl⟩ : ∃ n, d = n + 1 := ⟨d - 1, by omega⟩
  have hlimit := readLimit_tokens l hr
  have horder := readOrder_tokens (d := d + 1) hos
    (startsIn_limitTokens l (by simp) (hr.imp (by simp))) (by omega)
  have hwhere := readWhere_tokens (d := d + 1) hx (startsIn_orderTokens oss (by simp)
    (startsIn_limitTokens l (by simp) (hr.imp (by simp)))) (by omega)
  have hsource := readSource_table (d := d) hi (startsIn_whereTokens ts? (by simp)
    (startsIn_orderTokens oss (by simp) (startsIn_limitTokens l (by simp) (hr.imp (by simp)))))
    (by omega)
  have hcolumns := @readColumns_intercalate (d + 1) (.keyword .from :: (table ++ (whereTokens ts? ++
    (orderTokens oss ++ (limitTokens l ++ r))))) css cs [] hcs hne
    ⟨by simp [follow, Token.binding], by simp⟩ (by omega)
  simp only [selectTokens, List.cons_append, List.append_assoc, readSelect?, expectWord, expect,
    if_true, Option.bind_eq_bind, Option.bind_some, hcolumns, hsource, Option.map_some, hwhere,
    horder, hlimit]
  rfl

/-! ## The texts of queries -/

def limitText (l : Option Limit) : String :=
  (l.map Limit.render).getD ""

def orderText (os : List OrderTerm) : String :=
  if os.isEmpty then "" else " ORDER BY " ++ ", ".intercalate (os.map OrderTerm.render)

theorem render_select (columns : List ResultColumn) (i : Identifier) (x? : Option Expr)
    (os : List OrderTerm) (l : Option Limit) :
    (Select.mk columns (some (.table i none)) x? os l).render =
      "SELECT " ++ (", ".intercalate (columns.map ResultColumn.render) ++ (" FROM " ++ (i.render ++
        (renderWhere x? ++ (orderText os ++ limitText l))))) := by
  cases l <;> simp only [Select.render, renderFrom, Source.render, renderAlias, String.append_assoc,
    orderText, limitText, String.append_empty, Option.map_none, Option.map_some,
    Option.getD_none, Option.getD_some]

theorem lexes_limit (l : Option Limit) : Lexes (limitText l) (limitTokens l) := by
  have hlimit : Separates " LIMIT " [.keyword .limit] :=
    separates_operator "LIMIT" (by decide) rfl
  have hoffset : Separates " OFFSET " [.keyword .offset] :=
    separates_operator "OFFSET" (by decide) rfl
  match l with
  | none => exact lexes_empty
  | some ⟨n, none⟩ =>
      simpa [limitText, Limit.render, limitTokens] using hlimit.append_lexes (lexes_toString n)
  | some ⟨n, some o⟩ =>
      have htext := hlimit.append_lexes
        ((lexes_toString n).append (hoffset.append_lexes (lexes_toString o)) (by simp [startsApart]))
      simpa [limitText, Limit.render, limitTokens, String.append_assoc] using htext

theorem lexes_order {os : List OrderTerm} {tss : List (List Token)}
    (h : List.Forall₂ Lexes (os.map OrderTerm.render) tss) :
    Lexes (orderText os) (orderTokens tss) := by
  cases os with
  | nil =>
      cases h
      exact lexes_empty
  | cons o os =>
      have horder : Separates " ORDER BY " [.keyword .order, .keyword .by] := by
        have hwords : " ORDER BY " = " ORDER " ++ "BY " := rfl
        rw [hwords]
        exact (separates_operator "ORDER" (by decide) rfl).append
          (separates_keyword "BY" (by decide) rfl)
      cases h with
      | cons ho hos => exact horder.append_lexes (lexes_intercalate (.cons ho hos))

theorem lexes_where {x? : Option Expr} {ts? : Option (List Token)}
    (h : Option.Rel (fun x ts => Lexes (Expr.render x) ts) x? ts?) :
    Lexes (renderWhere x?) (whereTokens ts?) := by
  cases h with
  | none => exact lexes_empty
  | some h =>
      have hwhere : Separates " WHERE " [.keyword .where] :=
        separates_operator "WHERE" (by decide) rfl
      exact hwhere.append_lexes h

theorem startsApart_limit (l : Option Limit) : startsApart (limitText l).toList = true := by
  cases l with
  | none => rfl
  | some l => simp [limitText, Limit.render, startsApart]

theorem startsApart_order (os : List OrderTerm) : startsApart (orderText os).toList = true := by
  cases os with
  | nil => rfl
  | cons o os => simp [orderText, startsApart]

theorem startsApart_where (x? : Option Expr) : startsApart (renderWhere x?).toList = true := by
  cases x? with
  | none => rfl
  | some x => simp [renderWhere, startsApart]

/-- The text of a query on a table, given the tokens of its parts. -/
theorem lexes_select {columns : List ResultColumn} {i : Identifier} {x? : Option Expr}
    {os : List OrderTerm} (l : Option Limit) {css oss : List (List Token)} {table : List Token}
    {ts? : Option (List Token)}
    (hcs : List.Forall₂ Lexes (columns.map ResultColumn.render) css) (hi : Lexes i.render table)
    (hx : Option.Rel (fun x ts => Lexes (Expr.render x) ts) x? ts?)
    (hos : List.Forall₂ Lexes (os.map OrderTerm.render) oss) :
    Lexes (Select.mk columns (some (.table i none)) x? os l).render
      (selectTokens css table ts? oss l) := by
  have hselect : Separates "SELECT " [.keyword .select] :=
    separates_keyword "SELECT" (by decide) rfl
  have hfrom : Separates " FROM " [.keyword .from] := separates_operator "FROM" (by decide) rfl
  have horder := (lexes_order hos).append (lexes_limit l) (startsApart_limit l)
  have hwhere := (lexes_where hx).append horder (by
    rw [String.toList_append]
    exact startsApart_append (startsApart_order os) (startsApart_limit l))
  have hsource := hfrom.append_lexes (hi.append hwhere (by
    rw [String.toList_append, String.toList_append]
    exact startsApart_append (startsApart_where x?)
      (startsApart_append (startsApart_order os) (startsApart_limit l))))
  rw [render_select]
  exact hselect.append_lexes ((lexes_intercalate hcs).append hsource (by simp [startsApart]))

/-! ## Around a condition -/

theorem fixed_limitTokens (l : Option Limit) : Fixed (limitTokens l) := by
  have hint (n : Int) : Fixed (intTokens n) := by
    cases n <;> simp [intTokens, Token.isFixed]
  obtain _ | ⟨n, _ | o⟩ := l
  · simp [limitTokens]
  · simp [limitTokens, Token.isFixed, hint]
  · simp [limitTokens, Token.isFixed, hint]

theorem fixed_orderTokens {tss : List (List Token)} (h : ∀ ts ∈ tss, Fixed ts) :
    Fixed (orderTokens tss) := by
  cases tss with
  | nil => simp [orderTokens]
  | cons ts tss => simp [orderTokens, Token.isFixed, fixed_intercalate h]

theorem map_intercalate {α β : Type} (f : α → β) (sep : List α) (xss : List (List α)) :
    (List.intercalate sep xss).map f = List.intercalate (sep.map f) (xss.map (List.map f)) := by
  induction xss with
  | nil => rfl
  | cons xs xss ih =>
      cases xss with
      | nil => simp
      | cons ys xss =>
          rw [List.intercalate_cons_cons, List.map_append, List.map_append, ih]
          simp [List.intercalate_cons_cons]

section Around

variable {css oss : List (List Token)} {table : List Token} (ts? : Option (List Token))
  (l : Option Limit) (htable : Fixed table) (horder : ∀ ts ∈ oss, Fixed ts)

include htable horder

theorem limited_selectTokens :
    (selectTokens css table ts? oss l).map Token.limited =
      selectTokens (css.map (List.map Token.limited)) table (ts?.map (List.map Token.limited)) oss
        l := by
  have hwhere : (whereTokens ts?).map Token.limited =
      whereTokens (ts?.map (List.map Token.limited)) := by
    cases ts? <;> rfl
  simp only [selectTokens, List.map_cons, List.map_append, map_intercalate, htable.limited, hwhere,
    (fixed_orderTokens horder).limited, (fixed_limitTokens l).limited]
  rfl

theorem numberParams_selectTokens {m : Nat} (hcss : Closed (List.intercalate [.symbol ','] css)) :
    numberParams m (selectTokens css table ts? oss l) =
      selectTokens css table
        (ts?.map (numberParams (largestParam m (List.intercalate [.symbol ','] css)))) oss l := by
  simp only [selectTokens, numberParams, numberParams_append, numberParams_closed hcss,
    htable.largestParam, numberParams_closed htable.closed,
    numberParams_closed (fixed_orderTokens horder).closed,
    numberParams_closed (fixed_limitTokens l).closed]
  cases ts? <;> rfl

theorem semicolon_notMem_selectTokens (hcss : .symbol ';' ∉ List.intercalate [.symbol ','] css)
    (hts : ∀ ts ∈ ts?, .symbol ';' ∉ ts) : .symbol ';' ∉ selectTokens css table ts? oss l := by
  have hwhere : .symbol ';' ∉ whereTokens ts? := by
    cases ts? with
    | none => simp [whereTokens]
    | some ts => simpa [whereTokens] using hts ts rfl
  simp [selectTokens, hcss, htable.semicolon_notMem, hwhere,
    (fixed_orderTokens horder).semicolon_notMem, (fixed_limitTokens l).semicolon_notMem]

end Around

end StagedStore.Sql
