import StagedStore.Proofs.Filter.Selected
import StagedStore.Proofs.Identifier.Grammar
import StagedStore.Schema.Definition

/-!
# The statement that creates a table

The text of the statement that creates the table of a schema is read as it was meant: its columns
are those of the fields, in order, with their types and constraints.
-/

namespace StagedStore

open Sql Token

/-! ## Names of tables -/

/-- A name in quotes in front of a text that starts with one, with a dot between them. -/
theorem Sql.Lexes.qualified {q s : String} {ts : List Token} (hq : '\x00' ∉ q.toList)
    (hs : s.toList.head? = some '"') (h : Lexes s ts) :
    Lexes (quoteName q ++ "." ++ s) (.name q :: .symbol '.' :: ts) := by
  intro r hr
  have hhead : (s.toList ++ r).head? = some '"' := by rw [List.head?_append, hs]; rfl
  rw [String.toList_append, String.toList_append, List.append_assoc, List.append_assoc,
    lexed_quoteName hq (by simp), show ".".toList = ['.'] from rfl, List.singleton_append,
    lexed_dot hhead, h r hr]
  rfl

namespace Identifier

theorem allQuoted_cons (p : Part) (i : Identifier) :
    (cons p i).allQuoted = cons (.quoted p.name) i.allQuoted := rfl

theorem head?_allQuoted (i : Identifier) : i.allQuoted.render.toList.head? = some '"' := by
  induction i using parts_induction with
  | one p => simp [allQuoted, ofPart, render, Part.render, quoteName, Quoted.wrap]
  | cons p i _ => simp [allQuoted_cons, render_cons, Part.render, quoteName, Quoted.wrap]

/-- An identifier of any number of parts is cut at its dots. -/
theorem lexes_renderQuoted {i : Identifier} (hnul : ∀ p ∈ i.parts, '\x00' ∉ p.name.toList) :
    Lexes i.renderQuoted i.tokens := by
  induction i using parts_induction with
  | one p =>
      have hname : Lexes (quoteName p.name) [.name p.name] :=
        lexes_quoteName (hnul p (by simp [ofPart]))
      simpa [renderQuoted, allQuoted, render, tokens, ofPart, Part.render] using hname
  | cons p i ih =>
      obtain ⟨hp, hi⟩ := List.forall_mem_cons.1 hnul
      have htokens : (cons p i).tokens = .name p.name :: .symbol '.' :: i.tokens := by
        obtain ⟨parts, hne⟩ := i
        cases parts with
        | nil => exact absurd rfl hne
        | cons q qs => simp [tokens, cons, List.intercalate_cons_cons]
      rw [renderQuoted, allQuoted_cons, render_cons, htokens]
      exact (ih hi).qualified hp i.head?_allQuoted

theorem mem_tokens {i : Identifier} {t : Token} (h : t ∈ i.tokens) :
    t = .symbol '.' ∨ ∃ n, t = .name n := by
  have hall (ps : List Part) : ∀ t ∈ List.intercalate [.symbol '.'] (ps.map fun p => [.name p.name]),
      t = .symbol '.' ∨ ∃ n, t = Token.name n := by
    induction ps with
    | nil => simp
    | cons p ps ih =>
        cases ps with
        | nil => simp
        | cons q ps =>
            rw [List.map_cons, List.map_cons, List.intercalate_cons_cons]
            simpa [or_imp, forall_and] using ih
  exact hall i.parts t h

/-- A name can be quoted if and only if it has a character and none of them is null. -/
theorem nameFault?_eq_none_iff {n : String} : nameFault? n = none ↔ n ≠ "" ∧ '\x00' ∉ n.toList := by
  unfold nameFault?
  split
  · simp_all
  · split <;> simp_all

end Identifier

namespace Schema

variable (s : Schema) (f : Field)

/-- The constraints of a column, as tokens. -/
def constraintTokens : List Token :=
  (if f = s.primaryKey then .keyword .primary :: .keyword .key ::
    (if s.autoIncrement then [.keyword .autoincrement] else []) else []) ++
      (if f.nullable then [] else [.keyword .not, .keyword .null])

/-- The tokens of a column. -/
def columnTokens : List Token :=
  .name f.name :: .word f.kind.columnType :: s.constraintTokens f

theorem lexes_columnType (k : FieldKind) : Lexes k.columnType [.word k.columnType] := by
  cases k <;> exact lexes_word (by decide) (by decide +kernel)

theorem lexes_constraints :
    Lexes (String.join ((s.columnDef f).constraints.map ColumnConstraint.render))
      (s.constraintTokens f) := by
  have hkey : Lexes (" PRIMARY " ++ "KEY") [.keyword .primary, .keyword .key] :=
    (separates_operator "PRIMARY" (by decide) rfl).append_lexes (lexes_keyword (by decide))
  have hgenerated : Lexes (" " ++ "AUTOINCREMENT") [.keyword .autoincrement] :=
    separates_blank.append_lexes (lexes_keyword (by decide))
  have hrequired : Lexes (" NOT " ++ "NULL") [.keyword .not, .keyword .null] :=
    (separates_operator "NOT" (by decide) rfl).append_lexes (lexes_keyword (by decide))
  have hprimary (generated : Bool) : Lexes (ColumnConstraint.primaryKey generated).render
      (.keyword .primary :: .keyword .key :: if generated then [.keyword .autoincrement] else []) := by
    cases generated with
    | false => exact hkey
    | true => exact hkey.append hgenerated rfl
  have hnull : Lexes ColumnConstraint.notNull.render [.keyword .not, .keyword .null] := hrequired
  have hstart : startsApart ColumnConstraint.notNull.render.toList = true := by decide
  unfold columnDef constraintTokens
  by_cases hf : f = s.primaryKey
  · cases hn : f.nullable
    · simpa [hf, hn] using (hprimary s.autoIncrement).append hnull hstart
    · simpa [hf, hn] using (hprimary s.autoIncrement)
  · cases hn : f.nullable
    · simpa [hf, hn] using hnull
    · simpa [hf, hn] using lexes_empty

theorem startsApart_constraints :
    startsApart (String.join ((s.columnDef f).constraints.map ColumnConstraint.render)).toList =
      true := by
  have hkey (generated nullable : Bool) : startsApart (String.join
      (([ColumnConstraint.primaryKey generated] ++
        if nullable then [] else [ColumnConstraint.notNull]).map
          ColumnConstraint.render)).toList = true := by
    cases generated <;> cases nullable <;> decide
  have hother (nullable : Bool) : startsApart (String.join
      (([] ++ if nullable then [] else [ColumnConstraint.notNull]).map
        ColumnConstraint.render)).toList = true := by
    cases nullable <;> decide
  unfold columnDef
  by_cases hf : f = s.primaryKey
  · rw [if_pos hf]
    exact hkey s.autoIncrement f.nullable
  · rw [if_neg hf]
    exact hother f.nullable

theorem lexes_columnDef (hf : f ∈ s.fields) : Lexes (s.columnDef f).render (s.columnTokens f) := by
  have hname : Lexes (quoteName f.name) [.name f.name] :=
    lexes_quoteName (Identifier.nameFault?_eq_none_iff.1 (s.names_valid f hf)).2
  have htype := separates_blank.append_lexes
    ((lexes_columnType f.kind).append (s.lexes_constraints f) (s.startsApart_constraints f))
  have hne : f.kind.columnType ≠ "" := by cases f.kind <;> decide
  have hrender : (s.columnDef f).render = quoteName f.name ++ (" " ++ (f.kind.columnType ++
      String.join ((s.columnDef f).constraints.map ColumnConstraint.render))) := by
    rw [ColumnDef.render, show (s.columnDef f).type = f.kind.columnType from rfl, if_neg hne,
      String.append_assoc, String.append_assoc]
    rfl
  rw [hrender]
  exact hname.append htype (by simp [startsApart])

/-- The tokens of the statement that creates the table. -/
def createTokens : List Token :=
  [.keyword .create, .keyword .table, .keyword .if, .keyword .not, .keyword .exists] ++
    (s.table.tokens ++ (.symbol '(' ::
      (List.intercalate [.symbol ','] (s.fields.map s.columnTokens) ++ [.symbol ')'])))

theorem scan_createTable (hnul : ∀ p ∈ s.table.parts, '\x00' ∉ p.name.toList) :
    scan s.createTable.render = s.createTokens := by
  have hwords : Separates "CREATE TABLE IF NOT EXISTS "
      [.keyword .create, .keyword .table, .keyword .if, .keyword .not, .keyword .exists] := by
    have hcreate : Separates "CREATE " [.keyword .create] :=
      separates_keyword "CREATE" (by decide) rfl
    have htable : Separates "TABLE " [.keyword .table] :=
      separates_keyword "TABLE" (by decide) rfl
    have hif : Separates "IF " [.keyword .if] := separates_keyword "IF" (by decide) rfl
    have hnot : Separates "NOT " [.keyword .not] := separates_keyword "NOT" (by decide) rfl
    have hexists : Separates "EXISTS " [.keyword .exists] :=
      separates_keyword "EXISTS" (by decide) rfl
    have hsplit : "CREATE TABLE IF NOT EXISTS " =
        "CREATE " ++ ("TABLE " ++ ("IF " ++ ("NOT " ++ "EXISTS "))) := rfl
    rw [hsplit]
    exact hcreate.append (htable.append (hif.append (hnot.append hexists)))
  have hopen : Separates " (" [.symbol '('] := by
    have hsplit : " (" = " " ++ "(" := rfl
    rw [hsplit]
    exact separates_blank.append separates_open
  have hcolumns : Lexes (", ".intercalate ((s.fields.map s.columnDef).map ColumnDef.render))
      (List.intercalate [.symbol ','] (s.fields.map s.columnTokens)) := by
    refine lexes_intercalate ?_
    rw [List.map_map, List.forall₂_map_left_iff, List.forall₂_map_right_iff, List.forall₂_same]
    exact fun f hf => s.lexes_columnDef f hf
  have hlist := hopen.append_lexes (hcolumns.append separates_close.lexes rfl)
  have hrender : s.createTable.render = "CREATE TABLE IF NOT EXISTS " ++ (s.tableSql ++ (" (" ++
      (", ".intercalate ((s.fields.map s.columnDef).map ColumnDef.render) ++ ")"))) := by
    change "CREATE TABLE " ++ "IF NOT EXISTS " ++ s.tableSql ++ " (" ++ _ ++ ")" = _
    rw [show "CREATE TABLE IF NOT EXISTS " = "CREATE TABLE " ++ "IF NOT EXISTS " from rfl]
    simp only [String.append_assoc]
  rw [hrender]
  have hname := (Identifier.lexes_renderQuoted hnul).append hlist (by simp [startsApart])
  exact (hwords.append_lexes hname).scan_eq

/-! ## Reading -/

theorem readConstraints_tokens {n : Nat} {t : Token} {r : List Token} (hn : 3 ≤ n)
    (ht : t = .symbol ',' ∨ t = .symbol ')') :
    readConstraints? n [] (s.constraintTokens f ++ t :: r) =
      some ((s.columnDef f).constraints, t :: r) := by
  obtain ⟨n, rfl⟩ : ∃ m, n = m + 3 := ⟨n - 3, by omega⟩
  unfold constraintTokens columnDef
  rcases ht with rfl | rfl <;> cases f.nullable <;> by_cases hf : f = s.primaryKey <;>
    cases s.autoIncrement <;> simp [hf, readConstraints?]

theorem readType_tokens {t : Token} {r : List Token} (ht : t = .symbol ',' ∨ t = .symbol ')') :
    readType (.word f.kind.columnType :: (s.constraintTokens f ++ t :: r)) =
      ([f.kind.columnType], s.constraintTokens f ++ t :: r) := by
  unfold constraintTokens
  rcases ht with rfl | rfl <;> cases f.nullable <;> by_cases hf : f = s.primaryKey <;>
    simp [hf, readType]

theorem readColumnDefs_tokens {fs : List Field} {before : List ColumnDef} {n : Nat} {r : List Token}
    (hne : fs ≠ []) (hn : fs.length + 3 ≤ n) :
    readColumnDefs? n before
      (List.intercalate [.symbol ','] (fs.map s.columnTokens) ++ .symbol ')' :: r) =
        some (before.reverse ++ fs.map s.columnDef, .symbol ')' :: r) := by
  induction fs generalizing before n with
  | nil => exact absurd rfl hne
  | cons f fs ih =>
      obtain ⟨n, rfl⟩ : ∃ m, n = m + 1 := ⟨n - 1, by omega⟩
      simp only [List.length_cons] at hn
      cases fs with
      | nil =>
          simp only [List.map_cons, List.map_nil, List.intercalate_singleton, columnTokens,
            List.cons_append, readColumnDefs?, readPart?, partOfToken?, Option.map_some,
            Option.bind_eq_bind, Option.bind_some]
          rw [readType_tokens s f (.inr rfl), readConstraints_tokens s f (by omega) (.inr rfl)]
          simp only [String.intercalate_singleton, List.reverse_cons]
          rfl
      | cons g fs =>
          have hread := @ih (s.columnDef f :: before) n (by simp) (by simp at hn ⊢; omega)
          rw [List.map_cons, List.map_cons, List.intercalate_cons_cons, columnTokens]
          simp only [List.append_assoc, List.cons_append, List.nil_append, readColumnDefs?,
            readPart?, partOfToken?, Option.map_some, Option.bind_eq_bind, Option.bind_some]
          rw [readType_tokens s f (.inl rfl), readConstraints_tokens s f (by omega) (.inl rfl)]
          rw [List.reverse_cons, List.append_assoc] at hread
          rw [String.intercalate_singleton]
          exact hread

theorem readNewTable_tokens (hparts : s.table.parts.length ≤ 2) {n : Nat}
    (hn : s.fields.length + 3 ≤ n) :
    readNewTable? n true (s.table.tokens ++ (.symbol '(' ::
      (List.intercalate [.symbol ','] (s.fields.map s.columnTokens) ++ [.symbol ')']))) =
        some (s.createTable, []) := by
  have hne : s.fields ≠ [] := List.ne_nil_of_mem s.key_mem
  rw [readNewTable?, readTableName_tokens (Identifier.tableTokens hparts) (by simp)]
  simp only [Option.bind_eq_bind, Option.bind_some, expect, if_true]
  rw [s.readColumnDefs_tokens hne hn]
  simp [createTable]

theorem length_le_columns (fs : List Field) :
    fs.length ≤ (List.intercalate [.symbol ','] (fs.map s.columnTokens)).length := by
  induction fs with
  | nil => exact Nat.zero_le _
  | cons f fs ih =>
      cases fs with
      | nil => simp [columnTokens]
      | cons g fs =>
          rw [List.map_cons, List.map_cons, List.intercalate_cons_cons]
          simp only [List.length_append, List.length_cons, List.map_cons, columnTokens] at ih ⊢
          omega

theorem fixed_columnTokens : Fixed (s.columnTokens f) := by
  unfold columnTokens constraintTokens
  cases f.nullable <;> by_cases hf : f = s.primaryKey <;> cases s.autoIncrement <;>
    simp [hf, Token.isFixed]

/-- The statement that creates the table is read back from its text, if the name of the table is one
that a statement may have. -/
theorem readScript_createTable (hnul : ∀ p ∈ s.table.parts, '\x00' ∉ p.name.toList)
    (hparts : s.table.parts.length ≤ 2) :
    readScript s.createTable.render = [some s.createTable] := by
  have hfixed : Fixed s.createTokens := by
    have hcolumns : Fixed (List.intercalate [.symbol ','] (s.fields.map s.columnTokens)) :=
      fixed_intercalate (List.forall_mem_map.2 fun f _ => s.fixed_columnTokens f)
    simp [createTokens, Token.isFixed, Identifier.fixed_tokens hparts, hcolumns]
  have hread : ofTokens? s.createTokens = some s.createTable := by
    have hlength := s.length_le_columns s.fields
    have hnew := s.readNewTable_tokens hparts (n := 8 * s.createTokens.length + 8) (by
      simp only [createTokens, List.length_append, List.length_cons]
      omega)
    simp only [ofTokens?, createTokens, List.cons_append, List.nil_append, readStatement?] at hnew ⊢
    rw [hnew]
  rw [readScript_single (s.scan_createTable hnul) (by simp [createTokens])
    hfixed.semicolon_notMem, numberParams_closed hfixed.closed, hread]

end Schema

/-- The columns that a text declares in parentheses. -/
def Sql.declaredColumns? (text : String) : Option (List ColumnDef) :=
  let ts := ((scan text).dropWhile (· ≠ .symbol '(')).drop 1
  match readColumnDefs? (ts.length + 3) [] ts with
  | some (cs, [.symbol ')']) => some cs
  | _ => none

/-- The text of the statement that creates the table declares the columns of the fields, whatever the
name of the table is. -/
theorem Schema.declaredColumns?_createTable (s : Schema)
    (hnul : ∀ p ∈ s.table.parts, '\x00' ∉ p.name.toList) :
    declaredColumns? s.createTable.render = some (s.fields.map s.columnDef) := by
  have hne : s.fields ≠ [] := List.ne_nil_of_mem s.key_mem
  have hbefore : ∀ t ∈ [.keyword .create, .keyword .table, .keyword .if, .keyword .not,
      .keyword .exists] ++ s.table.tokens, decide (t ≠ Token.symbol '(') = true := by
    intro t ht
    rcases List.mem_append.1 ht with ht | ht
    · simp only [List.mem_cons, List.not_mem_nil, or_false] at ht
      rcases ht with rfl | rfl | rfl | rfl | rfl <;> rfl
    · rcases Identifier.mem_tokens ht with rfl | ⟨n, rfl⟩ <;> simp
  unfold declaredColumns?
  rw [s.scan_createTable hnul, createTokens, ← List.append_assoc,
    List.dropWhile_append_of_pos hbefore]
  simp only [List.dropWhile_cons, ne_eq, not_true_eq_false, decide_false, Bool.false_eq_true,
    if_false, List.drop_one, List.tail_cons]
  have hlength := s.length_le_columns s.fields
  rw [s.readColumnDefs_tokens hne (by simp only [List.length_append]; omega)]
  rfl

end StagedStore
