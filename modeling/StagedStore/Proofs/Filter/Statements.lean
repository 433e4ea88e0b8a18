import StagedStore.Proofs.Filter.Matched
import StagedStore.Proofs.Filter.Read
import StagedStore.Proofs.Memory.Session
import StagedStore.Proofs.Sql.Framed

/-!
# Statements of a filter as they are run

A statement around the query of a filter is run as it stands if its tree tells all there is to it,
and else as what its text is read as. Either way it has the filter's condition as the store takes
it, and everything around the condition is as it was built.
-/

namespace StagedStore

open Memory Sql MemoryDatabase

namespace Filter

variable {s : Schema} {f : Filter}

/-- A query of a filter, given its columns and its condition. -/
def query (s : Schema) (f : Filter) (cs : List ResultColumn) (x? : Option Expr) : Select :=
  .mk cs (some (.table s.table.allQuoted none)) x? (f.terms s) f.sqlLimit?

/-- Columns that a query of a filter may take, with their tokens. They bind the first `m`
parameters, and their aliases are fields. -/
structure Takes (s : Schema) (m : Nat) (css : List (List Token)) (cs : List ResultColumn) :
    Prop where
  ne_nil : css ≠ []
  reads : List.Forall₂ ColumnTokens css cs
  lexes : List.Forall₂ Lexes (cs.map ResultColumn.render) (css.map (List.map Token.limited))
  closed : Closed (List.intercalate [.symbol ','] css)
  last : largestParam 0 (List.intercalate [.symbol ','] css) = m
  plain : ∀ e ∈ cs.flatMap ResultColumn.leaves, e.isPlainLeaf = true
  uncounted : cs.any isCount = false
  named : ∀ e p, ResultColumn.expr e (some p) ∈ cs → ∃ g, s.requireField p.name = .ok g

/-- A column of a query of a filter, with its tokens. -/
structure Column (s : Schema) (ts : List Token) (c : ResultColumn) : Prop where
  reads : ColumnTokens ts c
  lexes : Lexes c.render (ts.map Token.limited)
  closed : Closed ts
  plain : ∀ e ∈ c.leaves, e.isPlainLeaf = true
  uncounted : isCount c = false
  named : ∀ e p, c = ResultColumn.expr e (some p) → ∃ g, s.requireField p.name = .ok g

theorem Takes.of_columns {m : Nat} {css : List (List Token)} {cs : List ResultColumn}
    (h : List.Forall₂ (Column s) css cs) (hne : css ≠ []) (hlast : css.foldl largestParam 0 = m) :
    Takes s m css cs := by
  have hmem : ∀ c ∈ cs, ∃ ts, Column s ts c := fun c hc =>
    (List.forall₂_iff_get.1 h).elim fun hlength hget => by
      obtain ⟨i, hi, rfl⟩ := List.getElem_of_mem hc
      exact ⟨_, hget i (hlength ▸ hi) hi⟩
  refine ⟨hne, h.imp fun _ _ hc => hc.reads, ?_, closed_intercalate ?_, ?_, ?_, ?_, ?_⟩
  · rw [List.forall₂_map_left_iff, List.forall₂_map_right_iff]
    exact h.flip.imp fun _ _ hc => hc.lexes
  · intro ts hts
    obtain ⟨i, hi, rfl⟩ := List.getElem_of_mem hts
    exact ((List.forall₂_iff_get.1 h).2 i hi (h.length_eq ▸ hi)).closed
  · rw [largestParam_intercalate, hlast]
  · intro e he
    obtain ⟨c, hc, he⟩ := List.mem_flatMap.1 he
    exact (hmem c hc).elim fun ts hts => hts.plain e he
  · rw [List.any_eq_false]
    intro c hc
    obtain ⟨ts, hts⟩ := hmem c hc
    simp [hts.uncounted]
  · intro e p hc
    exact (hmem _ hc).elim fun ts hts => hts.named e p rfl

theorem column_all : Column s [.symbol '*'] .all where
  reads := .all
  lexes := separates_star.lexes
  closed := by simp
  plain := by simp [ResultColumn.leaves]
  uncounted := rfl
  named := nofun

theorem column_name {n : String} (hn : '\x00' ∉ n.toList) :
    Column s [.name n] (.expr (.ofName n) none) where
  reads := .plain (.one (.one ((readAgain 20).negation rfl)))
  lexes := by
    have htext : (ResultColumn.expr (.ofName n) none).render = (Expr.ofName n).render :=
      String.append_empty
    rw [htext]
    exact Expr.lexes_ofName hn
  closed := by simp
  plain := by simp [ResultColumn.leaves, Expr.ofName, Expr.leaves, Expr.isPlainLeaf]
  uncounted := rfl
  named := nofun

/-- An expression under the name of a field. -/
theorem column_labelled {n : String} {g : Field} (ts : List Token) {x : Expr}
    (hn : s.requireField n = .ok g) (hread : Disjoined ts x)
    (hlex : Lexes x.render (ts.map Token.limited)) (hclosed : Closed ts)
    (hplain : ∀ e ∈ x.leaves, e.isPlainLeaf = true) (hcount : x ≠ .countAll) :
    Column s (ts ++ [Token.keyword .as, .name n]) (.expr x (some (.quoted n))) where
  reads := .named hread rfl
  lexes := by
    have has : Separates " AS " [.keyword .as] := separates_operator "AS" (by decide) rfl
    rw [List.map_append]
    exact hlex.append (has.append_lexes (lexes_quoteName (Schema.nul_notMem_field hn)))
      (by simp [renderAlias, startsApart])
  closed := by simpa using hclosed
  plain := hplain
  uncounted := by
    cases x
    case countAll => exact absurd rfl hcount
    all_goals rfl
  named e p h := by
    cases h
    exact ⟨g, hn⟩

theorem exists_takes (fields : List String)
    (h : ∀ n ∈ fields, ∃ g, s.requireField n = .ok g) :
    ∃ css, Takes s 0 css (columnsOf fields) := by
  unfold columnsOf
  split
  · exact ⟨[[.symbol '*']], .of_columns (.cons column_all .nil) (by simp) rfl⟩
  · rename_i hne
    refine ⟨fields.map fun n => [.name n], .of_columns ?_ (by simpa using hne) ?_⟩
    · rw [List.forall₂_map_left_iff, List.forall₂_map_right_iff, List.forall₂_same]
      exact fun n hn => (h n hn).elim fun g hg => column_name (Schema.nul_notMem_field hg)
    · rw [List.foldl_map]
      exact List.foldl_fixed' (fun _ => rfl) fields

theorem exists_takes_key (s : Schema) : ∃ css, Takes s 0 css (columnsOf [s.primaryKey.name]) :=
  exists_takes _ (by simpa using ⟨_, Schema.requireField_eq s.getElem?_keyIndex⟩)

theorem leaves_query (cs : List ResultColumn) (x? : Option Expr) :
    ∃ es : List Expr, (∀ e ∈ es, e.isPlainLeaf = true) ∧
      (f.query s cs x?).leaves = cs.flatMap ResultColumn.leaves ++ leaves? x? ++ es := by
  refine ⟨(f.terms s).flatMap fun o => o.term.leaves, fun e he => ?_, ?_⟩
  · simp only [terms, List.flatMap_map, List.mem_flatMap] at he
    obtain ⟨c, -, he⟩ := he
    obtain rfl : e = .qualified (.quoted s.table.name) c.1 := by
      simpa [Expr.qualified, Expr.leaves] using he
    rfl
  · simp [query, Select.leaves, leavesFrom, Source.leaves]

theorem endsEarly_of_plain {e : Expr} (h : e.isPlainLeaf = true) : e.endsEarly = false := by
  unfold Expr.isPlainLeaf at h
  unfold Expr.endsEarly
  split <;> simp_all

/-- A filter with declared names and complete texts of the caller's own, for a table of a schema
that was built. -/
structure Suits (f : Filter) (s : Schema) (t : Table) : Prop where
  built : ∃ b : SchemaBuilder, b.build = .ok s
  state : s.TableState t
  declared : ∀ n ∈ f.columns, ∃ g, s.requireField n = .ok g
  complete : Condition.AllComplete f.conditions

section Run

variable {K : Select → Statement} {before behind : List Token} {css : List (List Token)}
  {cs : List ResultColumn} {p : Params} {st : Statement} {rest : List (Option Statement)}

theorem isPlain_query (hK : Frame K before behind) (hcs : Takes s p.size css cs)
    (x? : Option Expr) :
    (K (f.query s cs x?)).isPlain = (leaves? x?).all Expr.isPlainLeaf := by
  obtain ⟨es, hes, hleaves⟩ := leaves_query (s := s) (f := f) cs x?
  rw [hK.isPlain, hleaves, List.all_append, List.all_append, List.all_eq_true.2 hcs.plain,
    List.all_eq_true.2 hes, Bool.true_and, Bool.and_true]

theorem endsEarly_query (hK : Frame K before behind) (hcs : Takes s p.size css cs)
    (x? : Option Expr) :
    (K (f.query s cs x?)).endsEarly = (leaves? x?).any Expr.endsEarly := by
  obtain ⟨es, hes, hleaves⟩ := leaves_query (s := s) (f := f) cs x?
  have hnone {l : List Expr} (hl : ∀ e ∈ l, e.isPlainLeaf = true) :
      l.any Expr.endsEarly = false :=
    List.any_eq_false.2 fun e he => by simp [endsEarly_of_plain (hl e he)]
  rw [hK.endsEarly, hleaves, List.any_append, List.any_append, hnone hcs.plain, hnone hes,
    Bool.false_or, Bool.or_false]

/-- The condition of a filter in which all text of the caller's own is complete. -/
theorem build_whole (hnames : ∀ n ∈ f.columns, '\x00' ∉ n.toList)
    (hcomplete : Condition.AllComplete f.conditions) (p : Params) :
    (∀ y ∈ (f.build p).1, y.IsWhole) ∧
      ∀ y ∈ (f.build p).1, ∀ e ∈ y.leaves, e.endsEarly = false := by
  constructor
  · cases htests : (Condition.all f.conditions).isEmpty with
    | true =>
        have hbuild : f.build p = (none, p) := Condition.build_of_isEmpty _ htests p
        simp [hbuild]
    | false =>
        obtain ⟨-, hwhole⟩ := Condition.build_isWhole (.all f.conditions)
          (fun n hn => hnames n (List.mem_append_left _ hn)) hcomplete htests p
        obtain ⟨y, hy, hw⟩ := hwhole _ (.refl _)
        have hbuild : (f.build p).1 = some y := hy
        simpa [hbuild] using hw
  · have htest (e : Expr) (he : Condition.isTestLeaf e = true) : e.endsEarly = false :=
      endsEarly_of_plain (isTestLeaf_plain he)
    exact (Condition.binds_leaves (P := fun e => e.endsEarly = false) htest (.all f.conditions)
      (fun _ _ => rfl) p).2 _ (.refl _)

theorem scan_query (hK : Frame K before behind) (hparts : s.table.parts.length ≤ 2)
    (hnul : ∀ i ∈ s.table.parts, '\x00' ∉ i.name.toList)
    (hnames : ∀ n ∈ f.columns, '\x00' ∉ n.toList) (hcs : Takes s p.size css cs) {y : Expr}
    {ts : List Token} (hlex : Lexes y.render (ts.map Token.limited)) :
    Token.scan (K (f.query s cs (some y))).render =
      (before ++ (f.tokens s css (some ts) ++ behind)).map Token.limited := by
  have hquery : Lexes (f.query s cs (some y)).render
      ((f.tokens s css (some ts)).map Token.limited) := by
    rw [tokens, limited_selectTokens _ _ (Identifier.fixed_tokens hparts) fixed_termTokens]
    exact f.lexes_tokens hparts hnul
      (fun c hc => hnames _ (List.mem_append_right _ (List.mem_map_of_mem hc))) hcs.lexes
      (.some hlex)
  rw [(hK.lexes hquery).scan_eq, List.map_append, List.map_append, hK.before.limited,
    hK.behind.limited]

/-- Read from its text, the statement has the condition that is read where it stands. -/
theorem ofTokens_query (hK : Frame K before behind) (hparts : s.table.parts.length ≤ 2)
    (hcs : Takes s p.size css cs) {ts : List Token}
    (hread : ∀ m, ∃ x, Disjoined (numberParams m ts) x ∧ x.overRow = true)
    (h : ofTokens? (numberParams 0 ((before ++ (f.tokens s css (some ts) ++ behind)).map
      Token.limited)) = some st) :
    ts.map Token.limited = ts ∧ ∃ x, Disjoined (numberParams p.size ts) x ∧ x.overRow = true ∧
      st = K (f.query s cs (some x)) := by
  have hlimited : (before ++ (f.tokens s css (some ts) ++ behind)).map Token.limited =
      before ++ ((f.tokens s css (some ts)).map Token.limited ++ behind) := by
    rw [List.map_append, List.map_append, hK.before.limited, hK.behind.limited]
  have hnumber (us : List Token) : numberParams 0 (before ++ (us ++ behind)) =
      before ++ (numberParams 0 us ++ behind) := by
    rw [hK.before.numberParams, numberParams_append, numberParams_closed hK.behind.closed]
  rw [hlimited, hnumber] at h
  have hlegal : Token.illegal ∉ (f.tokens s css (some ts)).map Token.limited := fun hin =>
    hK.legal rfl h (illegal_mem_numberParams hin)
  have hsame := map_limited_of_legal hlegal
  rw [hsame] at h hlegal
  have hts : ts.map Token.limited = ts := by
    refine map_limited_of_legal fun hin => ?_
    rw [← hsame, tokens, limited_selectTokens _ _ (Identifier.fixed_tokens hparts)
      fixed_termTokens] at hlegal
    refine hlegal (List.mem_cons_of_mem _ (List.mem_append_right _ (List.mem_cons_of_mem _
      (List.mem_append_right _ (List.mem_append_left _ ?_)))))
    simp [whereTokens, hin]
  obtain ⟨x, hx, hrow⟩ := hread p.size
  refine ⟨hts, x, hx, hrow, ?_⟩
  have htokens : numberParams 0 (f.tokens s css (some ts)) =
      f.tokens s css (some (numberParams p.size ts)) := by
    rw [tokens, numberParams_selectTokens _ _ (Identifier.fixed_tokens hparts) fixed_termTokens
      hcs.closed, hcs.last]
    rfl
  have hquery : ofTokens? (before ++ (f.tokens s css (some (numberParams p.size ts)) ++ behind)) =
      some (K (f.query s cs (some x))) :=
    hK.reads rfl fun d r hr hd => f.read_tokens hparts hcs.reads hcs.ne_nil (.some hx) hr hd
  rw [htokens, hquery] at h
  exact (Option.some.inj h).symm

/-- What a statement around the query of a filter is run as. -/
theorem readings_query (hK : Frame K before behind) (hparts : s.table.parts.length ≤ 2)
    (hnul : ∀ i ∈ s.table.parts, '\x00' ∉ i.name.toList)
    (hnames : ∀ n ∈ f.columns, '\x00' ∉ n.toList)
    (hcomplete : Condition.AllComplete f.conditions) (hcs : Takes s p.size css cs)
    (h : readings (K (f.query s cs (f.build p).1)) = some st :: rest) :
    ∃ x?, f.condition? p = some x? ∧ (∀ x ∈ x?, x.overRow = true) ∧
      st = K (f.query s cs x?) := by
  obtain ⟨hwhole, hends⟩ := build_whole hnames hcomplete p
  by_cases hplain : (leaves? (f.build p).1).all Expr.isPlainLeaf = true
  · have hleaves : ∀ y ∈ (f.build p).1, y.leaves.all Expr.isPlainLeaf = true := by
      intro y hy
      rw [Option.mem_def] at hy
      simpa [leaves?, hy] using hplain
    rw [readings_of_isPlain ((isPlain_query hK hcs _).trans hplain)] at h
    exact ⟨_, condition?_of_plain hleaves, fun y hy => (hwhole y hy).row (hleaves y hy),
      (Option.some.inj (List.cons.inj h).1).symm⟩
  · cases hbuild : (f.build p).1 with
    | none => simp [leaves?, hbuild] at hplain
    | some y =>
        rw [hbuild] at h hplain hwhole hends
        have hearly : (K (f.query s cs (some y))).endsEarly = false := by
          rw [endsEarly_query hK hcs, List.any_eq_false]
          exact fun e he => by simp [hends y rfl e he]
        unfold readings at h
        rw [if_neg (by rwa [isPlain_query hK hcs]), if_neg (by simp [hearly])] at h
        obtain ⟨ts, hlex, hsemicolon, hread⟩ := (hwhole y rfl).text
        have hscan := scan_query hK hparts hnul hnames hcs hlex
        have hsingle : .symbol ';' ∉ before ++ (f.tokens s css (some ts) ++ behind) := by
          have hinside := semicolon_notMem_selectTokens (some ts) f.sqlLimit?
            (Identifier.fixed_tokens hparts) (fixed_termTokens (s := s) (f := f))
            hcs.closed.semicolon_notMem (by simpa using hsemicolon)
          simp [hK.before.semicolon_notMem, hK.behind.semicolon_notMem, tokens, hinside]
        rw [readScript_single hscan (by simp [tokens, selectTokens])
          (semicolon_notMem_limited hsingle)] at h
        obtain ⟨hts, x, hx, hrow, rfl⟩ := ofTokens_query hK hparts hcs hread (List.cons.inj h).1
        refine ⟨some x, ?_, by simpa using hrow, rfl⟩
        have hplain : y.leaves.all Expr.isPlainLeaf ≠ true := hplain
        unfold condition?
        rw [hbuild]
        dsimp only
        rw [if_neg hplain, hlex.scan_eq, hts, hx.reads_whole]

/-- Whatever a statement around the query of a filter is run as, the query in it gives its columns
for the rows that the filter matches. -/
theorem readings_matched (hK : Frame K before behind) {t : Table} (hf : f.Suits s t)
    (hcs : Takes s p.size css cs)
    (h : readings (K (f.query s cs (f.build p).1)) = some st :: rest) :
    ∃ q, st = K q ∧ ∀ {ctx : Context} {a : Area} {os : List Output} {rows : List (Array Storage)},
      ctx.catalog.find s.table.allQuoted = .ok (a, t) → ctx.params = (f.build p).2 →
      evalSelect ctx q = .ok (os, rows) →
      ∃ results, cs.mapM (outputs (ctx.resolver (t.slots t.name))) = .ok results ∧
        os = results.flatten ∧ rows = project os ((f.matched s t p).map Table.rowOf) := by
  obtain ⟨b, hb⟩ := hf.built
  obtain ⟨x?, hcondition, hrow, rfl⟩ := readings_query hK
    (Schema.length_parts_of_tableState hf.state) (SchemaBuilder.nul_notMem_table hb)
    (fun n hn => (hf.declared n hn).elim fun g hg => Schema.nul_notMem_field hg) hf.complete hcs h
  refine ⟨_, rfl, fun hfind hparams hq => ?_⟩
  exact evalSelect_matched (Schema.fits_of_tableState hf.state) hfind
    (fun c hc => hf.declared _ (List.mem_append_right _ (List.mem_map_of_mem hc))) hparams
    hcondition hrow hcs.uncounted hcs.named hq

end Run

end Filter

end StagedStore
