import StagedStore.Proofs.Filter.Built
import StagedStore.Proofs.Identifier
import StagedStore.Proofs.Sql.Numbered
import StagedStore.Proofs.Sql.Selects

/-!
# The texts of queries of filters

Whatever the columns and the condition of a filter's query, the tokens around them are the same: the
table, the ordering and the limit. None of these is a parameter.
-/

namespace StagedStore

open Sql

namespace Identifier

/-- Tokens of an identifier whose parts all stand in quotes. -/
def tokens (i : Identifier) : List Token :=
  List.intercalate [.symbol '.'] (i.parts.map fun p => [.name p.name])

theorem eq_of_length {i : Identifier} (h : i.parts.length ≤ 2) :
    (∃ p, i = ofPart p) ∨ ∃ q p, i = cons q (ofPart p) := by
  obtain ⟨parts, hne⟩ := i
  cases parts with
  | nil => exact absurd rfl hne
  | cons q parts =>
      cases parts with
      | nil => exact .inl ⟨q, rfl⟩
      | cons p parts =>
          obtain rfl : parts = [] := by
            simp only [List.length_cons] at h
            exact List.eq_nil_of_length_eq_zero (by omega)
          exact .inr ⟨q, p, rfl⟩

variable {i : Identifier} (h : i.parts.length ≤ 2)

include h

theorem fixed_tokens : Fixed i.tokens := by
  obtain ⟨p, rfl⟩ | ⟨q, p, rfl⟩ := eq_of_length h
  · simp [tokens, ofPart, Token.isFixed]
  · simp [tokens, ofPart, cons, Token.isFixed]

theorem tableTokens : TableTokens i.tokens i.allQuoted := by
  obtain ⟨p, rfl⟩ | ⟨q, p, rfl⟩ := eq_of_length h
  · exact .name p.name
  · exact .within q.name p.name

theorem lexes_allQuoted (hnul : ∀ p ∈ i.parts, '\x00' ∉ p.name.toList) :
    Lexes i.allQuoted.render i.tokens := by
  obtain ⟨p, rfl⟩ | ⟨q, p, rfl⟩ := eq_of_length h
  · exact lexes_quoteName (hnul p (by simp [ofPart]))
  · exact lexes_qualified (hnul q (by simp [cons])) (hnul p (by simp [cons, ofPart]))

end Identifier

/-! ## The query of a filter -/

namespace Filter

variable {s : Schema} {f : Filter}

/-- Tokens of a term of an ordering. -/
def termTokens (s : Schema) (c : String × Direction) : List Token :=
  [.name s.table.name, .symbol '.', .name c.1, c.2.token]

/-- The terms of the ordering, as the query has them. -/
def terms (s : Schema) (f : Filter) : List OrderTerm :=
  f.order.map fun c => ⟨.qualified (.quoted s.table.name) c.1, some c.2⟩

/-- Tokens of a query of a filter, given those of its columns and of its condition. -/
def tokens (s : Schema) (f : Filter) (css : List (List Token)) (ts? : Option (List Token)) :
    List Token :=
  selectTokens css s.table.tokens ts? (f.order.map (termTokens s)) f.sqlLimit?

theorem fixed_termTokens : ∀ ts ∈ f.order.map (termTokens s), Fixed ts := by
  rintro _ hts
  obtain ⟨⟨c, d⟩, -, rfl⟩ := List.mem_map.1 hts
  cases d <;> simp [termTokens, Token.isFixed, Direction.token]

theorem orderTokens_terms : List.Forall₂ OrderTokens (f.order.map (termTokens s)) (f.terms s) := by
  rw [terms, List.forall₂_map_left_iff, List.forall₂_map_right_iff, List.forall₂_same]
  rintro ⟨c, d⟩ -
  have hcolumn : Disjoined [.name s.table.name, .symbol '.', .name c]
      (.qualified (.quoted s.table.name) c) := .one (.one ((readAgain 20).negation rfl))
  exact .directed hcolumn d

theorem read_tokens {css : List (List Token)} {cs : List ResultColumn} {ts? : Option (List Token)}
    {x? : Option Expr} {r : List Token} {d : Nat} (hparts : s.table.parts.length ≤ 2)
    (hcs : List.Forall₂ ColumnTokens css cs) (hne : css ≠ []) (hx : Option.Rel Disjoined ts? x?)
    (hr : EndsQuery r) (hfuel : 8 * (f.tokens s css ts?).length ≤ d) :
    readSelect? d (f.tokens s css ts? ++ r) =
      some (.mk cs (some (.table s.table.allQuoted none)) x? (f.terms s) f.sqlLimit?, r) :=
  readSelect_tokens hcs hne (Identifier.tableTokens hparts) hx orderTokens_terms hr hfuel

theorem lexes_tokens {cs : List ResultColumn} {css : List (List Token)} {ts? : Option (List Token)}
    {x? : Option Expr} (hparts : s.table.parts.length ≤ 2)
    (hnul : ∀ p ∈ s.table.parts, '\x00' ∉ p.name.toList)
    (horder : ∀ c ∈ f.order, '\x00' ∉ c.1.toList)
    (hcs : List.Forall₂ Lexes (cs.map ResultColumn.render) css)
    (hx : Option.Rel (fun x ts => Lexes (Expr.render x) ts) x? ts?) :
    Lexes (Select.mk cs (some (.table s.table.allQuoted none)) x? (f.terms s) f.sqlLimit?).render
      (f.tokens s css ts?) := by
  refine lexes_select _ hcs (Identifier.lexes_allQuoted hparts hnul) hx ?_
  rw [terms, List.map_map, List.forall₂_map_left_iff, List.forall₂_map_right_iff, List.forall₂_same]
  rintro ⟨c, d⟩ hc
  have hname : '\x00' ∉ s.table.name.toList := hnul _ (List.getLast_mem _)
  have hdirection : Lexes d.text [d.token] := by
    cases d
    · exact lexes_keyword (by decide)
    · exact lexes_keyword (by decide)
  exact (lexes_qualified hname (horder _ hc)).append (separates_blank.append_lexes hdirection)
    (by simp [startsApart])

end Filter

end StagedStore
