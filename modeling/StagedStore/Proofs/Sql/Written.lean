import StagedStore.Proofs.Action
import StagedStore.Proofs.Decimal.ReadBack
import StagedStore.Proofs.Sql.Front
import StagedStore.Proofs.Sql.Leaves
import StagedStore.Proofs.Sql.Operands

/-!
# Expressions as texts

The text of an expression is cut into tokens that are read as the expression itself. So are
literals, unless a null character ends them, and columns, and what is put together from such by
operators, lists and choices.
-/

namespace StagedStore

/-- A cell that is the same behind its literal: no null character ends the literal of a text, and a
real is finite. -/
def Storage.IsWhole : Storage → Prop
  | .text s => '\x00' ∉ s.toList
  | .real x => x.isFinite = true
  | _ => True

namespace Sql

open Token

/-- No expression has an empty text. -/
theorem Disjoined.text_ne_empty {s : String} {ts : List Token} {x : Expr} (h : Disjoined ts x)
    (hlex : Lexes s (ts.map Token.limited)) : s ≠ "" := by
  intro hempty
  have hscan := hlex.scan_eq
  rw [hempty] at hscan
  exact h.ne_nil (List.map_eq_nil_iff.1 hscan.symm)

/-- The text of an expression, the numbers of whose parameters are some, is cut into tokens that are
the expression in some form. -/
def Expr.WrittenBy (numbers : Nat → Prop) (form : List Token → Expr → Prop) (x : Expr) : Prop :=
  ∃ ts, Lexes x.render (ts.map Token.limited) ∧ ClosedBy numbers ts ∧ form ts x

/-- The text of an expression is cut into tokens that are the expression in some form. -/
abbrev Expr.Written (form : List Token → Expr → Prop) (x : Expr) : Prop :=
  x.WrittenBy (fun _ => True) form

namespace Expr

variable {x y : Expr} {form : List Token → Expr → Prop} {numbers : Nat → Prop}

/-! ## Operators -/

theorem WrittenBy.imp {form' : List Token → Expr → Prop} (h : x.WrittenBy numbers form)
    (himp : ∀ ts, form ts x → form' ts x) : x.WrittenBy numbers form' := by
  obtain ⟨ts, hlex, hopen, hform⟩ := h
  exact ⟨ts, hlex, hopen, himp ts hform⟩

theorem WrittenBy.of_sole (h : x.WrittenBy numbers Sole) : x.WrittenBy numbers Disjoined :=
  h.imp fun _ h => .one (.one h)

theorem WrittenBy.of_operand (h : x.WrittenBy numbers Operand) : x.WrittenBy numbers Disjoined :=
  h.imp fun _ h => h.disjoined

theorem WrittenBy.paren (h : x.WrittenBy numbers Disjoined) : (paren x).WrittenBy numbers Sole := by
  obtain ⟨ts, hlex, hopen, hform⟩ := h
  refine ⟨.symbol '(' :: (ts ++ [Token.symbol ')']), ?_, by simp [hopen], hform.paren⟩
  rw [List.map_cons, List.map_append]
  exact hlex.parens

theorem WrittenBy.not (h : x.WrittenBy numbers Sole) : (not x).WrittenBy numbers Sole := by
  obtain ⟨ts, hlex, hopen, hform⟩ := h
  exact ⟨.keyword .not :: ts, hlex.behindNot, by simp [hopen], again_not hform⟩

theorem WrittenBy.and (h : x.WrittenBy numbers Conjoined) (h' : y.WrittenBy numbers Sole) :
    (and x y).WrittenBy numbers Conjoined := by
  obtain ⟨ts, hlex, hopen, hform⟩ := h
  obtain ⟨us, hlex', hopen', hform'⟩ := h'
  refine ⟨ts ++ .keyword .and :: us, ?_, by simp [hopen, hopen'], hform.and hform'⟩
  rw [List.map_append]
  exact hlex.and hlex'

theorem WrittenBy.or (h : x.WrittenBy numbers Disjoined) (h' : y.WrittenBy numbers Sole) :
    (or x y).WrittenBy numbers Disjoined := by
  obtain ⟨ts, hlex, hopen, hform⟩ := h
  obtain ⟨us, hlex', hopen', hform'⟩ := h'
  refine ⟨ts ++ .keyword .or :: us, ?_, by simp [hopen, hopen'], hform.or (.one hform')⟩
  rw [List.map_append]
  exact hlex.or hlex'

theorem separates_notWord (negated : Bool) : Separates (notWord negated) (notTokens negated) := by
  cases negated with
  | false => exact fun _ => rfl
  | true => exact separates_keyword "NOT" (by decide) rfl

theorem limited_notTokens (negated : Bool) :
    (notTokens negated).map Token.limited = notTokens negated := by
  cases negated <;> rfl

/-- A text in front of an operator that may be negated. -/
theorem lexes_negatable {s word rest : String} {ts us vs : List Token} (hs : Lexes s vs)
    (negated : Bool) (hword : Separates word ts) (hrest : Lexes rest us) :
    Lexes (s ++ " " ++ notWord negated ++ word ++ rest) (vs ++ notTokens negated ++ ts ++ us) := by
  have htext := hs.append ((separates_blank.append
    ((separates_notWord negated).append hword)).append_lexes hrest) (by simp [startsApart])
  simpa [String.append_assoc] using htext

/-! ## Literals -/

theorem written_operand (n : Nat) (ts : List Token) (hread : readOperand? n ts = some (x, []))
    (hlex : Lexes x.render (ts.map Token.limited)) (hopen : ClosedBy numbers ts) :
    x.WrittenBy numbers Operand :=
  ⟨ts, hlex, hopen, (readAgain n).operand hread⟩

theorem lexes_of_front? {s : String} {t : Token} (hnul : '\x00' ∉ s.toList)
    (h : ∀ r, startsApart r = true → front? (s.toList ++ r) = some (t, r)) : Lexes s [t] := by
  intro r hr
  rw [lexed_append r hnul]
  exact tokens_of_front? (h _ (startsApart_takeWhile _ hr))

theorem endsNumber_of_startsApart {r : List Char} (h : startsApart r = true) : endsNumber r := by
  intro c hc
  rw [Option.mem_def] at hc
  simp only [startsApart, hc, Option.all_some, Bool.or_eq_true, decide_eq_true_eq] at h
  rcases h with (rfl | rfl) | rfl <;> decide

theorem front?_of_reads {c : Char} {cs r : List Char} {d : Decimal} (hc : c.isDigit = true)
    (h : Decimal.Reads (c :: cs) d) (hr : startsApart r = true) :
    front? (c :: (cs ++ r)) = some (.number d false, r) := by
  have hread : readNumber (c :: (cs ++ r)) = (.number d false, r) := by
    rw [readNumber, ← List.cons_append, h r (endsNumber_of_startsApart hr)]
    cases r with
    | nil => rfl
    | cons e r => simp [(continuesWord_of_startsApart hr e rfl).1]
  refine front?_of_next ?_
  rw [next_of_isDigit hc, hread]
  rfl

theorem nul_notMem_toText {x : Binary64} (hx : x.isFinite = true) : '\x00' ∉ x.toText.toList := by
  intro hin
  rcases (Binary64.isRealText_toText hx).chars _ hin with h | h | h | h <;> revert h <;> decide

theorem written_real {x : Binary64} (hx : x.isFinite = true) :
    (literal (.real x)).WrittenBy numbers Operand := by
  obtain ⟨negative, cs, ⟨⟨c, cs, rfl, hc⟩, d, hread, hd⟩, hlist⟩ := Binary64.exists_toText hx
  have hrender : (literal (.real x)).render = x.toText := by
    rw [render, Storage.literal, if_pos hx]
  have hnul := nul_notMem_toText hx
  cases negative with
  | false =>
      rw [if_neg Bool.false_ne_true] at hlist
      refine written_operand 1 [.number d false] ?_ ?_ (by simp)
      · rw [readOperand?, numberLiteral, if_neg (by simp), hd]
      · rw [hrender]
        refine lexes_of_front? hnul fun r hr => ?_
        rw [hlist]
        exact front?_of_reads hc hread hr
  | true =>
      rw [if_pos rfl] at hlist
      refine written_operand 1 [.symbol '-', .number d false] ?_ ?_ (by simp)
      · rw [readOperand?, numberLiteral, if_neg (by simp), hd]
      · intro r hr
        rw [hrender, lexed_append r hnul, hlist]
        rw [List.cons_append, List.cons_append, tokens_of_front? (front?_minus hc _),
          tokens_of_front? (front?_of_reads hc hread (startsApart_takeWhile _ hr))]
        rfl

theorem written_integer (n : Int64) : (literal (.integer n)).WrittenBy numbers Operand := by
  have hlex := lexes_toString n.toInt
  cases hn : n.toInt with
  | ofNat k =>
      rw [hn] at hlex
      refine written_operand 1 [.number ⟨false, k, 0⟩ true] ?_ ?_ (by simp)
      · have hvalue : numberLiteral false ⟨false, k, 0⟩ true = .integer n :=
          numberLiteral_of_toInt hn.symm
        rw [readOperand?, hvalue]
      · rw [render, Storage.literal, hn]
        exact hlex
  | negSucc k =>
      rw [hn] at hlex
      refine written_operand 1 [.symbol '-', .number ⟨false, k + 1, 0⟩ true] ?_ ?_ (by simp)
      · have hvalue : numberLiteral true ⟨false, k + 1, 0⟩ true = .integer n :=
          numberLiteral_of_toInt hn.symm
        rw [readOperand?, hvalue]
      · rw [render, Storage.literal, hn]
        exact hlex

theorem lexes_text {s : String} (hs : '\x00' ∉ s.toList) :
    Lexes (literal (.text s)).render [.text s] := by
  refine lexes_of_front? ?_ fun r hr => ?_
  · rw [render, Storage.toList_literal_text]
    simp [Quoted.mem_double, hs]
  · refine front?_quoteText_iff.2 fun hhead => ?_
    simp [startsApart, hhead] at hr

theorem written_text {s : String} (hs : '\x00' ∉ s.toList) :
    (literal (.text s)).WrittenBy numbers Operand :=
  written_operand 1 [.text s] rfl (lexes_text hs) (by simp)

theorem written_blob (bytes : List UInt8) : (literal (.blob bytes)).WrittenBy numbers Operand := by
  refine written_operand 1 [.blob bytes] rfl (lexes_of_front? ?_ fun r _ => front?_blob bytes)
    (by simp)
  have hdigits : '\x00' ∉ Hex.encode true bytes := Hex.notMem_encode (by decide) bytes
  rw [render, Storage.toList_literal_blob]
  simp [hdigits]

/-- A literal is read as its cell. -/
theorem written_literal {v : Storage} (hv : v.IsWhole) : (literal v).WrittenBy numbers Operand := by
  cases v with
  | null => exact written_operand 1 [.keyword .null] rfl (lexes_keyword (by decide)) (by simp)
  | integer n => exact written_integer n
  | real x => exact written_real hv
  | text s => exact written_text hv
  | blob bytes => exact written_blob bytes

/-! ## Columns -/

/-- A column of an alias. -/
theorem written_qualified {q n : String} (hq : isWord q.toList = true)
    (hword : ofWord q.toList = .word q) (hn : '\x00' ∉ n.toList) :
    (qualified (.bare q) n).WrittenBy numbers Operand := by
  refine written_operand 1 [.word q, .symbol '.', .name n] rfl (fun r hr => ?_) (by simp)
  have hrender : (qualified (.bare q) n).render = q ++ "." ++ quoteName n := rfl
  rw [hrender, String.toList_append, String.toList_append, List.append_assoc, List.append_assoc,
    lexed_word hq rfl, show ".".toList = ['.'] from rfl, List.singleton_append,
    lexed_dot (head?_quoteName n r), lexes_quoteName hn r hr, hword]
  rfl

/-! ## Sums, tests and choices -/

theorem WrittenBy.add (h : x.WrittenBy numbers Operand) (h' : y.WrittenBy numbers Operand) :
    (add x y).WrittenBy numbers Sole := by
  obtain ⟨ts, hlex, hopen, hform⟩ := h
  obtain ⟨us, hlex', hopen', hform'⟩ := h'
  refine ⟨ts ++ .symbol '+' :: us, ?_, by simp [hopen, hopen'], hform.add hform'⟩
  have hplus : Separates " + " [.symbol '+'] := by
    have hmark : Separates "+" [.symbol '+'] :=
      separates_mark '+' rfl (by decide) fun _ => rfl
    rw [show " + " = " " ++ ("+" ++ " ") from rfl]
    exact separates_blank.append (hmark.append separates_blank)
  have htext := hlex.append (hplus.append_lexes hlex') (by simp [startsApart])
  rw [← String.append_assoc] at htext
  rw [List.map_append]
  exact htext

theorem WrittenBy.equal (h : x.WrittenBy numbers Operand) (h' : y.WrittenBy numbers Operand)
    (hx : x.isLiteral = false) : (compare .eq x y).WrittenBy numbers Sole := by
  obtain ⟨ts, hlex, hopen, hform⟩ := h
  obtain ⟨us, hlex', hopen', hform'⟩ := h'
  refine ⟨ts ++ .equal :: us, ?_, by simp [hopen, hopen'], hform.equal hform'⟩
  have htext := hlex.append ((separates_comparison .eq).append_lexes hlex') (by simp [startsApart])
  simp only [← String.append_assoc] at htext
  rw [List.map_append, render, hx, Bool.false_and, if_neg Bool.false_ne_true]
  exact htext

/-- Expressions with commas between them. -/
theorem exists_listed {es : List Expr} (hes : ∀ e ∈ es, e.WrittenBy numbers Disjoined) :
    ∃ tss, List.Forall₂ Disjoined tss es ∧ ClosedBy numbers (List.intercalate [.symbol ','] tss) ∧
      Lexes (", ".intercalate (renderAll es))
        ((List.intercalate [.symbol ','] tss).map Token.limited) := by
  obtain ⟨tss, htss⟩ := List.exists_forall₂ hes
  refine ⟨tss, htss.flip.imp fun ts e h => h.2.2, closed_intercalate fun ts hts => ?_, ?_⟩
  · obtain ⟨e, -, he⟩ := htss.exists_left hts
    exact he.2.1
  · rw [renderAll_eq, map_limited_intercalate]
    refine lexes_intercalate ?_
    rw [List.forall₂_map_left_iff, List.forall₂_map_right_iff]
    exact htss.imp fun e ts h => h.1

theorem WrittenBy.isIn (h : x.WrittenBy numbers Operand) {es : List Expr}
    (hes : ∀ e ∈ es, e.WrittenBy numbers Disjoined)
    (hne : es ≠ []) (negated : Bool) : (inList negated x es).WrittenBy numbers Sole := by
  obtain ⟨ts, hlex, hopen, hform⟩ := h
  obtain ⟨tss, htss, hclosed, hlisted⟩ := exists_listed hes
  have hne : tss ≠ [] := by
    rintro rfl
    exact hne (List.forall₂_nil_left_iff.1 htss)
  refine ⟨_, ?_, ?_, hform.isIn htss hne negated⟩
  · have hword : Separates "IN (" [.keyword .in, .symbol '('] := by
      rw [show "IN (" = "IN " ++ "(" from rfl]
      exact (separates_keyword "IN" (by decide) rfl).append separates_open
    have htext := lexes_negatable hlex negated hword (hlisted.append separates_close.lexes rfl)
    rw [← String.append_assoc, List.append_assoc, List.append_assoc] at htext
    simp only [List.map_cons, List.map_append, limited_notTokens]
    exact htext
  · cases negated <;> simp [notTokens, hopen, hclosed]

/-- Texts with blanks between them. -/
theorem lexes_blanks {ss : List String} {tss : List (List Token)}
    (h : List.Forall₂ Lexes ss tss) : Lexes (" ".intercalate ss) tss.flatten := by
  induction h with
  | nil => exact lexes_empty
  | @cons s ts ss tss hs hss ih =>
      cases hss with
      | nil => simpa using hs
      | cons hs' hss =>
          rw [String.intercalate_cons_cons, List.flatten_cons, String.append_assoc]
          exact hs.append (separates_blank.append_lexes ih) (by simp [startsApart])

/-- An arm of a choice. -/
theorem exists_isArm {a : Expr × Expr} (h : a.1.WrittenBy numbers Disjoined)
    (h' : a.2.WrittenBy numbers Disjoined) :
    ∃ ts, Lexes ("WHEN " ++ render a.1 ++ " THEN " ++ render a.2) (ts.map Token.limited) ∧
      ClosedBy numbers ts ∧ IsArm ts a := by
  obtain ⟨ts, hlex, hopen, hform⟩ := h
  obtain ⟨us, hlex', hopen', hform'⟩ := h'
  refine ⟨_, ?_, ?_, ts, us, rfl, hform, hform'⟩
  · have hwhen : Separates "WHEN " [.keyword .when] := separates_keyword "WHEN" (by decide) rfl
    have hthen : Separates " THEN " [.keyword .then] := separates_operator "THEN" (by decide) rfl
    have htext := hwhen.append_lexes (hlex.append (hthen.append_lexes hlex')
      (by simp [startsApart]))
    simp only [← String.append_assoc] at htext
    rw [List.map_cons, List.map_append]
    exact htext
  · simp [hopen, hopen']

theorem WrittenBy.choose {arms : List (Expr × Expr)} (hne : arms ≠ [])
    (harms : ∀ a ∈ arms, a.1.WrittenBy numbers Disjoined ∧ a.2.WrittenBy numbers Disjoined)
    (h : y.WrittenBy numbers Disjoined) : (choose arms y).WrittenBy numbers Operand := by
  obtain ⟨us, hlex, hopen, hform⟩ := h
  obtain ⟨tss, htss⟩ := List.exists_forall₂ fun a ha => exists_isArm (harms a ha).1 (harms a ha).2
  refine ⟨_, ?_, ?_, operand_choose (htss.flip.imp fun ts a h => h.2.2) hne hform⟩
  · have hcase : Separates "CASE " [.keyword .case] := separates_keyword "CASE" (by decide) rfl
    have helse : Separates " ELSE " [.keyword .else] := separates_operator "ELSE" (by decide) rfl
    have hend : Lexes " END" [.keyword .end] := by
      rw [show " END" = " " ++ "END" from rfl]
      exact separates_blank.append_lexes (lexes_keyword (by decide))
    have hlist : Lexes (" ".intercalate (renderArms arms))
        (tss.map (List.map limited)).flatten := by
      rw [renderArms_eq]
      refine lexes_blanks ?_
      rw [List.forall₂_map_left_iff, List.forall₂_map_right_iff]
      exact htss.imp fun a ts h => h.1
    have htail := helse.append_lexes (hlex.append hend (by simp [startsApart]))
    have htext := hcase.append_lexes (hlist.append htail (by simp [startsApart]))
    simp only [← String.append_assoc] at htext
    simp only [List.map_cons, List.map_append, List.map_flatten]
    exact htext
  · have hclosed : ClosedBy numbers tss.flatten := by
      intro t ht
      obtain ⟨ts, hts, ht⟩ := List.mem_flatten.1 ht
      obtain ⟨a, -, ha⟩ := htss.exists_left hts
      exact ha.2.1 t ht
    simp [hclosed, hopen]

end Expr

/-! ## Whole texts -/

/-- The expression that a text is, if it is one, with as many steps as a statement is given. -/
def exprOfText? (text : String) : Option Expr :=
  match readExpr? (8 * (Token.scan text).length + 8) (Token.scan text) with
  | some (x, []) => some x
  | _ => none

/-- The text of an expression without parameters is read as the expression. -/
theorem Expr.WrittenBy.exprOfText?_render {x : Expr} (h : x.WrittenBy (fun _ => False) Disjoined) :
    exprOfText? x.render = some x := by
  obtain ⟨ts, hlex, hclosed, hform⟩ := h
  have hscan : Token.scan x.render = ts := hlex.scan_eq.trans hclosed.limited
  rw [exprOfText?, hscan, hform.reads_whole]

end Sql

end StagedStore
