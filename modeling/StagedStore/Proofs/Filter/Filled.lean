import StagedStore.Proofs.Filter.Shown
import StagedStore.Proofs.Sql.Numbered
import StagedStore.Proofs.Sql.Questions

/-!
# Templates and their tokens

Where the first question marks of a text are its parameters, one for each value, filling them in
numbers these parameters and changes no other token.
-/

namespace StagedStore

open Sql Sql.Token

namespace Sql

variable {m : Nat} {ts us : List Token}

/-- Tokens without parameters stay as they are. -/
theorem numberParams_of_none (h : ∀ i, Token.param i ∉ ts) :
    numberParams m (ts ++ us) = ts ++ numberParams m us := by
  induction ts with
  | nil => rfl
  | cons t ts ih =>
      have hrest : ∀ i, Token.param i ∉ ts := fun i hi => h i (List.mem_cons_of_mem _ hi)
      cases t with
      | param i => exact absurd List.mem_cons_self (h i)
      | _ => simp only [List.cons_append, numberParams, ih hrest]

theorem map_limited_of_none (h : ∀ n, Token.param (some n) ∉ ts) : ts.map Token.limited = ts := by
  refine (List.map_congr_left fun t ht => ?_).trans (List.map_id ts)
  cases t with
  | param i =>
      cases i with
      | none => rfl
      | some n => exact absurd ht (h n)
  | _ => rfl

/-- A null character hides what stands behind a text. -/
theorem Lexes.nul_notMem {s : String} (h : Lexes s ts) : '\x00' ∉ s.toList := by
  intro hin
  have hhidden (r : List Char) : lexed (s.toList ++ r) = lexed s.toList := by
    obtain ⟨u, v, hs, hu⟩ := List.eq_append_cons_of_mem hin
    have htake (w : List Char) : (u ++ '\x00' :: w).takeWhile (· ≠ '\x00') = u := by
      rw [List.takeWhile_append_of_pos (by simpa using fun c hc => ne_of_mem_of_not_mem hc hu)]
      simp
    rw [hs, lexed, lexed, List.append_assoc, List.cons_append, htake, htake]
  have hclose := h [')'] rfl
  have hnil := h [] rfl
  rw [hhidden] at hclose hnil
  have hsame := List.append_cancel_left (hnil.symm.trans hclose)
  simp [lexed, tokens_cons, next, isBlank, startsWord, readSymbol] at hsame

theorem lexes_question : Lexes "?" [.param none] := by
  intro r hr
  rw [lexed_append _ (by decide)]
  exact tokens_question_of_digit (isDigit_of_startsApart (startsApart_takeWhile _ hr))

/-- The first question marks of a text, so many, are parameters. -/
def Asks (text : String) (k : Nat) : Prop :=
  ∃ front back, text.toList = front ++ back ∧ (front = [] ∨ front.getLast? = some '?') ∧
    front.count '?' = k ∧ Tight front ∧ (front ≠ [] → ∀ c ∈ back.head?, c.isDigit = false)

end Sql

namespace Condition

variable {front back : List Char} {values : List Value} {p : Params}

theorem fillTemplate_before {u : List Char} (hu : '?' ∉ u) (cs : List Char) (values : List Value)
    (p : Params) : fillTemplate (u ++ cs) values p =
      (u ++ (fillTemplate cs values p).1, (fillTemplate cs values p).2) := by
  induction u with
  | nil => rfl
  | cons c u ih =>
      rw [List.mem_cons, not_or] at hu
      rw [List.cons_append, fillTemplate_cons (Ne.symm hu.1), ih hu.2]
      rfl

theorem exists_first_question {k : Nat} (h : front.count '?' = k + 1) :
    ∃ u b, front = u ++ '?' :: b ∧ '?' ∉ u ∧ b.count '?' = k := by
  have hin : '?' ∈ front := List.count_pos_iff.1 (by omega)
  obtain ⟨u, b, rfl, hu⟩ := List.eq_append_cons_of_mem hin
  rw [List.count_append, List.count_eq_zero_of_not_mem hu, List.count_cons_self,
    Nat.zero_add] at h
  exact ⟨u, b, rfl, hu, Nat.succ.inj h⟩

/-- Filling takes no question mark beyond the number of the values. -/
theorem fillTemplate_append (hcount : front.count '?' = values.length) (back : List Char)
    (p : Params) : fillTemplate (front ++ back) values p =
      ((fillTemplate front values p).1 ++ back, (fillTemplate front values p).2) := by
  induction values generalizing front p with
  | nil => rw [fillTemplate_nil, fillTemplate_nil]
  | cons v vs ih =>
      obtain ⟨u, b, rfl, hu, hcount⟩ := exists_first_question hcount
      rw [List.append_assoc, List.cons_append, fillTemplate_before hu, fillTemplate_before hu,
        fillTemplate_question, fillTemplate_question, ih hcount]
      simp

/-- Filling numbers the parameters that it reaches, whatever stands behind them. -/
theorem tokens_fillTemplate (hend : front = [] ∨ front.getLast? = some '?')
    (hcount : front.count '?' = values.length) (htight : Tight front)
    (hback : front ≠ [] → ∀ c ∈ back.head?, c.isDigit = false) (p : Params) :
    tokens (front ++ back) = tokens front ++ tokens back ∧
      (∀ n, Token.param (some n) ∉ tokens front) ∧
      tokens ((fillTemplate front values p).1 ++ back) =
        (numberParams p.size (tokens front)).map Token.limited ++ tokens back := by
  induction values generalizing front p with
  | nil =>
      obtain rfl : front = [] := by
        refine hend.resolve_right fun hlast => ?_
        have hin := List.mem_of_getLast? hlast
        exact absurd (List.count_pos_iff.2 hin) (by simp [hcount])
      exact ⟨rfl, by simp, rfl⟩
  | cons v vs ih =>
      obtain ⟨u, b, rfl, hu, hcount⟩ := exists_first_question hcount
      obtain ⟨ts, hts, htokens, hquestion⟩ := htight.before hu
      obtain ⟨hdigit, hb⟩ := hquestion.question
      have hlast : b = [] ∨ b.getLast? = some '?' := by
        cases b with
        | nil => exact .inl rfl
        | cons c b => exact .inr (by simpa using hend)
      have hhead {cs : List Char} (hcs : cs.head? = b.head?) :
          ∀ c ∈ (cs ++ back).head?, c.isDigit = false := by
        cases cs with
        | nil => exact hback (by simp)
        | cons c cs => exact hcs ▸ hdigit
      obtain ⟨hsplit, hnone, hfilled⟩ := ih hlast hcount hb (fun _ => hback (by simp))
        (p.push v.toStorage)
      have hfront : tokens (u ++ '?' :: b) = ts ++ .param none :: tokens b := by
        rw [htokens, tokens_question_of_digit hdigit]
      refine ⟨?_, ?_, ?_⟩
      · rw [hfront, List.append_assoc, List.cons_append, htokens,
          tokens_question_of_digit (hhead rfl), hsplit]
        simp
      · rw [hfront]
        simp [hts, hnone]
      · rw [hfront, numberParams_of_none hts, numberParams, List.map_append,
          map_limited_of_none fun n => hts (some n), fillTemplate_before hu, fillTemplate_question,
          List.append_assoc, List.cons_append, List.append_assoc, htokens,
          tokens_param (hhead (head?_fillTemplate b vs _)), hfilled]
        simp

theorem nul_notMem_fillTemplate {cs : List Char} (h : '\x00' ∉ cs) (values : List Value)
    (p : Params) : '\x00' ∉ (fillTemplate cs values p).1 := by
  induction cs generalizing values p with
  | nil =>
      have hnil : fillTemplate [] values p = ([], p) := by
        rw [fillTemplate]
        rfl
      rw [hnil]
      simp
  | cons c cs ih =>
      rw [List.mem_cons, not_or] at h
      cases values with
      | nil => simp [fillTemplate_nil, h]
      | cons v vs =>
          by_cases hc : c = '?'
          · rw [hc, fillTemplate_question]
            simp [notMem_toDigits, ih h.2]
          · rw [fillTemplate_cons hc]
            simp [h.1, ih h.2]

/-- The filled text is cut into the tokens of the text, its parameters numbered behind those that
are bound. -/
theorem lexes_fillTemplate {sql : String} {ts : List Token} (hlex : Lexes sql ts)
    (hnone : ∀ n, Token.param (some n) ∉ ts) (hcount : openParams ts = values.length)
    (hasks : Asks sql values.length) (p : Params) :
    Lexes (String.ofList (fillTemplate sql.toList values p).1)
      ((numberParams p.size ts).map Token.limited) := by
  obtain ⟨front, back, hsql, hend, hfront, htight, hback⟩ := hasks
  have hnul : '\x00' ∉ sql.toList := hlex.nul_notMem
  have hnul' := nul_notMem_fillTemplate hnul values p
  intro r hr
  have hrest : front ≠ [] → ∀ c ∈ (back ++ r.takeWhile (· ≠ '\x00')).head?,
      c.isDigit = false := by
    cases back with
    | nil => exact fun _ => isDigit_of_startsApart (startsApart_takeWhile _ hr)
    | cons c back => exact hback
  obtain ⟨hown, -, -⟩ := tokens_fillTemplate hend hfront htight hback p
  obtain ⟨hplaced, -, hfilled⟩ := tokens_fillTemplate hend hfront htight hrest p
  -- the tokens of the text are those of its question marks and those behind them
  have hts : ts = tokens front ++ tokens back := by
    have hnil := hlex [] rfl
    rw [lexed_append _ hnul, hsql] at hnil
    simpa [hown, lexed] using hnil.symm
  have hbehind : tokens (back ++ r.takeWhile (· ≠ '\x00')) = tokens back ++ lexed r := by
    have htext := hlex r hr
    rw [lexed_append _ hnul, hsql, List.append_assoc, hplaced, hts, List.append_assoc] at htext
    exact List.append_cancel_left htext
  have hfree : ∀ i, Token.param i ∉ tokens back := by
    have hopen : openParams (tokens back) = 0 := by
      have hboth : openParams ts = openParams (tokens front) + openParams (tokens back) := by
        rw [hts]
        exact List.count_append
      rw [hcount, htight, hfront] at hboth
      omega
    intro i hi
    cases i with
    | none => exact absurd (List.count_pos_iff.2 hi) (by simp [hopen])
    | some n => exact hnone n (hts ▸ List.mem_append_right _ hi)
  rw [String.toList_ofList, lexed_append _ hnul', hsql, fillTemplate_append hfront,
    List.append_assoc, hfilled, hbehind, hts, numberParams_append, List.map_append]
  have hback' : numberParams (largestParam p.size (tokens front)) (tokens back ++ []) =
      tokens back ++ [] := numberParams_of_none hfree
  rw [List.append_nil] at hback'
  rw [hback', map_limited_of_none fun n => hfree (some n), List.append_assoc]

end Condition

end StagedStore
