import Mathlib.Data.List.Forall2
import StagedStore.Proofs.Digits
import StagedStore.Proofs.Sql.Scan
import StagedStore.Proofs.Text.Quoted
import StagedStore.Sql.Statement

/-!
# Tokens of texts put together

A text that stands in a statement is cut into the same tokens wherever it stands, if what follows
does not run into its last token.
-/

namespace StagedStore.Sql

open Token

/-- The tokens of characters, which a null character ends. -/
def lexed (cs : List Char) : List Token :=
  tokens (cs.takeWhile (· ≠ '\x00'))

theorem scan_eq_lexed (s : String) : Token.scan s = lexed s.toList := rfl

/-- Characters that run into no token in front of them. -/
def startsApart (cs : List Char) : Bool :=
  cs.head?.all fun c => c = ' ' || c = ')' || c = ','

/-- A text is cut into some tokens, whatever follows it. -/
def Separates (s : String) (ts : List Token) : Prop :=
  ∀ r, lexed (s.toList ++ r) = ts ++ lexed r

/-- A text is cut into some tokens if what follows starts apart. -/
def Lexes (s : String) (ts : List Token) : Prop :=
  ∀ r, startsApart r = true → lexed (s.toList ++ r) = ts ++ lexed r

variable {s s' : String} {ts ts' : List Token}

theorem Separates.lexes (h : Separates s ts) : Lexes s ts :=
  fun r _ => h r

theorem Separates.append (h : Separates s ts) (h' : Separates s' ts') :
    Separates (s ++ s') (ts ++ ts') := by
  intro r
  rw [String.toList_append, List.append_assoc, h, h', List.append_assoc]

theorem Separates.append_lexes (h : Separates s ts) (h' : Lexes s' ts') :
    Lexes (s ++ s') (ts ++ ts') := by
  intro r hr
  rw [String.toList_append, List.append_assoc, h, h' r hr, List.append_assoc]

theorem startsApart_append {cs r : List Char} (h : startsApart cs = true)
    (hr : startsApart r = true) : startsApart (cs ++ r) = true := by
  cases cs with
  | nil => exact hr
  | cons c cs => exact h

theorem Lexes.append (h : Lexes s ts) (h' : Lexes s' ts') (hs : startsApart s'.toList = true) :
    Lexes (s ++ s') (ts ++ ts') := by
  intro r hr
  rw [String.toList_append, List.append_assoc, h _ (startsApart_append hs hr), h' r hr,
    List.append_assoc]

theorem Lexes.scan_eq (h : Lexes s ts) : Token.scan s = ts := by
  have hnil := h [] rfl
  rw [List.append_nil] at hnil
  rw [scan_eq_lexed, hnil]
  exact List.append_nil ts

theorem lexes_empty : Lexes "" [] :=
  fun _ _ => rfl

/-! ## Marks and words -/

theorem lexed_append {p : List Char} (r : List Char) (hp : '\x00' ∉ p) :
    lexed (p ++ r) = tokens (p ++ r.takeWhile (· ≠ '\x00')) := by
  have hall : ∀ c ∈ p, (decide (c ≠ '\x00')) = true := by
    intro c hc
    rw [decide_eq_true_eq]
    rintro rfl
    exact hp hc
  rw [lexed, List.takeWhile_append_of_pos hall]

theorem head?_takeWhile {p : Char → Bool} {r : List Char} {c : Char}
    (h : (r.takeWhile p).head? = some c) : r.head? = some c := by
  cases r with
  | nil => simp at h
  | cons d r =>
      rw [List.takeWhile_cons] at h
      split at h
      · exact h
      · simp at h

theorem startsApart_takeWhile {r : List Char} (p : Char → Bool) (h : startsApart r = true) :
    startsApart (r.takeWhile p) = true := by
  unfold startsApart at h ⊢
  cases hd : (r.takeWhile p).head? with
  | none => rfl
  | some c =>
      rw [head?_takeWhile hd] at h
      exact h

theorem separates_blank : Separates " " [] :=
  fun r => (lexed_append r (by decide)).trans (tokens_blank _)

/-- A mark that no other character prolongs. -/
theorem separates_mark (c : Char) (hs : s.toList = [c]) (hnul : c ≠ '\x00')
    (h : ∀ r, next c r = (some (.symbol c), r)) : Separates s [.symbol c] := by
  intro r
  rw [hs, lexed_append r (by simpa using hnul.symm), List.singleton_append, tokens_cons, h]
  rfl

theorem separates_open : Separates "(" [.symbol '('] :=
  separates_mark '(' rfl (by decide) fun _ => rfl

theorem separates_close : Separates ")" [.symbol ')'] :=
  separates_mark ')' rfl (by decide) fun _ => rfl

theorem separates_comma : Separates "," [.symbol ','] :=
  separates_mark ',' rfl (by decide) fun _ => rfl

theorem separates_star : Separates "*" [.symbol '*'] :=
  separates_mark '*' rfl (by decide) fun _ => rfl

/-- Characters that make up a word. -/
def isWord : List Char → Bool
  | [] => false
  | c :: w => startsWord c && w.all continuesWord

theorem lexed_word {w r : List Char} (hw : isWord w = true) (hr : endsWord r = true) :
    lexed (w ++ r) = ofWord w :: lexed r := by
  cases w with
  | nil => simp [isWord] at hw
  | cons c w =>
      simp only [isWord, Bool.and_eq_true] at hw
      have hnul : '\x00' ∉ c :: w := by
        intro hin
        rcases List.mem_cons.1 hin with rfl | hin
        · exact absurd hw.1 (by decide)
        · exact absurd (List.all_eq_true.1 hw.2 _ hin) (by decide)
      have hend : endsWord (r.takeWhile (· ≠ '\x00')) = true := by
        unfold endsWord at hr ⊢
        cases hd : (r.takeWhile (· ≠ '\x00')).head? with
        | none => rfl
        | some d =>
            rw [head?_takeWhile hd] at hr
            exact hr
      rw [lexed_append r hnul, List.cons_append, tokens_word hw.1 hw.2 hend]
      rfl

theorem endsWord_of_startsApart {r : List Char} (h : startsApart r = true) :
    endsWord r = true := by
  cases r with
  | nil => rfl
  | cons c r =>
      simp only [startsApart, List.head?_cons, Option.all_some, Bool.or_eq_true,
        decide_eq_true_eq] at h
      rcases h with (rfl | rfl) | rfl <;> rfl

theorem lexes_word {t : Token} (hw : isWord s.toList = true) (ht : ofWord s.toList = t) :
    Lexes s [t] := by
  intro r hr
  rw [lexed_word hw (endsWord_of_startsApart hr), ht]
  rfl

/-- A word with a blank behind it. -/
theorem separates_word {t : Token} (hw : isWord s.toList = true) (ht : ofWord s.toList = t) :
    Separates (s ++ " ") [t] := by
  intro r
  rw [String.toList_append, List.append_assoc, lexes_word hw ht _ rfl, separates_blank]
  rfl

theorem ofWord_spelling : ∀ p ∈ Keyword.spellings,
    isWord p.1.toList = true ∧ ofWord p.1.toList = .keyword p.2 := by
  decide +kernel

theorem lexes_keyword {k : Keyword} (h : (s, k) ∈ Keyword.spellings) : Lexes s [.keyword k] :=
  lexes_word (ofWord_spelling _ h).1 (ofWord_spelling _ h).2

/-- A reserved word with a blank behind it. -/
theorem separates_keyword (s : String) {text : String} {k : Keyword}
    (h : (s, k) ∈ Keyword.spellings) (htext : text = s ++ " ") : Separates text [.keyword k] := by
  rw [htext]
  exact separates_word (ofWord_spelling _ h).1 (ofWord_spelling _ h).2

/-- A reserved word with blanks around it. -/
theorem separates_operator (s : String) {text : String} {k : Keyword}
    (h : (s, k) ∈ Keyword.spellings) (htext : text = " " ++ (s ++ " ")) :
    Separates text [.keyword k] := by
  rw [htext]
  exact separates_blank.append (separates_keyword s h rfl)

/-- A text in parentheses. -/
theorem Lexes.parens (h : Lexes s ts) :
    Lexes ("(" ++ s ++ ")") (.symbol '(' :: (ts ++ [.symbol ')'])) := by
  rw [String.append_assoc]
  exact separates_open.append_lexes (h.append separates_close.lexes rfl)

theorem Lexes.behindNot (h : Lexes s ts) : Lexes ("NOT " ++ s) (.keyword .not :: ts) := by
  have hword : Separates "NOT " [.keyword .not] := separates_keyword "NOT" (by decide) rfl
  exact hword.append_lexes h

/-- Texts with a reserved word between them. -/
theorem Lexes.joined (h : Lexes s ts) (name : String) {k : Keyword} {word : String}
    (hk : (name, k) ∈ Keyword.spellings) (hword : word = " " ++ (name ++ " "))
    (h' : Lexes s' ts') : Lexes (s ++ word ++ s') (ts ++ .keyword k :: ts') := by
  rw [String.append_assoc]
  refine h.append ((separates_operator name hk hword).append_lexes h') ?_
  simp [hword, startsApart]

theorem Lexes.and (h : Lexes s ts) (h' : Lexes s' ts') :
    Lexes (s ++ " AND " ++ s') (ts ++ .keyword .and :: ts') :=
  h.joined "AND" (by decide) rfl h'

theorem Lexes.or (h : Lexes s ts) (h' : Lexes s' ts') :
    Lexes (s ++ " OR " ++ s') (ts ++ .keyword .or :: ts') :=
  h.joined "OR" (by decide) rfl h'

/-- Texts with commas between them. -/
theorem lexes_intercalate {ss : List String} {tss : List (List Token)}
    (h : List.Forall₂ Lexes ss tss) :
    Lexes (", ".intercalate ss) (List.intercalate [.symbol ','] tss) := by
  have hcomma : Separates ", " [.symbol ','] := separates_comma.append separates_blank
  induction h with
  | nil => exact lexes_empty
  | @cons s ts ss tss hs hss ih =>
      cases hss with
      | nil => simpa using hs
      | cons hs' hss =>
          rw [String.intercalate_cons_cons, List.intercalate_cons_cons, String.append_assoc,
            List.append_assoc]
          exact hs.append (hcomma.append_lexes ih) (by simp [startsApart])

/-! ## Names -/

theorem front?_quoteName {n : String} {r : List Char} (hr : r.head? ≠ some '"') :
    front? ((quoteName n).toList ++ r) = some (.name n, r) := by
  rw [quoteName, String.toList_ofList, Quoted.wrap, List.cons_append, List.append_assoc]
  refine front?_of_next ?_
  simp [next, isBlank, Quoted.read?_double hr]

theorem lexed_quoteName {n : String} {r : List Char} (hn : '\x00' ∉ n.toList)
    (hr : r.head? ≠ some '"') : lexed ((quoteName n).toList ++ r) = .name n :: lexed r := by
  have hnul : '\x00' ∉ (quoteName n).toList := by
    simp [quoteName, Quoted.wrap, Quoted.mem_double, hn]
  rw [lexed_append r hnul]
  exact tokens_of_front? (front?_quoteName fun h => hr (head?_takeWhile h))

theorem lexes_quoteName {n : String} (hn : '\x00' ∉ n.toList) : Lexes (quoteName n) [.name n] := by
  intro r hr
  refine lexed_quoteName hn fun hhead => ?_
  simp [startsApart, hhead] at hr

/-- A dot in front of a text that starts with a quote. -/
theorem lexed_dot {cs : List Char} (h : cs.head? = some '"') :
    lexed ('.' :: cs) = .symbol '.' :: lexed cs := by
  obtain ⟨cs, rfl⟩ := List.head?_eq_some_iff.1 h
  exact (lexed_append _ (p := ['.', '"']) (by decide)).trans (tokens_cons _ _)

theorem head?_quoteName (n : String) (r : List Char) :
    ((quoteName n).toList ++ r).head? = some '"' := by
  rw [quoteName, String.toList_ofList, Quoted.wrap]
  rfl

/-- A name in front of another, with a dot between them. -/
theorem lexes_qualified {q n : String} (hq : '\x00' ∉ q.toList) (hn : '\x00' ∉ n.toList) :
    Lexes (quoteName q ++ "." ++ quoteName n) [.name q, .symbol '.', .name n] := by
  intro r hr
  rw [String.toList_append, String.toList_append, List.append_assoc, List.append_assoc,
    lexed_quoteName hq (by simp), show ".".toList = ['.'] from rfl, List.singleton_append,
    lexed_dot (head?_quoteName n r), lexes_quoteName hn r hr]
  rfl

/-! ## Parameters, numbers and operators -/

/-- The token of a numbered parameter. -/
def paramToken (n : Nat) : Token :=
  if 1 ≤ n ∧ n ≤ maxParam then .param (some n) else .illegal

theorem isDigit_of_startsApart {r : List Char} (h : startsApart r = true) :
    ∀ c ∈ r.head?, c.isDigit = false := by
  intro c hc
  rw [Option.mem_def] at hc
  simp only [startsApart, hc, Option.all_some, Bool.or_eq_true, decide_eq_true_eq] at h
  rcases h with (rfl | rfl) | rfl <;> rfl

theorem tokens_param {n : Nat} {r : List Char} (hr : ∀ c ∈ r.head?, c.isDigit = false) :
    tokens ('?' :: (Nat.toDigits 10 n ++ r)) = paramToken n :: tokens r := by
  obtain ⟨htake, hdrop⟩ := takeWhile_digits (n := n) hr
  have hparam : readParam (Nat.toDigits 10 n ++ r) = (paramToken n, r) := by
    unfold readParam
    rw [htake, hdrop]
    split
    · rename_i h
      exact absurd h Nat.toDigits_ne_nil
    · dsimp only
      rw [digitsValue_toDigits, paramToken]
  rw [tokens_cons]
  simp [next, isBlank, hparam]

theorem lexes_param (n : Nat) : Lexes ("?" ++ toString n) [paramToken n] := by
  intro r hr
  rw [String.toList_append, show toString n = n.repr from rfl, Nat.toList_repr,
    show "?".toList = ['?'] from rfl, lexed_append r (by simp [notMem_toDigits]),
    List.singleton_append, List.cons_append,
    tokens_param (isDigit_of_startsApart (startsApart_takeWhile _ hr))]
  rfl

/-- The tokens of a whole number. -/
def intTokens : Int → List Token
  | .ofNat n => [.number ⟨false, n, 0⟩ true]
  | .negSucc n => [.symbol '-', .number ⟨false, n + 1, 0⟩ true]

theorem readUnsigned?_toDigits {n : Nat} {r : List Char} (hr : ∀ c ∈ r.head?, c.isDigit = false ∧
    c ≠ '.' ∧ c ≠ 'e' ∧ c ≠ 'E') :
    Decimal.readUnsigned? (Nat.toDigits 10 n ++ r) = some ⟨⟨false, n, 0⟩, true, r⟩ := by
  obtain ⟨htake, hdrop⟩ := takeWhile_digits (n := n) (r := r) fun c hc => (hr c hc).1
  have hempty : (Nat.toDigits 10 n).isEmpty = false := by
    simp [Nat.toDigits_ne_nil]
  unfold Decimal.readUnsigned?
  rw [htake, hdrop]
  cases r with
  | nil => simp [hempty, digitsValue_toDigits]
  | cons c r =>
      obtain ⟨-, hdot, he, hE⟩ := hr c rfl
      simp [hdot, hempty, he, hE, digitsValue_toDigits]

/-- A character that is none of those that begin a token otherwise begins a number if it is a digit. -/
theorem next_of_isDigit {c : Char} (hc : c.isDigit = true) (r : List Char) :
    next c r = (readNumber (c :: r)).map some id := by
  have hne (d : Char) (hd : d.isDigit = false) : c ≠ d := by
    rintro rfl
    rw [hc] at hd
    exact Bool.noConfusion hd
  have hword : startsWord c = false := by
    have hcode : 48 ≤ c.val.toNat ∧ c.val.toNat ≤ 57 := Char.isDigit_iff_toNat.1 hc
    have hupper : ¬65 ≤ c.val := by
      rw [UInt32.le_iff_toNat_le, show (65 : UInt32).toNat = 65 from rfl]
      omega
    have hlower : ¬97 ≤ c.val := by
      rw [UInt32.le_iff_toNat_le, show (97 : UInt32).toNat = 97 from rfl]
      omega
    have hascii : ¬128 ≤ c.toNat := by
      change ¬128 ≤ c.val.toNat
      omega
    have halpha : c.isAlpha = false := by
      change (decide (65 ≤ c.val ∧ c.val ≤ 90) ||
        decide (97 ≤ c.val) && decide (c.val ≤ 122)) = false
      simp [hupper, hlower]
    simp [startsWord, halpha, hne '_' rfl, hascii]
  simp [next, isBlank, hne ' ' rfl, hne '\t' rfl, hne '\n' rfl, hne '\r' rfl, hne '\x0c' rfl,
    hne '-' rfl, hne '/' rfl, hne '"' rfl, hne '\'' rfl, hne '?' rfl, hne 'x' rfl, hne 'X' rfl,
    hword, hc]

/-- A minus in front of a digit is a token of its own. -/
theorem front?_minus {c : Char} (hc : c.isDigit = true) (r : List Char) :
    front? ('-' :: c :: r) = some (.symbol '-', c :: r) := by
  have hne : c ≠ '-' := by
    rintro rfl
    exact Bool.noConfusion hc
  refine front?_of_next ?_
  simp [next, isBlank, hne, readSymbol, show startsWord '-' = false from rfl]

theorem exists_toDigits (n : Nat) : ∃ c q, Nat.toDigits 10 n = c :: q ∧ c.isDigit = true := by
  obtain ⟨c, q, hc⟩ := List.exists_cons_of_ne_nil (Nat.toDigits_ne_nil (n := n) (b := 10))
  exact ⟨c, q, hc, isDigit_of_mem_toDigits (hc ▸ List.mem_cons_self)⟩

theorem front?_toDigits {n : Nat} {r : List Char} (hr : ∀ c ∈ r.head?, continuesWord c = false ∧
    c ≠ '.') :
    front? (Nat.toDigits 10 n ++ r) = some (.number ⟨false, n, 0⟩ true, r) := by
  obtain ⟨c, q, hc, hdigit⟩ := exists_toDigits n
  have hread : readNumber (c :: (q ++ r)) = (.number ⟨false, n, 0⟩ true, r) := by
    have hrest : ∀ c ∈ r.head?, c.isDigit = false ∧ c ≠ '.' ∧ c ≠ 'e' ∧ c ≠ 'E' := by
      intro d hd
      obtain ⟨hd, hdot⟩ := hr d hd
      refine ⟨?_, hdot, ?_, ?_⟩
      · simp only [continuesWord, Bool.or_eq_false_iff] at hd
        exact hd.1.2
      · rintro rfl
        exact absurd hd (by decide)
      · rintro rfl
        exact absurd hd (by decide)
    rw [← List.cons_append, ← hc, readNumber, readUnsigned?_toDigits hrest]
    cases r with
    | nil => rfl
    | cons d r => simp [(hr d rfl).1]
  rw [hc, List.cons_append]
  refine front?_of_next ?_
  rw [next_of_isDigit hdigit, hread]
  rfl

theorem tokens_number {n : Nat} {r : List Char} (hr : ∀ c ∈ r.head?, continuesWord c = false ∧
    c ≠ '.') :
    tokens (Nat.toDigits 10 n ++ r) = .number ⟨false, n, 0⟩ true :: tokens r :=
  tokens_of_front? (front?_toDigits hr)

theorem continuesWord_of_startsApart {r : List Char} (h : startsApart r = true) :
    ∀ c ∈ r.head?, continuesWord c = false ∧ c ≠ '.' := by
  intro c hc
  rw [Option.mem_def] at hc
  simp only [startsApart, hc, Option.all_some, Bool.or_eq_true, decide_eq_true_eq] at h
  rcases h with (rfl | rfl) | rfl <;> decide

theorem lexes_toString (i : Int) : Lexes (toString i) (intTokens i) := by
  intro r hr
  have hrest := continuesWord_of_startsApart (startsApart_takeWhile (· ≠ '\x00') hr)
  cases i with
  | ofNat n =>
      rw [show toString (Int.ofNat n) = n.repr from rfl, Nat.toList_repr,
        lexed_append r (notMem_toDigits rfl), tokens_number hrest]
      rfl
  | negSucc n =>
      have hminus : tokens ('-' :: (Nat.toDigits 10 (n + 1) ++ r.takeWhile (· ≠ '\x00'))) =
          .symbol '-' :: tokens (Nat.toDigits 10 (n + 1) ++ r.takeWhile (· ≠ '\x00')) := by
        obtain ⟨c, q, hc, hdigit⟩ := exists_toDigits (n + 1)
        rw [hc, List.cons_append]
        exact tokens_of_front? (front?_minus hdigit _)
      rw [show toString (Int.negSucc n) = "-" ++ (n + 1).repr from rfl, String.toList_append,
        Nat.toList_repr, show "-".toList = ['-'] from rfl,
        lexed_append r (by simp [notMem_toDigits]), List.singleton_append, List.cons_append, hminus,
        tokens_number hrest]
      rfl

/-- The token of a comparison. -/
def Comparison.token : Comparison → Token
  | .eq => .equal
  | .ne => .unequal
  | .gt => .greater
  | .ge => .greaterEqual
  | .lt => .less
  | .le => .lessEqual

theorem separates_comparison (op : Comparison) : Separates (" " ++ op.text ++ " ") [op.token] := by
  have h (cs : List Char) (t : Token) (hs : (" " ++ op.text ++ " ").toList = ' ' :: (cs ++ [' ']))
      (hnul : '\x00' ∉ cs) (ht : ∀ r, tokens (cs ++ ' ' :: r) = t :: tokens (' ' :: r)) :
      Separates (" " ++ op.text ++ " ") [t] := by
    intro r
    rw [hs, lexed_append r (by simp [hnul]), List.cons_append, List.append_assoc,
      List.singleton_append, tokens_blank, ht, tokens_blank]
    rfl
  cases op with
  | eq => exact h ['='] _ rfl (by decide) fun _ => tokens_cons _ _
  | ne => exact h ['!', '='] _ rfl (by decide) fun _ => tokens_cons _ _
  | gt => exact h ['>'] _ rfl (by decide) fun _ => tokens_cons _ _
  | ge => exact h ['>', '='] _ rfl (by decide) fun _ => tokens_cons _ _
  | lt => exact h ['<'] _ rfl (by decide) fun _ => tokens_cons _ _
  | le => exact h ['<', '='] _ rfl (by decide) fun _ => tokens_cons _ _

/-- Two numbers with a sign of equality between them. -/
theorem lexes_equation (m n : Nat) : Lexes (m.repr ++ "=" ++ n.repr)
    [.number ⟨false, m, 0⟩ true, .equal, .number ⟨false, n, 0⟩ true] := by
  intro r hr
  have hrest := continuesWord_of_startsApart (startsApart_takeWhile (· ≠ '\x00') hr)
  have hequal : tokens ('=' :: (Nat.toDigits 10 n ++ r.takeWhile (· ≠ '\x00'))) =
      .equal :: tokens (Nat.toDigits 10 n ++ r.takeWhile (· ≠ '\x00')) := by
    obtain ⟨c, q, hc⟩ := List.exists_cons_of_ne_nil (Nat.toDigits_ne_nil (n := n) (b := 10))
    have hne : c ≠ '=' := by
      rintro rfl
      exact notMem_toDigits (n := n) (c := '=') rfl (by rw [hc]; simp)
    rw [hc, List.cons_append, tokens_cons]
    simp [next, isBlank, hne, readSymbol, show startsWord '=' = false from rfl]
  rw [String.toList_append, String.toList_append, Nat.toList_repr, Nat.toList_repr,
    show "=".toList = ['='] from rfl, lexed_append r (by simp [notMem_toDigits]), List.append_assoc,
    List.append_assoc, tokens_number (by simp [show continuesWord '=' = false from rfl]),
    List.singleton_append, hequal, tokens_number hrest]
  rfl

end StagedStore.Sql
