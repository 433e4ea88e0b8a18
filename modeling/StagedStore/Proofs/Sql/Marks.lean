import StagedStore.Proofs.Literal
import StagedStore.Sql.Statement

/-!
# Names and placeholders in a text

A reader that goes through SQL text character by character and tells the names in double quotes and
the question marks with the digits behind them, as far as they stand in no text, in no other quotes
and in no comment. A text that leaves no quote and no comment open shows the same marks wherever it
stands.
-/

namespace StagedStore.Sql

/-- What is found in a text. -/
inductive Mark where
  /-- A name in double quotes. -/
  | name (s : String)
  /-- A question mark with the digits behind it. -/
  | placeholder (digits : String)
deriving DecidableEq

/-- Where a reader stands in a text. -/
inductive Place where
  | plain
  /-- Behind a minus sign, which another one makes a comment. -/
  | minus
  /-- Behind a slash, which a star makes a comment. -/
  | slash
  /-- In a comment that ends with the line. -/
  | line
  /-- In a comment that ends at a star and a slash. -/
  | block
  /-- Behind a star in such a comment. -/
  | star
  /-- In a text, or in a name in other quotes than double ones. -/
  | quote (close : Char)
  /-- In a name of which this was read, the last character first. -/
  | name (read : List Char)
  /-- Behind the quote that closes a name, unless another follows. -/
  | closed (read : List Char)
  /-- Behind a question mark and these digits, the last first. -/
  | digits (read : List Char)
deriving DecidableEq

namespace Place

/-- What a character begins that stands in no quotes and no comment. -/
def begin (c : Char) : Place :=
  if c = '"' then .name []
  else if c = '\'' then .quote '\''
  else if c = '\x60' then .quote '\x60'
  else if c = '[' then .quote ']'
  else if c = '?' then .digits []
  else if c = '-' then .minus
  else if c = '/' then .slash
  else .plain

/-- The place behind a further character. -/
def next : Place → Char → Place
  | .plain, c => begin c
  | .minus, c => if c = '-' then .line else begin c
  | .slash, c => if c = '*' then .block else begin c
  | .line, c => if c = '\n' then .plain else .line
  | .block, c => if c = '*' then .star else .block
  | .star, c => if c = '/' then .plain else if c = '*' then .star else .block
  | .quote q, c => if c = q then .plain else .quote q
  | .name cs, c => if c = '"' then .closed cs else .name (c :: cs)
  | .closed cs, c => if c = '"' then .name (c :: cs) else begin c
  | .digits ds, c => if c.isDigit then .digits (c :: ds) else begin c

/-- The mark that is complete in front of a character. -/
def completed : Place → Char → List Mark
  | .closed cs, c => if c = '"' then [] else [.name (String.ofList cs.reverse)]
  | .digits ds, c => if c.isDigit then [] else [.placeholder (String.ofList ds.reverse)]
  | _, _ => []

/-- The mark that is complete where the text ends. -/
def last : Place → List Mark
  | .closed cs => [.name (String.ofList cs.reverse)]
  | .digits ds => [.placeholder (String.ofList ds.reverse)]
  | _ => []

/-- The place behind some characters. -/
def after (p : Place) (cs : List Char) : Place :=
  cs.foldl next p

/-- No quote and no comment is open. -/
def isOutside : Place → Bool
  | .plain | .minus | .slash | .closed _ | .digits _ => true
  | _ => false

@[simp] theorem after_cons (p : Place) (c : Char) (cs : List Char) :
    p.after (c :: cs) = (p.next c).after cs := rfl

theorem after_append (p : Place) (cs r : List Char) : p.after (cs ++ r) = (p.after cs).after r :=
  List.foldl_append

end Place

/-- The marks of characters behind a place. -/
def marksFrom (p : Place) : List Char → List Mark
  | [] => p.last
  | c :: r => p.completed c ++ marksFrom (p.next c) r

/-- The marks of a text. -/
def marks (cs : List Char) : List Mark :=
  marksFrom .plain cs

namespace Mark

def placeholder? : Mark → Option String
  | .placeholder ds => some ("?" ++ ds)
  | .name _ => none

def name? : Mark → Option String
  | .name n => some n
  | .placeholder _ => none

end Mark

/-- The question marks of a text with the digits behind them, outside of quotes and comments. -/
def placeholders (text : String) : List String :=
  (marks text.toList).filterMap Mark.placeholder?

/-- The names in double quotes in a text, from left to right. -/
def quotedNames (text : String) : List String :=
  (marks text.toList).filterMap Mark.name?

/-- The marks of the parameters behind the first `n`, as many as `k`. -/
def numberedMarks (n k : Nat) : List Mark :=
  (List.range' (n + 1) k).map fun i => .placeholder (toString i)

/-- The placeholders of the parameters behind the first `n`, up to the `m`-th. -/
def numbered (n m : Nat) : List String :=
  (List.range' (n + 1) (m - n)).map fun i => "?" ++ toString i

theorem placeholders_flatMap {α : Type} {f : α → List Mark} {xs : List α}
    (h : ∀ x ∈ xs, (f x).filterMap Mark.placeholder? = []) :
    (xs.flatMap f).filterMap Mark.placeholder? = [] := by
  rw [List.filterMap_flatMap]
  exact List.flatMap_eq_nil_iff.2 h

theorem numberedMarks_add (n k l : Nat) :
    numberedMarks n (k + l) = numberedMarks n k ++ numberedMarks (n + k) l := by
  rw [numberedMarks, ← List.range'_append_1, List.map_append, Nat.add_right_comm]
  rfl

theorem placeholder?_numberedMarks (n k : Nat) :
    (numberedMarks n k).filterMap Mark.placeholder? = numbered n (n + k) := by
  rw [numberedMarks, List.filterMap_map, numbered, Nat.add_sub_cancel_left,
    ← List.filterMap_eq_map]
  rfl

/-! ## Texts put together -/

/-- A character that continues no mark and makes no comment with what stands in front of it. -/
def isBreak (c : Char) : Bool :=
  c ≠ '"' && !c.isDigit && c ≠ '-' && c ≠ '*'

/-- Characters that leave the marks in front of them as they are. -/
def breaks (r : List Char) : Bool :=
  r.head?.all isBreak

theorem marksFrom_of_isOutside {p : Place} {r : List Char} (hp : p.isOutside = true)
    (hr : breaks r = true) : marksFrom p r = p.last ++ marks r := by
  cases r with
  | nil => simp [marks, marksFrom, Place.last]
  | cons c r =>
      simp only [breaks, List.head?_cons, Option.all_some, isBreak, Bool.and_eq_true,
        decide_eq_true_eq, Bool.not_eq_true'] at hr
      obtain ⟨⟨⟨hname, hdigit⟩, hminus⟩, hstar⟩ := hr
      cases p <;> simp_all [Place.isOutside, marks, marksFrom, Place.next, Place.completed,
        Place.last]

/-- What stands behind a text that leaves nothing open does not change its marks. -/
theorem marksFrom_append {p : Place} {cs r : List Char} (h : (p.after cs).isOutside = true)
    (hr : breaks r = true) : marksFrom p (cs ++ r) = marksFrom p cs ++ marks r := by
  induction cs generalizing p with
  | nil => exact marksFrom_of_isOutside h hr
  | cons c cs ih => rw [List.cons_append, marksFrom, marksFrom, ih h, List.append_assoc]

theorem breaks_append {cs r : List Char} (h : breaks cs = true) (hr : breaks r = true) :
    breaks (cs ++ r) = true := by
  cases cs with
  | nil => exact hr
  | cons c cs => exact h

/-- A text shows some marks, if what follows it breaks. -/
def Shows (s : String) (ms : List Mark) : Prop :=
  ∀ r, breaks r = true → marks (s.toList ++ r) = ms ++ marks r

variable {s s' t : String} {ms ms' : List Mark}

theorem shows_of_isOutside (h : (Place.plain.after s.toList).isOutside = true) :
    Shows s (marks s.toList) :=
  fun _ hr => marksFrom_append h hr

theorem Shows.marks_eq (h : Shows s ms) : marks s.toList = ms := by
  have hnil := h [] rfl
  rw [List.append_nil] at hnil
  rw [hnil]
  exact List.append_nil ms

theorem shows_empty : Shows "" [] :=
  fun _ _ => rfl

theorem Shows.append (h : Shows s ms) (h' : Shows s' ms') (hbreaks : breaks s'.toList = true) :
    Shows (s ++ s') (ms ++ ms') := by
  intro r hr
  rw [String.toList_append, List.append_assoc, h _ (breaks_append hbreaks hr), h' r hr,
    List.append_assoc]

/-! ## Characters without marks -/

/-- A character that begins no quote, no comment and no placeholder. -/
def isInert (c : Char) : Bool :=
  Place.begin c = .plain

/-- A text without marks that keeps what stands at its sides apart. -/
def isGap (t : String) : Bool :=
  t.toList.head?.any isBreak && t.toList.all isInert

theorem marks_cons {c : Char} (hc : isInert c = true) (r : List Char) :
    marks (c :: r) = marks r := by
  change [] ++ marksFrom (Place.begin c) r = _
  rw [of_decide_eq_true hc]
  rfl

theorem marks_append {cs : List Char} (hcs : ∀ c ∈ cs, isInert c = true) (r : List Char) :
    marks (cs ++ r) = marks r := by
  induction cs with
  | nil => rfl
  | cons c cs ih =>
      obtain ⟨hc, hcs⟩ := List.forall_mem_cons.1 hcs
      rw [List.cons_append, marks_cons hc, ih hcs]

theorem shows_of_all (h : s.toList.all isInert = true) : Shows s [] :=
  fun r _ => marks_append (List.all_eq_true.1 h) r

theorem Shows.behind (h : Shows s ms) (t : String) (ht : t.toList.all isInert = true) :
    Shows (t ++ s) ms := by
  intro r hr
  rw [String.toList_append, List.append_assoc, marks_append (List.all_eq_true.1 ht), h r hr]

theorem breaks_of_isGap (ht : isGap t = true) : breaks (t ++ s).toList = true := by
  obtain ⟨c, hc, hbreak⟩ := (Option.any_eq_true _ _).1 (Bool.and_eq_true_iff.1 ht).1
  rw [breaks, String.toList_append, List.head?_append, hc]
  exact hbreak

/-- Two texts with another between them that has no marks. -/
theorem Shows.join (h : Shows s ms) (t : String) (ht : isGap t = true) (h' : Shows s' ms') :
    Shows (s ++ t ++ s') (ms ++ ms') := by
  rw [String.append_assoc]
  exact h.append (h'.behind t (Bool.and_eq_true_iff.1 ht).2) (breaks_of_isGap ht)

theorem Shows.before (h : Shows s ms) (t : String) (ht : isGap t = true) : Shows (s ++ t) ms := by
  have hjoin := h.join t ht shows_empty
  rwa [String.append_empty, List.append_nil] at hjoin

/-- Texts with another between each two of them. -/
theorem shows_intercalate {α : Type} {f : α → String} {g : α → List Mark} {xs : List α} (t : String)
    (ht : isGap t = true) (h : ∀ x ∈ xs, Shows (f x) (g x)) :
    Shows (t.intercalate (xs.map f)) (xs.flatMap g) := by
  induction xs with
  | nil => exact shows_empty
  | cons x xs ih =>
      obtain ⟨hx, hxs⟩ := List.forall_mem_cons.1 h
      cases xs with
      | nil => simpa using hx
      | cons y ys =>
          rw [List.map_cons, List.map_cons, String.intercalate_cons_cons, List.flatMap_cons]
          exact hx.join t ht (ih hxs)

theorem isInert_of_isDigit {c : Char} (h : c.isDigit = true) : isInert c = true := by
  have hne (d : Char) (hd : d.isDigit = false) : c ≠ d := by
    rintro rfl
    rw [h] at hd
    exact Bool.noConfusion hd
  simp [isInert, Place.begin, hne '"' rfl, hne '\'' rfl, hne '\x60' rfl, hne '[' rfl, hne '?' rfl,
    hne '-' rfl, hne '/' rfl]

/-- A minus sign in front of another character is no comment. -/
theorem marks_minus {r : List Char} (h : r.head? ≠ some '-') : marks ('-' :: r) = marks r := by
  cases r with
  | nil => rfl
  | cons c r =>
      have hc : c ≠ '-' := by simpa using h
      change marksFrom .minus (c :: r) = marksFrom .plain (c :: r)
      simp [marksFrom, Place.next, Place.completed, hc]

/-- A minus sign in front of characters without marks. -/
theorem marks_negative {cs : List Char} (hne : cs ≠ []) (hcs : ∀ c ∈ cs, isInert c = true)
    (r : List Char) : marks ('-' :: (cs ++ r)) = marks r := by
  rw [marks_minus, marks_append hcs]
  obtain ⟨c, cs, rfl⟩ := List.exists_cons_of_ne_nil hne
  have hc := (List.forall_mem_cons.1 hcs).1
  rintro hminus
  obtain rfl : c = '-' := by simpa using hminus
  exact absurd hc (by decide)

/-! ## Names, texts and placeholders -/

theorem marksFrom_name (cs read r : List Char) :
    marksFrom (.name read) (Quoted.double '"' cs ++ '"' :: r) =
      marksFrom (.closed (cs.reverse ++ read)) r := by
  induction cs generalizing read with
  | nil => simp [Quoted.double, marksFrom, Place.next, Place.completed]
  | cons c cs ih =>
      rw [Quoted.double]
      by_cases hc : c = '"'
      · simp only [hc, if_true, List.cons_append]
        simp only [marksFrom, Place.next, Place.completed, if_true, List.nil_append, ih]
        simp
      · simp only [hc, if_false, List.cons_append]
        simp only [marksFrom, Place.next, Place.completed, hc, if_false, List.nil_append, ih]
        simp

theorem shows_quoteName (n : String) : Shows (quoteName n) [.name n] := by
  intro r hr
  rw [quoteName, String.toList_ofList, Quoted.wrap, List.cons_append, List.append_assoc,
    List.singleton_append]
  change marksFrom (.name []) _ = _
  rw [marksFrom_name, marksFrom_of_isOutside rfl hr]
  simp [Place.last]

example : quotedNames "'\"a\"' || \"b\"\"c\".d /* \"e\" */" = ["b\"c"] := by decide

theorem marksFrom_quote (cs r : List Char) :
    marksFrom (.quote '\'') (Quoted.double '\'' cs ++ '\'' :: r) = marks r := by
  induction cs with
  | nil => simp [Quoted.double, marksFrom, Place.next, Place.completed, marks]
  | cons c cs ih =>
      rw [Quoted.double]
      by_cases hc : c = '\''
      · simp only [hc, if_true, List.cons_append]
        simpa [marksFrom, Place.next, Place.completed, Place.begin] using ih
      · simpa [hc, marksFrom, Place.next, Place.completed] using ih

theorem shows_quoteText (n : String) : Shows (quoteText n) [] := by
  intro r _
  rw [quoteText, String.toList_ofList, Quoted.wrap, List.cons_append, List.append_assoc,
    List.singleton_append]
  exact marksFrom_quote n.toList r

theorem marksFrom_digits {ds read r : List Char} (hds : ∀ c ∈ ds, c.isDigit = true) :
    marksFrom (.digits read) (ds ++ r) = marksFrom (.digits (ds.reverse ++ read)) r := by
  induction ds generalizing read with
  | nil => rfl
  | cons d ds ih =>
      obtain ⟨hd, hds⟩ := List.forall_mem_cons.1 hds
      simp only [List.cons_append, marksFrom, Place.next, Place.completed, hd, if_true,
        List.nil_append, ih hds]
      simp

/-- A question mark and digits, behind a place that is outside. -/
theorem marksFrom_placeholder {p : Place} {ds r : List Char} (hp : p.isOutside = true)
    (hds : ∀ c ∈ ds, c.isDigit = true) (hr : ∀ c ∈ r.head?, c.isDigit = false) :
    marksFrom p ('?' :: (ds ++ r)) = p.last ++ .placeholder (String.ofList ds) :: marks r := by
  rw [marksFrom_of_isOutside hp rfl]
  change p.last ++ marksFrom (.digits []) (ds ++ r) = _
  rw [marksFrom_digits hds, List.append_nil]
  congr 1
  cases r with
  | nil => simp [marksFrom, marks, Place.last]
  | cons c r => simp [marksFrom, marks, Place.next, Place.completed, hr c rfl]

theorem isDigit_of_breaks {r : List Char} (h : breaks r = true) :
    ∀ c ∈ r.head?, c.isDigit = false := by
  intro c hc
  rw [Option.mem_def] at hc
  simp only [breaks, hc, Option.all_some, isBreak, Bool.and_eq_true, Bool.not_eq_true'] at h
  exact h.1.1.2

theorem toList_placeholder (n : Nat) : ("?" ++ toString n).toList = '?' :: Nat.toDigits 10 n := by
  rw [String.toList_append, show toString n = n.repr from rfl, Nat.toList_repr]
  rfl

theorem shows_placeholder (n : Nat) : Shows ("?" ++ toString n) [.placeholder (toString n)] := by
  intro r hr
  rw [toList_placeholder, List.cons_append, marks, marksFrom_placeholder rfl
    (fun _ => isDigit_of_mem_toDigits) (isDigit_of_breaks hr), ← Nat.toList_repr,
    String.ofList_toList]
  rfl

example : placeholders "a = ?12 -- ?3" = ["?12"] := by decide

/-! ## Literals -/

theorem shows_toString (n : Int) : Shows (toString n) [] := by
  intro r _
  cases n with
  | ofNat n =>
      rw [toList_toString_ofNat]
      exact marks_append (fun c hc => isInert_of_isDigit (isDigit_of_mem_toDigits hc)) r
  | negSucc n =>
      rw [toList_toString_negSucc]
      exact marks_negative Nat.toDigits_ne_nil
        (fun c hc => isInert_of_isDigit (isDigit_of_mem_toDigits hc)) r

theorem isInert_of_mem_zeros {n : Nat} {c : Char} (h : c ∈ List.replicate n '0') :
    isInert c = true := by
  rw [List.eq_of_mem_replicate h]
  rfl

/-- Characters without marks, and without a minus sign in front. -/
def Plain (cs : List Char) : Prop :=
  ∃ front rest, cs = front ++ rest ∧ front ≠ [] ∧ (∀ c ∈ front, isInert c = true) ∧
    ∀ r, marks (rest ++ r) = marks r

theorem Plain.marks_append {cs : List Char} (h : Plain cs) (r : List Char) :
    marks (cs ++ r) = marks r := by
  obtain ⟨front, rest, rfl, -, hfront, hrest⟩ := h
  rw [List.append_assoc, Sql.marks_append hfront, hrest]

theorem Plain.marks_negative {cs : List Char} (h : Plain cs) (r : List Char) :
    marks ('-' :: (cs ++ r)) = marks r := by
  obtain ⟨front, rest, rfl, hne, hfront, hrest⟩ := h
  rw [List.append_assoc, Sql.marks_negative hne hfront, hrest]

theorem plain_positional {s : Significant} (h : s.IsDigits) :
    Plain (NumberLayout.positional s) := by
  have hdigits : ∀ c ∈ s.digits, isInert c = true := fun c hc => isInert_of_isDigit (h c hc)
  have hinert : NumberLayout.positional s ≠ [] ∧
      ∀ c ∈ NumberLayout.positional s, isInert c = true := by
    unfold NumberLayout.positional
    dsimp only
    split
    · simp only [List.forall_mem_cons, List.forall_mem_append]
      exact ⟨by simp, rfl, rfl, fun c => isInert_of_mem_zeros, hdigits⟩
    · split
      · simp only [List.forall_mem_cons, List.forall_mem_append]
        exact ⟨by simp, ⟨hdigits, fun c => isInert_of_mem_zeros⟩, rfl, rfl, nofun⟩
      · simp only [List.forall_mem_cons, List.forall_mem_append]
        exact ⟨by simp, fun c hc => hdigits c (List.mem_of_mem_take hc), rfl,
          fun c hc => hdigits c (List.mem_of_mem_drop hc)⟩
  exact ⟨_, [], (List.append_nil _).symm, hinert.1, hinert.2, fun _ => rfl⟩

theorem marks_exponent (e : Int) (r : List Char) :
    marks (Binary64.plainLayout.exponent e ++ r) = marks r := by
  unfold NumberLayout.exponent
  dsimp only
  generalize hpadded : List.replicate (Binary64.plainLayout.exponentDigits -
    (Nat.toDigits 10 e.natAbs).length) '0' ++ Nat.toDigits 10 e.natAbs = padded
  have hne : padded ≠ [] := by
    rw [← hpadded]
    exact List.append_ne_nil_of_right_ne_nil _ Nat.toDigits_ne_nil
  have hinert : ∀ c ∈ padded, isInert c = true := by
    rw [← hpadded, List.forall_mem_append]
    exact ⟨fun c => isInert_of_mem_zeros,
      fun c hc => isInert_of_isDigit (isDigit_of_mem_toDigits hc)⟩
  split
  · exact marks_negative hne hinert r
  · exact marks_append hinert r

theorem plain_scientific {s : Significant} (h : s.IsDigits) :
    Plain (Binary64.plainLayout.scientific s) := by
  obtain ⟨tail, htail, hscientific⟩ : ∃ tail, (∀ c ∈ tail, isInert c = true) ∧
      Binary64.plainLayout.scientific s =
        s.digits.take 1 ++ tail ++ 'e' :: Binary64.plainLayout.exponent (s.point - 1) := by
    refine ⟨_, ?_, rfl⟩
    split
    · simp [Binary64.plainLayout]
    · exact List.forall_mem_cons.2 ⟨rfl, fun c hc =>
        isInert_of_isDigit (h c (List.mem_of_mem_drop hc))⟩
  rw [hscientific]
  refine ⟨s.digits.take 1 ++ tail ++ ['e'], Binary64.plainLayout.exponent (s.point - 1), by simp,
    by simp, ?_, fun r => marks_exponent _ r⟩
  simp only [List.forall_mem_append, List.forall_mem_singleton]
  exact ⟨⟨fun c hc => isInert_of_isDigit (h c (List.mem_of_mem_take hc)), htail⟩, rfl⟩

theorem shows_write {digits : Binary64 → Significant} {x : Binary64} (hx : x.isFinite = true)
    (h : (digits x).IsDigits) : Shows (Binary64.plainLayout.write digits x) [] := by
  intro r _
  cases x with
  | nan => cases hx
  | infinite negative => cases hx
  | finite negative m e hc =>
      unfold NumberLayout.write
      dsimp only
      generalize digits (.finite negative m e hc) = d at h
      have hzero : ∀ c ∈ ['0', '.', '0'], isInert c = true := List.all_eq_true.1 rfl
      split
      · split
        · exact marks_negative (List.cons_ne_nil _ _) hzero r
        · exact marks_append hzero r
      · have hbody : Plain (if (Binary64.plainLayout.lowest ≤ d.point &&
            d.point ≤ Binary64.plainLayout.highest) = true then NumberLayout.positional d
            else Binary64.plainLayout.scientific d) := by
          split
          · exact plain_positional h
          · exact plain_scientific h
        rw [String.toList_ofList]
        split
        · exact hbody.marks_negative r
        · exact hbody.marks_append r

theorem shows_toText {x : Binary64} (hx : x.isFinite = true) : Shows x.toText [] :=
  shows_write hx x.isDigits_shortest

theorem shows_literal (v : Storage) : Shows v.literal [] := by
  cases v with
  | null => exact shows_of_all rfl
  | integer n => exact shows_toString n.toInt
  | real x =>
      rw [Storage.literal]
      split
      · rename_i hx
        exact shows_toText hx
      · exact shows_of_all rfl
  | text s => exact shows_quoteText s
  | blob bytes =>
      intro r _
      rw [Storage.toList_literal_blob, ← Quoted.double_of_notMem (Hex.quote_notMem_encode bytes),
        List.cons_append, List.cons_append, List.append_assoc, List.singleton_append,
        marks_cons (by decide)]
      exact marksFrom_quote _ r

end StagedStore.Sql
