import StagedStore.Proofs.Sql.Scan

/-!
# Question marks in texts

A token in front of a question mark either leaves it or takes it away, whatever stands behind it.  So
where a text has as many parameters as question marks, the tokens between these are the same however
the parameters are numbered.
-/

namespace StagedStore

open Sql.Token

variable {α : Type}

/-- What is read in front of a question mark leaves it or takes it away, and what follows the
question mark does not matter to that. -/
def Settles (out : List Char → α × List Char) : Prop :=
  (∃ a v, ∀ b, out b = (a, v ++ '?' :: b)) ∨ ∀ b, (out b).2.length ≤ b.length

theorem Settles.map {β : Type} {out : List Char → α × List Char} (f : α → β) (h : Settles out) :
    Settles fun b => (out b).map f id := by
  rcases h with ⟨a, v, h⟩ | h
  · exact .inl ⟨f a, v, fun b => by dsimp only; rw [h]; rfl⟩
  · exact .inr h

/-! ## Runs of characters -/

theorem takeWhile_question {p : Char → Bool} (hp : p '?' = false) (u b : List Char) :
    (u ++ '?' :: b).takeWhile p = u.takeWhile p := by
  induction u with
  | nil => simp [hp]
  | cons c u ih =>
      rw [List.cons_append, List.takeWhile_cons, List.takeWhile_cons, ih]

theorem dropWhile_question {p : Char → Bool} (hp : p '?' = false) (u b : List Char) :
    (u ++ '?' :: b).dropWhile p = u.dropWhile p ++ '?' :: b := by
  induction u with
  | nil => simp [hp]
  | cons c u ih =>
      rw [List.cons_append, List.dropWhile_cons, List.dropWhile_cons, ih]
      split <;> rfl

/-- A run that a question mark prolongs ends in front of it or behind it. -/
theorem dropWhile_settles {p : Char → Bool} (hp : p '?' = true) (u : List Char) :
    (∃ x v, ∀ b, (u ++ '?' :: b).takeWhile p = u.takeWhile p ∧
      (u ++ '?' :: b).dropWhile p = x :: (v ++ '?' :: b)) ∨
    ∀ b, (u ++ '?' :: b).dropWhile p = b.dropWhile p := by
  induction u with
  | nil => exact .inr fun b => by simp [hp]
  | cons c u ih =>
      cases hc : p c with
      | true =>
          simpa [hc] using ih
      | false => exact .inl ⟨c, u, fun b => by simp [hc]⟩

namespace Sql.Token

theorem settles_skipComment (u : List Char) :
    (∃ v, ∀ b, skipComment (u ++ '?' :: b) = v ++ '?' :: b) ∨
      ∀ b, (skipComment (u ++ '?' :: b)).length ≤ b.length := by
  fun_induction skipComment u with
  | case1 r => exact .inl ⟨r, fun b => rfl⟩
  | case2 c r hstar ih =>
      have hstep (b : List Char) :
          skipComment (c :: (r ++ '?' :: b)) = skipComment (r ++ '?' :: b) := by
        rw [skipComment]
        intro r' hc hr
        cases r with
        | nil => simp at hr
        | cons d r =>
            obtain ⟨rfl, -⟩ := List.cons.inj hr
            exact hstar r hc rfl
      simpa only [List.cons_append, hstep] using ih
  | case3 =>
      refine .inr fun b => ?_
      rw [List.nil_append, skipComment]
      · exact (suffix_skipComment b).length_le
      · simp

theorem settles_blob (u : List Char) : Settles fun b => readBlob (u ++ '?' :: b) := by
  unfold readBlob
  rcases dropWhile_settles (p := fun c : Char => decide (c ≠ '\'')) (by decide) u with ⟨x, v, h⟩ | h
  · exact .inl ⟨_, v, fun b => by simp only [(h b).1, (h b).2]; rfl⟩
  · refine .inr fun b => ?_
    have hrest := (List.dropWhile_suffix (l := b) fun c : Char => decide (c ≠ '\'')).length_le
    simp only [h b]
    split
    · rename_i hb
      rw [hb] at hrest
      exact Nat.le_of_succ_le hrest
    · exact Nat.zero_le _

/-! ## Numbers -/

theorem readExponent?_question (u : List Char) :
    ∃ o, ∀ b, Decimal.readExponent? (u ++ '?' :: b) =
      Option.map (fun p : Int × List Char => (p.1, p.2 ++ '?' :: b)) o := by
  have hsign : ∃ n v, ∀ b, Decimal.readSign (u ++ '?' :: b) = (n, v ++ '?' :: b) := by
    unfold Decimal.readSign
    cases u with
    | nil => exact ⟨false, [], fun b => rfl⟩
    | cons c u =>
        by_cases hminus : c = '-'
        · exact ⟨true, u, fun b => by rw [hminus]; rfl⟩
        · by_cases hplus : c = '+'
          · exact ⟨false, u, fun b => by rw [hplus]; rfl⟩
          · refine ⟨false, c :: u, fun b => ?_⟩
            rw [List.cons_append]
            split
            · rename_i heq
              exact absurd (List.cons.inj heq).1 hminus
            · rename_i heq
              exact absurd (List.cons.inj heq).1 hplus
            · rfl
  obtain ⟨n, v, hsign⟩ := hsign
  cases hdigits : v.takeWhile Char.isDigit with
  | nil =>
      refine ⟨none, fun b => ?_⟩
      simp only [Decimal.readExponent?, hsign, takeWhile_question (p := Char.isDigit) rfl, hdigits]
      rfl
  | cons d ds =>
      refine ⟨some (if n then -(digitsValue (d :: ds)) else digitsValue (d :: ds),
        v.dropWhile Char.isDigit), fun b => ?_⟩
      simp only [Decimal.readExponent?, hsign, takeWhile_question (p := Char.isDigit) rfl,
        dropWhile_question (p := Char.isDigit) rfl, hdigits]
      rfl

/-- A number whose digits are known, with the exponent that may stand behind them. -/
def scaled (whole fraction : List Char) (hasPoint : Bool) (r : List Char) :
    Option Decimal.Scanned :=
  if whole.isEmpty && fraction.isEmpty then none
  else
    let digits := digitsValue (whole ++ fraction)
    let places : Int := fraction.length
    let plain : Decimal.Scanned := ⟨⟨false, digits, -places⟩, !hasPoint, r⟩
    match r with
    | c :: t =>
      if c = 'e' || c = 'E' then
        match Decimal.readExponent? t with
        | some (e, t') => some ⟨⟨false, digits, e - places⟩, false, t'⟩
        | none => some plain
      else some plain
    | [] => some plain

theorem scaled_question (whole fraction : List Char) (hasPoint : Bool) (u : List Char) :
    ∃ o, ∀ b, scaled whole fraction hasPoint (u ++ '?' :: b) =
      Option.map (fun s : Decimal.Scanned => { s with rest := s.rest ++ '?' :: b }) o := by
  unfold scaled
  split
  · exact ⟨none, fun b => rfl⟩
  · dsimp only
    cases u with
    | nil => exact ⟨some ⟨_, !hasPoint, []⟩, fun b => rfl⟩
    | cons c u =>
        simp only [List.cons_append]
        split
        · obtain ⟨_ | ⟨e, v⟩, ho⟩ := readExponent?_question u
          · exact ⟨some ⟨_, !hasPoint, c :: u⟩, fun b => by rw [ho]; rfl⟩
          · exact ⟨some ⟨_, false, v⟩, fun b => by rw [ho]; rfl⟩
        · exact ⟨some ⟨_, !hasPoint, c :: u⟩, fun b => rfl⟩

theorem readUnsigned?_eq_scaled {cs t : List Char} (h : cs.dropWhile Char.isDigit = '.' :: t) :
    Decimal.readUnsigned? cs =
      scaled (cs.takeWhile Char.isDigit) (t.takeWhile Char.isDigit) true
        (t.dropWhile Char.isDigit) := by
  unfold Decimal.readUnsigned?
  rw [h]
  rfl

theorem readUnsigned?_eq_scaled_of_ne {cs : List Char}
    (h : ∀ t, cs.dropWhile Char.isDigit ≠ '.' :: t) :
    Decimal.readUnsigned? cs =
      scaled (cs.takeWhile Char.isDigit) [] false (cs.dropWhile Char.isDigit) := by
  unfold Decimal.readUnsigned?
  dsimp only
  split
  · rename_i heq
    exact absurd heq (h _)
  · rfl

theorem readUnsigned?_question (u : List Char) :
    ∃ o, ∀ b, Decimal.readUnsigned? (u ++ '?' :: b) =
      Option.map (fun s : Decimal.Scanned => { s with rest := s.rest ++ '?' :: b }) o := by
  have hdrop (b : List Char) : (u ++ '?' :: b).dropWhile Char.isDigit =
      u.dropWhile Char.isDigit ++ '?' :: b := dropWhile_question rfl u b
  by_cases hdot : ∃ v, u.dropWhile Char.isDigit = '.' :: v
  · obtain ⟨v, hv⟩ := hdot
    obtain ⟨o, ho⟩ := scaled_question (u.takeWhile Char.isDigit) (v.takeWhile Char.isDigit) true
      (v.dropWhile Char.isDigit)
    refine ⟨o, fun b => ?_⟩
    rw [readUnsigned?_eq_scaled (t := v ++ '?' :: b) (by rw [hdrop, hv]; rfl),
      takeWhile_question rfl, takeWhile_question rfl, dropWhile_question rfl, ho]
  · obtain ⟨o, ho⟩ := scaled_question (u.takeWhile Char.isDigit) [] false
      (u.dropWhile Char.isDigit)
    refine ⟨o, fun b => ?_⟩
    have hne (t : List Char) : (u ++ '?' :: b).dropWhile Char.isDigit ≠ '.' :: t := by
      rw [hdrop]
      cases hd : u.dropWhile Char.isDigit with
      | nil => simp
      | cons x v => exact fun heq => hdot ⟨v, by rw [hd, (List.cons.inj heq).1]⟩
    rw [readUnsigned?_eq_scaled_of_ne hne, takeWhile_question rfl, hdrop, ho]

theorem settles_number (c : Char) (u : List Char) : 
    Settles fun b => readNumber (c :: (u ++ '?' :: b)) := by
  unfold readNumber
  obtain ⟨_ | ⟨d, i, v⟩, ho⟩ := readUnsigned?_question (c :: u)
  · exact .inl ⟨.illegal, u, fun b => by dsimp only; rw [← List.cons_append, ho]; rfl⟩
  · cases v with
    | nil =>
        exact .inl ⟨.number d i, [], fun b => by dsimp only; rw [← List.cons_append, ho]; rfl⟩
    | cons e v =>
        cases he : continuesWord e with
        | true =>
            refine .inl ⟨.illegal, v, fun b => ?_⟩
            dsimp only
            rw [← List.cons_append, ho]
            exact if_pos he
        | false =>
            refine .inl ⟨.number d i, e :: v, fun b => ?_⟩
            dsimp only
            rw [← List.cons_append, ho]
            exact if_neg (by simp [he])

/-! ## Tokens -/

theorem settles_quoted {quote : Char} (hquote : quote ≠ '?') (f : List Char → Option Token)
    (u : List Char) : Settles fun b => match Quoted.read? quote (u ++ '?' :: b) with
      | some (s, t) => (f s, t)
      | none => (some .illegal, []) := by
  by_cases h : ∃ s v, u = Quoted.double quote s ++ quote :: v ∧ v.head? ≠ some quote
  · obtain ⟨s, v, rfl, hv⟩ := h
    refine .inl ⟨f s, v, fun b => ?_⟩
    have hhead : (v ++ '?' :: b).head? ≠ some quote := by
      cases v with
      | nil => simpa using hquote.symm
      | cons c v => exact hv
    dsimp only
    rw [List.append_assoc, List.cons_append, Quoted.read?_double hhead]
  · refine .inr fun b => ?_
    dsimp only
    split
    · rename_i s t hread
      obtain ⟨heq, ht⟩ := Quoted.eq_of_read? hread
      -- the closing quote stands behind the question mark, or the text had ended before it
      rcases List.append_eq_append_iff.1 heq.symm with ⟨w, rfl, hrest⟩ | ⟨w, -, hrest⟩
      · cases w with
        | nil => exact absurd (List.cons.inj hrest).1 hquote
        | cons c v =>
            obtain ⟨rfl, rfl⟩ := List.cons.inj hrest
            refine absurd ⟨s, v, rfl, fun hv => ht ?_⟩ h
            obtain ⟨v, rfl⟩ := List.head?_eq_some_iff.1 hv
            rfl
      · have hlength := congrArg List.length hrest
        simp only [List.length_cons, List.length_append] at hlength
        dsimp only
        omega
    · exact Nat.zero_le _

theorem settles_param (u : List Char) : Settles fun b => readParam (u ++ '?' :: b) := by
  unfold readParam Settles
  simp only [takeWhile_question (p := Char.isDigit) rfl, dropWhile_question (p := Char.isDigit) rfl]
  cases u.takeWhile Char.isDigit with
  | nil => exact .inl ⟨_, u, fun b => rfl⟩
  | cons d ds => exact .inl ⟨_, _, fun b => rfl⟩

theorem readSymbol_cons (c d : Char) (r : List Char) :
    readSymbol c (d :: r) = ((readSymbol c [d]).1, (readSymbol c [d]).2 ++ r) := by
  unfold readSymbol
  split <;> split <;> simp_all

theorem settles_symbol (c : Char) (u : List Char) : 
    Settles fun b => readSymbol c (u ++ '?' :: b) := by
  cases u with
  | nil =>
      have hrest : (readSymbol c ['?']).2 = ['?'] := by
        unfold readSymbol
        split <;> simp_all
      refine .inl ⟨(readSymbol c ['?']).1, [], fun b => ?_⟩
      dsimp only
      rw [List.nil_append, readSymbol_cons, hrest]
      rfl
  | cons d u =>
      refine .inl ⟨(readSymbol c [d]).1, (readSymbol c [d]).2 ++ u, fun b => ?_⟩
      dsimp only
      rw [List.cons_append, readSymbol_cons, List.append_assoc]

/-- A token leaves a question mark behind it or takes it away, whatever follows that. -/
theorem settles_next (c : Char) (u : List Char) : Settles fun b => next c (u ++ '?' :: b) := by
  -- what the token is tells itself from the first of the characters behind it
  obtain ⟨d, hd⟩ : ∃ d, ∀ b, (u ++ '?' :: b).head? = some d := by
    cases u with
    | nil => exact ⟨'?', fun b => rfl⟩
    | cons d u => exact ⟨d, fun b => rfl⟩
  have hbehind {e : Char} (he : e ≠ '?') (h : some d = some e) : ∃ v, u = e :: v := by
    cases u with
    | nil => exact absurd ((hd []).trans h) (by simpa using he.symm)
    | cons c v => exact ⟨v, by rw [Option.some.inj ((hd []).trans h)]⟩
  have hnext := fun b => next.eq_1 c (u ++ '?' :: b)
  simp only [hd] at hnext
  rw [funext hnext]
  split
  · exact .inl ⟨none, u, fun b => rfl⟩
  split
  · rcases dropWhile_settles (p := fun c : Char => decide (c ≠ '\n')) (by decide) u with
      ⟨x, v, h⟩ | h
    · exact .inl ⟨none, x :: v, fun b => by dsimp only; rw [(h b).2]; rfl⟩
    · refine .inr fun b => ?_
      dsimp only
      rw [h]
      exact (List.dropWhile_suffix _).length_le
  split
  · rename_i hstar
    obtain ⟨v, rfl⟩ := hbehind (by decide) hstar.2
    rcases settles_skipComment v with ⟨w, h⟩ | h
    · exact .inl ⟨none, w, fun b => congrArg (none, ·) (h b)⟩
    · exact .inr h
  split
  · exact settles_quoted (by decide) _ u
  split
  · exact settles_quoted (by decide) _ u
  split
  · exact (settles_param u).map some
  split
  · rename_i hquote
    obtain ⟨v, rfl⟩ := hbehind (by decide) hquote.2
    exact (settles_blob v).map some
  split
  · simp only [takeWhile_question (p := continuesWord) rfl,
      dropWhile_question (p := continuesWord) rfl]
    exact .inl ⟨_, _, fun b => rfl⟩
  split
  · exact (settles_number c u).map some
  · exact (settles_symbol c u).map some

/-! ## Parameters -/

/-- Only a question mark begins a parameter. -/
theorem eq_question_of_param {c : Char} {r rest : List Char} {i : Option Nat}
    (h : next c r = (some (.param i), rest)) : c = '?' := by
  have hnumber (cs : List Char) : (readNumber cs).1 ≠ .param i := by
    unfold readNumber
    split
    · simp
    · split
      · split <;> simp
      · simp
  have hblob (cs : List Char) : (readBlob cs).1 ≠ .param i := by
    unfold readBlob
    dsimp only
    split
    · split <;> simp
    · simp
  have hsymbol : (readSymbol c r).1 ≠ .param i := by
    unfold readSymbol
    split
    case h_9 =>
      dsimp only
      split <;> simp
    all_goals simp
  have hword (cs : List Char) : ofWord cs ≠ .param i := by
    unfold ofWord
    dsimp only
    split <;> simp
  have hmap {p : Token × List Char} (h : p.map some id = (some (.param i), rest)) :
      p.1 = .param i := Option.some.inj (Prod.mk.inj h).1
  refine Decidable.byContradiction fun hc => ?_
  unfold next at h
  split at h
  · cases h
  split at h
  · cases h
  split at h
  · cases h
  split at h
  · split at h <;> cases h
  split at h
  · split at h <;> cases h
  split at h
  · exact hblob _ (hmap h)
  split at h
  · exact hword _ (Option.some.inj (Prod.mk.inj h).1)
  split at h
  · exact hnumber _ (hmap h)
  · exact hsymbol (hmap h)

/-- The number of parameters without a number. -/
abbrev openParams (ts : List Token) : Nat :=
  ts.count (.param none)

/-- Each parameter has a question mark of its own. -/
theorem openParams_le (cs : List Char) : openParams (tokens cs) ≤ cs.count '?' := by
  induction hn : cs.length using Nat.strongRecOn generalizing cs with
  | ind n ih =>
      cases cs with
      | nil => exact Nat.le_refl 0
      | cons c r =>
          have hsuffix := suffix_next c r
          rcases hstep : next c r with ⟨t, rest⟩
          rw [hstep] at hsuffix
          have hrest : openParams (tokens rest) ≤ r.count '?' :=
            Nat.le_trans (ih _ (by rw [← hn]; exact Nat.lt_succ_of_le hsuffix.length_le) rest rfl)
              (hsuffix.sublist.count_le _)
          have hcount : r.count '?' ≤ (c :: r).count '?' := (List.sublist_cons_self c r).count_le _
          rw [tokens_cons, hstep]
          cases t with
          | none => exact Nat.le_trans hrest hcount
          | some t =>
              by_cases ht : t = .param none
              · subst ht
                obtain rfl := eq_question_of_param hstep
                rw [List.count_cons_self]
                dsimp only
                rw [openParams, List.count_cons_self]
                exact Nat.succ_le_succ hrest
              · dsimp only
                rw [openParams, List.count_cons_of_ne (by simpa using ht)]
                exact Nat.le_trans hrest hcount

/-- A text with as many parameters as question marks: each of these is one. -/
def Tight (cs : List Char) : Prop :=
  openParams (tokens cs) = cs.count '?'

theorem tokens_question_of_digit {r : List Char} (hr : ∀ c ∈ r.head?, c.isDigit = false) :
    tokens ('?' :: r) = .param none :: tokens r := by
  have hdigits : r.takeWhile Char.isDigit = [] := by
    cases r with
    | nil => rfl
    | cons c r => rw [List.takeWhile_cons, hr c rfl, if_neg Bool.false_ne_true]
  have hnext : next '?' r = (some (.param none), r) := by
    have hparam : next '?' r = (readParam r).map some id := rfl
    rw [hparam, readParam, hdigits]
    rfl
  rw [tokens_cons, hnext]

/-- A parameter whose question mark is its own has no digits behind it. -/
theorem Tight.question {b : List Char} (h : Tight ('?' :: b)) :
    (∀ c ∈ b.head?, c.isDigit = false) ∧ Tight b := by
  have hdigit : ∀ c ∈ b.head?, c.isDigit = false := by
    intro c hc
    refine Bool.eq_false_iff.2 fun hdigit => ?_
    obtain ⟨r, rfl⟩ := List.head?_eq_some_iff.1 hc
    have hparam : next '?' (c :: r) = (readParam (c :: r)).map some id := rfl
    have hsome : openParams (tokens ('?' :: c :: r)) ≤ openParams (tokens (readParam (c :: r)).2) := by
      rw [tokens_cons, hparam]
      simp only [readParam, List.takeWhile_cons, hdigit, if_true]
      refine Nat.le_of_eq (List.count_cons_of_ne ?_)
      split <;> simp
    have hle := Nat.le_trans (openParams_le _) ((suffix_readParam (c :: r)).sublist.count_le '?')
    rw [Tight, List.count_cons_self] at h
    omega
  refine ⟨hdigit, ?_⟩
  rw [Tight, tokens_question_of_digit hdigit, openParams, List.count_cons_self,
    List.count_cons_self] at h
  exact Nat.succ.inj h

/-- Up to the first question mark the tokens are the same, whatever stands behind it. -/
theorem Tight.before {u b : List Char} (hu : '?' ∉ u) (h : Tight (u ++ '?' :: b)) :
    ∃ ts, (∀ i, .param i ∉ ts) ∧ (∀ b', tokens (u ++ '?' :: b') = ts ++ tokens ('?' :: b')) ∧
      Tight ('?' :: b) := by
  induction hn : u.length using Nat.strongRecOn generalizing u with
  | ind n ih =>
      cases u with
      | nil => exact ⟨[], by simp, fun b' => rfl, h⟩
      | cons c u =>
          rw [List.mem_cons, not_or] at hu
          have hsuffix := suffix_next c (u ++ '?' :: b)
          have hle := openParams_le (next c (u ++ '?' :: b)).2
          have hstep : openParams (tokens (next c (u ++ '?' :: b)).2) =
              (u ++ '?' :: b).count '?' := by
            rw [Tight, List.cons_append, List.count_cons_of_ne (by simpa using Ne.symm hu.1),
              tokens_cons] at h
            rw [← h]
            rcases hnext : next c (u ++ '?' :: b) with ⟨_ | t, rest⟩
            · rfl
            · refine (List.count_cons_of_ne ?_).symm
              rintro rfl
              exact hu.1 (eq_question_of_param hnext).symm
          rcases settles_next c u with ⟨t, v, hv⟩ | hlong
          · have hv (b' : List Char) : next c (u ++ '?' :: b') = (t, v ++ '?' :: b') := hv b'
            have hshort : v <:+ u := by
              rw [hv] at hsuffix
              obtain ⟨w, hw⟩ := hsuffix
              exact ⟨w, List.append_cancel_right ((List.append_assoc ..).trans hw)⟩
            have hfree : '?' ∉ v := fun hin => hu.2 (hshort.subset hin)
            have htight : Tight (v ++ '?' :: b) := by
              rw [hv] at hstep
              rw [Tight, hstep, List.count_append, List.count_append,
                List.count_eq_zero_of_not_mem hu.2, List.count_eq_zero_of_not_mem hfree]
            obtain ⟨ts, hts, htokens, hb⟩ := ih _ (by
              rw [← hn]
              exact Nat.lt_succ_of_le hshort.length_le) hfree htight rfl
            have htext (b' : List Char) : tokens (c :: u ++ '?' :: b') =
                t.toList ++ tokens (v ++ '?' :: b') := by
              rw [List.cons_append, tokens_cons, hv]
              cases t <;> rfl
            refine ⟨t.toList ++ ts, fun i hi => ?_, fun b' => ?_, hb⟩
            · rcases List.mem_append.1 hi with hi | hi
              · obtain rfl := Option.mem_toList.1 hi
                exact hu.1 (eq_question_of_param (hv b)).symm
              · exact hts i hi
            · rw [htext, htokens, List.append_assoc]
          · -- the question mark was taken away, and there are too few behind it
            have hbehind : (next c (u ++ '?' :: b)).2 <:+ b := by
              refine List.suffix_of_suffix_length_le hsuffix ?_ (hlong b)
              exact (List.suffix_cons _ _).trans (List.suffix_append _ _)
            have hfew := hbehind.sublist.count_le '?'
            rw [hstep] at hle
            rw [List.count_append, List.count_cons_self] at hle
            omega

end Sql.Token

end StagedStore
