import StagedStore.Proofs.Text.Quoted
import StagedStore.Sql.Token

/-!
# Scanning token by token

`Token.scan` runs on a bound of steps and collects in reverse.  `tokens` is the same scan without
either: `tokens_cons` takes one token off the front, and all that is known about the text of a
statement follows from it.
-/

namespace StagedStore

theorem Quoted.suffix_of_read? {quote : Char} {cs s t : List Char}
    (h : Quoted.read? quote cs = some (s, t)) : t <:+ cs := by
  obtain ⟨rfl, -⟩ := Quoted.eq_of_read? h
  exact (List.suffix_cons _ _).trans (List.suffix_append _ _)

namespace Sql.Token

/-! ## What is left -/

theorem suffix_skipComment (cs : List Char) : skipComment cs <:+ cs := by
  fun_induction skipComment cs with
  | case1 r => exact ⟨['*', '/'], rfl⟩
  | case2 c r _ ih => exact ih.trans (List.suffix_cons _ _)
  | case3 => exact List.suffix_rfl

theorem suffix_readParam (cs : List Char) : (readParam cs).2 <:+ cs := by
  unfold readParam
  split
  · exact List.suffix_rfl
  · exact List.dropWhile_suffix _

theorem suffix_readBlob (cs : List Char) : (readBlob cs).2 <:+ cs := by
  unfold readBlob
  have h := List.dropWhile_suffix (l := cs) fun c : Char => decide (c ≠ '\'')
  dsimp only
  split
  · rename_i hd
    rw [hd] at h
    exact (List.suffix_cons _ _).trans h
  · exact List.nil_suffix

theorem suffix_of_readExponent? {cs rest : List Char} {n : Int}
    (h : Decimal.readExponent? cs = some (n, rest)) : rest <:+ cs := by
  have hsign : (Decimal.readSign cs).2 <:+ cs := by
    unfold Decimal.readSign
    split
    · exact List.suffix_cons _ _
    · exact List.suffix_cons _ _
    · exact List.suffix_rfl
  unfold Decimal.readExponent? at h
  simp only at h
  split at h
  · simp at h
  · obtain ⟨-, rfl⟩ := Prod.mk.inj (Option.some.inj h)
    exact (List.dropWhile_suffix _).trans hsign

/-- An exponent is read from what stands behind the digits. -/
theorem suffix_of_scanned {r : List Char} {plain : Decimal} {isInteger : Bool}
    {value : Int → Decimal} {s : Decimal.Scanned}
    (h : (match r with
      | c :: t =>
        if c = 'e' || c = 'E' then
          match Decimal.readExponent? t with
          | some (e, t') => some ⟨value e, false, t'⟩
          | none => some ⟨plain, isInteger, r⟩
        else some ⟨plain, isInteger, r⟩
      | [] => some ⟨plain, isInteger, r⟩) = some s) : s.rest <:+ r := by
  split at h
  · split at h
    · split at h
      · rename_i hx
        rw [← Option.some.inj h]
        exact (suffix_of_readExponent? hx).trans (List.suffix_cons _ _)
      · exact Option.some.inj h ▸ List.suffix_rfl
    · exact Option.some.inj h ▸ List.suffix_rfl
  · exact Option.some.inj h ▸ List.suffix_rfl

/-- A number takes at least one character. -/
theorem suffix_of_readUnsigned? {c : Char} {r : List Char} {s : Decimal.Scanned}
    (h : Decimal.readUnsigned? (c :: r) = some s) : s.rest <:+ r := by
  unfold Decimal.readUnsigned? at h
  dsimp only at h
  cases hc : c.isDigit with
  | true =>
      rw [List.takeWhile_cons_of_pos hc, List.dropWhile_cons_of_pos hc] at h
      have hdrop : r.dropWhile Char.isDigit <:+ r := List.dropWhile_suffix _
      split at h
      · rename_i t ht
        split at h
        · simp at h
        · rw [ht] at hdrop
          have hpoint : t <:+ r := (List.suffix_cons _ _).trans hdrop
          exact (suffix_of_scanned h).trans ((List.dropWhile_suffix _).trans hpoint)
      · split at h
        · simp at h
        · exact (suffix_of_scanned h).trans hdrop
  | false =>
      rw [List.takeWhile_cons_of_neg (by simp [hc]), List.dropWhile_cons_of_neg (by simp [hc])] at h
      split at h
      · rename_i t ht
        obtain ⟨rfl, rfl⟩ := List.cons.inj ht
        split at h
        · simp at h
        · exact (suffix_of_scanned h).trans (List.dropWhile_suffix _)
      · simp at h

theorem suffix_readNumber {c : Char} {r : List Char} : (readNumber (c :: r)).2 <:+ r := by
  unfold readNumber
  split
  · exact List.suffix_rfl
  · rename_i h
    have hrest := suffix_of_readUnsigned? h
    dsimp only at hrest
    split
    · split
      · exact (List.suffix_cons _ _).trans hrest
      · exact hrest
    · exact List.nil_suffix

theorem suffix_readSymbol (c : Char) (r : List Char) : (readSymbol c r).2 <:+ r := by
  unfold readSymbol
  split <;> first | exact List.suffix_cons _ _ | exact List.suffix_rfl

/-- What a token leaves is the end of the text. -/
theorem suffix_next (c : Char) (r : List Char) : (next c r).2 <:+ r := by
  unfold next
  split
  · exact List.suffix_rfl
  split
  · exact List.dropWhile_suffix _
  split
  · exact (suffix_skipComment _).trans (List.drop_suffix _ _)
  split
  · split
    · rename_i h
      exact Quoted.suffix_of_read? h
    · exact List.nil_suffix
  split
  · split
    · rename_i h
      exact Quoted.suffix_of_read? h
    · exact List.nil_suffix
  split
  · exact suffix_readParam r
  split
  · exact (suffix_readBlob _).trans (List.drop_suffix _ _)
  split
  · exact List.dropWhile_suffix _
  split
  · exact suffix_readNumber
  · exact suffix_readSymbol c r

theorem length_next_le (c : Char) (r : List Char) : (next c r).2.length ≤ r.length :=
  (suffix_next c r).length_le

theorem scanAfter_eq_append (fuel : Nat) (before : List Token) (cs : List Char) :
    scanAfter fuel before cs = before.reverse ++ scanAfter fuel [] cs := by
  induction fuel generalizing before cs with
  | zero => simp [scanAfter]
  | succ fuel ih =>
      cases cs with
      | nil => simp [scanAfter]
      | cons c r =>
          simp only [scanAfter]
          split
          · rename_i t rest _
            rw [ih (t :: before), ih [t]]
            simp
          · exact ih before _

theorem scanAfter_fuel {fuel fuel' : Nat} {cs : List Char} (h : cs.length ≤ fuel)
    (h' : cs.length ≤ fuel') (before : List Token) :
    scanAfter fuel before cs = scanAfter fuel' before cs := by
  induction fuel generalizing fuel' before cs with
  | zero =>
      obtain rfl : cs = [] := List.length_eq_zero_iff.1 (by omega)
      cases fuel' <;> rfl
  | succ fuel ih =>
      cases cs with
      | nil => cases fuel' <;> rfl
      | cons c r =>
          cases fuel' with
          | zero => simp at h'
          | succ fuel' =>
              have hlen := length_next_le c r
              simp only [List.length_cons] at h h'
              simp only [scanAfter]
              split
              · rename_i hn
                rw [hn] at hlen
                exact ih (by simp only at hlen; omega) (by simp only at hlen; omega) _
              · rename_i hn
                rw [hn] at hlen
                exact ih (by simp only at hlen; omega) (by simp only at hlen; omega) _

/-- The tokens of some characters. -/
def tokens (cs : List Char) : List Token :=
  scanAfter cs.length [] cs

@[simp] theorem tokens_nil : tokens [] = [] := rfl

theorem tokens_cons (c : Char) (r : List Char) :
    tokens (c :: r) =
      match next c r with
      | (some t, rest) => t :: tokens rest
      | (none, rest) => tokens rest := by
  have hlen := length_next_le c r
  unfold tokens
  simp only [List.length_cons, scanAfter]
  rcases hn : next c r with ⟨_ | t, rest⟩
  all_goals
    rw [hn] at hlen
    simp only at hlen ⊢
  · exact scanAfter_fuel hlen (Nat.le_refl _) []
  · rw [scanAfter_eq_append, scanAfter_fuel hlen (Nat.le_refl _)]
    rfl

theorem scan_eq_tokens (s : String) : scan s = tokens (s.toList.takeWhile (· ≠ '\x00')) := rfl

/-- The first token of some characters and what stands behind it; nothing if they do not begin with
a token. -/
def front? : List Char → Option (Token × List Char)
  | [] => none
  | c :: r =>
    match next c r with
    | (some t, rest) => some (t, rest)
    | (none, _) => none

theorem front?_of_next {c : Char} {r rest : List Char} {t : Token}
    (h : next c r = (some t, rest)) : front? (c :: r) = some (t, rest) := by
  rw [front?, h]

theorem next_of_front? {c : Char} {cs r : List Char} {t : Token}
    (h : front? (c :: cs) = some (t, r)) : next c cs = (some t, r) := by
  rw [front?] at h
  split at h
  · rename_i hn
    obtain ⟨rfl, rfl⟩ := Prod.mk.inj (Option.some.inj h)
    exact hn
  · cases h

theorem tokens_of_front? {cs rest : List Char} {t : Token} (h : front? cs = some (t, rest)) :
    tokens cs = t :: tokens rest := by
  cases cs with
  | nil => cases h
  | cons c r => rw [tokens_cons, next_of_front? h]

/-! ## Words -/

/-- A word that ends before these characters is not prolonged by them. -/
def endsWord (r : List Char) : Bool :=
  r.head?.all fun c => !continuesWord c && c ≠ '\''

theorem next_eq_of_startsWord {c : Char} {r : List Char} (hc : startsWord c = true)
    (hr : r.head? ≠ some '\'') :
    next c r = (some (ofWord (c :: r.takeWhile continuesWord)), r.dropWhile continuesWord) := by
  have hblank : isBlank c = false := by
    rw [Bool.eq_false_iff]
    intro hb
    simp only [isBlank, Bool.or_eq_true, decide_eq_true_eq] at hb
    rcases hb with (((rfl | rfl) | rfl) | rfl) | rfl <;> exact absurd hc (by decide)
  have hne (d : Char) (hd : startsWord d = false) : c ≠ d := by
    rintro rfl
    rw [hc] at hd
    exact Bool.noConfusion hd
  unfold next
  simp [hblank, hne '-' (by decide), hne '/' (by decide), hne '"' (by decide),
    hne '\'' (by decide), hne '?' (by decide), hr, hc]

theorem front?_word {c : Char} {w r : List Char} (hc : startsWord c = true)
    (hw : w.all continuesWord = true) (hr : endsWord r = true) :
    front? (c :: (w ++ r)) = some (ofWord (c :: w), r) := by
  have htake : (w ++ r).takeWhile continuesWord = w := by
    rw [List.takeWhile_append_of_pos (by simpa using hw)]
    cases r with
    | nil => simp
    | cons d r =>
        have hd : continuesWord d = false := by
          simp only [endsWord, List.head?_cons, Option.all_some, Bool.and_eq_true] at hr
          simpa using hr.1
        simp [hd]
  have hdrop : (w ++ r).dropWhile continuesWord = r := by
    rw [List.dropWhile_append_of_pos (by simpa using hw)]
    cases r with
    | nil => rfl
    | cons d r =>
        have hd : continuesWord d = false := by
          simp only [endsWord, List.head?_cons, Option.all_some, Bool.and_eq_true] at hr
          simpa using hr.1
        simp [hd]
  have hhead : (w ++ r).head? ≠ some '\'' := by
    cases w with
    | nil =>
        cases r with
        | nil => simp
        | cons d r =>
            simp only [endsWord, List.head?_cons, Option.all_some, Bool.and_eq_true] at hr
            simpa using hr.2
    | cons d w =>
        simp only [List.all_cons, Bool.and_eq_true] at hw
        rintro hd
        obtain rfl : d = '\'' := by simpa using hd
        exact absurd hw.1 (by decide)
  refine front?_of_next ?_
  rw [next_eq_of_startsWord hc hhead, htake, hdrop]

theorem tokens_word {c : Char} {w r : List Char} (hc : startsWord c = true)
    (hw : w.all continuesWord = true) (hr : endsWord r = true) :
    tokens (c :: (w ++ r)) = ofWord (c :: w) :: tokens r :=
  tokens_of_front? (front?_word hc hw hr)

theorem tokens_blank (r : List Char) : tokens (' ' :: r) = tokens r := by
  rw [tokens_cons]
  rfl

end Sql.Token

end StagedStore
