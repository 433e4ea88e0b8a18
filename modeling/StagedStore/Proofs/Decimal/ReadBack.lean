import StagedStore.Proofs.Decimal.Rounding

/-!
# Texts of reals, read back

The text of every real is read as that real. A finite number is laid out with a point among its
digits or with an exponent behind them; either way the digits and the places behind the point give
the number that the shortest digits stand for.
-/

namespace StagedStore

/-- Characters that do not prolong a number with a point in front of them. -/
def endsNumber (r : List Char) : Prop :=
  ∀ c ∈ r.head?, c.isDigit = false ∧ c ≠ 'e' ∧ c ≠ 'E'

theorem endsNumber.digits {r : List Char} (h : endsNumber r) : ∀ c ∈ r.head?, c.isDigit = false :=
  fun c hc => (h c hc).1

namespace Decimal

variable {w f r : List Char}

/-! ## Points and exponents -/

/-- Characters are read as an unsigned number that is not written as an integer, whatever follows
that does not prolong it. -/
def Reads (cs : List Char) (d : Decimal) : Prop :=
  ∀ r, endsNumber r → readUnsigned? (cs ++ r) = some ⟨d, false, r⟩

theorem reads_point (hw : ∀ c ∈ w, c.isDigit = true) (hne : w ≠ [])
    (hf : ∀ c ∈ f, c.isDigit = true) :
    Reads (w ++ '.' :: f) ⟨false, digitsValue (w ++ f), -f.length⟩ := by
  intro r hr
  obtain ⟨hwhole, hafter⟩ := takeWhile_digits_append (r := '.' :: (f ++ r)) hw (by simp)
  obtain ⟨hfraction, hrest⟩ := takeWhile_digits_append hf hr.digits
  rw [List.append_assoc, List.cons_append]
  unfold readUnsigned?
  simp only [hwhole, hafter, hfraction, hrest, List.isEmpty_eq_false_iff.2 hne, Bool.false_and,
    Bool.false_eq_true, if_false]
  cases r with
  | nil => rfl
  | cons c r =>
      obtain ⟨-, he, hE⟩ := hr c rfl
      simp [he, hE]

theorem readSign_digit {c : Char} (hc : c.isDigit = true) (cs : List Char) :
    readSign (c :: cs) = (false, c :: cs) := by
  unfold readSign
  split
  · rename_i heq
    rw [(List.cons.inj heq).1] at hc
    cases hc
  · rename_i heq
    rw [(List.cons.inj heq).1] at hc
    cases hc
  · rfl

theorem readExponent?_digits {ds : List Char} (hds : ∀ c ∈ ds, c.isDigit = true) (hne : ds ≠ [])
    (hr : ∀ c ∈ r.head?, c.isDigit = false) :
    readExponent? (ds ++ r) = some ((digitsValue ds : Int), r) ∧
      readExponent? ('-' :: (ds ++ r)) = some (-(digitsValue ds : Int), r) := by
  obtain ⟨htake, hdrop⟩ := takeWhile_digits_append hds hr
  obtain ⟨c, ds, rfl⟩ := List.exists_cons_of_ne_nil hne
  have hsign := readSign_digit (hds c List.mem_cons_self) (ds ++ r)
  rw [← List.cons_append] at hsign
  constructor
  · simp only [readExponent?, hsign, htake, hdrop]
    rfl
  · simp only [readExponent?, readSign, htake, hdrop]
    rfl

/-- The text of an exponent is read as the exponent. -/
theorem readExponent?_exponent (e : Int) (hr : ∀ c ∈ r.head?, c.isDigit = false) :
    readExponent? (Binary64.plainLayout.exponent e ++ r) = some (e, r) := by
  obtain ⟨hplus, hminus⟩ := readExponent?_digits
    (fun _ => isDigit_of_mem_toDigits (n := e.natAbs)) Nat.toDigits_ne_nil hr
  rw [digitsValue_toDigits] at hplus hminus
  have hpadded : Binary64.plainLayout.exponentDigits - (Nat.toDigits 10 e.natAbs).length = 0 :=
    Nat.sub_eq_zero_of_le Nat.length_toDigits_pos
  unfold NumberLayout.exponent
  simp only [hpadded, List.replicate_zero, List.nil_append]
  by_cases hneg : e < 0
  · rw [if_pos hneg, List.cons_append, hminus]
    congr 2
    omega
  · rw [if_neg hneg, if_neg (by decide), hplus]
    congr 2
    omega

/-! ## Layouts -/

variable {s : Significant}

theorem digitsValue_zeros_append (n : Nat) (ds : List Char) :
    digitsValue (List.replicate n '0' ++ ds) = digitsValue ds := by
  rw [digitsValue_append, digitsValue_zeros, Nat.zero_mul, Nat.zero_add]

/-- A number that has, with any sign, the value of some digits. -/
def Matches (d : Decimal) (s : Significant) : Prop :=
  ∀ negative, { d with negative }.toBinary64 = (s.decimal negative).toBinary64

/-- Positional text is read as the number of its digits. -/
theorem reads_positional (hne : s.digits ≠ []) (hs : ∀ c ∈ s.digits, c.isDigit = true) :
    ∃ d, Reads (NumberLayout.positional s) d ∧ d.Matches s := by
  have hzeros (n : Nat) : ∀ c ∈ List.replicate n '0', c.isDigit = true := by
    intro c hc
    rw [List.eq_of_mem_replicate hc]
    rfl
  unfold NumberLayout.positional
  dsimp only
  split
  · rename_i hpoint
    refine ⟨_, reads_point (w := ['0']) (by simp) (by simp)
      (fun c hc => (List.mem_append.1 hc).elim (hzeros _ c) (hs c)), fun negative => ?_⟩
    have hvalue : digitsValue (['0'] ++ (List.replicate s.point.natAbs '0' ++ s.digits)) =
        digitsValue s.digits := by
      rw [show ['0'] = List.replicate 1 '0' from rfl, digitsValue_zeros_append,
        digitsValue_zeros_append]
    rw [hvalue, List.length_append, List.length_replicate, Significant.decimal]
    dsimp only
    congr 2
    omega
  · split
    · refine ⟨_, reads_point (f := ['0'])
        (fun c hc => (List.mem_append.1 hc).elim (hs c) (hzeros _ c)) (by simp [hne]) (by simp),
        fun negative => ?_⟩
      have hvalue : digitsValue (s.digits ++
          List.replicate (s.point.toNat - s.digits.length) '0' ++ ['0']) =
          digitsValue s.digits * 10 ^ (s.point.toNat - s.digits.length + 1) := by
        rw [List.append_assoc, show ['0'] = List.replicate 1 '0' from rfl,
          List.replicate_append_replicate, digitsValue_append, digitsValue_zeros,
          List.length_replicate, Nat.add_zero]
      rw [hvalue, toBinary64_scaled, Significant.decimal, List.length_singleton]
      dsimp only
      congr 2
      omega
    · have hwhole : s.digits.take s.point.toNat ≠ [] := by
        intro hnil
        rcases List.take_eq_nil_iff.1 hnil with hzero | hnil
        · omega
        · exact hne hnil
      refine ⟨_, reads_point (fun c hc => hs c (List.mem_of_mem_take hc)) hwhole
        (fun c hc => hs c (List.mem_of_mem_drop hc)), fun negative => ?_⟩
      rw [List.take_append_drop, List.length_drop, Significant.decimal]
      dsimp only
      congr 2
      omega

/-- Text with an exponent is read as the number of its digits. -/
theorem reads_scientific (hne : s.digits ≠ []) (hs : ∀ c ∈ s.digits, c.isDigit = true) :
    ∃ d, Reads (Binary64.plainLayout.scientific s) d ∧ d.Matches s := by
  obtain ⟨ds, point⟩ := s
  obtain ⟨c, fs, rfl⟩ := List.exists_cons_of_ne_nil hne
  obtain ⟨hc, hfs⟩ := List.forall_mem_cons.1 hs
  refine ⟨⟨false, digitsValue (c :: fs), point - 1 - fs.length⟩, fun r hr => ?_, fun negative => ?_⟩
  · have hexponent := readExponent?_exponent (point - 1) hr.digits
    cases fs with
    | nil =>
        have hlayout : Binary64.plainLayout.scientific ⟨[c], point⟩ ++ r =
            c :: 'e' :: (Binary64.plainLayout.exponent (point - 1) ++ r) := rfl
        rw [hlayout]
        simp [readUnsigned?, hc, hexponent]
    | cons f fs =>
        have hlayout : Binary64.plainLayout.scientific ⟨c :: f :: fs, point⟩ ++ r = [c] ++
            '.' :: (f :: fs ++ 'e' :: (Binary64.plainLayout.exponent (point - 1) ++ r)) := by
          simp [NumberLayout.scientific]
        obtain ⟨hfraction, hrest⟩ := takeWhile_digits_append
          (r := 'e' :: (Binary64.plainLayout.exponent (point - 1) ++ r)) hfs (by simp)
        obtain ⟨htake, hdrop⟩ := takeWhile_digits_append
          (r := '.' :: (f :: fs ++ 'e' :: (Binary64.plainLayout.exponent (point - 1) ++ r)))
          (List.forall_mem_singleton.2 hc) (by simp)
        rw [hlayout]
        unfold readUnsigned?
        simp only [htake, hdrop, hfraction, hrest, hexponent]
        rfl
  · rw [Significant.decimal, List.length_cons]
    dsimp only
    congr 2
    omega

end Decimal

namespace Binary64

variable {x : Binary64}

/-- Characters that are read as a number that has, with a sign, some value. -/
structure IsTextOf (x : Binary64) (negative : Bool) (cs : List Char) : Prop where
  head : ∃ c cs', cs = c :: cs' ∧ c.isDigit = true
  read : ∃ d, Decimal.Reads cs d ∧ { d with negative }.toBinary64 = x

theorem isTextOf_zero (negative : Bool) : IsTextOf (zero negative) negative ['0', '.', '0'] where
  head := ⟨_, _, rfl, rfl⟩
  read := by
    refine ⟨_, Decimal.reads_point (w := ['0']) (f := ['0']) (by simp) (by simp) (by simp), ?_⟩
    rfl

theorem Denotes.isTextOf {s : Significant} (h : x.Denotes s) :
    IsTextOf x x.isNegative (if plainLayout.lowest ≤ s.point && s.point ≤ plainLayout.highest then
      NumberLayout.positional s else plainLayout.scientific s) where
  head := by
    obtain ⟨c, fs, hdigits⟩ := List.exists_cons_of_ne_nil h.ne_nil
    have hc : c.isDigit = true := h.isDigits c (by simp [hdigits])
    split
    · unfold NumberLayout.positional
      dsimp only
      split
      · exact ⟨_, _, rfl, rfl⟩
      · rename_i hpoint
        obtain ⟨n, hn⟩ : ∃ n, s.point.toNat = n + 1 := ⟨s.point.toNat - 1, by omega⟩
        split
        · exact ⟨c, _, by rw [hdigits, List.append_assoc, List.cons_append], hc⟩
        · exact ⟨c, _, by rw [hdigits, hn, List.take_succ_cons, List.cons_append], hc⟩
    · exact ⟨c, _, by rw [NumberLayout.scientific, hdigits, List.take_succ_cons,
        List.append_assoc, List.cons_append], hc⟩
  read := by
    split
    · obtain ⟨d, hread, hd⟩ := Decimal.reads_positional h.ne_nil h.isDigits
      exact ⟨d, hread, (hd _).trans h.toBinary64⟩
    · obtain ⟨d, hread, hd⟩ := Decimal.reads_scientific h.ne_nil h.isDigits
      exact ⟨d, hread, (hd _).trans h.toBinary64⟩

/-- The text of a finite number is its sign and a text of its value. -/
theorem exists_toText (hx : x.isFinite = true) : ∃ negative cs, IsTextOf x negative cs ∧
    x.toText.toList = if negative then '-' :: cs else cs := by
  cases x with
  | infinite negative => cases hx
  | nan => cases hx
  | finite negative m e h =>
      by_cases hm : m = 0
      · subst hm
        obtain rfl : e = 0 := by
          rcases h.2.1 with he | hlow
          · exact he
          · exact absurd hlow (by decide)
        refine ⟨negative, _, isTextOf_zero negative, ?_⟩
        unfold toText NumberLayout.write
        dsimp only
        rw [if_pos rfl]
        cases negative <;> rfl
      · have hmagnitude : (finite negative m e h).magnitude ≠ 0 :=
          Nat.mul_ne_zero hm (pow_two_pos e).ne'
        refine ⟨negative, _, (denotes_shortest rfl hmagnitude).isTextOf, ?_⟩
        unfold toText NumberLayout.write
        dsimp only
        rw [if_neg hm, String.toList_ofList]

/-- The text of a real is read as that real. -/
theorem ofText?_toText (x : Binary64) : ofText? x.toText = some x := by
  by_cases hx : x.isFinite = true
  · obtain ⟨negative, cs, ⟨⟨c, cs, rfl, hc⟩, d, hread, hd⟩, hlist⟩ := exists_toText hx
    have hsign : Decimal.readSign x.toText.toList = (negative, c :: cs) := by
      rw [hlist]
      cases negative with
      | true => rfl
      | false => exact Decimal.readSign_digit hc cs
    have hname (name : String) (hname : name.toList.head?.any Char.isDigit = false) :
        String.ofList ((c :: cs).map Char.toLower) ≠ name := by
      rintro rfl
      simp [toLower_of_isDigit hc, hc] at hname
    have hunsigned := hread [] (by simp [endsNumber])
    rw [List.append_nil] at hunsigned
    unfold ofText? ofTextBy? Decimal.readLeading?
    simp only [hsign, hunsigned, hname "inf" rfl, hname "infinity" rfl, hname "nan" rfl,
      decide_false, Bool.or_self, Bool.false_eq_true, if_false, Option.map_some, hd]
  · cases x with
    | finite negative m e h => exact absurd rfl hx
    | infinite negative => cases negative <;> with_unfolding_all rfl
    | nan => with_unfolding_all rfl

end Binary64

end StagedStore
