import StagedStore.Decimal.Shortest
import StagedStore.Proofs.Digits
import StagedStore.Proofs.Memory.Cells

/-!
# Rounding decimals

What a fraction is rounded to depends on its value alone, and so does what a decimal number is
rounded to, however its digits are scaled. A number of the format is rounded to itself. The shortest
digits of a finite number are therefore rounded to that number: digits of a grid were tried, and all
digits together are the number itself.
-/

namespace StagedStore

/-! ## Fractions -/

theorem nearestEven_mul_right {c : Nat} (hc : 0 < c) (num den : Nat) :
    nearestEven (num * c) (den * c) = nearestEven num den := by
  have hdouble : 2 * (num % den * c) = 2 * (num % den) * c := by ring
  unfold nearestEven
  simp only [Nat.mul_div_mul_right _ _ hc, Nat.mul_mod_mul_right, hdouble,
    Nat.mul_lt_mul_right hc]

theorem roundUnits_mul_right {c : Nat} (hc : 0 < c) (width num den : Nat) :
    roundUnits width (num * c) (den * c) = roundUnits width num den := by
  unfold roundUnits
  simp only [Nat.mul_div_mul_right _ _ hc, Nat.mul_right_comm den c, nearestEven_mul_right hc]

namespace Binary64

theorem ofRatio_mul_right {c : Nat} (hc : 0 < c) (negative : Bool) (num den : Nat) :
    ofRatio negative (num * c) (den * c) = ofRatio negative num den := by
  unfold ofRatio ofUnits
  rw [Nat.mul_right_comm, roundUnits_mul_right hc]

/-- Fractions of one value are rounded alike. -/
theorem ofRatio_eq_of_mul_eq {num den num' den' : Nat} (hden : 0 < den) (hden' : 0 < den')
    (h : num * den' = num' * den) (negative : Bool) :
    ofRatio negative num den = ofRatio negative num' den' := by
  rw [← ofRatio_mul_right hden', h, Nat.mul_comm den, ofRatio_mul_right hden]

/-! ## Numbers of the format -/

theorem nearestEven_mul_self {den : Nat} (hden : 0 < den) (n : Nat) :
    nearestEven (n * den) den = n := by
  unfold nearestEven
  simp [Nat.mul_div_cancel _ hden, hden]

theorem log2_mul_two_pow {m : Nat} (hm : m ≠ 0) (e : Nat) : (m * 2 ^ e).log2 = m.log2 + e := by
  rw [Nat.log2_eq_iff (Nat.mul_ne_zero hm (Nat.two_pow_pos e).ne')]
  obtain ⟨hlow, hhigh⟩ := (Nat.log2_eq_iff hm).1 rfl
  constructor
  · rw [Nat.pow_add]
    exact Nat.mul_le_mul_right _ hlow
  · rw [Nat.add_right_comm, Nat.pow_add]
    exact Nat.mul_lt_mul_of_pos_right hhigh (Nat.two_pow_pos e)

theorem roundUnits_canonical {m e : Nat} (h : Canonical m e) :
    roundUnits 53 (m * Nat.pow 2 e) 1 = (m, e) := by
  obtain ⟨hm, hlow, -⟩ := h
  change m < 2 ^ 53 at hm
  change roundUnits 53 (m * 2 ^ e) 1 = (m, e)
  have hshift : (m * 2 ^ e).log2 + 1 - 53 = e := by
    by_cases hzero : m = 0
    · rcases hlow with rfl | hlow
      · simp [hzero]
      · rw [hzero] at hlow
        exact absurd hlow (by decide)
    · rw [log2_mul_two_pow hzero]
      have hlt : m.log2 < 53 := (Nat.log2_lt hzero).2 hm
      rcases hlow with rfl | hlow
      · omega
      · have hle : 52 ≤ m.log2 := (Nat.le_log2 hzero).2 hlow
        omega
  unfold roundUnits
  simp only [Nat.div_one, hshift, Nat.one_mul]
  rw [show Nat.pow 2 e = 2 ^ e from rfl, nearestEven_mul_self (Nat.two_pow_pos e),
    if_neg (show m ≠ Nat.pow 2 53 from hm.ne)]

/-- A finite number is what its units are rounded to. -/
theorem ofUnits_magnitude {negative : Bool} {m e : Nat} (h : Canonical m e) :
    ofUnits negative (m * Nat.pow 2 e) 1 = .finite negative m e h := by
  unfold ofUnits
  simp only [roundUnits_canonical h]
  rw [dif_pos h]

end Binary64

/-! ## Decimals -/

theorem toDigits_mul_ten {n : Nat} (hn : n ≠ 0) :
    Nat.toDigits 10 (n * 10) = Nat.toDigits 10 n ++ ['0'] := by
  have h := Nat.toDigits_append_toDigits (b := 10) (d := 0) (by decide) (Nat.pos_of_ne_zero hn)
    (by decide)
  rw [Nat.add_zero, Nat.mul_comm] at h
  exact h.symm

theorem length_toDigits_mul_pow {n : Nat} (hn : n ≠ 0) (k : Nat) :
    (Nat.toDigits 10 (n * 10 ^ k)).length = (Nat.toDigits 10 n).length + k := by
  induction k with
  | zero => simp
  | succ k ih =>
      have hpos : n * 10 ^ k ≠ 0 := Nat.mul_ne_zero hn (Nat.pow_pos (by decide)).ne'
      rw [Nat.pow_succ, ← Nat.mul_assoc, toDigits_mul_ten hpos, List.length_append, ih]
      rfl

theorem length_toDigits_bounds {n i k : Nat} (hi : 0 < i) (hk : 0 < k) (hlow : 10 ^ i ≤ n)
    (hhigh : n < 10 ^ k) :
    i < (Nat.toDigits 10 n).length ∧ (Nat.toDigits 10 n).length ≤ k := by
  have hiff (j : Nat) (hj : 0 < j) : (Nat.toDigits 10 n).length ≤ j ↔ n < 10 ^ j :=
    Nat.length_toDigits_le_iff (by decide) hj
  exact ⟨not_le.1 fun hle => absurd ((hiff i hi).1 hle) (not_lt.2 hlow), (hiff k hk).2 hhigh⟩

namespace Decimal

/-- Whether the exponent leaves a number within the range that is computed. -/
def IsMiddling (d : Decimal) : Prop :=
  -330 ≤ ((Nat.toDigits 10 d.digits).length : Int) + d.exponent ∧
    ((Nat.toDigits 10 d.digits).length : Int) + d.exponent ≤ 310

theorem toBinary64_of_isMiddling {d : Decimal} (hd : d.digits ≠ 0) (h : d.IsMiddling) :
    d.toBinary64 = .ofRatio d.negative (d.digits * 10 ^ d.exponent.toNat)
      (10 ^ (-d.exponent).toNat) := by
  obtain ⟨hlow, hhigh⟩ := h
  unfold toBinary64 roundBy
  simp only
  rw [if_neg hd, if_neg (not_lt.2 hhigh), if_neg (not_lt.2 hlow)]
  obtain ⟨negative, digits, exponent⟩ := d
  cases exponent with
  | ofNat e => simp
  | negSucc e => simp [Int.neg_negSucc]

/-- Zeros behind the digits change nothing if the exponent makes up for them. -/
theorem toBinary64_scaled (negative : Bool) (n k : Nat) (e : Int) :
    (Decimal.mk negative (n * 10 ^ k) e).toBinary64 =
      (Decimal.mk negative n (e + k)).toBinary64 := by
  by_cases hn : n = 0
  · simp [hn, toBinary64, roundBy]
  · have hscaled : n * 10 ^ k ≠ 0 := Nat.mul_ne_zero hn (Nat.pow_pos (by decide)).ne'
    have hlength := length_toDigits_mul_pow hn k
    by_cases hmiddling : IsMiddling ⟨negative, n, e + k⟩
    · have hmiddling' : IsMiddling ⟨negative, n * 10 ^ k, e⟩ := by
        unfold IsMiddling at hmiddling ⊢
        simp only [hlength] at hmiddling ⊢
        omega
      rw [toBinary64_of_isMiddling hscaled hmiddling', toBinary64_of_isMiddling hn hmiddling]
      refine Binary64.ofRatio_eq_of_mul_eq (Nat.pow_pos (by decide)) (Nat.pow_pos (by decide)) ?_ _
      have hexponent : k + e.toNat + (-(e + k)).toNat = (e + k).toNat + (-e).toNat := by omega
      dsimp only
      calc n * 10 ^ k * 10 ^ e.toNat * 10 ^ (-(e + k)).toNat
        _ = n * 10 ^ (k + e.toNat + (-(e + k)).toNat) := by rw [Nat.pow_add, Nat.pow_add]; ring
        _ = n * 10 ^ (e + k).toNat * 10 ^ (-e).toNat := by
          rw [hexponent, Nat.pow_add, Nat.mul_assoc]
    · unfold IsMiddling at hmiddling
      unfold toBinary64 roundBy
      simp only [hlength, if_neg hn, if_neg hscaled, Nat.cast_add] at hmiddling ⊢
      by_cases hhigh : 310 < ((Nat.toDigits 10 n).length : Int) + (e + k)
      · rw [if_pos hhigh, if_pos (by omega)]
      · rw [if_neg hhigh, if_neg (by omega), if_pos (by omega), if_pos (by omega)]

end Decimal

/-! ## Shortest digits -/

namespace Significant

/-- Digits as a decimal number. -/
def decimal (negative : Bool) (s : Significant) : Decimal :=
  ⟨negative, digitsValue s.digits, s.point - s.digits.length⟩

/-- The zeros at the end that are dropped. -/
theorem ofDecimal_digits (n : Nat) (e : Int) :
    ∃ k, Nat.toDigits 10 n = (ofDecimal n e).digits ++ List.replicate k '0' := by
  refine ⟨((Nat.toDigits 10 n).reverse.takeWhile (· = '0')).length, ?_⟩
  have hzeros : (Nat.toDigits 10 n).reverse.takeWhile (· = '0') =
      List.replicate ((Nat.toDigits 10 n).reverse.takeWhile (· = '0')).length '0' := by
    refine List.eq_replicate_of_mem fun c hc => ?_
    simpa using List.all_eq_true.1 List.all_takeWhile c hc
  have hsplit := congrArg List.reverse
    (List.takeWhile_append_dropWhile (p := (· = '0')) (l := (Nat.toDigits 10 n).reverse))
  rw [List.reverse_append, List.reverse_reverse] at hsplit
  rw [← List.reverse_replicate, ← hzeros]
  exact hsplit.symm

theorem toBinary64_ofDecimal (negative : Bool) (n : Nat) (e : Int) :
    ((ofDecimal n e).decimal negative).toBinary64 = (Decimal.mk negative n e).toBinary64 := by
  obtain ⟨k, hk⟩ := ofDecimal_digits n e
  have hpoint : (ofDecimal n e).point = (Nat.toDigits 10 n).length + e := rfl
  have hvalue : n = digitsValue (ofDecimal n e).digits * 10 ^ k := by
    have h := digitsValue_append (ofDecimal n e).digits (List.replicate k '0')
    rw [← hk, digitsValue_toDigits, digitsValue_zeros, List.length_replicate] at h
    exact h
  have hlength := congrArg List.length hk
  rw [List.length_append, List.length_replicate] at hlength
  conv_rhs => rw [hvalue]
  rw [Decimal.toBinary64_scaled, decimal, hpoint, hlength]
  congr 2
  push_cast
  ring

/-- The digits of a number are digits. -/
def IsDigits (s : Significant) : Prop :=
  ∀ c ∈ s.digits, c.isDigit = true

theorem isDigits_ofDecimal (n : Nat) (e : Int) : (ofDecimal n e).IsDigits := by
  intro c hc
  obtain ⟨k, hk⟩ := ofDecimal_digits n e
  exact isDigit_of_mem_toDigits (hk ▸ List.mem_append_left _ hc)

theorem ofDecimal_ne_nil {n : Nat} (hn : n ≠ 0) (e : Int) : (ofDecimal n e).digits ≠ [] := by
  intro hnil
  obtain ⟨k, hk⟩ := ofDecimal_digits n e
  rw [hnil, List.nil_append] at hk
  refine hn ?_
  rw [← digitsValue_toDigits n, hk, digitsValue_zeros]

end Significant

namespace Binary64

variable {x : Binary64} {s : Significant}

/-- Digits of a number that are rounded to it. -/
structure Denotes (x : Binary64) (s : Significant) : Prop where
  ne_nil : s.digits ≠ []
  isDigits : s.IsDigits
  toBinary64 : (s.decimal x.isNegative).toBinary64 = x

theorem denotes_ofDecimal {n : Nat} {e : Int} (hx : x.magnitude ≠ 0)
    (h : (Decimal.mk x.isNegative n e).toBinary64 = x) : x.Denotes (.ofDecimal n e) where
  ne_nil := by
    refine Significant.ofDecimal_ne_nil ?_ e
    rintro rfl
    refine hx ?_
    rw [← h]
    simp [Decimal.toBinary64, Decimal.roundBy, zero, magnitude]
  isDigits := Significant.isDigits_ofDecimal n e
  toBinary64 := (Significant.toBinary64_ofDecimal _ n e).trans h

/-- The digits of a grid were tried. -/
theorem exists_of_onGrid? {leading : List Char} {count : Nat}
    (h : x.onGrid? leading count = some s) :
    ∃ n e, s = .ofDecimal n e ∧ (Decimal.mk x.isNegative n e).toBinary64 = x := by
  unfold onGrid? at h
  dsimp only at h
  split at h <;> rename_i hlow hhigh
  · exact ⟨_, _, (Option.some.inj h).symm, of_decide_eq_true hlow⟩
  · exact ⟨_, _, (Option.some.inj h).symm, of_decide_eq_true hhigh⟩
  · cases h
  · split at h
    · exact ⟨_, _, (Option.some.inj h).symm, of_decide_eq_true hlow⟩
    · exact ⟨_, _, (Option.some.inj h).symm, of_decide_eq_true hhigh⟩
    · split at h
      · exact ⟨_, _, (Option.some.inj h).symm, of_decide_eq_true hlow⟩
      · exact ⟨_, _, (Option.some.inj h).symm, of_decide_eq_true hhigh⟩

/-- A number of units as a fraction of ones. -/
theorem ofRatio_mul {f den : Nat} (hden : 0 < den) (h : f * unitsPerOne = den) (negative : Bool)
    (n : Nat) : ofRatio negative (n * f) den = ofUnits negative n 1 := by
  have hscaled := roundUnits_mul_right hden 53 n 1
  rw [Nat.one_mul] at hscaled
  unfold ofRatio ofUnits
  rw [Nat.mul_assoc, h, hscaled]

theorem toBinary64_mul {n f : Nat} (negative : Bool) (hn : n ≠ 0) (hlow : 10 ^ 744 ≤ f)
    (hhigh : n * f < 10 ^ 1384) :
    (Decimal.mk negative (n * f) (-1074)).toBinary64 = ofRatio negative (n * f) (10 ^ 1074) := by
  have hle : 10 ^ 744 ≤ n * f := Nat.le_trans hlow (Nat.le_mul_of_pos_left f (by omega))
  have hlength := length_toDigits_bounds (by decide) (by decide) hle hhigh
  have hmiddling : Decimal.IsMiddling ⟨negative, n * f, -1074⟩ := by
    unfold Decimal.IsMiddling
    dsimp only
    omega
  have hpos : 0 < n * f := Nat.lt_of_lt_of_le (Nat.pow_pos (by decide)) hle
  rw [Decimal.toBinary64_of_isMiddling hpos.ne' hmiddling]
  dsimp only
  rw [show (-1074 : Int).toNat = 0 from rfl, show (-(-1074) : Int).toNat = 1074 from rfl,
    Nat.pow_zero, Nat.mul_one]

theorem magnitude_mul_lt {m e k f b : Nat} (h : Canonical m e) (he : e ≤ k)
    (hb : Nat.pow 2 53 * Nat.pow 2 k * f < b) : m * Nat.pow 2 e * f < b := by
  have hpow : Nat.pow 2 e ≤ Nat.pow 2 k := Nat.pow_le_pow_right (by decide) he
  have hle := Nat.mul_le_mul (Nat.le_of_lt h.1) hpow
  exact Nat.lt_of_le_of_lt (Nat.mul_le_mul_right f hle) hb

theorem denotes_exact (hfinite : x.isFinite = true) (hx : x.magnitude ≠ 0) : x.Denotes x.exact := by
  cases x with
  | infinite negative => cases hfinite
  | nan => cases hfinite
  | finite negative m e h =>
      have hlow : 10 ^ 744 ≤ Nat.pow 5 1074 := by decide +kernel
      have hhigh : m * Nat.pow 2 e * Nat.pow 5 1074 < 10 ^ 1384 :=
        magnitude_mul_lt h h.2.2 (by decide +kernel)
      refine denotes_ofDecimal hx ?_
      refine (toBinary64_mul negative hx hlow hhigh).trans ?_
      refine (ofRatio_mul ?_ ?_ negative _).trans (ofUnits_magnitude h)
      · decide +kernel
      · decide +kernel

/-- The shortest digits of a finite number other than zero are rounded to it. -/
theorem denotes_shortest (hfinite : x.isFinite = true) (hx : x.magnitude ≠ 0) :
    x.Denotes x.shortest := by
  unfold shortest
  dsimp only
  cases hfind : (List.range 17).findSome? fun i => x.onGrid? x.expansion (i + 1) with
  | none => exact denotes_exact hfinite hx
  | some s =>
      obtain ⟨i, -, hi⟩ := List.exists_of_findSome?_eq_some hfind
      obtain ⟨n, e, rfl, hread⟩ := exists_of_onGrid? hi
      exact denotes_ofDecimal hx hread

end Binary64

end StagedStore
