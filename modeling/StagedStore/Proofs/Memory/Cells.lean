import StagedStore.Memory.Compare

/-!
# Cells

How cells compare, and what columns keep of them.  Cells that compare as equal have one normal form,
so rows can be found by it; what a column has stored it stores again unchanged.
-/

namespace StagedStore

namespace Binary64

theorem pow_two_pos (n : Nat) : 0 < Nat.pow 2 n :=
  Nat.two_pow_pos n

theorem canonical_unique {m e m' e' : Nat} (h : Canonical m e) (h' : Canonical m' e')
    (heq : m * Nat.pow 2 e = m' * Nat.pow 2 e') (hle : e ≤ e') : m = m' ∧ e = e' := by
  obtain ⟨hm, -, -⟩ := h
  obtain ⟨-, hlow, -⟩ := h'
  have hsplit : Nat.pow 2 e' = Nat.pow 2 (e' - e) * Nat.pow 2 e := by
    change 2 ^ e' = 2 ^ (e' - e) * 2 ^ e
    rw [← Nat.pow_add, Nat.sub_add_cancel hle]
  have hpos : 0 < Nat.pow 2 e := pow_two_pos e
  have hm' : m = m' * Nat.pow 2 (e' - e) := by
    apply Nat.eq_of_mul_eq_mul_right hpos
    rw [heq, hsplit, Nat.mul_assoc]
  rcases Nat.eq_zero_or_pos (e' - e) with hzero | hpos'
  · have : e = e' := by omega
    subst this
    rw [Nat.sub_self] at hm'
    exact ⟨by simpa using hm', rfl⟩
  · exfalso
    have hlow' : Nat.pow 2 52 ≤ m' := by
      rcases hlow with h0 | h0
      · omega
      · exact h0
    have htwo : 2 ≤ Nat.pow 2 (e' - e) := by
      obtain ⟨k, hk⟩ := Nat.exists_eq_succ_of_ne_zero (Nat.pos_iff_ne_zero.1 hpos')
      rw [hk]
      change 2 ≤ 2 ^ (k + 1)
      have := Nat.two_pow_pos k
      rw [Nat.pow_succ]
      omega
    have := Nat.mul_le_mul hlow' htwo
    have h53 : Nat.pow 2 53 = Nat.pow 2 52 * 2 := rfl
    omega

theorem eq_of_units_eq {s s' : Bool} {m e m' e' : Nat} {h : Canonical m e} {h' : Canonical m' e'}
    (hu : (Binary64.finite s m e h).units = (Binary64.finite s' m' e' h').units)
    (hz : (Binary64.finite s m e h).units ≠ 0) :
    Binary64.finite s m e h = .finite s' m' e' h' := by
  have hmag : s = s' ∧ m * Nat.pow 2 e = m' * Nat.pow 2 e' := by
    cases s <;> cases s' <;> simp only [units] at hu hz <;> refine ⟨?_, ?_⟩ <;> first | rfl | omega
  obtain ⟨rfl, hmag⟩ := hmag
  have hme : m = m' ∧ e = e' := by
    rcases Nat.le_total e e' with hle | hle
    · exact canonical_unique h h' hmag hle
    · have := canonical_unique h' h hmag.symm hle
      exact ⟨this.1.symm, this.2.symm⟩
  obtain ⟨rfl, rfl⟩ := hme
  rfl

theorem unitsPerOne_pos : 0 < unitsPerOne := by
  decide +kernel

theorem toInt?_eq_some_iff {x : Binary64} {n : Int} :
    x.toInt? = some n ↔ x.isFinite = true ∧ x.units = n * unitsPerOne := by
  have hpos : (unitsPerOne : Int) ≠ 0 := by
    have := unitsPerOne_pos
    omega
  cases x with
  | nan => exact ⟨nofun, fun h => absurd h.1 Bool.false_ne_true⟩
  | infinite s => exact ⟨nofun, fun h => absurd h.1 Bool.false_ne_true⟩
  | finite s m e h =>
      simp only [toInt?, isFinite, true_and]
      generalize (Binary64.finite s m e h).units = u
      constructor
      · intro hn
        split at hn
        · rename_i hmod
          rw [← Option.some.inj hn, Int.ediv_mul_cancel (Int.dvd_of_emod_eq_zero hmod)]
        · simp at hn
      · rintro rfl
        rw [Int.mul_emod_left, if_pos rfl, Int.mul_ediv_cancel _ hpos]

theorem cmp_self (x : Binary64) : x.cmp x = .eq := by
  cases x <;> simp [cmp]

end Binary64

namespace Storage

theorem cmp_self (v : Storage) : v.cmp v = .eq := by
  cases v with
  | null => rfl
  | integer n => simp [cmp]
  | real x => exact x.cmp_self
  | text s => simp [cmp]
  | blob bytes => simp [cmp]

theorem normal_real_of_toInt? {x : Binary64} {n : Int64} (h : x.toInt? = some n.toInt) :
    (Storage.real x).normal = .integer n := by
  have hfits : fitsInt64 n.toInt = true := by
    simp only [fitsInt64, Bool.and_eq_true, decide_eq_true_eq]
    exact ⟨Int64.minValue_le_toInt n, Int64.toInt_le n⟩
  simp only [normal, h, hfits, if_true, Int64.ofInt_toInt]

theorem normal_real_eq_of_cmp {x y : Binary64} (h : x.cmp y = .eq) :
    (Storage.real x).normal = (Storage.real y).normal := by
  cases x with
  | nan => cases y <;> simp [Binary64.cmp] at h ⊢
  | infinite s =>
      cases y with
      | infinite t =>
          by_cases hst : s = t
          · rw [hst]
          · simp only [Binary64.cmp, hst, if_false] at h
            split at h <;> simp at h
      | finite s' m' e' hc' =>
          simp only [Binary64.cmp] at h
          split at h <;> simp at h
      | nan => simp [Binary64.cmp] at h
  | finite s m e hc =>
      cases y with
      | finite s' m' e' hc' =>
          have hu : (Binary64.finite s m e hc).units = (Binary64.finite s' m' e' hc').units := by
            simpa [Binary64.cmp] using h
          by_cases hz : (Binary64.finite s m e hc).units = 0
          · have hx : (Binary64.finite s m e hc).toInt? = some 0 :=
              Binary64.toInt?_eq_some_iff.2 ⟨rfl, by rw [hz, Int.zero_mul]⟩
            have hy : (Binary64.finite s' m' e' hc').toInt? = some 0 :=
              Binary64.toInt?_eq_some_iff.2 ⟨rfl, by rw [← hu, hz, Int.zero_mul]⟩
            have hfits : fitsInt64 0 = true := by decide
            simp only [normal, hx, hy, hfits, if_true]
          · rw [Binary64.eq_of_units_eq hu hz]
      | nan => simp [Binary64.cmp] at h
      | infinite t =>
          simp only [Binary64.cmp] at h
          split at h <;> simp at h

theorem toInt?_of_compareInt {x : Binary64} {n : Int} (h : x.compareInt n = .eq) :
    x.toInt? = some n := by
  rw [Binary64.toInt?_eq_some_iff]
  cases x with
  | nan => simp [Binary64.compareInt] at h
  | infinite s =>
      simp only [Binary64.compareInt] at h
      split at h <;> simp at h
  | finite s m e hc => exact ⟨rfl, Int.compare_eq_eq.1 h⟩

/-- Cells that compare as equal have the same normal form. -/
theorem normal_eq_of_cmp_eq {a b : Storage} (h : a.cmp b = .eq) : a.normal = b.normal := by
  cases a with
  | null => cases b <;> simp [cmp, rank, compare, compareOfLessAndEq] at h ⊢
  | integer m =>
      cases b with
      | integer n =>
          have : m = n := by simpa [cmp, Int64.toInt_inj] using h
          rw [this]
      | real y =>
          have hy : y.compareInt m.toInt = .eq := by simpa [cmp] using h
          rw [normal_real_of_toInt? (toInt?_of_compareInt hy)]
          rfl
      | _ => simp [cmp, rank, compare, compareOfLessAndEq] at h
  | real x =>
      cases b with
      | integer n =>
          have hx : x.compareInt n.toInt = .eq := by simpa [cmp] using h
          rw [normal_real_of_toInt? (toInt?_of_compareInt hx)]
          rfl
      | real y => exact normal_real_eq_of_cmp h
      | _ => simp [cmp, rank, compare, compareOfLessAndEq] at h
  | text s =>
      cases b with
      | text t => rw [(by simpa [cmp] using h : s = t)]
      | _ => simp [cmp, rank, compare, compareOfLessAndEq] at h
  | blob s =>
      cases b with
      | blob t => rw [(by simpa [cmp] using h : s = t)]
      | _ => simp [cmp, rank, compare, compareOfLessAndEq] at h

theorem compareInt_of_toInt? {x : Binary64} {n : Int} (h : x.toInt? = some n) :
    x.compareInt n = .eq := by
  obtain ⟨hfinite, hunits⟩ := Binary64.toInt?_eq_some_iff.1 h
  cases x with
  | nan => exact absurd hfinite Bool.false_ne_true
  | infinite s => exact absurd hfinite Bool.false_ne_true
  | finite s m e hc => exact Int.compare_eq_eq.2 hunits

theorem cmp_of_toInt? {x y : Binary64} {n : Int} (hx : x.toInt? = some n)
    (hy : y.toInt? = some n) : x.cmp y = .eq := by
  obtain ⟨hfinite, hunits⟩ := Binary64.toInt?_eq_some_iff.1 hx
  obtain ⟨hfinite', hunits'⟩ := Binary64.toInt?_eq_some_iff.1 hy
  cases x with
  | nan => exact absurd hfinite Bool.false_ne_true
  | infinite s => exact absurd hfinite Bool.false_ne_true
  | finite s m e hc =>
      cases y with
      | nan => exact absurd hfinite' Bool.false_ne_true
      | infinite s => exact absurd hfinite' Bool.false_ne_true
      | finite s' m' e' hc' => exact Int.compare_eq_eq.2 (hunits.trans hunits'.symm)

/-- A real keeps its form unless it is an integer of 64 bits. -/
theorem normal_real (x : Binary64) :
    (Storage.real x).normal = .real x ∨
      ∃ n : Int64, x.toInt? = some n.toInt ∧ (Storage.real x).normal = .integer n := by
  cases hx : x.toInt? with
  | none => exact .inl (by simp only [normal, hx])
  | some n =>
      cases hfits : fitsInt64 n with
      | false => exact .inl (by simp [normal, hx, hfits])
      | true =>
          obtain ⟨hmin, hmax⟩ : Int64.minValue.toInt ≤ n ∧ n ≤ Int64.maxValue.toInt := by
            simpa [fitsInt64] using hfits
          have hn : (Int64.ofInt n).toInt = n :=
            Int64.toInt_ofInt_of_le hmin (Int.lt_add_one_of_le hmax)
          exact .inr ⟨.ofInt n, by rw [hn], by simp [normal, hx, hfits]⟩

/-- The normal form of a cell other than a real is the cell. -/
theorem normal_eq_self {v : Storage} (h : ∀ x, v ≠ .real x) : v.normal = v := by
  cases v with
  | real x => exact absurd rfl (h x)
  | _ => rfl

theorem cmp_real_of_normal_eq {x y : Binary64}
    (h : (Storage.real x).normal = (Storage.real y).normal) : x.cmp y = .eq := by
  rcases normal_real x with hx | ⟨n, hn, hx⟩ <;> rcases normal_real y with hy | ⟨m, hm, hy⟩
  · rw [hx, hy, Storage.real.injEq] at h
    rw [h, Binary64.cmp_self]
  · exact absurd (hx.symm.trans (h.trans hy)) (by simp)
  · exact absurd (hx.symm.trans (h.trans hy)) (by simp)
  · rw [hx, hy, Storage.integer.injEq] at h
    rw [← h] at hm
    exact cmp_of_toInt? hn hm

/-- A real that has the form of a cell other than a real is that integer. -/
theorem compareInt_of_normal_eq {x : Binary64} {v : Storage} (hv : ∀ y, v ≠ .real y)
    (h : (Storage.real x).normal = v) : ∃ n, v = .integer n ∧ x.compareInt n.toInt = .eq := by
  rcases normal_real x with hx | ⟨n, hn, hx⟩
  · exact absurd (h.symm.trans hx) (hv x)
  · exact ⟨n, h.symm.trans hx, compareInt_of_toInt? hn⟩

/-- Cells of the same normal form compare as equal. -/
theorem cmp_eq_of_normal_eq {a b : Storage} (h : a.normal = b.normal) : a.cmp b = .eq := by
  by_cases ha : ∃ x, a = .real x <;> by_cases hb : ∃ y, b = .real y
  · obtain ⟨x, rfl⟩ := ha
    obtain ⟨y, rfl⟩ := hb
    exact cmp_real_of_normal_eq h
  · obtain ⟨x, rfl⟩ := ha
    rw [normal_eq_self (not_exists.1 hb)] at h
    obtain ⟨n, rfl, hn⟩ := compareInt_of_normal_eq (not_exists.1 hb) h
    exact hn
  · obtain ⟨y, rfl⟩ := hb
    rw [normal_eq_self (not_exists.1 ha)] at h
    obtain ⟨n, rfl, hn⟩ := compareInt_of_normal_eq (not_exists.1 ha) h.symm
    rw [cmp, hn]
    rfl
  · rw [normal_eq_self (not_exists.1 ha), normal_eq_self (not_exists.1 hb)] at h
    rw [h, cmp_self]

theorem isText_numberStorage (d : Decimal) (isInteger : Bool) :
    (numberStorage d isInteger).isText = false := by
  unfold numberStorage
  generalize (if d.negative then -(d.digits : Int) else d.digits) = n
  change (if (isInteger && fitsInt64 n) = true then _ else _ : Storage).isText = false
  split <;> rfl

theorem isNull_numberStorage (d : Decimal) (isInteger : Bool) :
    (numberStorage d isInteger).isNull = false := by
  unfold numberStorage
  generalize (if d.negative then -(d.digits : Int) else d.digits) = n
  change (if (isInteger && fitsInt64 n) = true then _ else _ : Storage).isNull = false
  split <;> rfl

theorem numberOfText?_eq_some {t : String} {v : Storage} (h : numberOfText? t = some v) :
    ∃ d isInteger, v = numberStorage d isInteger := by
  unfold numberOfText? at h
  split at h
  · split at h
    · exact ⟨_, _, (Option.some.inj h).symm⟩
    · simp at h
  · simp at h

theorem isText_of_numberOfText? {t : String} {v : Storage} (h : numberOfText? t = some v) :
    v.isText = false := by
  obtain ⟨d, isInteger, rfl⟩ := numberOfText?_eq_some h
  exact isText_numberStorage d isInteger

theorem isNull_textToNumber (v : Storage) : v.textToNumber.isNull = v.isNull := by
  cases v with
  | text t =>
      cases hn : numberOfText? t with
      | none => simp [textToNumber, hn]
      | some w =>
          obtain ⟨d, isInteger, rfl⟩ := numberOfText?_eq_some hn
          simpa [textToNumber, hn, isNull] using isNull_numberStorage d isInteger
  | _ => rfl

theorem textToNumber_of_notText {v : Storage} (h : v.isText = false) : v.textToNumber = v := by
  cases v with
  | text s => simp [isText] at h
  | _ => rfl

theorem textToNumber_eq_or (v : Storage) :
    v.textToNumber = v ∨ v.textToNumber.isText = false := by
  cases v with
  | text t =>
      cases hn : numberOfText? t with
      | none => exact .inl (by simp [textToNumber, hn])
      | some w => exact .inr (by simpa [textToNumber, hn] using isText_of_numberOfText? hn)
  | _ => exact .inl rfl

theorem textToNumber_textToNumber (v : Storage) :
    v.textToNumber.textToNumber = v.textToNumber := by
  rcases textToNumber_eq_or v with h | h
  · rw [h, h]
  · exact textToNumber_of_notText h

theorem realToInteger_of_text {v : Storage} (h : v.isText = true) : v.realToInteger = v := by
  cases v <;> simp_all [isText, realToInteger]

theorem integerToReal_of_text {v : Storage} (h : v.isText = true) : v.integerToReal = v := by
  cases v <;> simp_all [isText, integerToReal]

theorem isText_realToInteger (v : Storage) : v.realToInteger.isText = v.isText := by
  cases v with
  | real x =>
      simp only [realToInteger]
      split
      · split <;> rfl
      · rfl
  | _ => rfl

theorem isText_integerToReal (v : Storage) : v.integerToReal.isText = v.isText := by
  cases v with
  | real x => simp only [integerToReal]; split <;> rfl
  | _ => rfl

theorem realToInteger_eq_or (x : Binary64) :
    (∃ n, (Storage.real x).realToInteger = .integer n) ∨
      (Storage.real x).realToInteger = .real x := by
  simp only [realToInteger]
  split
  · split
    · exact .inl ⟨_, rfl⟩
    · exact .inr rfl
  · exact .inr rfl

theorem realToInteger_realToInteger (v : Storage) :
    v.realToInteger.realToInteger = v.realToInteger := by
  cases v with
  | real x =>
      rcases realToInteger_eq_or x with ⟨n, h⟩ | h
      · rw [h]
        rfl
      · rw [h, h]
  | _ => rfl

end Storage

namespace Binary64

theorem le_nearestEven (num den : Nat) : num / den ≤ nearestEven num den := by
  unfold nearestEven
  simp only
  split
  · omega
  · split
    · omega
    · split <;> omega

theorem nearestEven_le (num den : Nat) : nearestEven num den ≤ num / den + 1 := by
  unfold nearestEven
  simp only
  split
  · omega
  · split
    · omega
    · split <;> omega

/-- Rounding an integer that is not too large gives a number of the format. -/
theorem canonical_roundUnits {num : Nat} (h : num.log2 ≤ 2096) :
    Canonical (roundUnits 53 num 1).1 (roundUnits 53 num 1).2 := by
  have hlt : num < 2 ^ (num.log2 + 1) := Nat.lt_log2_self
  unfold roundUnits
  simp only [Nat.div_one, Nat.one_mul]
  generalize hs : num.log2 + 1 - 53 = shift
  have hpos : 0 < Nat.pow 2 shift := pow_two_pos shift
  have hquotient : num / Nat.pow 2 shift < Nat.pow 2 53 := by
    rw [Nat.div_lt_iff_lt_mul hpos]
    change num < 2 ^ 53 * 2 ^ shift
    rw [← Nat.pow_add]
    exact Nat.lt_of_lt_of_le hlt (Nat.pow_le_pow_right (by omega) (by omega))
  have hle := nearestEven_le num (Nat.pow 2 shift)
  split
  · have hbits : Nat.pow 2 (53 - 1) < Nat.pow 2 53 := by decide
    exact ⟨hbits, .inr (Nat.le_refl _), by dsimp only; omega⟩
  · rename_i hne
    refine ⟨by dsimp only; omega, ?_, by dsimp only; omega⟩
    by_cases hzero : shift = 0
    · exact .inl hzero
    · have hnum : num ≠ 0 := by
        rintro rfl
        simp at hs
        omega
      have hlow : Nat.pow 2 52 ≤ num / Nat.pow 2 shift := by
        rw [Nat.le_div_iff_mul_le hpos]
        calc 2 ^ 52 * 2 ^ shift
          _ = 2 ^ (52 + shift) := (Nat.pow_add ..).symm
          _ ≤ 2 ^ num.log2 := Nat.pow_le_pow_right (by omega) (by omega)
          _ ≤ num := Nat.log2_self_le hnum
      exact .inr (Nat.le_trans hlow (le_nearestEven num _))

theorem log2_mul_le (m n : Nat) : (m * n).log2 ≤ m.log2 + n.log2 + 1 := by
  by_cases hzero : m * n = 0
  · rw [hzero, Nat.log2_zero]
    omega
  · have hlt : m * n < 2 ^ (m.log2 + n.log2 + 2) :=
      calc m * n
        _ < 2 ^ (m.log2 + 1) * 2 ^ (n.log2 + 1) :=
          Nat.mul_lt_mul'' Nat.lt_log2_self Nat.lt_log2_self
        _ = 2 ^ (m.log2 + 1 + (n.log2 + 1)) := (Nat.pow_add ..).symm
        _ = 2 ^ (m.log2 + n.log2 + 2) := by congr 1; omega
    have := (Nat.log2_lt hzero).2 hlt
    omega

/-- Integers of 64 bits become finite numbers. -/
theorem isFinite_ofInt (n : Int64) : (ofInt n.toInt).isFinite = true := by
  have hmag : n.toInt.natAbs < 2 ^ 64 := by
    have := Int64.le_toInt n
    have := Int64.toInt_lt n
    omega
  have hint : n.toInt.natAbs.log2 ≤ 64 := by
    by_cases hzero : n.toInt.natAbs = 0
    · rw [hzero, Nat.log2_zero]
      omega
    · exact Nat.le_of_lt ((Nat.log2_lt hzero).2 hmag)
  have hunits : unitsPerOne.log2 ≤ 2000 := by decide +kernel
  have hlog := log2_mul_le n.toInt.natAbs unitsPerOne
  have hcanonical : Canonical (roundUnits 53 (n.toInt.natAbs * unitsPerOne) 1).1
      (roundUnits 53 (n.toInt.natAbs * unitsPerOne) 1).2 :=
    canonical_roundUnits (by omega)
  unfold ofInt ofRatio ofUnits
  dsimp only
  rw [dif_pos hcanonical]
  rfl

theorem roundUnits_ne_zero {num : Nat} (h : num ≠ 0) : (roundUnits 53 num 1).1 ≠ 0 := by
  unfold roundUnits
  simp only
  split
  · exact Nat.ne_of_gt (pow_two_pos _)
  · rw [Nat.div_one, Nat.one_mul]
    have hle : Nat.pow 2 (num.log2 + 1 - 53) ≤ num :=
      calc 2 ^ (num.log2 + 1 - 53)
        _ ≤ 2 ^ num.log2 := Nat.pow_le_pow_right (by omega) (by omega)
        _ ≤ num := Nat.log2_self_le h
    have hdiv : 1 ≤ num / Nat.pow 2 (num.log2 + 1 - 53) :=
      Nat.div_pos hle (pow_two_pos _)
    have := le_nearestEven num (Nat.pow 2 (num.log2 + 1 - 53))
    omega

theorem magnitude_ofUnits_ne_zero {negative : Bool} {num : Nat} (h : num ≠ 0)
    (hf : (ofUnits negative num 1).isFinite = true) : (ofUnits negative num 1).magnitude ≠ 0 := by
  unfold ofUnits at hf ⊢
  simp only at hf ⊢
  split
  · exact Nat.mul_ne_zero (roundUnits_ne_zero h) (Nat.ne_of_gt (pow_two_pos _))
  · rename_i hc
    simp [hc, isFinite] at hf

/-- The only zero among the reals that integers become is the positive one. -/
theorem ofInt_of_magnitude_eq_zero {n : Int} (h : (ofInt n).magnitude = 0)
    (hf : (ofInt n).isFinite = true) : ofInt n = zero false := by
  by_cases hn : n = 0
  · rw [hn, ofInt, ofRatio, Int.natAbs_zero, Nat.zero_mul]
    decide
  · have hnum : n.natAbs * unitsPerOne ≠ 0 :=
      Nat.mul_ne_zero (Int.natAbs_ne_zero.2 hn) (Nat.ne_of_gt unitsPerOne_pos)
    exact absurd h (magnitude_ofUnits_ne_zero hnum hf)

theorem toInt?_of_magnitude_eq_zero {x : Binary64} (hfinite : x.isFinite = true)
    (h : x.magnitude = 0) : x.toInt? = some 0 := by
  rw [toInt?_eq_some_iff, Int.zero_mul]
  refine ⟨hfinite, ?_⟩
  cases x with
  | finite negative m e hc =>
      change m * Nat.pow 2 e = 0 at h
      cases negative with
      | false =>
          change ((m * Nat.pow 2 e : Nat) : Int) = 0
          rw [h, Int.natCast_zero]
      | true =>
          change -((m * Nat.pow 2 e : Nat) : Int) = 0
          rw [h, Int.natCast_zero, Int.neg_zero]
  | _ => rfl

/-- The only finite numbers of no units are the two zeros. -/
theorem eq_zero_of_units {s : Bool} {m e : Nat} {hc : Canonical m e}
    (h : (Binary64.finite s m e hc).units = 0) : Binary64.finite s m e hc = zero s := by
  have hmagnitude : m * Nat.pow 2 e = 0 := by
    cases s with
    | false => exact Int.natCast_eq_zero.1 h
    | true => exact Int.natCast_eq_zero.1 (Int.neg_eq_zero.1 h)
  obtain rfl : m = 0 :=
    (Nat.mul_eq_zero.1 hmagnitude).resolve_right (Nat.ne_of_gt (pow_two_pos e))
  obtain rfl : e = 0 := hc.2.1.resolve_right (by decide)
  rfl

/-- Numbers that compare as equal are the same or are zeros. -/
theorem eq_or_zeros_of_cmp {x y : Binary64} (hx : x ≠ .nan) (h : x.cmp y = .eq) :
    x = y ∨ ∃ s t, x = zero s ∧ y = zero t := by
  cases x with
  | nan => exact absurd rfl hx
  | infinite s =>
      cases y with
      | infinite t =>
          by_cases hst : s = t
          · exact .inl (congrArg _ hst)
          · cases s <;> cases t <;> first | exact absurd rfl hst | cases h
      | finite t m e hc => cases s <;> cases h
      | nan => cases h
  | finite s m e hc =>
      cases y with
      | nan => cases h
      | infinite t => cases t <;> cases h
      | finite t n d hd =>
          have hunits : (Binary64.finite s m e hc).units = (Binary64.finite t n d hd).units :=
            Int.compare_eq_eq.1 h
          by_cases hzero : (Binary64.finite s m e hc).units = 0
          · exact .inr ⟨s, t, eq_zero_of_units hzero, eq_zero_of_units (hunits ▸ hzero)⟩
          · exact .inl (eq_of_units_eq hunits hzero)

theorem ofInt_ne_nan (n : Int64) : ofInt n.toInt ≠ .nan := by
  intro h
  have hfinite := isFinite_ofInt n
  rw [h] at hfinite
  cases hfinite

end Binary64

namespace Storage

theorem integerToReal_integerToReal (v : Storage) :
    v.integerToReal.integerToReal = v.integerToReal := by
  cases v with
  | integer n =>
      by_cases h : (Binary64.ofInt n.toInt).magnitude = 0 ∧ (Binary64.ofInt n.toInt).isFinite = true
      · rw [integerToReal, Binary64.ofInt_of_magnitude_eq_zero h.1 h.2]
        rfl
      · simp only [integerToReal, Bool.and_eq_true, decide_eq_true_eq, if_neg h]
  | real x =>
      by_cases h : x.magnitude = 0 ∧ x.isFinite = true
      · simp only [integerToReal, Bool.and_eq_true, decide_eq_true_eq, if_pos h]
        rfl
      · simp only [integerToReal, Bool.and_eq_true, decide_eq_true_eq, if_neg h]
  | _ => rfl

end Storage

namespace Affinity

open Storage

/-- A column stores unchanged what it has stored. -/
theorem store_store (f : Affinity) (v : Storage) : f.store (f.store v) = f.store v := by
  have after_text (g : Storage → Storage) (hg : ∀ w, (g w).isText = w.isText)
      (ht : ∀ w, w.isText = true → g w = w) (hgg : ∀ w, g (g w) = g w) :
      g (g v.textToNumber).textToNumber = g v.textToNumber := by
    cases hv : v.textToNumber.isText with
    | false => rw [textToNumber_of_notText ((hg _).trans hv), hgg]
    | true => rw [ht _ hv, textToNumber_textToNumber, ht _ hv]
  cases f with
  | none => rfl
  | blob => rfl
  | text => cases v <;> rfl
  | numeric =>
      exact after_text _ isText_realToInteger (fun _ => realToInteger_of_text)
        realToInteger_realToInteger
  | integer =>
      exact after_text _ isText_realToInteger (fun _ => realToInteger_of_text)
        realToInteger_realToInteger
  | real =>
      exact after_text _ isText_integerToReal (fun _ => integerToReal_of_text)
        integerToReal_integerToReal

end Affinity

/-! ## Conditions on cells -/

namespace Storage

@[simp] theorem holds_ofBool (b : Bool) : (ofBool b).holds = b := by
  cases b <;> rfl

@[simp] theorem holds_null : Storage.null.holds = false :=
  rfl

theorem holds_compareBy_eq {f : Affinity} {a b : Storage} :
    (a.compareBy .eq f b).holds = true ↔
      a.isNull = false ∧ b.isNull = false ∧ (f.unify a b).1.cmp (f.unify a b).2 = .eq := by
  unfold compareBy
  cases ha : a.isNull with
  | true => simp
  | false =>
      cases hb : b.isNull with
      | true => simp
      | false =>
          simp only [Bool.or_self, Bool.false_eq_true, if_false, holds_ofBool, true_and]
          generalize (f.unify a b).1.cmp (f.unify a b).2 = o
          cases o <;> simp [Sql.Comparison.accepts, Ordering.isEq]

end Storage

namespace Affinity

open Storage

/-- Cells that two columns have stored, both of the affinity, are compared as they are. -/
theorem unify_eq_self {f : Affinity} {a b : Storage}
    (ha : f.forMember a = a) (hb : f.forMember b = b) : f.unify a b = (a, b) := by
  unfold unify
  unfold forMember at ha hb
  cases hn : f.isNumeric with
  | true =>
      simp only [hn, if_true] at ha hb
      simp only [if_true, ha, hb]
  | false =>
      simp only [hn, Bool.false_eq_true, if_false] at ha hb ⊢
      split
      · rename_i ht
        have ht : f = .text := of_decide_eq_true (Bool.and_eq_true_iff.1 ht).1
        simp only [ht, if_true] at ha hb
        rw [ha, hb]
      · rfl

end Affinity

namespace CellSet

theorem contains_insert {s : CellSet} {v k : Storage} :
    (s.insert v).cells.contains k = true ↔
      s.cells.contains k = true ∨ (v.isNull = false ∧ v.normal = k) := by
  unfold insert
  cases hv : v.isNull with
  | true => simp
  | false =>
      simp only [Bool.false_eq_true, if_false, Std.HashSet.contains_insert, Bool.or_eq_true,
        beq_iff_eq, true_and]
      exact Or.comm

theorem contains_foldl_insert {f : Affinity} {vs : List Storage} {s : CellSet} {k : Storage} :
    (vs.foldl (fun s v => s.insert (f.forMember v)) s).cells.contains k = true ↔
      s.cells.contains k = true ∨
        ∃ v ∈ vs, (f.forMember v).isNull = false ∧ (f.forMember v).normal = k := by
  induction vs generalizing s with
  | nil => simp
  | cons v vs ih => simp only [List.foldl_cons, ih, contains_insert, List.mem_cons,
      exists_eq_or_imp, or_assoc]

theorem contains_ofList {f : Affinity} {vs : List Storage} {k : Storage} :
    (ofList f vs).cells.contains k = true ↔
      ∃ v ∈ vs, (f.forMember v).isNull = false ∧ (f.forMember v).normal = k := by
  unfold ofList
  rw [contains_foldl_insert]
  simp [empty]

/-- A cell is found among others by its normal form. -/
theorem holds_member {f : Affinity} {vs : List Storage} {v : Storage} :
    ((ofList f vs).member f v).holds = true ↔
      v.isNull = false ∧
        ∃ w ∈ vs, (f.forMember w).isNull = false ∧
          (f.forMember w).normal = (f.forMember v).normal := by
  rw [← contains_ofList]
  unfold member
  cases hc : (ofList f vs).cells.contains (f.forMember v).normal with
  | true =>
      have hne : (ofList f vs).cells.isEmpty = false := by
        cases he : (ofList f vs).cells.isEmpty with
        | false => rfl
        | true => simp [Std.HashSet.contains_of_isEmpty he] at hc
      cases hv : v.isNull <;> simp [hne]
  | false =>
      split
      · simp
      · split
        · simp
        · rw [if_neg Bool.false_ne_true]
          split <;> simp

end CellSet

end StagedStore
