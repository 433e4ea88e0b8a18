import StagedStore.Calendar.Timestamp
import StagedStore.Proofs.Calendar.Date
import StagedStore.Proofs.Digits

/-!
# Timestamps as texts

The text that a store keeps of a timestamp with a year of four digits is read as that timestamp
without what is below a microsecond; a leap second stays one.
-/

namespace StagedStore.Timestamp

/-! ## Digits in front of others -/

section Padded

variable {width n : Nat}

theorem isDigit_of_mem_padded {c : Char} (hc : c ∈ padded width n) : c.isDigit = true := by
  rcases List.mem_append.1 hc with hc | hc
  · rw [List.eq_of_mem_replicate hc]
    rfl
  · exact isDigit_of_mem_toDigits hc

theorem digitsValue_padded : digitsValue (padded width n) = n := by
  rw [padded, digitsValue_append, digitsValue_zeros, Nat.zero_mul, Nat.zero_add,
    digitsValue_toDigits]

theorem length_padded (hw : 0 < width) (hn : n < 10 ^ width) : (padded width n).length = width := by
  have hle := (Nat.length_toDigits_le_iff (b := 10) (by decide) hw).2 hn
  rw [padded, List.length_append, List.length_replicate]
  omega

theorem readDigits?_padded (hw : 0 < width) (hn : n < 10 ^ width) (r : List Char) :
    readDigits? width (padded width n ++ r) = some (n, r) := by
  have hlength := length_padded hw hn
  have hall : (padded width n).all Char.isDigit = true :=
    List.all_eq_true.2 fun c hc => isDigit_of_mem_padded hc
  unfold readDigits?
  rw [List.take_left' hlength, List.drop_left' hlength]
  dsimp only
  rw [if_pos ⟨hlength, hall⟩]
  exact congrArg (fun n => some (n, r)) digitsValue_padded

/-- The first of some digits stand for the number without those behind them. -/
theorem take_padded {k : Nat} (hw : 0 < width) (hk : 0 < k) (hle : k ≤ width)
    (hn : n < 10 ^ width) : (padded width n).take k = padded k (n / 10 ^ (width - k)) := by
  have hlength := length_padded hw hn
  have htake : ((padded width n).take k).length = k := by
    rw [List.length_take, hlength, Nat.min_eq_left hle]
  have hpow : 10 ^ width = 10 ^ k * 10 ^ (width - k) := by
    rw [← Nat.pow_add, Nat.add_sub_cancel' hle]
  have hdigits : ∀ c ∈ (padded width n).take k, c.isDigit = true :=
    fun c hc => isDigit_of_mem_padded (List.mem_of_mem_take hc)
  refine eq_of_digitsValue_eq hdigits (fun c hc => isDigit_of_mem_padded hc) ?_ ?_
  · rw [htake, length_padded hk]
    exact Nat.div_lt_of_lt_mul (by rwa [Nat.mul_comm, ← hpow])
  · have hrest : digitsValue ((padded width n).drop k) < 10 ^ (width - k) := by
      have hlt := @digitsValue_lt ((padded width n).drop k) fun c hc =>
        isDigit_of_mem_padded (List.mem_of_mem_drop hc)
      rwa [List.length_drop, hlength] at hlt
    have hvalue : n = digitsValue ((padded width n).take k) * 10 ^ (width - k) +
        digitsValue ((padded width n).drop k) := by
      have happend := digitsValue_append ((padded width n).take k) ((padded width n).drop k)
      rwa [List.take_append_drop, digitsValue_padded, List.length_drop, hlength] at happend
    rw [digitsValue_padded]
    conv_rhs => rw [hvalue]
    rw [Nat.mul_comm, Nat.mul_add_div (Nat.pow_pos (by decide)), Nat.div_eq_of_lt hrest,
      Nat.add_zero]

theorem readFraction?_padded (hn : n < 10 ^ 6) {r : List Char}
    (hr : ∀ c ∈ r.head?, c.isDigit = false) :
    readFraction? ('.' :: (padded 6 n ++ r)) = some (n * 1000, r) := by
  have hlength := @length_padded 6 n (by decide) hn
  obtain ⟨htake, hdrop⟩ := takeWhile_digits_append
    (fun c hc => @isDigit_of_mem_padded 6 n c hc) hr
  have hnine : (padded 6 n ++ List.replicate 9 '0').take 9 =
      padded 6 n ++ List.replicate 3 '0' := by
    rw [List.take_append, hlength, List.take_of_length_le (by omega)]
    rfl
  have hvalue : digitsValue (padded 6 n ++ List.replicate 3 '0') = n * 1000 := by
    rw [digitsValue_append, digitsValue_padded, digitsValue_zeros, List.length_replicate,
      Nat.add_zero, show 10 ^ 3 = 1000 by decide]
  simp only [readFraction?, htake, hdrop]
  have hne : padded 6 n ≠ [] := List.ne_nil_of_length_eq_add_one hlength
  generalize hds : padded 6 n = ds at hne hnine hvalue
  cases ds with
  | nil => exact absurd rfl hne
  | cons d ds =>
      dsimp only
      rw [hnine]
      exact congrArg (fun n => some (n, r)) hvalue

end Padded

/-! ## The text of a store -/

/-- A timestamp without what is below a microsecond. -/
def toMicros (t : Timestamp) : Timestamp where
  seconds := t.seconds
  nanos := t.nanos - t.nanos % 1000
  nanos_lt := Nat.lt_of_le_of_lt (Nat.sub_le ..) t.nanos_lt
  leap h := t.leap (Nat.le_trans h (Nat.sub_le ..))

variable {t : Timestamp}

theorem toMicros_div : t.toMicros.nanos / nanosPerSecond = t.nanos / nanosPerSecond := by
  have hlt := t.nanos_lt
  simp only [toMicros, nanosPerSecond] at hlt ⊢
  omega

theorem toMicros_mod :
    t.toMicros.nanos % nanosPerSecond / 1000 = t.nanos % nanosPerSecond / 1000 := by
  have hlt := t.nanos_lt
  simp only [toMicros, nanosPerSecond] at hlt ⊢
  omega

/-- The timestamp lies in a leap second. -/
def IsLeap (t : Timestamp) : Prop :=
  nanosPerSecond ≤ t.nanos

instance : Decidable t.IsLeap :=
  inferInstanceAs (Decidable (_ ≤ _))

theorem isLeap_toMicros : t.toMicros.IsLeap ↔ t.IsLeap := by
  simp only [IsLeap, toMicros, nanosPerSecond]
  omega

/-- The date and the time of day to the second and six digits of the fraction. -/
theorem toStorageText_eq (t : Timestamp) : t.toStorageText = String.ofList (t.clockText ++
    ('.' :: padded 6 (t.nanos % nanosPerSecond / 1000)) ++ ['Z']) := by
  have hlt : t.nanos % nanosPerSecond < 10 ^ 9 := Nat.mod_lt _ (by decide)
  have htake := @take_padded 9 _ 6 (by decide) (by decide) (by decide) hlt
  rw [show 10 ^ (9 - 6) = 1000 by decide] at htake
  unfold toStorageText toText
  rw [if_neg (by decide), htake]

theorem toStorageText_toMicros (t : Timestamp) : t.toMicros.toStorageText = t.toStorageText := by
  have hclock : t.toMicros.clockText = t.clockText := by
    unfold clockText
    rw [toMicros_div]
    rfl
  rw [toStorageText_eq, toStorageText_eq, hclock, toMicros_mod]

/-- A date, a time of day and microseconds as text. -/
def textOf (year month day hour minute second micros : Nat) : String :=
  String.ofList (padded 4 year ++ '-' :: (padded 2 month ++ '-' :: (padded 2 day ++ 'T' ::
    (padded 2 hour ++ ':' :: (padded 2 minute ++ ':' :: (padded 2 second ++ '.' ::
      (padded 6 micros ++ ['Z'])))))))

theorem readOne?_cons {ok : Char → Bool} {c : Char} (h : ok c = true) (r : List Char) :
    readOne? ok (c :: r) = some (c, r) :=
  if_pos h

/-- A number of some digits and the mark behind it, both taken off a text. -/
theorem bind_padded {α : Type} {width n : Nat} {ok : Char → Bool} {c : Char} (hpos : 0 < width)
    (hn : n < 10 ^ width) (hc : ok c = true) (r : List Char)
    (f : Nat × List Char → Char × List Char → Option α) :
    ((readDigits? width (padded width n ++ c :: r)).bind fun p =>
      (readOne? ok p.2).bind (f p)) = f (n, c :: r) (c, r) := by
  rw [readDigits?_padded hpos hn, Option.bind_some, readOne?_cons hc, Option.bind_some]

theorem ofText?_textOf {year month day hour minute second micros : Nat} (hyear : year < 10 ^ 4)
    (hmonth : month < 10 ^ 2) (hday : day < 10 ^ 2) (hhour : hour < 10 ^ 2)
    (hminute : minute < 10 ^ 2) (hsecond : second < 10 ^ 2) (hmicros : micros < 10 ^ 6) :
    ofText? (textOf year month day hour minute second micros) =
      if (⟨year, month, day⟩ : Date).IsValid ∧ hour ≤ 23 ∧ minute ≤ 59 ∧ second ≤ 60 then
        make? ((⟨year, month, day⟩ : Date).toDays * 86400 +
            (hour * 3600 + minute * 60 + (if second = 60 then 59 else second : Nat) : Int) - 0)
          (if second = 60 then nanosPerSecond + micros * 1000 else micros * 1000)
      else none := by
  have hfraction : readFraction? ('.' :: (padded 6 micros ++ ['Z'])) = some (micros * 1000, ['Z']) :=
    readFraction?_padded hmicros (by simp)
  have hzone : readZone? ['Z'] = some 0 := rfl
  unfold ofText? textOf
  rw [String.toList_ofList]
  refine (bind_padded (by decide) hyear rfl _ _).trans ?_
  refine (bind_padded (by decide) hmonth rfl _ _).trans ?_
  refine (bind_padded (by decide) hday rfl _ _).trans ?_
  refine (bind_padded (by decide) hhour rfl _ _).trans ?_
  refine (bind_padded (by decide) hminute rfl _ _).trans ?_
  simp only [readDigits?_padded (by decide) hsecond, hfraction, hzone, Option.bind_eq_bind,
    Option.bind_some]

/-- The seconds within the day. -/
def secondOfDay (t : Timestamp) : Nat :=
  (t.seconds % 86400).toNat

theorem secondOfDay_lt : t.secondOfDay < 86400 := by
  unfold secondOfDay
  omega

theorem toStorageText_eq_textOf (hmin : 0 ≤ t.date.year) (hmax : t.date.year ≤ 9999) :
    t.toStorageText = textOf t.date.year.toNat t.date.month t.date.day (t.secondOfDay / 3600)
      (t.secondOfDay / 60 % 60) (t.secondOfDay % 60 + t.nanos / nanosPerSecond)
      (t.nanos % nanosPerSecond / 1000) := by
  have hyear : yearText t.date.year = padded 4 t.date.year.toNat := if_pos ⟨hmin, hmax⟩
  rw [toStorageText_eq, textOf, clockText, hyear]
  simp only [List.append_assoc, List.cons_append]
  rfl

/-- The last second of a leap minute is written as the sixtieth. -/
theorem second_text (t : Timestamp) :
    t.nanos < nanosPerSecond ∧ t.secondOfDay % 60 + t.nanos / nanosPerSecond = t.secondOfDay % 60 ∨
      nanosPerSecond ≤ t.nanos ∧ t.secondOfDay % 60 = 59 ∧
        t.secondOfDay % 60 + t.nanos / nanosPerSecond = 60 := by
  have hlt := t.nanos_lt
  have hleap := t.leap
  simp only [secondOfDay, nanosPerSecond] at hlt hleap ⊢
  omega

theorem make?_self (t : Timestamp) : make? t.seconds t.nanos = some t :=
  dif_pos ⟨t.nanos_lt, t.leap⟩

/-- The text of a store is read again, but for what is below a microsecond. -/
theorem ofText?_toStorageText (hmin : 0 ≤ t.date.year) (hmax : t.date.year ≤ 9999) :
    ofText? t.toStorageText = some t.toMicros := by
  have hvalid : t.date.IsValid := Date.isValid_ofDays _
  have hdays : t.date.toDays = t.seconds / 86400 := Date.toDays_ofDays _
  have hday := hvalid.day_le
  have hmonth := hvalid.month_le
  have hdate : (⟨(t.date.year.toNat : Int), t.date.month, t.date.day⟩ : Date) = t.date := by
    rw [Int.toNat_of_nonneg hmin]
  have hsecond := t.secondOfDay_lt
  have htext := t.second_text
  have hmicros : t.nanos % nanosPerSecond / 1000 < 10 ^ 6 := by
    simp only [nanosPerSecond]
    omega
  have hlast : t.secondOfDay % 60 + t.nanos / nanosPerSecond ≤ 60 := by omega
  rw [toStorageText_eq_textOf hmin hmax, ofText?_textOf (by omega) (by omega) (by omega) (by omega)
    (by omega) (by omega) hmicros, hdate, hdays,
    if_pos ⟨hvalid, by omega, by omega, hlast⟩, ← make?_self t.toMicros]
  have hseconds : (t.secondOfDay : Int) = t.seconds % 86400 := by
    unfold secondOfDay
    omega
  rcases htext with ⟨hnanos, heq⟩ | ⟨hnanos, h59, heq⟩
  · rw [heq, if_neg (by omega), if_neg (by omega)]
    congr 1
    · change _ = t.seconds
      omega
    · simp only [toMicros, nanosPerSecond] at hnanos ⊢
      omega
  · rw [heq, if_pos rfl, if_pos rfl]
    congr 1
    · change _ = t.seconds
      omega
    · have hlt := t.nanos_lt
      simp only [toMicros, nanosPerSecond] at hnanos hlt ⊢
      omega

/-- No digits are read where the text begins with another character. -/
theorem readDigits?_of_not_isDigit {n : Nat} {c : Char} (hn : 0 < n) (hc : c.isDigit = false)
    (r : List Char) : readDigits? n (c :: r) = none := by
  obtain ⟨k, rfl⟩ := Nat.exists_eq_add_of_lt hn
  unfold readDigits?
  simp [hc]

/-- A year that does not have four digits is written behind a sign, with which no year is read. -/
theorem ofText?_toStorageText_of_signed (h : ¬(0 ≤ t.date.year ∧ t.date.year ≤ 9999)) :
    ofText? t.toStorageText = none := by
  obtain ⟨sign, r, hsign, htext⟩ : ∃ (sign : Char) (r : List Char), sign.isDigit = false ∧
      t.toStorageText = String.ofList (sign :: r) := by
    rw [toStorageText_eq, clockText, yearText, if_neg h]
    refine ⟨_, _, ?_, rfl⟩
    split <;> rfl
  unfold ofText?
  rw [htext, String.toList_ofList, readDigits?_of_not_isDigit (by decide) hsign]
  rfl

end StagedStore.Timestamp
