import Mathlib.Order.Monotone.Basic
import StagedStore.Proofs.Calendar.Timestamp
import StagedStore.Proofs.Text.Compared

/-!
# Time and its texts in order

A later date counts more days, whatever the lengths of the months and years between. So the texts
that a store keeps of timestamps with years of four digits stand as the timestamps do: the text of a
leap second, which alone has a sixtieth second, stands behind its minute and before the next one.
-/

namespace StagedStore

namespace Date

variable {d e : Date}

theorem IsValid.month_pos (h : d.IsValid) : 1 ≤ d.month := by
  refine Nat.pos_of_ne_zero fun hzero => ?_
  have hlength : daysInMonth d.year d.month = 0 := by
    unfold daysInMonth
    split <;> omega
  obtain ⟨h1, h2⟩ := h
  omega

/-- The months from March of the year zero to the month of a date. -/
def monthIndex (d : Date) : Int :=
  12 * d.year + d.month - 3

/-- The day count of the first day of a month. -/
def monthStart (k : Int) : Int :=
  k / 12 * 365 + k / 12 / 4 - k / 12 / 100 + k / 12 / 400 + (153 * (k % 12) + 2) / 5 - 719468

theorem toDays_eq (h1 : 1 ≤ d.month) (h12 : d.month ≤ 12) :
    d.toDays = monthStart d.monthIndex + d.day - 1 := by
  have hyear : d.monthIndex / 12 = if d.month ≤ 2 then d.year - 1 else d.year := by
    unfold monthIndex
    split <;> omega
  have hmonth : d.monthIndex % 12 = ((d.month + 9) % 12 : Nat) := by
    unfold monthIndex
    omega
  unfold toDays monthStart
  rw [hyear, hmonth]
  dsimp only
  omega

theorem IsValid.toDays_lt_next (h : d.IsValid) : d.toDays < monthStart (d.monthIndex + 1) := by
  have h1 := h.month_pos
  have h12 := h.month_le
  have hday := h.2
  rw [toDays_eq h1 h12]
  obtain ⟨y, m, n⟩ := d
  dsimp only at h1 h12 hday ⊢
  unfold monthStart monthIndex
  dsimp only
  interval_cases m
  case «2» =>
    -- The leap day is the last of its year from March, before the count of years goes on.
    by_cases hleap : isLeapYear y = true
    · have hlast : n ≤ 29 := hday.trans_eq (if_pos hleap)
      simp only [isLeapYear, Bool.and_eq_true, Bool.or_eq_true, decide_eq_true_eq] at hleap
      omega
    · have hlast : n ≤ 28 := hday.trans_eq (if_neg hleap)
      omega
  all_goals
    simp only [daysInMonth] at hday
    omega

theorem monthStart_le {i j : Int} (h : i ≤ j) : monthStart i ≤ monthStart j := by
  refine monotone_int_of_le_succ (fun k => ?_) h
  unfold monthStart
  omega

theorem toDays_lt_of_monthIndex_lt (hd : d.IsValid) (he : e.IsValid)
    (h : d.monthIndex < e.monthIndex) : d.toDays < e.toDays :=
  calc d.toDays < monthStart (d.monthIndex + 1) := hd.toDays_lt_next
    _ ≤ monthStart e.monthIndex := monthStart_le h
    _ ≤ e.toDays := by
      have h1 := he.1
      rw [toDays_eq he.month_pos he.month_le]
      omega

/-- Dates stand as the days that they count. -/
theorem compare_toDays (hd : d.IsValid) (he : e.IsValid) :
    (compare d.year e.year).then ((compare d.month e.month).then (compare d.day e.day)) =
      compare d.toDays e.toDays := by
  have hd1 := hd.month_pos
  have hd12 := hd.month_le
  have he1 := he.month_pos
  have he12 := he.month_le
  have hlt : d.monthIndex < e.monthIndex → compare d.toDays e.toDays = .lt :=
    fun h => compare_lt_iff_lt.2 (toDays_lt_of_monthIndex_lt hd he h)
  have hgt : e.monthIndex < d.monthIndex → compare d.toDays e.toDays = .gt :=
    fun h => compare_gt_iff_gt.2 (toDays_lt_of_monthIndex_lt he hd h)
  unfold monthIndex at hlt hgt
  refine compare_then (fun h => hlt (by omega)) (fun h => hgt (by omega)) fun hyear => ?_
  refine compare_then (fun h => hlt (by omega)) (fun h => hgt (by omega)) fun hmonth => ?_
  have hsame : monthStart d.monthIndex = monthStart e.monthIndex := by
    rw [monthIndex, monthIndex, hyear, hmonth]
  rw [toDays_eq hd1 hd12, toDays_eq he1 he12, hsame]
  exact compare_eq_of (fun h => compare_lt_iff_lt.2 (by omega))
    (fun h => compare_gt_iff_gt.2 (by omega)) fun h => compare_eq_iff_eq.2 (by omega)

end Date

namespace Timestamp

variable {a b : Timestamp}

/-- Earlier or later: by the second, then within it. -/
def chronological (a b : Timestamp) : Ordering :=
  (compare a.seconds b.seconds).then (compare a.nanos b.nanos)

theorem chronological_eq_lt_iff : a.chronological b = .lt ↔
    a.seconds < b.seconds ∨ a.seconds = b.seconds ∧ a.nanos < b.nanos := by
  rw [chronological, Ordering.then_eq_lt, compare_lt_iff_lt, compare_eq_iff_eq, compare_lt_iff_lt]

theorem chronological_eq_gt_iff : a.chronological b = .gt ↔
    b.seconds < a.seconds ∨ a.seconds = b.seconds ∧ b.nanos < a.nanos := by
  rw [chronological, Ordering.then_eq_gt, compare_gt_iff_gt, compare_eq_iff_eq, compare_gt_iff_gt]

theorem chronological_eq_eq_iff : a.chronological b = .eq ↔ a = b := by
  rw [chronological, Ordering.then_eq_eq, compare_eq_iff_eq, compare_eq_iff_eq, mk.injEq]

/-! ## The parts of a text -/

section Padded

variable {width m n : Nat}

theorem compare_padded (hw : 0 < width) (hm : m < 10 ^ width) (hn : n < 10 ^ width) :
    compare (padded width m) (padded width n) = compare m n := by
  rw [compare_digits (fun _ => isDigit_of_mem_padded) (fun _ => isDigit_of_mem_padded)
    ((length_padded hw hm).trans (length_padded hw hn).symm), digitsValue_padded,
    digitsValue_padded]

/-- Numbers of some digits decide before what is behind them. -/
theorem compare_padded_append (hw : 0 < width) (hm : m < 10 ^ width) (hn : n < 10 ^ width)
    (c : Char) (r r' : List Char) :
    compare (padded width m ++ c :: r) (padded width n ++ c :: r') =
      (compare m n).then (compare r r') := by
  rw [compare_append ((length_padded hw hm).trans (length_padded hw hn).symm),
    compare_padded hw hm hn, List.compare_cons_cons, Std.compare_self, Ordering.eq_then]

end Padded

/-- The minutes within the day. -/
def minuteOfDay (t : Timestamp) : Nat :=
  t.secondOfDay / 60

/-- The second of the minute as it is written. -/
def writtenSecond (t : Timestamp) : Nat :=
  t.secondOfDay % 60 + t.nanos / nanosPerSecond

/-- The microseconds of the second as they are written. -/
def writtenMicros (t : Timestamp) : Nat :=
  t.nanos % nanosPerSecond / 1000

theorem writtenSecond_lt (t : Timestamp) : t.writtenSecond < 10 ^ 2 := by
  have htext := t.second_text
  unfold writtenSecond
  omega

theorem writtenMicros_lt (t : Timestamp) : t.writtenMicros < 10 ^ 6 := by
  unfold writtenMicros nanosPerSecond
  omega

theorem toStorageText_eq_written (h : 0 ≤ a.date.year ∧ a.date.year ≤ 9999) :
    a.toStorageText = textOf a.date.year.toNat a.date.month a.date.day (a.minuteOfDay / 60)
      (a.minuteOfDay % 60) a.writtenSecond a.writtenMicros := by
  have hhour : a.minuteOfDay / 60 = a.secondOfDay / 3600 := Nat.div_div_eq_div_mul ..
  rw [toStorageText_eq_textOf h.1 h.2, hhour]
  rfl

theorem compare_written (ha : 0 ≤ a.date.year ∧ a.date.year ≤ 9999)
    (hb : 0 ≤ b.date.year ∧ b.date.year ≤ 9999) :
    compare a.toStorageText b.toStorageText =
      (compare a.date.toDays b.date.toDays).then ((compare a.minuteOfDay b.minuteOfDay).then
        ((compare a.writtenSecond b.writtenSecond).then
          (compare a.writtenMicros b.writtenMicros))) := by
  have hav : a.date.IsValid := Date.isValid_ofDays _
  have hbv : b.date.IsValid := Date.isValid_ofDays _
  have hyear : compare a.date.year.toNat b.date.year.toNat = compare a.date.year b.date.year :=
    compare_eq_of (fun h => compare_lt_iff_lt.2 (by omega))
      (fun h => compare_gt_iff_gt.2 (by omega)) fun h => compare_eq_iff_eq.2 (by omega)
  have hclock : (compare (a.minuteOfDay / 60) (b.minuteOfDay / 60)).then
      (compare (a.minuteOfDay % 60) (b.minuteOfDay % 60)) =
        compare a.minuteOfDay b.minuteOfDay := by
    rw [compare_digit (Nat.mod_lt _ (by decide)) (Nat.mod_lt _ (by decide)), Nat.div_add_mod,
      Nat.div_add_mod]
  have hminute (t : Timestamp) : t.minuteOfDay < 1440 := Nat.div_lt_of_lt_mul t.secondOfDay_lt
  have ham := hav.month_le
  have had := hav.day_le
  have hbm := hbv.month_le
  have hbd := hbv.day_le
  have hat := hminute a
  have hbt := hminute b
  rw [toStorageText_eq_written ha, toStorageText_eq_written hb, textOf, textOf, compare_ofList,
    compare_padded_append (by decide) (by omega) (by omega),
    compare_padded_append (by decide) (by omega) (by omega),
    compare_padded_append (by decide) (by omega) (by omega),
    compare_padded_append (by decide) (by omega) (by omega),
    compare_padded_append (by decide) (by omega) (by omega),
    compare_padded_append (by decide) a.writtenSecond_lt b.writtenSecond_lt,
    compare_padded_append (by decide) a.writtenMicros_lt b.writtenMicros_lt,
    Std.compare_self, Ordering.then_eq, hyear, ← Date.compare_toDays hav hbv, ← hclock]
  simp only [Ordering.then_assoc]

/-- Text sorts like time: the texts of a store stand as the timestamps do without what is below a
microsecond. -/
theorem compare_toStorageText (ha : 0 ≤ a.date.year ∧ a.date.year ≤ 9999)
    (hb : 0 ≤ b.date.year ∧ b.date.year ≤ 9999) :
    compare a.toStorageText b.toStorageText = a.toMicros.chronological b.toMicros := by
  have hlt := @chronological_eq_lt_iff a.toMicros b.toMicros
  have hgt := @chronological_eq_gt_iff a.toMicros b.toMicros
  have heq : a.toMicros.chronological b.toMicros = .eq ↔
      a.seconds = b.seconds ∧ a.toMicros.nanos = b.toMicros.nanos := by
    rw [chronological_eq_eq_iff, mk.injEq]
    rfl
  have hdays (t : Timestamp) : t.seconds = 86400 * t.date.toDays + t.secondOfDay := by
    have hcount : t.date.toDays = t.seconds / 86400 := Date.toDays_ofDays _
    unfold secondOfDay
    omega
  have hta := hdays a
  have htb := hdays b
  have hsa := a.secondOfDay_lt
  have hsb := b.secondOfDay_lt
  have hxa := a.second_text
  have hxb := b.second_text
  have hna := a.nanos_lt
  have hnb := b.nanos_lt
  rw [compare_written ha hb]
  simp only [toMicros, nanosPerSecond] at hlt hgt heq hxa hxb hna hnb
  unfold minuteOfDay writtenSecond writtenMicros nanosPerSecond
  -- The part that decides puts the seconds in its order, or a leap second behind its second.
  refine compare_then (fun h => hlt.2 (by omega)) (fun h => hgt.2 (by omega)) fun hd => ?_
  refine compare_then (fun h => hlt.2 (by omega)) (fun h => hgt.2 (by omega)) fun hm => ?_
  refine compare_then (fun h => hlt.2 (by omega)) (fun h => hgt.2 (by omega)) fun hs => ?_
  exact compare_eq_of (fun h => hlt.2 (by omega)) (fun h => hgt.2 (by omega))
    fun h => heq.2 (by omega)

theorem isAscii_toStorageText (ha : 0 ≤ a.date.year ∧ a.date.year ≤ 9999) :
    ∀ c ∈ a.toStorageText.toList, IsAscii c := by
  have hpadded {width n : Nat} : ∀ c ∈ padded width n, IsAscii c :=
    fun c hc => isAscii_of_isDigit (isDigit_of_mem_padded hc)
  have hmark {cs : List Char} {c : Char} {r : List Char} (hc : IsAscii c)
      (hcs : ∀ x ∈ cs, IsAscii x) (hr : ∀ x ∈ r, IsAscii x) : ∀ x ∈ cs ++ c :: r, IsAscii x := by
    intro x hx
    rcases List.mem_append.1 hx with hx | hx
    · exact hcs x hx
    · rcases List.mem_cons.1 hx with rfl | hx
      · exact hc
      · exact hr x hx
  rw [toStorageText_eq_textOf ha.1 ha.2, textOf, String.toList_ofList]
  refine hmark (by decide) hpadded (hmark (by decide) hpadded (hmark (by decide) hpadded ?_))
  refine hmark (by decide) hpadded (hmark (by decide) hpadded (hmark (by decide) hpadded ?_))
  exact hmark (by decide) hpadded (List.forall_mem_nil _)

theorem compare_utf8Bytes_toStorageText (ha : 0 ≤ a.date.year ∧ a.date.year ≤ 9999)
    (hb : 0 ≤ b.date.year ∧ b.date.year ≤ 9999) :
    compare (utf8Bytes a.toStorageText) (utf8Bytes b.toStorageText) =
      compare a.toStorageText b.toStorageText := by
  have hbytes := compare_utf8Bytes (isAscii_toStorageText ha) (isAscii_toStorageText hb)
  rwa [String.ofList_toList, String.ofList_toList] at hbytes

end Timestamp

end StagedStore
