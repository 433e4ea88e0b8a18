import Mathlib.Tactic.IntervalCases
import StagedStore.Calendar.Date

/-!
# Days and dates

Every count of days is that of the date it gives, and this date exists. An era of 400 years is
divided into centuries, spans of four years, years from March and days; a day at the end of a span
or of the era is the 366th of its year.
-/

namespace StagedStore.Date

theorem IsValid.day_le {d : Date} (h : d.IsValid) : d.day ≤ 31 := by
  refine h.2.trans ?_
  unfold daysInMonth
  split <;> try split
  all_goals decide

theorem IsValid.month_le {d : Date} (h : d.IsValid) : d.month ≤ 12 := by
  refine Decidable.byContradiction fun hlarge => ?_
  have hzero : daysInMonth d.year d.month = 0 := by
    unfold daysInMonth
    split <;> omega
  obtain ⟨h1, h2⟩ := h
  omega

/-- A day of an era by its century, its span of four years, its year in the span and its day in
the year. -/
structure Place (d c q j i : Int) : Prop where
  eq : d = 36524 * c + 1461 * q + 365 * j + i
  century : 0 ≤ c ∧ c ≤ 3
  span : 0 ≤ q ∧ q ≤ 24
  year : 0 ≤ j ∧ j ≤ 3
  day : 0 ≤ i
  last : i ≤ 364 ∨ i = 365 ∧ j = 3 ∧ (q ≤ 23 ∨ c = 3)

theorem exists_place {d : Int} (h0 : 0 ≤ d) (h1 : d < 146097) : ∃ c q j i, Place d c q j i := by
  obtain ⟨c, k, hd, hc0, hc3, hk0, hk⟩ : ∃ c k : Int, d = 36524 * c + k ∧ 0 ≤ c ∧ c ≤ 3 ∧ 0 ≤ k ∧
      (k < 36524 ∨ k = 36524 ∧ c = 3) := by
    refine ⟨if d < 146096 then d / 36524 else 3, if d < 146096 then d % 36524 else 36524, ?_⟩
    split <;> omega
  obtain ⟨m, hm⟩ : ∃ m, m = k % 1461 := ⟨_, rfl⟩
  refine ⟨c, k / 1461, if m < 1460 then m / 365 else 3, if m < 1460 then m % 365 else 365, ?_⟩
  split <;> constructor <;> omega

namespace Place

variable {d c q j i : Int} (h : Place d c q j i)

include h

theorem yearOfEra_eq :
    (d - d / 1460 + d / 36524 - d / 146096) / 365 = 100 * c + 4 * q + j := by
  obtain ⟨hd, hc, hq, hj, hi, hlast⟩ := h
  have hsmall : d / 146096 = 0 ∧ d / 36524 = c ∨ d = 146096 := by omega
  rcases hsmall with ⟨h1, h2⟩ | rfl
  · have h3 : d / 1460 = 25 * c + q ∨
        d / 1460 = 25 * c + q + 1 ∧ 1460 ≤ 24 * c + q + 365 * j + i := by
      omega
    rw [h1, h2]
    rcases h3 with h3 | ⟨h3, h4⟩
    · rw [h3]
      omega
    · rw [h3]
      omega
  · omega

/-- The days of the years in front and those in the year. -/
theorem days_eq {y : Int} (hy : y = 100 * c + 4 * q + j) :
    d - (365 * y + y / 4 - y / 100) = i := by
  obtain ⟨hd, hc, hq, hj, hi, hlast⟩ := h
  omega

end Place

/-- The date of a day in a year from March. -/
def ofPlace (y i : Int) : Date :=
  let fromMarch := (5 * i + 2) / 153
  let day := i - (153 * fromMarch + 2) / 5 + 1
  let month := if fromMarch < 10 then fromMarch + 3 else fromMarch - 9
  ⟨if month ≤ 2 then y + 1 else y, month.toNat, day.toNat⟩

theorem exists_ofDays_eq (n : Int) : ∃ era c q j i, Place (n + 719468 - 146097 * era) c q j i ∧
    ofDays n = ofPlace (100 * c + 4 * q + j + era * 400) i := by
  obtain ⟨c, q, j, i, hplace⟩ := exists_place (d := (n + 719468) % 146097) (by omega) (by omega)
  refine ⟨(n + 719468) / 146097, c, q, j, i, ?_, ?_⟩
  · have hmod : n + 719468 - 146097 * ((n + 719468) / 146097) = (n + 719468) % 146097 := by omega
    rwa [hmod]
  · unfold ofDays ofPlace
    dsimp only
    rw [hplace.yearOfEra_eq, hplace.days_eq rfl]

theorem toDays_ofPlace {y i : Int} (h0 : 0 ≤ i) (h1 : i ≤ 365) :
    (ofPlace y i).toDays = y * 365 + y / 4 - y / 100 + y / 400 + i - 719468 := by
  obtain ⟨m, hm⟩ : ∃ m, m = (5 * i + 2) / 153 := ⟨_, rfl⟩
  have hm0 : 0 ≤ m := by omega
  have hm1 : m ≤ 11 := by omega
  unfold ofPlace toDays
  dsimp only
  rw [← hm]
  interval_cases m <;> simp <;> omega

theorem isValid_ofPlace {y i : Int} (h0 : 0 ≤ i) (h1 : i ≤ 364 ∨ i = 365 ∧ isLeapYear (y + 1)) :
    (ofPlace y i).IsValid := by
  obtain ⟨m, hm⟩ : ∃ m, m = (5 * i + 2) / 153 := ⟨_, rfl⟩
  have hm0 : 0 ≤ m := by omega
  unfold ofPlace IsValid
  dsimp only
  rw [← hm]
  -- The length of a month depends on the year in February alone, the last month from March.
  by_cases hlast : m = 11
  · subst hlast
    cases hleap : isLeapYear (y + 1) <;> simp [daysInMonth, hleap] at h1 ⊢ <;> omega
  · have hm1 : m ≤ 10 := by omega
    interval_cases m <;> simp [daysInMonth] <;> omega

theorem Place.isLeapYear {d c q j era : Int} (h : Place d c q j 365) :
    isLeapYear (100 * c + 4 * q + j + era * 400 + 1) = true := by
  obtain ⟨-, hc, hq, -, -, hlast⟩ := h
  unfold Date.isLeapYear
  rw [Bool.and_eq_true_iff, Bool.or_eq_true_iff, decide_eq_true_iff, decide_eq_true_iff,
    decide_eq_true_iff]
  omega

theorem toDays_ofDays (n : Int) : (ofDays n).toDays = n := by
  obtain ⟨era, c, q, j, i, hplace, hdate⟩ := exists_ofDays_eq n
  rw [hdate, toDays_ofPlace hplace.day (by have hlast := hplace.last; omega)]
  obtain ⟨hd, hc, hq, hj, -, -⟩ := hplace
  omega

theorem isValid_ofDays (n : Int) : (ofDays n).IsValid := by
  obtain ⟨era, c, q, j, i, hplace, hdate⟩ := exists_ofDays_eq n
  rw [hdate]
  refine isValid_ofPlace hplace.day (hplace.last.imp_right ?_)
  rintro ⟨rfl, -⟩
  exact ⟨rfl, hplace.isLeapYear⟩

end StagedStore.Date
