import IngressTls.Instant.Basic
import Mathlib.Algebra.Order.Ring.Int

set_option autoImplicit false

/-! # The calendar

Days are counted in eras of 400 years, all of the same length. The years of an era are taken to
begin in March, so that a leap day is the last day of its year. Every day has a date that exists,
and the date leads back to the day.

Main statements: `isDate_dateOfDays` and `year_mem_of_isDate`.
-/

namespace IngressTls.Instant

/-! ## Years of an era -/

/-- The days of an era that lie before one of its years. -/
def yearStart (year : Int) : Int := 365 * year + year / 4 - year / 100

theorem yearStart_le {year later : Int} (h : year ≤ later) : yearStart year ≤ yearStart later := by
  unfold yearStart
  omega

/-- The number of a day of an era, leap days not counted. -/
def withoutLeapDays (day : Int) : Int := day - day / 1460 + day / 36524 - day / 146096

theorem withoutLeapDays_le {day later : Int} (h : day ≤ later) :
    withoutLeapDays day ≤ withoutLeapDays later := by
  unfold withoutLeapDays
  omega

/-- With every year after the first one, another 365 days are counted. -/
theorem withoutLeapDays_newYear : ∀ year : Fin 399,
    withoutLeapDays (yearStart ((year : Int) + 1) - 1) < 365 * ((year : Int) + 1) ∧
      365 * ((year : Int) + 1) ≤ withoutLeapDays (yearStart ((year : Int) + 1)) := by
  decide +kernel

/-- The year of a day is the last one that has begun. -/
theorem year_of_day {day year : Int} (h : 0 ≤ day) (h' : day ≤ 146096)
    (hyear : year = withoutLeapDays day / 365) :
    0 ≤ year ∧ year ≤ 399 ∧ yearStart year ≤ day ∧ (year < 399 → day < yearStart (year + 1)) := by
  have hbounds : 0 ≤ year ∧ year ≤ 399 := by
    unfold withoutLeapDays at hyear
    omega
  -- days are counted in increasing order, so that it is enough to look at the new years
  obtain ⟨n, rfl⟩ := Int.eq_ofNat_of_zero_le hbounds.1
  refine ⟨hbounds.1, hbounds.2, ?_, fun hlast => ?_⟩
  · by_contra hday
    cases n with
    | zero => exact hday h
    | succ n =>
        have hcast : ((n + 1 : Nat) : Int) = (n : Int) + 1 := rfl
        rw [hcast] at hday hyear
        have hmono : withoutLeapDays day ≤ withoutLeapDays (yearStart ((n : Int) + 1) - 1) :=
          withoutLeapDays_le (by omega)
        have hbefore := (withoutLeapDays_newYear ⟨n, by omega⟩).1
        simp only at hbefore
        omega
  · by_contra hday
    have hmono : withoutLeapDays (yearStart ((n : Int) + 1)) ≤ withoutLeapDays day :=
      withoutLeapDays_le (by omega)
    have hstart := (withoutLeapDays_newYear ⟨n, by omega⟩).2
    simp only at hstart
    omega

/-! ## Dates -/

/-- A date that exists, and the day that it is the date of. -/
structure IsDate (days year month day : Int) : Prop where
  /-- There is no month before January. -/
  month_pos : 1 ≤ month
  /-- There is no month after December. -/
  month_le : month ≤ 12
  /-- There is no day before the first one. -/
  day_pos : 1 ≤ day
  /-- No day comes after the last one of the month. -/
  day_le : day ≤ daysInMonth year month
  /-- The date leads back to the day. -/
  days_eq : daysOfDate year month day = days

theorem IsDate.day_le_31 {days year month day : Int} (h : IsDate days year month day) :
    day ≤ 31 := by
  have hday := h.day_le
  unfold daysInMonth at hday
  omega

/-- The day of a date, by the year that began in March. -/
theorem daysOfDate_eq (year month day : Int) :
    ∃ y ofYear, (month ≤ 2 ∧ y = year - 1 ∧ ofYear = (153 * (month + 9) + 2) / 5 + day - 1 ∨
        2 < month ∧ y = year ∧ ofYear = (153 * (month - 3) + 2) / 5 + day - 1) ∧
      daysOfDate year month day = y / 400 * 146097 + (yearStart (y % 400) + ofYear) - 719468 := by
  have hera (y ofYear : Int) : y / 400 * 146097 + ((y - y / 400 * 400) * 365 +
      (y - y / 400 * 400) / 4 - (y - y / 400 * 400) / 100 + ofYear) - 719468 =
      y / 400 * 146097 + (yearStart (y % 400) + ofYear) - 719468 := by
    have hmod : y - y / 400 * 400 = y % 400 := by omega
    rw [hmod, yearStart]
    omega
  by_cases hmonth : month ≤ 2
  · refine ⟨_, _, Or.inl ⟨hmonth, rfl, rfl⟩, ?_⟩
    rw [← hera, daysOfDate, if_pos hmonth, if_pos hmonth]
  · refine ⟨_, _, Or.inr ⟨by omega, rfl, rfl⟩, ?_⟩
    rw [← hera, daysOfDate, if_neg hmonth, if_neg hmonth]

/-- The day of a date, by the era, the year of the era and the months since March. -/
theorem daysOfDate_of_era {era year months day : Int} (hyear : 0 ≤ year ∧ year ≤ 399)
    (hmonths : 0 ≤ months ∧ months ≤ 11) :
    daysOfDate (if months < 10 then year + era * 400 else year + era * 400 + 1)
        (if months < 10 then months + 3 else months - 9) day =
      era * 146097 + (yearStart year + ((153 * months + 2) / 5 + day - 1)) - 719468 := by
  obtain ⟨y, ofYear, hy, heq⟩ := daysOfDate_eq
    (if months < 10 then year + era * 400 else year + era * 400 + 1)
    (if months < 10 then months + 3 else months - 9) day
  have hmarch : y = year + era * 400 ∧ ofYear = (153 * months + 2) / 5 + day - 1 := by omega
  have hera : y / 400 = era := by omega
  have hmod : y % 400 = year := by omega
  rw [heq, hera, hmod, hmarch.2]

/-- The last day of a year is a leap day only if the year ends in February of a leap year. -/
theorem isLeapYear_of_era {era year : Int} (hyear : 0 ≤ year ∧ year ≤ 399)
    (hlong : year < 399 → yearStart year + 365 < yearStart (year + 1)) :
    isLeapYear (year + era * 400 + 1) = true := by
  unfold yearStart at hlong
  rw [isLeapYear, Bool.and_eq_true, Bool.or_eq_true, decide_eq_true_eq, decide_eq_true_eq,
    decide_eq_true_eq]
  omega

theorem day_le_daysInMonth {era year months day : Int} (hyear : 0 ≤ year ∧ year ≤ 399)
    (hmonths : 0 ≤ months ∧ months ≤ 11)
    (hday : (153 * months + 2) / 5 + day ≤ (153 * (months + 1) + 2) / 5)
    (hlast : year < 399 →
      yearStart year + ((153 * months + 2) / 5 + day - 1) < yearStart (year + 1))
    (hlong : (153 * months + 2) / 5 + day ≤ 366) :
    day ≤ daysInMonth (if months < 10 then year + era * 400 else year + era * 400 + 1)
      (if months < 10 then months + 3 else months - 9) := by
  unfold daysInMonth
  by_cases hfebruary : months = 11
  · subst hfebruary
    rw [if_neg (by decide : ¬(11 : Int) < 10), if_neg (by decide : ¬(11 : Int) < 10),
      if_pos (by decide)]
    split
    · omega
    · next hshort =>
      by_contra hday
      refine hshort (isLeapYear_of_era hyear fun hnot => ?_)
      have := hlast hnot
      omega
  · have hnot : (if months < 10 then months + 3 else months - 9) ≠ 2 := by omega
    rw [if_neg hnot]
    simp only [Bool.or_eq_true, decide_eq_true_eq]
    omega

/-- Every day has a date. -/
theorem isDate_dateOfDays (days : Int) :
    IsDate days (dateOfDays days).1 (dateOfDays days).2.1 (dateOfDays days).2.2 := by
  obtain ⟨era, hera⟩ : ∃ era, era = (days + 719468) / 146097 := ⟨_, rfl⟩
  obtain ⟨dayOfEra, hdayOfEra⟩ : ∃ d, d = days + 719468 - era * 146097 := ⟨_, rfl⟩
  obtain ⟨year, hyear⟩ : ∃ y, y = withoutLeapDays dayOfEra / 365 := ⟨_, rfl⟩
  obtain ⟨dayOfYear, hdayOfYear⟩ : ∃ d, d = dayOfEra - yearStart year := ⟨_, rfl⟩
  obtain ⟨months, hmonths⟩ : ∃ m, m = (5 * dayOfYear + 2) / 153 := ⟨_, rfl⟩
  obtain ⟨day, hday⟩ : ∃ d, d = dayOfYear - (153 * months + 2) / 5 + 1 := ⟨_, rfl⟩
  obtain ⟨hnonneg, hle, hstart, hnext⟩ := year_of_day (by omega) (by omega) hyear
  have hlong : dayOfYear ≤ 365 := by
    unfold yearStart at hdayOfYear hnext
    omega
  have hbounds : 0 ≤ months ∧ months ≤ 11 := by omega
  -- January and February are the last months of the year before
  have hdate : dateOfDays days = (if months < 10 then year + era * 400 else year + era * 400 + 1,
      if months < 10 then months + 3 else months - 9, day) := by
    have hmonth : (if months < 10 then months + 3 else months - 9) ≤ 2 ↔ ¬months < 10 := by omega
    calc dateOfDays days
        = (if (if months < 10 then months + 3 else months - 9) ≤ 2 then year + era * 400 + 1
            else year + era * 400, if months < 10 then months + 3 else months - 9, day) := by
          rw [hday, hmonths, hdayOfYear, hyear, hdayOfEra, hera]
          rfl
      _ = _ := by rw [if_congr hmonth rfl rfl, ite_not]
  rw [hdate]
  dsimp only
  refine ⟨by omega, by omega, by omega, ?_, ?_⟩
  · exact day_le_daysInMonth ⟨hnonneg, hle⟩ hbounds (by omega)
      (fun hnot => by have := hnext hnot; omega) (by omega)
  · rw [daysOfDate_of_era ⟨hnonneg, hle⟩ hbounds]
    omega

/-! ## Years that have instants -/

/-- A day that has instants is in a year that has instants. -/
theorem year_mem_of_isDate {days year month day : Int} (h : IsDate days year month day)
    (hleast : leastSecond ≤ days * 86400 + 86399) (hgreatest : days * 86400 ≤ greatestSecond) :
    leastYear ≤ year ∧ year ≤ greatestYear := by
  have hday := h.day_le_31
  obtain ⟨hmonth, hmonth', hpos, -, hdays⟩ := h
  obtain ⟨y, ofYear, hy, heq⟩ := daysOfDate_eq year month day
  rw [hdays] at heq
  unfold leastSecond at hleast
  unfold greatestSecond at hgreatest
  unfold leastYear greatestYear
  have hstart : yearStart (y % 400) ≤ 146096 := yearStart_le (by omega : y % 400 ≤ 400)
  have hstart' : 0 ≤ yearStart (y % 400) := yearStart_le (by omega : 0 ≤ y % 400)
  -- the first and the last day with instants are the first and the last of their years
  constructor
  · by_contra hyear
    have hmarch (hera : y / 400 = -656) : yearStart (y % 400) ≤ yearStart 256 :=
      yearStart_le (by omega)
    have hjanuary (hera : y / 400 = -656) (hy : y < -262144) :
        yearStart (y % 400) ≤ yearStart 255 :=
      yearStart_le (by omega)
    have hvalues : yearStart 255 = 93136 ∧ yearStart 256 = 93502 := ⟨rfl, rfl⟩
    omega
  · by_contra hyear
    have hjanuary (hera : y / 400 = 655) : yearStart 142 ≤ yearStart (y % 400) :=
      yearStart_le (by omega)
    have hmarch (hera : y / 400 = 655) (hy : 262142 < y) :
        yearStart 143 ≤ yearStart (y % 400) :=
      yearStart_le (by omega)
    have hvalues : yearStart 142 = 51864 ∧ yearStart 143 = 52229 := ⟨rfl, rfl⟩
    omega

end IngressTls.Instant
