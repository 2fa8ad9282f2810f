import Mathlib
import MarketMaking.Timestamp

/-! Days and dates. Every day has a date that the calendar knows, and the date stands for that day
(`Date.toDays_ofDays`); the years of all points in time are in range. -/

namespace MarketMaking.Timestamp
namespace Date

def firstDay (year : Int) : Int := 365 * year + year / 4 - year / 100

def yearOfEra (day : Int) : Int := (day - day / 1460 + day / 36524 - day / 146096) / 365

structure Spanned (day century span year rest : Int) : Prop where
  total : day = 36524 * century + 1461 * span + 365 * year + rest
  century_nonneg : 0 ≤ century
  century_le : century ≤ 3
  span_nonneg : 0 ≤ span
  span_le : span ≤ 24
  year_nonneg : 0 ≤ year
  year_le : year ≤ 3
  rest_nonneg : 0 ≤ rest
  rest_lt : rest < 365 ∨ rest = 365 ∧ year = 3 ∧ span < 24

-- All but the last day of an era, which is in none of its four centuries.
theorem exists_spanned {day : Int} (nonneg : 0 ≤ day) (less : day < 146096) :
    ∃ century span year rest, Spanned day century span year rest := by
  obtain ⟨left, within⟩ : ∃ left, left = day % 36524 ∧ left < 36524 := ⟨_, rfl, by omega⟩
  obtain ⟨last, spare⟩ : ∃ last, last = left % 1461 ∧ last < 1461 := ⟨_, rfl, by omega⟩
  by_cases leap : last = 1460
  · exact ⟨day / 36524, left / 1461, 3, 365, by omega, by omega, by omega, by omega, by omega,
      by omega, by omega, by omega, by omega⟩
  · exact ⟨day / 36524, left / 1461, last / 365, last % 365, by omega, by omega, by omega,
      by omega, by omega, by omega, by omega, by omega, by omega⟩

theorem Spanned.yearOfEra {day century span year rest : Int}
    (spanned : Spanned day century span year rest) :
    yearOfEra day = 100 * century + 4 * span + year := by
  obtain ⟨total, _, _, _, _, _, _, _, _⟩ := spanned
  have last : day / 146096 = 0 := by omega
  have hundred : day / 36524 = century := by omega
  have days : day / 1460 = 25 * century + span ∨ day / 1460 = 25 * century + span + 1 := by omega
  unfold Date.yearOfEra
  rw [last, hundred]
  rcases days with d | d <;> rw [d] <;> omega

theorem Spanned.firstDay {day century span year rest : Int}
    (spanned : Spanned day century span year rest) :
    firstDay (Date.yearOfEra day) + rest = day := by
  rw [spanned.yearOfEra]
  obtain ⟨total, _, _, _, _, _, _, _, _⟩ := spanned
  unfold Date.firstDay
  omega

theorem yearOfEra_spec {day : Int} (nonneg : 0 ≤ day) (less : day < 146097) :
    0 ≤ yearOfEra day ∧ yearOfEra day < 400 ∧ 0 ≤ day - firstDay (yearOfEra day) ∧
      (day - firstDay (yearOfEra day) < 365 ∨ day - firstDay (yearOfEra day) = 365 ∧
        (yearOfEra day + 1) % 4 = 0 ∧
        ((yearOfEra day + 1) % 100 ≠ 0 ∨ (yearOfEra day + 1) % 400 = 0)) := by
  by_cases last : day = 146096
  · subst last
    decide
  · obtain ⟨century, span, year, rest, spanned⟩ := exists_spanned nonneg (by omega)
    have first := spanned.firstDay
    have years := spanned.yearOfEra
    obtain ⟨-, _, _, _, _, _, _, _, _⟩ := spanned
    omega

def monthOf (day : Int) : Int := (5 * day + 2) / 153

def firstOfMonth (month : Int) : Int := (153 * month + 2) / 5

theorem monthOf_spec {day : Int} (nonneg : 0 ≤ day) (most : day ≤ 365) :
    0 ≤ monthOf day ∧ monthOf day ≤ 11 ∧ firstOfMonth (monthOf day) ≤ day ∧
      day < firstOfMonth (monthOf day + 1) := by
  unfold monthOf firstOfMonth
  omega

def ofYearDay (year day : Int) : Date :=
  let month := if monthOf day < 10 then monthOf day + 3 else monthOf day - 9
  { year := year + (if month ≤ 2 then 1 else 0)
    month := month.toNat
    day := (day - firstOfMonth (monthOf day) + 1).toNat }

-- A day by its era, the year of the era and the day of the year, both counted from March. A year
-- is longer than 365 days if it ends with a leap day.
structure Counted (days era year day : Int) : Prop where
  total : days + 719468 = era * 146097 + firstDay year + day
  year_nonneg : 0 ≤ year
  year_lt : year < 400
  day_nonneg : 0 ≤ day
  day_lt : day < 365 ∨ day = 365 ∧ (year + 1) % 4 = 0 ∧
    ((year + 1) % 100 ≠ 0 ∨ (year + 1) % 400 = 0)

theorem Counted.day_le {days era year day : Int} (counted : Counted days era year day) :
    day ≤ 365 := by
  have less := counted.day_lt
  omega

theorem exists_counted (days : Int) : ∃ era year day, Counted days era year day ∧
    ofDays days = ofYearDay (year + era * 400) day := by
  have inside : 0 ≤ days + 719468 - (days + 719468) / 146097 * 146097 := by omega
  obtain ⟨year_nonneg, year_lt, day_nonneg, leap⟩ := yearOfEra_spec inside (by omega)
  exact ⟨(days + 719468) / 146097, _, _,
    ⟨by omega, year_nonneg, year_lt, day_nonneg, leap⟩, rfl⟩

theorem ofYearDay_cases (year : Int) {day : Int} (nonneg : 0 ≤ day) (most : day ≤ 365) :
    monthOf day < 10 ∧ ofYearDay year day =
        ⟨year, (monthOf day + 3).toNat, (day - firstOfMonth (monthOf day) + 1).toNat⟩ ∨
      10 ≤ monthOf day ∧ ofYearDay year day =
        ⟨year + 1, (monthOf day - 9).toNat, (day - firstOfMonth (monthOf day) + 1).toNat⟩ := by
  obtain ⟨low, high, -, -⟩ := monthOf_spec nonneg most
  unfold ofYearDay
  by_cases late : monthOf day < 10
  · have after : ¬ monthOf day + 3 ≤ 2 := by omega
    exact .inl ⟨late, by simp only [late, after, if_true, if_false, Int.add_zero]⟩
  · have before : monthOf day - 9 ≤ 2 := by omega
    exact .inr ⟨by omega, by simp only [late, before, if_true, if_false]⟩

theorem month_ofDays (days : Int) : 1 ≤ (ofDays days).month ∧ (ofDays days).month ≤ 12 := by
  obtain ⟨era, year, day, counted, date⟩ := exists_counted days
  have most := counted.day_le
  obtain ⟨low, high, -, -⟩ := monthOf_spec counted.day_nonneg most
  rw [date]
  rcases ofYearDay_cases (year + era * 400) counted.day_nonneg most with
    ⟨late, same⟩ | ⟨early, same⟩ <;> rw [same] <;> dsimp only <;> omega

theorem toDays_ofDays (days : Int) : (ofDays days).toDays = days := by
  obtain ⟨era, year, day, counted, date⟩ := exists_counted days
  have most := counted.day_le
  obtain ⟨total, year_nonneg, year_lt, day_nonneg, -⟩ := counted
  obtain ⟨low, high, first, -⟩ := monthOf_spec day_nonneg most
  have eras : (year + era * 400) / 400 = era := by omega
  unfold firstDay at total
  unfold firstOfMonth at first
  rw [date]
  rcases ofYearDay_cases (year + era * 400) day_nonneg most with
    ⟨late, same⟩ | ⟨early, same⟩
  · have month : ¬ (monthOf day + 3).toNat ≤ 2 := by omega
    have month' : 2 < (monthOf day + 3).toNat := by omega
    rw [same]
    simp only [toDays, month, month', if_true, if_false, eras, firstOfMonth]
    omega
  · have month : (monthOf day - 9).toNat ≤ 2 := by omega
    have month' : ¬ 2 < (monthOf day - 9).toNat := by omega
    rw [same]
    simp only [toDays, month, month', if_true, if_false, Int.add_sub_cancel, eras, firstOfMonth]
    omega

theorem isLeapYear_iff (year : Int) :
    isLeapYear year = true ↔ year % 4 = 0 ∧ (year % 100 ≠ 0 ∨ year % 400 = 0) := by
  simp [isLeapYear]

-- From March to January the months are as long as the count by five has them.
theorem month_length {month : Int} (low : 0 ≤ month) (high : month ≤ 10) (year : Int) :
    firstOfMonth (month + 1) - firstOfMonth month = daysInMonth year
      (if month < 10 then month + 3 else month - 9).toNat := by
  obtain ⟨m, rfl⟩ := Int.eq_ofNat_of_zero_le low
  have small : m ≤ 10 := by omega
  interval_cases m <;> rfl

theorem day_ofDays (days : Int) : 1 ≤ (ofDays days).day ∧
    (ofDays days).day ≤ daysInMonth (ofDays days).year (ofDays days).month := by
  obtain ⟨era, year, day, counted, date⟩ := exists_counted days
  have most := counted.day_le
  obtain ⟨total, year_nonneg, year_lt, day_nonneg, leap⟩ := counted
  obtain ⟨low, high, first, next⟩ := monthOf_spec day_nonneg most
  rw [date]
  rcases ofYearDay_cases (year + era * 400) day_nonneg most with
    ⟨late, same⟩ | ⟨early, same⟩
  · have length := month_length low (by omega) (year + era * 400)
    rw [if_pos late] at length
    rw [same]
    dsimp only
    omega
  · rw [same]
    dsimp only
    by_cases january : monthOf day = 10
    · have length := month_length low (by omega) (year + era * 400 + 1)
      rw [if_neg (by omega)] at length
      omega
    · have february : monthOf day = 11 := by omega
      have start : firstOfMonth (monthOf day) = 337 := by rw [february]; rfl
      have month : (monthOf day - 9).toNat = 2 := by omega
      have leapYear : day = 365 → isLeapYear (year + era * 400 + 1) = true := by
        rw [isLeapYear_iff]
        omega
      rw [month, start, daysInMonth, if_pos rfl]
      split
      · omega
      · rename_i plain
        have shorter : day ≠ 365 := fun last => plain (leapYear last)
        omega

theorem firstDay_mono {year year' : Int} (le : year ≤ year') : firstDay year ≤ firstDay year' := by
  have spans : year / 4 ≤ year' / 4 := Int.ediv_le_ediv (by decide) le
  have centuries : year' / 100 ≤ year / 100 + (year' - year) := by omega
  unfold firstDay
  omega

theorem year_ofDays {days : Int} (low : -96465292 ≤ days) (high : days ≤ 95026236) :
    -262143 ≤ (ofDays days).year ∧ (ofDays days).year ≤ 262142 := by
  obtain ⟨era, year, day, counted, date⟩ := exists_counted days
  have most := counted.day_le
  obtain ⟨total, year_nonneg, year_lt, day_nonneg, -⟩ := counted
  have within : -656 ≤ era ∧ era ≤ 655 := by
    unfold firstDay at total
    omega
  have least : (year ≤ 256 → firstDay year ≤ 93502) ∧ (year ≤ 255 → firstDay year ≤ 93136) :=
    ⟨fun le => firstDay_mono le, fun le => firstDay_mono le⟩
  have greatest : (142 ≤ year → 51864 ≤ firstDay year) ∧ (143 ≤ year → 52229 ≤ firstDay year) :=
    ⟨fun le => firstDay_mono le, fun le => firstDay_mono le⟩
  rw [date]
  rcases ofYearDay_cases (year + era * 400) day_nonneg most with
    ⟨late, same⟩ | ⟨early, same⟩ <;> rw [same] <;> dsimp only
  · have before : day ≤ 305 := by unfold monthOf at late; omega
    omega
  · have after : 306 ≤ day := by unfold monthOf at early; omega
    omega

end Date
end MarketMaking.Timestamp
