import Mathlib.Tactic.Ring
import QueryForms.Date.Calendar

/-!
# Days read back

Four hundred years are an era, of as many days as any other. A day of an era is so many centuries
(`exists_century`), and then fours of years, years and days (`exists_year`), and the year that
`dateOfDay` computes is the one that they make. So a date is counted to the number that it was read
from (`dayNumber_dateOfDay`), and it is one of the calendar (`exists?_dateOfDay`).
-/

namespace QueryForms

/-- A day of an era as centuries and days of a century; only the last century has a day more. -/
theorem exists_century {day : Int} (first : 0 ≤ day) (last : day < 146097) :
    ∃ century rest : Int, day = 36524 * century + rest ∧ (0 ≤ century ∧ century ≤ 3) ∧ 0 ≤ rest ∧
      (rest < 36524 ∨ century = 3 ∧ rest = 36524) :=
  ⟨min 3 (day / 36524), day - 36524 * min 3 (day / 36524), by omega⟩

/-- A day of a century as fours of years, years and days; only the last year of four has a day
more. -/
theorem exists_year {day : Int} (first : 0 ≤ day) (last : day ≤ 36524) :
    ∃ four year rest : Int, day = 1461 * four + 365 * year + rest ∧ (0 ≤ four ∧ four ≤ 24) ∧
      (0 ≤ year ∧ year ≤ 3) ∧ (0 ≤ rest ∧ rest ≤ 365) ∧ (rest = 365 → year = 3) :=
  ⟨day / 1461, min 3 (day % 1461 / 365), day % 1461 - 365 * min 3 (day % 1461 / 365), by omega⟩

/-- Each four of years that has passed has a day more than the 1460 that are counted for it. -/
theorem exists_carry {century four year rest : Int} (hcentury : 0 ≤ century ∧ century ≤ 3)
    (hfour : 0 ≤ four ∧ four ≤ 24) (hyear : 0 ≤ year ∧ year ≤ 3) (hrest : 0 ≤ rest ∧ rest ≤ 365)
    (last : rest = 365 → year = 3) :
    ∃ more : Int, (36524 * century + (1461 * four + 365 * year + rest)) / 1460
        = 25 * century + four + more ∧ 0 ≤ rest - more ∧ rest - more < 365 := by
  rcases Int.lt_or_le (24 * century + four + 365 * year + rest) 1460 with before | after
  · refine ⟨0, ?_, by omega, by omega⟩
    clear last
    omega
  · refine ⟨1, ?_, by omega, by omega⟩
    clear last
    omega

/-- The centuries that have passed on a day of an era; its last day is counted as one too many. -/
theorem century_eq {century rest : Int} (hcentury : 0 ≤ century ∧ century ≤ 3) (first : 0 ≤ rest)
    (inside : rest < 36524 ∨ century = 3 ∧ rest = 36524) :
    (36524 * century + rest) / 36524 - (36524 * century + rest) / 146096 = century := by
  rcases inside with inside | ⟨rfl, rfl⟩
  · have centuries : (36524 * century + rest) / 36524 = century := by omega
    have eras : (36524 * century + rest) / 146096 = 0 := by omega
    rw [centuries, eras, Int.sub_zero]
  · decide

/-- The leap years of an era before a year of it, and the centuries. -/
theorem year_div {century four year : Int} (hfour : 0 ≤ four ∧ four ≤ 24)
    (hyear : 0 ≤ year ∧ year ≤ 3) :
    (100 * century + 4 * four + year) / 4 = 25 * century + four ∧
      (100 * century + 4 * four + year) / 100 = century := by
  omega

theorem isLeapYear_iff {year : Int} :
    isLeapYear year = true ↔ year % 4 = 0 ∧ (year % 100 ≠ 0 ∨ year % 400 = 0) := by
  simp [isLeapYear]

/-- The year of an era from a day of it, and the days before it; a day more than others have the
years before leap years, which end on the last of February. -/
theorem exists_yearOfEra {day : Int} (first : 0 ≤ day) (last : day < 146097) :
    ∃ year rest : Int, (0 ≤ year ∧ year < 400) ∧ (0 ≤ rest ∧ rest ≤ 365) ∧
      (rest = 365 → isLeapYear (year + 1) = true) ∧
      (day - day / 1460 + day / 36524 - day / 146096) / 365 = year ∧
      day = 365 * year + year / 4 - year / 100 + rest := by
  obtain ⟨century, inCentury, rfl, hcentury, hin, inside⟩ := exists_century first last
  have most : inCentury ≤ 36524 := by omega
  obtain ⟨four, year, rest, rfl, hfour, hyear, hrest, leap⟩ := exists_year hin most
  have within : 0 ≤ 100 * century + 4 * four + year ∧ 100 * century + 4 * four + year < 400 := by
    omega
  have centuries := century_eq hcentury hin inside
  obtain ⟨more, fours, carried⟩ := exists_carry hcentury hfour hyear hrest leap
  obtain ⟨fourth, hundredth⟩ := year_div hfour hyear
  refine ⟨100 * century + 4 * four + year, rest, within, hrest, fun added => ?_, ?_, ?_⟩
  · have fourthYear := leap added
    rw [isLeapYear_iff]
    clear centuries carried fours fourth hundredth
    omega
  · have days : 36524 * century + (1461 * four + 365 * year + rest) - (25 * century + four + more)
        + century = (rest - more) + 365 * (100 * century + 4 * four + year) := by ring
    rw [Int.add_sub_assoc, centuries, fours, days, Int.add_mul_ediv_left _ _ (by decide),
      Int.ediv_eq_zero_of_lt carried.1 carried.2, Int.zero_add]
  · rw [fourth, hundredth]
    ring

/-- The month at a place of a year that begins with March. -/
def monthAt (place : Int) : Nat :=
  (if place < 10 then place + 3 else place - 9).toNat

/-- All months but February are as long as the days before them say. -/
theorem daysInMonth_monthAt {place : Int} (first : 0 ≤ place) (last : place < 11) (year : Int) :
    (daysInMonth year (monthAt place) : Int)
      = CivilDate.daysBeforeMonth (place + 1) - CivilDate.daysBeforeMonth place := by
  have places : place = 0 ∨ place = 1 ∨ place = 2 ∨ place = 3 ∨ place = 4 ∨ place = 5 ∨ place = 6 ∨
      place = 7 ∨ place = 8 ∨ place = 9 ∨ place = 10 := by omega
  rcases places with rfl | rfl | rfl | rfl | rfl | rfl | rfl | rfl | rfl | rfl | rfl <;> rfl

/-- A day of a year that begins with March is one of its month; the year is the one that February is
in. -/
theorem le_daysInMonth {rest year : Int} (hrest : 0 ≤ rest ∧ rest ≤ 365)
    (leap : rest = 365 → isLeapYear year = true) :
    rest - CivilDate.daysBeforeMonth ((5 * rest + 2) / 153) + 1
      ≤ daysInMonth year (monthAt ((5 * rest + 2) / 153)) := by
  by_cases february : (5 * rest + 2) / 153 < 11
  · rw [daysInMonth_monthAt (by omega) february, CivilDate.daysBeforeMonth,
      CivilDate.daysBeforeMonth]
    omega
  · have place : (5 * rest + 2) / 153 = 11 := by omega
    have before : CivilDate.daysBeforeMonth 11 = 337 := rfl
    have length : daysInMonth year (monthAt 11) = if isLeapYear year then 29 else 28 := rfl
    rw [place, before, length]
    by_cases added : rest = 365
    · rw [leap added, if_pos rfl]
      omega
    · split <;> omega

/-- A date is made of a year and a month that are counted from March, and a day. -/
theorem dateOfDay_spec (number : Int) :
    ∃ era year month day : Int, (0 ≤ year ∧ year < 400) ∧ (0 ≤ month ∧ month ≤ 11) ∧
      (1 ≤ day ∧ day ≤ daysInMonth (dateOfDay number).year (dateOfDay number).month) ∧
      number = era * 146097 + (365 * year + year / 4 - year / 100)
        + CivilDate.daysBeforeMonth month + day - 719469 ∧
      dateOfDay number
        = ⟨era * 400 + year + (if month < 10 then 0 else 1), monthAt month, day.toNat⟩ := by
  have first := Int.emod_nonneg (number + 719468) (by decide : (146097 : Int) ≠ 0)
  have last := Int.emod_lt_of_pos (number + 719468) (by decide : (0 : Int) < 146097)
  obtain ⟨year, rest, hyear, hrest, leap, computed, days⟩ := exists_yearOfEra first last
  have read : dateOfDay number = ⟨(number + 719468) / 146097 * 400 + year
      + (if (5 * rest + 2) / 153 < 10 then 0 else 1), monthAt ((5 * rest + 2) / 153),
      (rest - CivilDate.daysBeforeMonth ((5 * rest + 2) / 153) + 1).toNat⟩ := by
    have ofYear : (number + 719468) % 146097 - (365 * year + year / 4 - year / 100) = rest := by
      omega
    simp only [dateOfDay, computed, ofYear, monthAt]
    congr 1
    split <;> split <;> omega
  refine ⟨(number + 719468) / 146097, year, (5 * rest + 2) / 153,
    rest - CivilDate.daysBeforeMonth ((5 * rest + 2) / 153) + 1, hyear, ?_, ⟨?_, ?_⟩, ?_, read⟩
  · omega
  · rw [CivilDate.daysBeforeMonth]
    omega
  · rw [read]
    refine le_daysInMonth hrest fun added => ?_
    have place : ¬(5 * rest + 2) / 153 < 10 := by omega
    have leap := isLeapYear_iff.1 (leap added)
    rw [if_neg place, isLeapYear_iff]
    dsimp only
    clear computed days read place
    omega
  · omega

/-- A date is counted to the number that it was read from. -/
theorem dayNumber_dateOfDay (number : Int) : (dateOfDay number).dayNumber = number := by
  obtain ⟨era, year, month, day, hyear, hmonth, hday, counted, read⟩ := dateOfDay_spec number
  have eras : (era * 400 + year) / 400 = era ∧ (era * 400 + year) % 400 = year := by
    clear counted read
    omega
  have dayBack : ((day.toNat : Nat) : Int) = day := Int.toNat_of_nonneg (by omega)
  rw [read, counted]
  by_cases early : month < 10
  · have later : ¬(month + 3).toNat ≤ 2 := by omega
    have monthBack : ((month + 3).toNat : Int) - 3 = month := by omega
    simp only [CivilDate.dayNumber, monthAt, if_pos early, if_neg later, Int.add_zero, eras.1,
      eras.2, monthBack, dayBack]
    ring
  · have first : (month - 9).toNat ≤ 2 := by omega
    have monthBack : ((month - 9).toNat : Int) + 9 = month := by omega
    simp only [CivilDate.dayNumber, monthAt, if_neg early, if_pos first, Int.add_sub_cancel, eras.1,
      eras.2, monthBack, dayBack]
    ring

/-- No two numbers are of one date. -/
theorem dateOfDay_inj {a b : Int} : dateOfDay a = dateOfDay b ↔ a = b :=
  ⟨fun same => by rw [← dayNumber_dateOfDay a, same, dayNumber_dateOfDay], congrArg dateOfDay⟩

theorem daysInMonth_le (year : Int) (month : Nat) : daysInMonth year month ≤ 31 := by
  rw [daysInMonth]
  split_ifs <;> omega

/-- The months of a date are those of a year, its days those of a month. -/
theorem dateOfDay_month_day (number : Int) :
    (1 ≤ (dateOfDay number).month ∧ (dateOfDay number).month ≤ 12) ∧
      1 ≤ (dateOfDay number).day ∧ (dateOfDay number).day ≤ 31 := by
  obtain ⟨_, _, month, day, -, hmonth, hday, -, read⟩ := dateOfDay_spec number
  have most := daysInMonth_le (dateOfDay number).year (dateOfDay number).month
  rw [read] at hday most ⊢
  dsimp only [monthAt] at hday most ⊢
  split <;> omega

/-- The calendar has every date that is read from a number. -/
theorem exists?_dateOfDay (number : Int) : (dateOfDay number).exists? = true := by
  obtain ⟨_, _, _, day, -, -, hday, -, read⟩ := dateOfDay_spec number
  obtain ⟨⟨first, last⟩, firstDay, -⟩ := dateOfDay_month_day number
  have lastDay :
      (dateOfDay number).day ≤ daysInMonth (dateOfDay number).year (dateOfDay number).month := by
    have days : (dateOfDay number).day = day.toNat := by rw [read]
    omega
  simp [CivilDate.exists?, first, last, firstDay, lastDay]

end QueryForms
