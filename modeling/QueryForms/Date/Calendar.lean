/-!
# The civil calendar

Days are counted from the first of January 1970 in the calendar that everyone uses, carried on into
the past. `dayNumber` counts, `dateOfDay` reads a count back. Both work on years that begin in
March, so that the day a leap year adds comes last.
-/

namespace QueryForms

/-- A day of the civil calendar. -/
structure CivilDate where
  /-- The year; year zero comes before year one. -/
  year : Int
  /-- The month, from one. -/
  month : Nat
  /-- The day of the month, from one. -/
  day : Nat
deriving DecidableEq

/-- Whether a year has a day more. -/
def isLeapYear (year : Int) : Bool :=
  year % 4 == 0 && (year % 100 != 0 || year % 400 == 0)

/-- The number of days of a month. -/
def daysInMonth (year : Int) (month : Nat) : Nat :=
  if month = 2 then (if isLeapYear year then 29 else 28)
  else if month = 4 ∨ month = 6 ∨ month = 9 ∨ month = 11 then 30
  else 31

namespace CivilDate

/-- Whether the calendar has the day. -/
def exists? (d : CivilDate) : Bool :=
  1 ≤ d.month && d.month ≤ 12 && 1 ≤ d.day && d.day ≤ daysInMonth d.year d.month

/-- The days from the first of March of the year to the first of the month. -/
def daysBeforeMonth (monthFromMarch : Int) : Int :=
  (153 * monthFromMarch + 2) / 5

/-- The number of the day, counted from the first of January 1970. -/
def dayNumber (d : CivilDate) : Int :=
  let year := if d.month ≤ 2 then d.year - 1 else d.year
  let monthFromMarch : Int := if d.month ≤ 2 then d.month + 9 else d.month - 3
  let era := year / 400
  let yearOfEra := year % 400
  let dayOfYear := daysBeforeMonth monthFromMarch + d.day - 1
  let dayOfEra := yearOfEra * 365 + yearOfEra / 4 - yearOfEra / 100 + dayOfYear
  era * 146097 + dayOfEra - 719468

end CivilDate

/-- The day with a given number. -/
def dateOfDay (number : Int) : CivilDate :=
  let shifted := number + 719468
  let era := shifted / 146097
  let dayOfEra := shifted % 146097
  let yearOfEra := (dayOfEra - dayOfEra / 1460 + dayOfEra / 36524 - dayOfEra / 146096) / 365
  let dayOfYear := dayOfEra - (365 * yearOfEra + yearOfEra / 4 - yearOfEra / 100)
  let monthFromMarch := (5 * dayOfYear + 2) / 153
  let day := dayOfYear - CivilDate.daysBeforeMonth monthFromMarch + 1
  let month := if monthFromMarch < 10 then monthFromMarch + 3 else monthFromMarch - 9
  let year := era * 400 + yearOfEra + (if month ≤ 2 then 1 else 0)
  ⟨year, month.toNat, day.toNat⟩

end QueryForms
