import QueryForms.Date.Calendar

/-!
# Instants

A date value is an instant in universal time, to the nanosecond. Instants lie in the years from
-262143 to 262142. A leap second is the second before it with a billion nanoseconds more, so it has
a text of its own while its seconds count as any other's.
-/

namespace QueryForms

/-- An instant: seconds from the start of 1970 and nanoseconds of the second. -/
structure Instant where
  /-- Whole seconds. -/
  seconds : Int
  /-- Nanoseconds; a billion and more within a leap second. -/
  nanos : Nat
deriving DecidableEq

namespace Instant

/-- The first year of an instant. -/
def firstYear : Int := -262143

/-- The last year of an instant. -/
def lastYear : Int := 262142

/-- Whole milliseconds from the start of 1970. -/
def millis (t : Instant) : Int :=
  t.seconds * 1000 + (t.nanos / 1000000 : Nat)

/-- The day of the instant. -/
def date (t : Instant) : CivilDate :=
  dateOfDay (t.seconds / 86400)

/-- The instant a number of milliseconds from the start of 1970, if its year is one of instants. -/
def ofMillis? (millis : Int) : Option Instant :=
  let t : Instant := ⟨millis / 1000, (millis % 1000).toNat * 1000000⟩
  if firstYear ≤ t.date.year ∧ t.date.year ≤ lastYear then some t else none

/-- The start of a day. -/
def startOfDay (d : CivilDate) : Instant :=
  ⟨d.dayNumber * 86400, 0⟩

end Instant

end QueryForms
