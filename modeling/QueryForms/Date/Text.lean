import QueryForms.Date.Instant
import QueryForms.Text.Blank

/-!
# Dates as text

An instant is written as RFC 3339 asks: day, `T`, time of day, offset. Texts differ in how many
digits of the second's fraction they show and in how they write the offset of universal time, so one
function writes them all.

Two readers take dates: `readInstant?` takes an RFC 3339 text with any offset, and `readDay?` a bare
day, which may have blanks before each number and a signed year.
-/

namespace QueryForms.DateText

/-! ## Writing -/

/-- A number with zeros before it up to a width. -/
def padded (width n : Nat) : String :=
  let digits := toString n
  String.ofList (List.replicate (width - digits.length) '0') ++ digits

/-- A year: four digits, and a sign before any year outside 0 to 9999. -/
def writeYear (year : Int) : String :=
  if 0 ≤ year ∧ year ≤ 9999 then padded 4 year.toNat
  else (if year < 0 then "-" else "+") ++ padded 4 year.natAbs

/-- How the fraction of a second is shown. -/
inductive Fraction where
  /-- The fewest of 0, 3, 6 and 9 digits that are exact. -/
  | exact
  /-- Three digits, the rest cut off. -/
  | millis
deriving DecidableEq

/-- The fraction of a second with its point. -/
def writeFraction (fraction : Fraction) (nanos : Nat) : String :=
  match fraction with
  | .millis => "." ++ padded 3 (nanos / 1000000)
  | .exact =>
    if nanos = 0 then ""
    else if nanos % 1000000 = 0 then "." ++ padded 3 (nanos / 1000000)
    else if nanos % 1000 = 0 then "." ++ padded 6 (nanos / 1000)
    else "." ++ padded 9 nanos

/-- The text of an instant; a leap second is second 60. -/
def write (fraction : Fraction) (offset : String) (t : Instant) : String :=
  let date := t.date
  let ofDay := (t.seconds % 86400).toNat
  let leap := 1000000000 ≤ t.nanos
  let second := ofDay % 60 + (if leap then 1 else 0)
  let nanos := if leap then t.nanos - 1000000000 else t.nanos
  writeYear date.year ++ "-" ++ padded 2 date.month ++ "-" ++ padded 2 date.day
    ++ "T" ++ padded 2 (ofDay / 3600) ++ ":" ++ padded 2 (ofDay / 60 % 60)
    ++ ":" ++ padded 2 second ++ writeFraction fraction nanos ++ offset

/-- The text with the offset as hours and minutes and an exact fraction. -/
def plain (t : Instant) : String := write .exact "+00:00" t

/-- The text with the offset as a letter and an exact fraction. -/
def zulu (t : Instant) : String := write .exact "Z" t

/-- The text with the offset as a letter and milliseconds. -/
def millisZulu (t : Instant) : String := write .millis "Z" t

/-! ## Reading -/

/-- The value of an ASCII digit. -/
def digit? (c : Char) : Option Nat :=
  if '0' ≤ c ∧ c ≤ '9' then some (c.toNat - '0'.toNat) else none

/-- Read digits until there are no more or `most` are read, and say how many there were. -/
def readDigits : Nat → Nat → Nat → List Char → Nat × Nat × List Char
  | 0, value, count, cs => (value, count, cs)
  | _ + 1, value, count, [] => (value, count, [])
  | most + 1, value, count, c :: cs =>
    match digit? c with
    | some d => readDigits most (value * 10 + d) (count + 1) cs
    | none => (value, count, c :: cs)

/-- Read a number of at least one and at most `most` digits. -/
def readNumber? (most : Nat) (cs : List Char) : Option (Nat × List Char) :=
  match readDigits most 0 0 cs with
  | (_, 0, _) => none
  | (value, _, rest) => some (value, rest)

/-- Read a number of exactly `width` digits. -/
def readWidth? (width : Nat) (cs : List Char) : Option (Nat × List Char) :=
  match readDigits width 0 0 cs with
  | (value, count, rest) => if count = width then some (value, rest) else none

/-- Read one given character. -/
def readChar? (wanted : Char) : List Char → Option (List Char)
  | [] => none
  | c :: cs => if c = wanted then some cs else none

/-- Read the fraction of a second after its point, in nanoseconds; what follows nine digits is cut
off. -/
def readFraction? (cs : List Char) : Option (Nat × List Char) :=
  match readDigits 9 0 0 cs with
  | (_, 0, _) => none
  | (value, count, rest) =>
    some (value * Nat.pow 10 (9 - count), rest.dropWhile fun c => (digit? c).isSome)

/-- Read an offset to universal time, in seconds: `Z`, or a sign, hours, a colon and minutes. -/
def readOffset? : List Char → Option (Int × List Char)
  | [] => none
  | sign :: cs =>
    if sign = 'Z' ∨ sign = 'z' then some (0, cs)
    else if sign = '+' ∨ sign = '-' ∨ sign = '\u2212' then do
      let (hours, cs) ← readWidth? 2 cs
      let cs ← readChar? ':' cs
      let (minutes, cs) ← readWidth? 2 cs
      if 23 < hours ∨ 59 < minutes then none
      else
        let seconds : Int := hours * 3600 + minutes * 60
        return (if sign = '+' then seconds else -seconds, cs)
    else none

/-- The instant of an RFC 3339 text. A second 60 is a leap second, at any minute. -/
def readInstant? (cs : List Char) : Option Instant := do
  let (year, cs) ← readWidth? 4 cs
  let cs ← readChar? '-' cs
  let (month, cs) ← readWidth? 2 cs
  let cs ← readChar? '-' cs
  let (day, cs) ← readWidth? 2 cs
  let cs ← match cs with
    | c :: rest => if c = 'T' ∨ c = 't' ∨ c = ' ' then some rest else none
    | [] => none
  let (hour, cs) ← readWidth? 2 cs
  let cs ← readChar? ':' cs
  let (minute, cs) ← readWidth? 2 cs
  let cs ← readChar? ':' cs
  let (second, cs) ← readWidth? 2 cs
  let (fraction, cs) ← match cs with
    | '.' :: rest => readFraction? rest
    | _ => some (0, cs)
  let (offset, cs) ← readOffset? cs
  let date : CivilDate := ⟨year, month, day⟩
  if cs.isEmpty ∧ date.exists? ∧ hour ≤ 23 ∧ minute ≤ 59 ∧ second ≤ 60 then
    let ofDay : Int := hour * 3600 + minute * 60 + (min second 59 : Nat)
    let leap := if second = 60 then 1000000000 else 0
    return ⟨date.dayNumber * 86400 + ofDay - offset, fraction + leap⟩
  else none

/-- Read a year: up to four digits, or a sign and any number of digits. -/
def readYear? : List Char → Option (Int × List Char)
  | '-' :: cs => (readNumber? cs.length cs).map fun (n, rest) => (-(n : Int), rest)
  | '+' :: cs => (readNumber? cs.length cs).map fun (n, rest) => ((n : Int), rest)
  | cs => (readNumber? 4 cs).map fun (n, rest) => ((n : Int), rest)

/-- The day of a bare date: year, month and day with dashes between. -/
def readDay? (cs : List Char) : Option CivilDate := do
  let (year, cs) ← readYear? (Text.dropBlanks cs)
  let cs ← readChar? '-' cs
  let (month, cs) ← readNumber? 2 (Text.dropBlanks cs)
  let cs ← readChar? '-' cs
  let (day, cs) ← readNumber? 2 (Text.dropBlanks cs)
  let date : CivilDate := ⟨year, month, day⟩
  if cs.isEmpty ∧ date.exists? ∧ Instant.firstYear ≤ year ∧ year ≤ Instant.lastYear then
    return date
  else none

/-- The instant that a date text names: an RFC 3339 text, or a day for its first moment. -/
def read? (text : String) : Option Instant :=
  match readInstant? text.toList with
  | some t => some t
  | none => (readDay? text.toList).map Instant.startOfDay

end QueryForms.DateText
