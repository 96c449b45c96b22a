import QueryForms.Json.Basic
import QueryForms.Number.Scientific

/-!
# JSON numbers

A number is a sign, a whole part without zeros in front, a fraction and an exponent, the last two
possibly absent. `readNumber?` takes such a word apart. A whole number of 64 bits is an integer, and
any other number is the float of its digits, which must be finite.
-/

namespace QueryForms.Json

/-- The longest initial stretch of ASCII digits, and the rest. -/
def splitDigits (cs : List Char) : List Char × List Char :=
  (cs.takeWhile Char.isDigit, cs.dropWhile Char.isDigit)

/-- The float with the given sign, digits before and after the point, and exponent. -/
def readFloat? (negative : Bool) (whole fraction : List Char) (exponent : Int) : Option Json :=
  (Scientific.ofDigits whole fraction exponent).toFloat?.map fun x =>
    .float (if negative then -x else x)

/-- A whole number: an integer if it has 64 bits, else a float. Minus zero is a float. -/
def readWhole? (negative : Bool) (whole : List Char) : Option Json :=
  let magnitude := digitsValue whole
  let n : Int := if negative then -(magnitude : Int) else magnitude
  match if negative ∧ magnitude = 0 then none else fit? n with
  | some m => some (.integer m)
  | none => readFloat? negative whole [] 0

/-- The fraction of a number: a point and digits, or nothing. -/
def readFraction? : List Char → Option (List Char × List Char)
  | '.' :: cs =>
    match splitDigits cs with
    | ([], _) => none
    | (digits, rest) => some (digits, rest)
  | cs => some ([], cs)

/-- The exponent of a number: `e` or `E`, a sign or none, and digits; or nothing. -/
def readExponent? : List Char → Option (Option Int × List Char)
  | [] => some (none, [])
  | mark :: cs =>
    if mark = 'e' ∨ mark = 'E' then
      let (negative, cs) := match cs with
        | '+' :: rest => (false, rest)
        | '-' :: rest => (true, rest)
        | _ => (false, cs)
      match splitDigits cs with
      | ([], _) => none
      | (digits, rest) =>
        let n : Int := digitsValue digits
        some (some (if negative then -n else n), rest)
    else some (none, mark :: cs)

/-- The number that a word spells. -/
def readNumber? (word : List Char) : Option Json := do
  let (negative, cs) := match word with
    | '-' :: rest => (true, rest)
    | _ => (false, word)
  let (whole, cs) := splitDigits cs
  if whole.isEmpty || (whole.length != 1 && whole.head? == some '0') then none
  else
    let (fraction, rest) ← readFraction? cs
    let (exponent, rest) ← readExponent? rest
    if !rest.isEmpty then none
    else if fraction.isEmpty && exponent.isNone then readWhole? negative whole
    else readFloat? negative whole fraction (exponent.getD 0)

end QueryForms.Json
