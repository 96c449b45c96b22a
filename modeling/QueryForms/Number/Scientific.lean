/-!
# Numbers in scientific notation

A number written in digits is taken as a whole significand and a power of ten.
`Scientific.ofDigits` keeps the leading digits, as many as 64 bits hold, and counts the places of the
others. `Scientific.toFloat?` makes a float of it in one step, a product with the power or a quotient
by it, where significand and power are floats already. So a number of at most fifteen digits and a
small power becomes the float nearest to it, and any other a float close to it.
-/

namespace QueryForms

/-- The whole number that digits spell with one more at their end. -/
def appendDigit (value : Nat) (digit : Char) : Nat :=
  value * 10 + (digit.toNat - '0'.toNat)

/-- The whole number that digits spell. -/
def digitsValue (digits : List Char) : Nat :=
  digits.foldl appendDigit 0

/-- The number `significand · 10 ^ exponent`. -/
structure Scientific where
  /-- The leading digits, as the whole number they spell. -/
  significand : Nat
  /-- The power of ten. -/
  exponent : Int
deriving DecidableEq

namespace Scientific

/-- The bound below which a significand lies. -/
def capacity : Nat := UInt64.size

/-- Append digits to a significand up to the first for which there is no room; the digits from there
on are left over. -/
def takeDigits (significand : Nat) : List Char → Nat × List Char
  | [] => (significand, [])
  | digit :: rest =>
    if appendDigit significand digit < capacity then
      takeDigits (appendDigit significand digit) rest
    else (significand, digit :: rest)

/-- The number with the given digits before and after its point. Digits before the point that have
no room raise the power of ten, digits after it that have none are dropped. -/
def ofDigits (whole fraction : List Char) (exponent : Int) : Scientific :=
  let (leading, skipped) := takeDigits 0 whole
  let (significand, dropped) := takeDigits leading fraction
  ⟨significand, exponent + skipped.length - (fraction.length - dropped.length : Nat)⟩

/-! ## Floats -/

/-- The greatest power of ten that is a finite float. -/
def maxPower : Nat := 308

/-- The float nearest to a power of ten. -/
def powerOfTen (n : Nat) : Float :=
  Float.ofScientific 1 false n

/-- A float divided by a power of ten: by the greatest power first where one is not enough. Nothing
is left of a significand after two of these. -/
def divideByPower (x : Float) (n : Nat) : Float :=
  if n ≤ maxPower then x / powerOfTen n
  else if n ≤ 2 * maxPower then x / powerOfTen maxPower / powerOfTen (n - maxPower)
  else 0

/-- A float times a power of ten, if it is finite. -/
def multiplyByPower? (x : Float) (n : Nat) : Option Float :=
  let product := x * powerOfTen n
  if maxPower < n ∨ product.isInf then none else some product

/-- The float of a number, if it is finite. -/
def toFloat? (s : Scientific) : Option Float :=
  if s.significand = 0 then some 0
  else if 0 ≤ s.exponent then multiplyByPower? (Float.ofNat s.significand) s.exponent.toNat
  else some (divideByPower (Float.ofNat s.significand) s.exponent.natAbs)

end Scientific

end QueryForms
