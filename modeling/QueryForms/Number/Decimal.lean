import QueryForms.Number.Checked

/-!
# Decimals of 96 bits

An integer and a float meet in decimal arithmetic, so that `100 * 1.1` is `110`. A decimal is a sign,
a whole number below `2 ^ 96` and a count of at most 28 decimal places. A result that needs more
digits keeps as many as fit and rounds the last to even (`Decimal.ofRatio?`); without room for its
whole part there is no result.

A float enters with the 15 or 16 digits that its bits guarantee (`Decimal.ofFloat?`) and a decimal
leaves as the float nearest to it at its own number of places (`Decimal.toFloat`).
-/

namespace QueryForms

/-- The number `± digits / 10 ^ places`. -/
structure Decimal where
  /-- Whether the number is negative. -/
  negative : Bool
  /-- The digits, as the whole number they spell. -/
  digits : Nat
  /-- How many of the digits stand after the point. -/
  places : Nat
deriving DecidableEq

namespace Decimal

/-- The bound below which the digits of a decimal lie. -/
def capacity : Nat := Nat.pow 2 96

/-- The most places of a decimal. -/
def maxPlaces : Nat := 28

/-- The decimal zero. -/
def zero : Decimal := ⟨false, 0, 0⟩

/-- The decimal of an integer value. -/
def ofInt64 (n : Int64) : Decimal :=
  ⟨n.toInt < 0, n.toInt.natAbs, 0⟩

/-! ## From floats -/

/-- The quotient by ten with its last digit rounded, a half going up. -/
def dropDigit (digits : Nat) : Nat :=
  if 5 ≤ digits % 10 then digits / 10 + 1 else digits / 10

/-- Turn `digits · 2 ^ -steps` into digits over a power of ten, by a factor five for each halving;
where a factor five has no room, the last bit goes. Counts the halvings done without a factor. -/
def halve : Nat → Nat → Nat → Nat × Nat
  | 0, digits, halved => (digits, halved)
  | steps + 1, digits, halved =>
    if digits % 2 = 1 ∧ digits * 5 < capacity then halve steps (digits * 5) halved
    else halve steps (digits / 2) (halved + 1)

/-- Round away the given number of places, one at a time; nothing left is zero without places. -/
def dropPlaces : Nat → Nat → Nat → Nat × Nat
  | 0, digits, places => (digits, places)
  | excess + 1, digits, places =>
    if digits / 10 = 0 then (0, 0) else dropPlaces excess (dropDigit digits) (places - 1)

/-- Round places away while the digits exceed what a float's bits guarantee. -/
def dropUncertain : Nat → Nat → Nat × Nat
  | digits, 0 => (digits, 0)
  | digits, places + 1 =>
    if Nat.pow 2 52 ≤ digits then dropUncertain (dropDigit digits) places else (digits, places + 1)

/-- Take away the zeros at the end of the places. -/
def dropZeros : Nat → Nat → Nat × Nat
  | digits, 0 => (digits, 0)
  | digits, places + 1 =>
    if digits % 10 = 0 then dropZeros (digits / 10) places else (digits, places + 1)

/-- The decimal of a float: the digits that its bits guarantee, without zeros at their end. A whole
number must have room for all its digits. -/
def ofFloat? (x : Float) : Option Decimal := do
  let d ← Dyadic.ofFloat? x
  let down := (-d.exponent).toNat
  if d.significand = 0 then return ⟨d.negative, 0, 0⟩
  else if down = 0 then
    let digits := d.significand * Nat.pow 2 d.exponent.toNat
    if digits < capacity then return ⟨d.negative, digits, 0⟩ else none
  else
    let (digits, halved) := halve down d.significand 0
    let places := down - halved
    let (digits, places) := dropPlaces (places - maxPlaces) digits places
    let (digits, places) := dropUncertain digits places
    let (digits, places) := dropZeros digits places
    return ⟨d.negative, digits, places⟩

/-! ## Arithmetic -/

/-- The whole number nearest to a quotient, a half going to the even neighbour. -/
def roundEven (num den : Nat) : Nat :=
  let quotient := num / den
  let twice := 2 * (num % den)
  if twice < den ∨ (twice = den ∧ quotient % 2 = 0) then quotient else quotient + 1

/-- The quotient with the most places, up to the given number, for whose digits there is room. -/
def ofRatio? (negative : Bool) (num den : Nat) : Nat → Option Decimal
  | 0 =>
    let digits := roundEven num den
    if digits < capacity then some ⟨negative, digits, 0⟩ else none
  | places + 1 =>
    let digits := roundEven (num * Nat.pow 10 (places + 1)) den
    if digits < capacity then some ⟨negative, digits, places + 1⟩
    else ofRatio? negative num den places

/-- The signed number that the digits spell once the places are filled up to a given number. -/
def aligned (d : Decimal) (places : Nat) : Int :=
  let magnitude : Int := d.digits * Nat.pow 10 (places - d.places)
  if d.negative then -magnitude else magnitude

/-- The decimal with the opposite sign. -/
def neg (d : Decimal) : Decimal :=
  { d with negative := !d.negative }

/-- The sum, at the greater number of places; zero adds nothing and leaves the places alone. -/
def add? (a b : Decimal) : Option Decimal :=
  if a.digits = 0 then some b
  else if b.digits = 0 then some a
  else
    let places := max a.places b.places
    let sum := a.aligned places + b.aligned places
    ofRatio? (sum < 0) sum.natAbs (Nat.pow 10 places) places

/-- The difference. -/
def sub? (a b : Decimal) : Option Decimal :=
  add? a b.neg

/-- The product, at the sum of the places. -/
def mul? (a b : Decimal) : Option Decimal :=
  if a.digits = 0 ∨ b.digits = 0 then some zero
  else
    let places := a.places + b.places
    ofRatio? (a.negative != b.negative) (a.digits * b.digits) (Nat.pow 10 places)
      (min places maxPlaces)

/-- The most places, up to a limit, by which digits can be extended. -/
def room (digits : Nat) : Nat → Nat
  | 0 => 0
  | more + 1 => if digits * Nat.pow 10 (more + 1) < capacity then more + 1 else room digits more

/-- How many places a division appends to a quotient that has `places` without them, after the
`done` appended so far: nine at a time, fewer where there is no room for nine, until the division is
even or there is no room for one. The number of rounds bounds the search. -/
def appendedPlaces? (num den : Nat) (places : Int) : Nat → Nat → Option Nat
  | 0, done => some done
  | rounds + 1, done =>
    let digits := num * Nat.pow 10 done / den
    let reached := places + done
    if capacity ≤ digits then some done
    else if num * Nat.pow 10 done % den = 0 then
      if 0 ≤ reached then some done
      else
        let more := min 9 (-reached).toNat
        if digits * Nat.pow 10 more < capacity then
          appendedPlaces? num den places rounds (done + more)
        else none
    else
      match room digits (min 9 (maxPlaces - reached).toNat) with
      | 0 => some done
      | more => appendedPlaces? num den places rounds (done + more)

/-- Take away eight places of zeros while the digits are a multiple of `2 ^ 32`. -/
def dropEights : Nat → Nat → Nat → Nat × Nat
  | 0, digits, places => (digits, places)
  | rounds + 1, digits, places =>
    if digits % Nat.pow 2 32 = 0 ∧ 8 ≤ places ∧ digits % Nat.pow 10 8 = 0 then
      dropEights rounds (digits / Nat.pow 10 8) (places - 8)
    else (digits, places)

/-- Take away a number of places at once if they hold zeros. -/
def dropGroup (count : Nat) : Nat × Nat → Nat × Nat
  | (digits, places) =>
    if count ≤ places ∧ digits % Nat.pow 10 count = 0 then
      (digits / Nat.pow 10 count, places - count)
    else (digits, places)

/-- Take away zeros at the end of a quotient: first by eights, then up to seven. -/
def trim (digits places : Nat) : Nat × Nat :=
  dropGroup 1 (dropGroup 2 (dropGroup 4 (dropEights places digits places)))

/-- The quotient; by zero there is none. Where the digits divide evenly it has the places that the
operands ask for, otherwise as many as the division appends, less zeros at their end. -/
def div? (a b : Decimal) : Option Decimal :=
  let negative := a.negative != b.negative
  let start : Int := (a.places : Int) - b.places
  if b.digits = 0 then none
  else if a.digits = 0 then some zero
  else do
    let appended ← appendedPlaces? a.digits b.digits start (2 * maxPlaces + 1) 0
    let places := start + appended
    if places < 0 then none
    else
      let q ← ofRatio? negative (a.digits * Nat.pow 10 b.places) (b.digits * Nat.pow 10 a.places)
        places.toNat
      if a.digits % b.digits = 0 then return q
      else
        let (digits, places) := trim q.digits q.places
        return ⟨negative, digits, places⟩

/-! ## Back to integers and floats -/

/-- The number, if it is whole and an integer value. -/
def toInt64? (d : Decimal) : Option Int64 :=
  if d.digits % Nat.pow 10 d.places = 0 then
    let magnitude : Int := d.digits / Nat.pow 10 d.places
    fit? (if d.negative then -magnitude else magnitude)
  else none

/-- The float nearest to the magnitude at its number of places: the whole part and the fraction are
floats on their own, and their sum is rounded to the places again. -/
def magnitudeFloat (d : Decimal) : Float :=
  if d.places = 0 then Float.ofNat d.digits
  else
    let unit := Float.ofNat (Nat.pow 10 d.places)
    let whole := Float.ofNat (d.digits / Nat.pow 10 d.places)
    let fraction := Float.ofNat (d.digits % Nat.pow 10 d.places) / unit
    if fraction == 0 then whole
    else
      match Dyadic.ofFloat? ((whole + fraction) * unit) with
      | some scaled => Float.ofNat scaled.nearestMagnitude / unit
      | none => whole + fraction

/-- The float that the decimal becomes. -/
def toFloat (d : Decimal) : Float :=
  if d.negative then -d.magnitudeFloat else d.magnitudeFloat

end Decimal

end QueryForms
