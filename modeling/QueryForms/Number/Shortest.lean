import QueryForms.Number.Binary64

/-!
# The fewest digits that read back

A float stands for every real number that rounds to it. Its text is the number with the fewest
digits in that interval, of two such numbers the nearer to the float itself. `shortest` finds it in
whole numbers: the float and the ends of its interval are written over one power of ten, and grids
of one digit, two digits and so on are tried until one has a point inside.
-/

namespace QueryForms

/-- The number `digits · 10 ^ exponent`. -/
structure DecimalDigits where
  /-- The digits, as the whole number they spell. -/
  digits : Nat
  /-- The power of ten. -/
  exponent : Int
deriving DecidableEq

/-- The neighbour that is taken when two lie equally near. -/
inductive Tie where
  /-- The greater one. -/
  | up
  /-- The one whose last digit is even. -/
  | even
deriving DecidableEq

/-- A float's magnitude and its interval, all over one power of ten. -/
structure RoundingInterval where
  /-- The lower end. -/
  low : Nat
  /-- The magnitude itself. -/
  value : Nat
  /-- The upper end. -/
  high : Nat
  /-- The power of ten. -/
  exponent : Int
  /-- Whether the ends round to the float too, which they do for an even significand. -/
  closed : Bool

namespace RoundingInterval

/-- The interval of a float. Below a power of two the floats lie twice as dense. -/
def ofDyadic (d : Dyadic) : RoundingInterval :=
  let lowGap := if d.significand = Nat.pow 2 52 ∧ -1074 < d.exponent then 1 else 2
  let quarter := d.exponent - 2
  let scale := Nat.pow 2 quarter.toNat * Nat.pow 5 (-quarter).toNat
  { low := (4 * d.significand - lowGap) * scale
    value := 4 * d.significand * scale
    high := (4 * d.significand + 2) * scale
    exponent := min quarter 0
    closed := d.significand % 2 == 0 }

/-- Whether a number over the same power of ten rounds to the float. -/
def contains (r : RoundingInterval) (n : Nat) : Bool :=
  if r.closed then r.low ≤ n && n ≤ r.high else r.low < n && n < r.high

/-- The point of the grid of step `10 ^ places` that is nearest among those in the interval. -/
def gridPoint? (r : RoundingInterval) (tie : Tie) (places : Nat) : Option Nat :=
  let step := Nat.pow 10 places
  let below := r.value / step
  let above := below + 1
  match r.contains (below * step), r.contains (above * step) with
  | true, true =>
    let left := r.value - below * step
    let right := above * step - r.value
    if left < right then some below
    else if right < left then some above
    else match tie with
      | .up => some above
      | .even => if below % 2 = 0 then some below else some above
  | true, false => some below
  | false, true => some above
  | false, false => none

/-- The point of the coarsest grid of step at most `10 ^ places` with a point in the interval. -/
def search (r : RoundingInterval) (tie : Tie) : Nat → DecimalDigits
  | 0 => ⟨r.value, r.exponent⟩
  | places + 1 =>
    match r.gridPoint? tie (places + 1) with
    | some n => ⟨n, r.exponent + (places + 1 : Nat)⟩
    | none => search r tie places

end RoundingInterval

/-- The number of decimal digits of a whole number. -/
def digitCount (n : Nat) : Nat :=
  (Nat.toDigits 10 n).length

/-- The fewest digits that read back as the number, if it is a float. -/
def shortest (tie : Tie) (d : Dyadic) : DecimalDigits :=
  if d.significand = 0 then ⟨0, 0⟩
  else
    let r := RoundingInterval.ofDyadic d
    r.search tie (digitCount r.value - 1)

end QueryForms
