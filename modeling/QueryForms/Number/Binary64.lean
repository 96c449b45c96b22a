/-!
# Floats as exact numbers

A finite float is a sign, a whole significand and a power of two. `Dyadic.ofFloat?` reads the three
from its bits, so what is said about a float below is said in whole numbers: its nearest integer,
its exact decimal expansion.
-/

namespace QueryForms

/-- The number `± significand · 2 ^ exponent`. -/
structure Dyadic where
  /-- Whether the sign bit is set; zero has two signs. -/
  negative : Bool
  /-- The whole significand, below `2 ^ 53` for a float. -/
  significand : Nat
  /-- The power of two. -/
  exponent : Int
deriving DecidableEq

namespace Dyadic

/-- The number that a float is, unless it is infinite or no number. -/
def ofFloat? (x : Float) : Option Dyadic :=
  let bits : Nat := x.toBits.toNat
  let negative := bits / Nat.pow 2 63 % 2 == 1
  let biased : Nat := bits / Nat.pow 2 52 % Nat.pow 2 11
  let fraction : Nat := bits % Nat.pow 2 52
  if biased = 2047 then none
  else if biased = 0 then some ⟨negative, fraction, -1074⟩
  else some ⟨negative, Nat.pow 2 52 + fraction, (biased : Int) - 1075⟩

/-- The whole number nearest to the magnitude, a half going up. -/
def nearestMagnitude (d : Dyadic) : Nat :=
  let down := (-d.exponent).toNat
  if down = 0 then d.significand * Nat.pow 2 d.exponent.toNat
  else (d.significand + Nat.pow 2 (down - 1)) / Nat.pow 2 down

/-- The whole number nearest to the number, a half going away from zero. -/
def nearestInt (d : Dyadic) : Int :=
  if d.negative then -(d.nearestMagnitude : Int) else d.nearestMagnitude

end Dyadic

end QueryForms
