import QueryForms.Number.Binary64

/-!
# Integers of 64 bits

An integer value has 64 bits and a sign. A result is an integer only if it fits: `fit?` checks,
`saturate` moves a number that does not fit to the nearer end of the range.
-/

namespace QueryForms

/-- The least integer value. -/
def leastInt : Int := Int64.minValue.toInt

/-- The greatest integer value. -/
def greatestInt : Int := Int64.maxValue.toInt

/-- The integer value of a number that has one. -/
def fit? (n : Int) : Option Int64 :=
  if leastInt ≤ n ∧ n ≤ greatestInt then some (Int64.ofInt n) else none

/-- The integer value nearest to a number. -/
def saturate (n : Int) : Int64 :=
  Int64.ofInt (max leastInt (min n greatestInt))

/-- The integer value nearest to a float, halves away from zero; zero for what is no number. -/
def nearestInt64 (x : Float) : Int64 :=
  match Dyadic.ofFloat? x with
  | some d => saturate d.nearestInt
  | none => if x.isNaN then 0 else if x < 0 then saturate leastInt else saturate greatestInt

/-- The float nearest to an integer value. -/
def floatOfInt64 (n : Int64) : Float :=
  Float.ofInt n.toInt

/-- What fits is kept exactly. -/
theorem fit?_eq_some_iff {n : Int} {m : Int64} : fit? n = some m ↔ m.toInt = n := by
  constructor
  · intro h
    unfold fit? at h
    split at h
    · rename_i hr
      have least : Int64.minValue.toInt = -2 ^ 63 := rfl
      have greatest : Int64.maxValue.toInt = 2 ^ 63 - 1 := rfl
      simp only [leastInt, greatestInt, least, greatest] at hr
      cases h
      exact Int64.toInt_ofInt_of_le (by omega) (by omega)
    · cases h
  · intro h
    have inRange : leastInt ≤ n ∧ n ≤ greatestInt := by
      rw [← h]
      exact ⟨Int64.minValue_le_toInt m, Int64.toInt_le m⟩
    unfold fit?
    rw [if_pos inRange, ← h, Int64.ofInt_toInt]

end QueryForms
