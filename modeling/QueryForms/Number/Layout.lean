import QueryForms.Number.Shortest

/-!
# How a float is written

Three texts show floats: JSON text, the plain text that joins a string, and the text of a value in
a message. All three write the fewest digits that read back. They differ in where positional
notation ends, in the mark of a whole number, in the sign of an exponent and in ties; one
`FloatLayout` for each says how.
-/

namespace QueryForms

/-- The decisions of one way to write a float. -/
structure FloatLayout where
  /-- What breaks a tie of two shortest numbers. -/
  tie : Tie
  /-- Whether a number whose first digit stands at this power of ten is written positionally. -/
  positional : Int → Bool
  /-- What follows a whole number in positional notation. -/
  wholeMark : String
  /-- What stands before an exponent that is not negative. -/
  exponentSign : String

namespace FloatLayout

/-- JSON text: positional from `1e-5` to below `1e16`, `.0` on whole numbers, `e+16`. -/
def json : FloatLayout :=
  ⟨.even, fun e => -5 ≤ e && e ≤ 15, ".0", "+"⟩

/-- Plain text: positional always, nothing on whole numbers. -/
def plain : FloatLayout :=
  ⟨.up, fun _ => true, "", ""⟩

/-- Text in messages: positional from `1e-4` to below `1e16`, `.0` on whole numbers, `e16`. -/
def message : FloatLayout :=
  ⟨.up, fun e => -4 ≤ e && e ≤ 15, ".0", ""⟩

/-- Digits without the zeros at their end. -/
def dropFinalZeros (digits : List Char) : List Char :=
  (digits.reverse.dropWhile (· == '0')).reverse

/-- The text of a magnitude whose digits `first :: rest` start at a power of ten. -/
def magnitude (layout : FloatLayout) (first : Char) (rest : List Char) (power : Int) : String :=
  if layout.positional power then
    if power < 0 then
      "0." ++ String.ofList (List.replicate (-power - 1).toNat '0' ++ first :: rest)
    else
      let whole := power.toNat + 1
      let digits := first :: rest
      if digits.length ≤ whole then
        String.ofList (digits ++ List.replicate (whole - digits.length) '0') ++ layout.wholeMark
      else String.ofList (digits.take whole) ++ "." ++ String.ofList (digits.drop whole)
  else
    let point := if rest.isEmpty then "" else "." ++ String.ofList rest
    let sign := if power < 0 then "-" else layout.exponentSign
    first.toString ++ point ++ "e" ++ sign ++ toString power.natAbs

/-- The text of a finite float. -/
def finite (layout : FloatLayout) (d : Dyadic) : String :=
  let short := shortest layout.tie d
  let digits := Nat.toDigits 10 short.digits
  let power := short.exponent + (digits.length : Int) - 1
  let body :=
    match dropFinalZeros digits with
    | first :: rest => layout.magnitude first rest power
    | [] => "0" ++ layout.wholeMark
  if d.negative then "-" ++ body else body

/-- The text of a float. -/
def render (layout : FloatLayout) (x : Float) : String :=
  match Dyadic.ofFloat? x with
  | some d => layout.finite d
  | none => if x.isNaN then "NaN" else if x < 0 then "-inf" else "inf"

end FloatLayout

end QueryForms
