/-!
# Natural order of texts

Texts are compared character by character, but a run of digits counts as one unit and two runs
compare as numbers, so `item2` comes before `item10`. `units` cuts a text into its units, and
`naturalOrder` is the lexicographic order of the unit lists. Runs of one value are told apart by
their zeros in front: the shorter run comes first.
-/

namespace QueryForms.Text

/-- A unit of a text: a run of ASCII digits or another character. -/
inductive TextUnit where
  | run (digits : List Char)
  | char (c : Char)
deriving DecidableEq

/-- The units of a text; runs are as long as can be. -/
def units : List Char → List TextUnit
  | [] => []
  | c :: cs =>
    if c.isDigit then
      match units cs with
      | .run digits :: rest => .run (c :: digits) :: rest
      | rest => .run [c] :: rest
    else .char c :: units cs

/-- The order of two texts, character by character, by code point. -/
def charOrder : List Char → List Char → Ordering
  | [], [] => .eq
  | [], _ :: _ => .lt
  | _ :: _, [] => .gt
  | a :: as, b :: bs => (compare a.toNat b.toNat).then (charOrder as bs)

/-- A run of digits without the zeros in front. -/
def dropZeros (digits : List Char) : List Char :=
  digits.dropWhile (· == '0')

/-- The order of two runs of digits: by value, then by length. -/
def runOrder (a b : List Char) : Ordering :=
  (compare (dropZeros a).length (dropZeros b).length).then
    ((charOrder (dropZeros a) (dropZeros b)).then (compare a.length b.length))

/-- The first character of a unit. -/
def TextUnit.first : TextUnit → Option Char
  | .run digits => digits.head?
  | .char c => some c

/-- The order of two units: of two runs by value, of others by their first characters. -/
def unitOrder : TextUnit → TextUnit → Ordering
  | .run a, .run b => runOrder a b
  | a, b => charOrder a.first.toList b.first.toList

/-- The order of two lists of units, unit by unit. -/
def unitsOrder : List TextUnit → List TextUnit → Ordering
  | [], [] => .eq
  | [], _ :: _ => .lt
  | _ :: _, [] => .gt
  | a :: as, b :: bs => (unitOrder a b).then (unitsOrder as bs)

/-- The natural order of two texts. -/
def naturalOrder (a b : String) : Ordering :=
  unitsOrder (units a.toList) (units b.toList)

end QueryForms.Text
