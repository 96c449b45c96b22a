import QueryForms.Error
import QueryForms.Json.Value
import QueryForms.Text.Natural

/-!
# Comparing values

The language compares values in three ways. `looseEq` is the equality of the operators: numbers by
value, a date as its milliseconds, containers item by item. `compareValues` is their order, between
values of comparable types. `collate` orders any two values, for sorting: by the natural order of
their JSON texts.
-/

namespace QueryForms

/-- The order of two floats, unless one is no number. -/
def floatOrder? (x y : Float) : Option Ordering :=
  if x < y then some .lt
  else if x == y then some .eq
  else if y < x then some .gt
  else none

/-- Whether two numbers or dates that stand for milliseconds are equal. -/
def sameMillis (a b : Value) : Bool :=
  a.epochMillis? == b.epochMillis?

/-- Whether two numbers are equal as floats. -/
def sameFloat (a b : Value) : Bool :=
  match a.asFloat?, b.asFloat? with
  | some x, some y => x == y
  | _, _ => false

mutual

/-- The equality of the language. -/
def looseEq : Value → Value → Bool
  | .integer a, .integer b => a == b
  | .integer a, .float b => sameFloat (.integer a) (.float b)
  | .float a, .integer b => sameFloat (.float a) (.integer b)
  | .float a, .float b => sameFloat (.float a) (.float b)
  | .date a, .date b => sameMillis (.date a) (.date b)
  | .date a, .integer b => sameMillis (.date a) (.integer b)
  | .date a, .float b => sameMillis (.date a) (.float b)
  | .integer a, .date b => sameMillis (.integer a) (.date b)
  | .float a, .date b => sameMillis (.float a) (.date b)
  | .array a, .array b => looseEqList a b
  | .object a, .object b => a.length == b.length && looseEqFields a b
  | a, b => a == b
termination_by structural v => v

/-- Whether two lists are equal item by item. -/
def looseEqList : List Value → List Value → Bool
  | [], [] => true
  | a :: as, b :: bs => looseEq a b && looseEqList as bs
  | _, _ => false
termination_by structural v => v

/-- Whether every field equals the one of its name among others. -/
def looseEqFields : List (String × Value) → List (String × Value) → Bool
  | [], _ => true
  | (name, v) :: rest, others =>
    (match Entries.get? others name with
      | some w => looseEq v w
      | none => false) && looseEqFields rest others
termination_by structural v => v

end

/-- Two things of one sort: integers, numbers of which one is a float, milliseconds of which one side
is a date, texts or truth values. -/
inductive Comparable where
  | integers (a b : Int64)
  | numbers (a b : Float)
  | millis (a b : Int)
  | texts (a b : String)
  | truths (a b : Bool)

/-- How two values are compared, if they are. -/
def comparable? : Value → Value → Option Comparable
  | .integer a, .integer b => some (.integers a b)
  | .integer a, .float b => some (.numbers (floatOfInt64 a) b)
  | .float a, .integer b => some (.numbers a (floatOfInt64 b))
  | .float a, .float b => some (.numbers a b)
  | .date a, .date b => some (.millis a.millis b.millis)
  | .date a, .integer b => some (.millis a.millis b.toInt)
  | .date a, .float b => some (.millis a.millis (nearestInt64 b).toInt)
  | .integer a, .date b => some (.millis a.toInt b.millis)
  | .float a, .date b => some (.millis (nearestInt64 a).toInt b.millis)
  | .string a, .string b => some (.texts a b)
  | .boolean a, .boolean b => some (.truths a b)
  | _, _ => none

/-- The order of two things of one sort; a float that is no number has none. -/
def Comparable.order? : Comparable → Option Ordering
  | .integers a b => some (compare a.toInt b.toInt)
  | .numbers a b => floatOrder? a b
  | .millis a b => some (compare a b)
  | .texts a b => some (Text.charOrder a.toList b.toList)
  | .truths a b => some (compare a.toNat b.toNat)

/-- The order of the operators `<`, `<=`, `>` and `>=`: none beside null or a float that is no
number, and an error between types that have no common order. -/
def compareValues (a b : Value) : Result (Option Ordering) :=
  if a.isNull || b.isNull then .ok none
  else match comparable? a b with
    | some c => .ok c.order?
    | none => fault (.incomparable a.kind b.kind)

/-- The order of sorting. -/
def collate (a b : Value) : Ordering :=
  Text.naturalOrder a.jsonText b.jsonText

/-- The order of two lists of keys, the first difference deciding; a key may descend. -/
def compareKeys : List Bool → List Value → List Value → Ordering
  | descending, a :: as, b :: bs =>
    let order := collate a b
    (if descending.head?.getD false then order.swap else order).then
      (compareKeys descending.tail as bs)
  | _, _, _ => .eq

/-- Put an item before the first of a list whose keys are not less than its own. -/
def insertByKeys {α : Type} (descending : List Bool) (item : List Value × α) :
    List (List Value × α) → List (List Value × α)
  | [] => [item]
  | other :: rest =>
    if compareKeys descending item.1 other.1 = .gt then
      other :: insertByKeys descending item rest
    else item :: other :: rest

/-- Items sorted by their keys; items with equal keys keep their order. -/
def sortByKeys {α : Type} (descending : List Bool) (keyed : List (List Value × α)) :
    List (List Value × α) :=
  keyed.foldr (insertByKeys descending) []

end QueryForms
