import QueryForms.PlainOperators
import QueryForms.Arithmetic
import QueryForms.Text.Like

/-!
# Scalar operators

Comparison, logic, arithmetic, text and dates on plain values. Statements fall back to these where
no operand is SQL.
-/

namespace QueryForms.Scalar

/-- Every operand after the first tested against the first, up to the first that fails. -/
def compareAll (op : String) (test : Value → Value → Result Bool) (values : List Value) :
    Result Value :=
  match values with
  | [] => fault (.noOperands op)
  | [_] => fault (.oneOperand op)
  | first :: rest => (holdsForAll first rest).map .boolean
where
  /-- Whether the test holds between the first operand and each of the others. -/
  holdsForAll (first : Value) : List Value → Result Bool
    | [] => .ok true
    | other :: rest => do
      if ← test first other then holdsForAll first rest else return false

/-- A test of the order of two values; what has no order fails it. -/
def ordered (accepted : Ordering → Bool) (a b : Value) : Result Bool :=
  (compareValues a b).map fun order => order.any accepted

/-- `=` -/
def equal : List Value → Result Value :=
  compareAll "=" fun a b => .ok (looseEq a b)

/-- `!=` -/
def notEqual : List Value → Result Value :=
  compareAll "!=" fun a b => .ok (!looseEq a b)

/-- `>` -/
def greaterThan : List Value → Result Value :=
  compareAll ">" (ordered Ordering.isGT)

/-- `<` -/
def lessThan : List Value → Result Value :=
  compareAll "<" (ordered Ordering.isLT)

/-- `>=` -/
def greaterEqual : List Value → Result Value :=
  compareAll ">=" (ordered Ordering.isGE)

/-- `<=` -/
def lessEqual : List Value → Result Value :=
  compareAll "<=" (ordered Ordering.isLE)

/-- Whether a value's text matches a pattern; null matches none. -/
def likeWith (op : String) (ignoreCase : Bool) (values : List Value) : Result Value := do
  let (v, pattern) ← twoOperands op values
  match pattern with
  | .string pattern => return .boolean (!v.isNull && Text.like v.text pattern ignoreCase)
  | other => fault (.patternKind op other.kind)

/-- Whether a value is in a list. -/
def inList (values : List Value) : Result Value := do
  let (v, list) ← twoOperands "$in" values
  match list with
  | .array items => return .boolean (items.any fun item => looseEq item v)
  | .null => return .boolean false
  | other => fault (.listKind other.kind)

/-- Whether a text occurs in another. -/
def occursIn (part : List Char) : List Char → Bool
  | [] => part.isEmpty
  | c :: cs => part.isPrefixOf (c :: cs) || occursIn part cs

/-- Whether an array has an item or all items of another, a text a part, a record all fields of
another with their values. -/
def contains (values : List Value) : Result Value := do
  let (haystack, needle) ← twoOperands "$contains" values
  match haystack, needle with
  | .null, _ => return .boolean false
  | .array items, .array wanted =>
    return .boolean (wanted.all fun w => items.any fun item => looseEq item w)
  | .array items, single => return .boolean (items.any fun item => looseEq item single)
  | .string text, .string part => return .boolean (occursIn part.toList text.toList)
  | .object fields, .object wanted =>
    return .boolean (wanted.all fun (name, w) =>
      (Entries.get? fields name).any fun v => looseEq v w)
  | _, _ => fault (.notSearchable haystack.kind needle.kind)

/-- Whether all operands are null. -/
def isNull (values : List Value) : Result Value :=
  if values.isEmpty then fault .nullTestOperands else .ok (.boolean (values.all Value.isNull))

/-- Whether all operands count as true. -/
def and (values : List Value) : Result Value :=
  .ok (.boolean (values.all Value.isTruthy))

/-- Whether some operand counts as true. -/
def or (values : List Value) : Result Value :=
  .ok (.boolean (values.any Value.isTruthy))

/-- Whether the operand does not count as true. -/
def not : List Value → Result Value
  | [v] => .ok (.boolean !v.isTruthy)
  | _ => fault .negationOperands

mutual

/-- What a value adds to a joined text: null nothing, an array what its items add. -/
def textOf : Value → String
  | .null => ""
  | .array items => textOfAll items
  | v => v.text

/-- What values add to a joined text. -/
def textOfAll : List Value → String
  | [] => ""
  | v :: rest => textOf v ++ textOfAll rest

end

/-- The texts of the operands joined. -/
def concat (values : List Value) : Result Value :=
  .ok (.string (textOfAll values))

/-- A part of a date. -/
inductive DatePart where
  | epoch
  | day
  | month
  | year
deriving DecidableEq

/-- The name of a part. -/
def DatePart.name : DatePart → String
  | epoch => "epoch"
  | day => "day"
  | month => "month"
  | year => "year"

/-- The part that a value names, in any case of letters. -/
def datePart (v : Value) : Result DatePart :=
  let lower := String.ofList (v.text.toList.map Char.toLower)
  match [DatePart.epoch, .day, .month, .year].find? fun part => part.name == lower with
  | some part => .ok part
  | none => .error (.unsupportedExtractField v.text)

/-- A part of the instant some milliseconds from the start of 1970. The epoch is in seconds. -/
def partOfMillis (part : DatePart) (millis : Int) : Result Value :=
  let ofDate (read : CivilDate → Int) : Result Value :=
    match Instant.ofMillis? millis with
    | some t => .ok (.integer (Int64.ofInt (read t.date)))
    | none => fault (.timestampRange millis)
  match part with
  | .epoch =>
    if millis % 1000 = 0 then .ok (.integer (Int64.ofInt (millis / 1000)))
    else .ok (.float (Float.ofInt millis / 1000))
  | .day => ofDate fun d => d.day
  | .month => ofDate fun d => d.month
  | .year => ofDate CivilDate.year

/-- A part of a date or of a number of milliseconds. -/
def extract (values : List Value) : Result Value := do
  let (named, v) ← twoOperands "$extract" values
  let part ← datePart named
  if v.isNull then return .null
  else match v.epochMillis? with
    | some millis => partOfMillis part millis
    | none => fault (.extractKind v.kind)

/-- The field where the condition holds, null where not. -/
def filter (eval : Evaluator) (operands : List Expr) (env : Environment) : Result Value :=
  match operands with
  | [field, condition] => do
    if (← eval condition env).isTruthy then eval field env else return .null
  | _ => fault .filterOperands

/-- What each scalar operator does. -/
def handler : Operator → Option Handler
  | .equal => some (.onValues equal)
  | .notEqual => some (.onValues notEqual)
  | .greaterThan => some (.onValues greaterThan)
  | .lessThan => some (.onValues lessThan)
  | .greaterEqual => some (.onValues greaterEqual)
  | .lessEqual => some (.onValues lessEqual)
  | .like => some (.onValues (likeWith "$like" false))
  | .ilike => some (.onValues (likeWith "$ilike" true))
  | .inList => some (.onValues inList)
  | .contains => some (.onValues contains)
  | .isNull => some (.onValues isNull)
  | .and => some (.onValues and)
  | .or => some (.onValues or)
  | .not => some (.onValues not)
  | .add => some (.onValues (reduce .add))
  | .subtract => some (.onValues (reduce .subtract))
  | .multiply => some (.onValues (reduce .multiply))
  | .divide => some (.onValues (reduce .divide))
  | .extract => some (.onValues extract)
  | .concat => some (.onValues concat)
  | .filter => some (.onOperands filter)
  | _ => none

end QueryForms.Scalar
