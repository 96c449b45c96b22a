import QueryForms.Evaluation
import QueryForms.Value.Order
import QueryForms.Date.Text

/-!
# Operators that both interpretations share

Access to plain data (`_get`, `_map`, `_unique`, `_size`, `_concat`), dates from text and numbers,
evaluation side by side (`_wait`) and definitions with a scope (`_define`).
-/

namespace QueryForms

/-- Exactly two operands. -/
def twoOperands (op : String) : List Value → Result (Value × Value)
  | [a, b] => .ok (a, b)
  | _ => fault (.notTwoOperands op)

namespace PlainOperators

/-- The operand at a place; null when it is missing. -/
def operand (values : List Value) (place : Nat) : Value :=
  (values[place]?).getD .null

/-- A value that was found, or the default where it is null or missing. -/
def orDefault (default : Value) : Option Value → Value
  | some .null => default
  | some v => v
  | none => default

/-- The value at a path or an index of another, or the default where that is null or missing. -/
def get (values : List Value) : Result Value := do
  let whole := operand values 0
  let found ← match operand values 1 with
    | .string path => .ok (whole.lookupPath? path)
    | .integer n =>
      match whole with
      | .array items => .ok (if n.toInt < 0 then none else items[n.toInt.toNat]?)
      | _ => .ok (whole.lookupPath? (toString n.toInt))
    | other => fault (.pathKind other.kind)
  return orDefault (operand values 2) found

/-- One field of every record. -/
def map (values : List Value) : Result Value := do
  let (list, field) ← twoOperands "_map" values
  match field with
  | .string path =>
    match list with
    | .array items => return .array (items.map fun item => (item.lookupPath? path).getD .null)
    | .null => return .array []
    | other => fault (.mapListKind other.kind)
  | other => fault (.mapFieldKind other.kind)

/-- The values that equal none before them, after those in `kept`. -/
def firsts (kept : List Value) : List Value → List Value
  | [] => kept
  | v :: rest =>
    if kept.any fun seen => looseEq seen v then firsts kept rest else firsts (kept ++ [v]) rest

/-- An array without values that equal an earlier one. -/
def unique (values : List Value) : Result Value :=
  match operand values 0 with
  | .array items => .ok (.array (firsts [] items))
  | other => fault (.uniqueKind other.kind)

/-- A length as an integer value. -/
def lengthValue (n : Nat) : Value :=
  .integer (Int64.ofNat n)

/-- How many items, characters, fields or rows a value has. -/
def size (values : List Value) : Result Value :=
  match operand values 0 with
  | .null => .ok (lengthValue 0)
  | .array items => .ok (lengthValue items.length)
  | .string s => .ok (lengthValue s.toList.length)
  | .object fields => .ok (lengthValue fields.length)
  | .rows list => .ok (lengthValue list.length)
  | other => fault (.sizeKind other.kind)

/-- The items that a value adds to a list. -/
def itemsOf : Value → List Value
  | .array items => items
  | .null => []
  | v => [v]

/-- Lists one after the other; what is no list is one item. -/
def concatLists (values : List Value) : Result Value :=
  .ok (.array (values.flatMap itemsOf))

/-- The date of a text or of a number of milliseconds. -/
def date (values : List Value) : Result Value :=
  match operand values 0 with
  | .null => .ok .null
  | .date t => .ok (.date t)
  | .integer n =>
    match Instant.ofMillis? n.toInt with
    | some t => .ok (.date t)
    | none => fault (.timestampRange n.toInt)
  | .float x =>
    match Instant.ofMillis? (nearestInt64 x).toInt with
    | some t => .ok (.date t)
    | none => fault (.floatTimestampRange x)
  | .string s =>
    match DateText.read? s with
    | some t => .ok (.date t)
    | none => fault (.dateText s)
  | other => fault (.dateKind other.kind)

/-- The values of all operands as an array. -/
def wait (eval : Evaluator) (operands : List Expr) (env : Environment) : Result Value :=
  (Interpretation.evaluateAll eval operands env).map .array

/-- The value of a body in which a symbol is bound; without a body, the value bound. -/
def define (eval : Evaluator) (operands : List Expr) (env : Environment) : Result Value :=
  match operands with
  | target :: bound :: bodies =>
    match target.asName? with
    | none => fault .defineTarget
    | some symbol =>
      match env.splitSymbol? symbol with
      | none => .error (.unknownNamespace symbol)
      | some (token, name) => do
        let v ← eval bound env
        match bodies with
        | [] => return v
        | [body] => do eval body (← env.extend token name v)
        | _ => fault .defineBodies
  | _ => fault .defineOperands

/-- What each shared operator does. -/
def handler : Operator → Option Handler
  | .get => some (.onValues get)
  | .map => some (.onValues map)
  | .unique => some (.onValues unique)
  | .size => some (.onValues size)
  | .concatLists => some (.onValues concatLists)
  | .date => some (.onValues date)
  | .wait => some (.onOperands wait)
  | .define => some (.onOperands define)
  | _ => none

end PlainOperators

end QueryForms
