import QueryForms.InMemory.Scalar

/-!
# Aggregates

An aggregate evaluates its operand on every member of the current row and combines the values that
are not null. The members of a group row are the rows of the group, those of a row inside a window
call the rows of the frame, and any other row is its own member.
-/

namespace QueryForms.Aggregate

/-- Exactly one operand. -/
def oneOperand (op : String) : List Expr → Result Expr
  | [operand] => .ok operand
  | operands => fault (.aggregateOperands op operands.length)

/-- The rows that an aggregate combines. -/
def members (env : Environment) : List Row :=
  (env.row.map Row.members).getD []

/-- The values of a field on the members, without nulls. -/
def memberValues (eval : Evaluator) (field : Expr) (env : Environment) : Result (List Value) := do
  let values ← (members env).mapM fun member => eval field (env.surround member)
  return values.filter fun v => !v.isNull

/-- How many members have a value; all fields stand for the identifier. -/
def count (eval : Evaluator) (operands : List Expr) (env : Environment) : Result Value := do
  let field ← oneOperand "$count" operands
  let field := if field.asName? = some "*" then .symbol ":id" else field
  return PlainOperators.lengthValue (← memberValues eval field env).length

/-- The sum of the values; null without values. -/
def sum (eval : Evaluator) (operands : List Expr) (env : Environment) : Result Value := do
  let values ← memberValues eval (← oneOperand "$sum" operands) env
  if values.isEmpty then return .null else reduce .add values

/-- The mean of the values; no number without values. -/
def avg (eval : Evaluator) (operands : List Expr) (env : Environment) : Result Value := do
  let values ← memberValues eval (← oneOperand "$avg" operands) env
  if values.isEmpty then return .float (0 / 0)
  else applyArithmetic .divide (← reduce .add values) (PlainOperators.lengthValue values.length)

/-- The value to keep of the best so far and a new one. -/
def better (accepted : Ordering → Bool) (best v : Value) : Result Value := do
  return if (← compareValues v best).any accepted then v else best

/-- The first value that no other is preferred to; null without values. -/
def extreme (op : String) (accepted : Ordering → Bool) (eval : Evaluator) (operands : List Expr)
    (env : Environment) : Result Value := do
  match ← memberValues eval (← oneOperand op operands) env with
  | [] => return .null
  | first :: rest => rest.foldlM (better accepted) first

/-- What each aggregate does. -/
def handler : Operator → Option Handler
  | .count => some (.onOperands count)
  | .sum => some (.onOperands sum)
  | .avg => some (.onOperands avg)
  | .min => some (.onOperands (extreme "$min" Ordering.isLT))
  | .max => some (.onOperands (extreme "$max" Ordering.isGT))
  | _ => none

end QueryForms.Aggregate
