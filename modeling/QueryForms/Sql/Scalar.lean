import QueryForms.Sql.Operand
import QueryForms.InMemory.Scalar

/-!
# Scalar operators in statements

An operator with a column or a fragment among its operands becomes SQL. Without one it is computed on
the spot, as in memory, so that constant parts never reach the statement.
-/

namespace QueryForms.SqlScalar

/-- The values as parts of a statement. -/
def parts (values : List Value) : Result (List Fragment) :=
  values.mapM Value.toSql

/-- An operator that becomes SQL beside a column or a fragment and is computed otherwise. -/
def orCompute (compute sql : List Value → Result Value) (values : List Value) : Result Value :=
  if values.any Value.isSql then sql values else compute values

/-- Two operands with an operator between them. -/
def infixSql (op : String) (left right : Value) : Result Fragment := do
  return ((← left.toSql).pushText (" " ++ op ++ " ")).append (← right.toSql)

/-! ## Comparison -/

/-- A comparison operator of SQL. -/
inductive Comparison where
  | equal
  | notEqual
  | greater
  | less
  | greaterEqual
  | lessEqual
deriving DecidableEq

namespace Comparison

/-- The sign of a comparison. -/
def sign : Comparison → String
  | equal => "="
  | notEqual => "<>"
  | greater => ">"
  | less => "<"
  | greaterEqual => ">="
  | lessEqual => "<="

/-- The comparison that says the same with its sides exchanged. -/
def swap : Comparison → Comparison
  | equal => equal
  | notEqual => notEqual
  | greater => less
  | less => greater
  | greaterEqual => lessEqual
  | lessEqual => greaterEqual

end Comparison

/-- The pairs of operands to compare: every column with every value, or, where there are only
columns, the first with each of the others. -/
def comparedPairs (values : List Value) : List (Value × Value) :=
  let columns := values.filter Value.isSql
  match values.filter fun v => !v.isSql with
  | [] =>
    match columns with
    | first :: rest => rest.map fun other => (first, other)
    | [] => []
  | plain => columns.flatMap fun column => plain.map fun v => (column, v)

/-- Whether the sides are exchanged: the first operand is a plain value, and columns come first. -/
def exchanged (values : List Value) : Bool :=
  (values.head?.map fun v => !v.isSql).getD false

/-- A comparison as conditions that must all hold. -/
def comparison (c : Comparison) (values : List Value) : Result Value :=
  if values.length < 2 then fault (.oneOperand c.sign)
  else do
    let op := if exchanged values then c.swap else c
    let clauses ← (comparedPairs values).mapM fun (left, right) => infixSql op.sign left right
    return .fragment (Fragment.join " AND " clauses)

/-! ## Patterns, lists, null -/

/-- An operator that stands between exactly two operands. -/
def between (op : String) (values : List Value) : Result Value := do
  let (left, right) ← twoOperands op values
  return .fragment (← infixSql op left right)

/-- Whether a value is in a query or in an array. -/
def inList (values : List Value) : Result Value := do
  let (v, list) ← twoOperands "$in" values
  let head ← v.toSql
  match list with
  | .fragment f =>
    if f.isQuery then return .fragment ((head.pushText " IN ").append (f.wrapped "(" ")"))
    else return .fragment (((head.pushText " = ANY(").append f).pushText ")")
  | other =>
    return .fragment (((head.pushText " = ANY(").append (← other.toSql)).pushText ")")

/-- Whether all operands are null. -/
def isNull (values : List Value) : Result Value := do
  return .fragment (Fragment.join " AND " ((← parts values).map fun f => f.pushText " IS NULL"))

/-! ## Logic and arithmetic -/

/-- Operands in parentheses with a connective between them. -/
def connective (op : String) (values : List Value) : Result Value := do
  return .fragment
    (Fragment.join (" " ++ op ++ " ") ((← parts values).map fun f => f.wrapped "(" ")"))

/-- A negation. -/
def not : List Value → Result Value
  | [v] => do return .fragment ((Fragment.ofText "NOT ").append ((← v.toSql).wrapped "(" ")"))
  | _ => fault .negationOperands

/-- Operands with an arithmetic sign between them, in parentheses; one operand of `-` has the sign
before it. -/
def arithmetic (op : ArithmeticOp) (values : List Value) : Result Value := do
  let inner : Fragment := match ← parts values with
    | [only] => if op = ArithmeticOp.subtract then (Fragment.ofText "-").append only else only
    | several => Fragment.join (" " ++ op.sign ++ " ") several
  return .fragment (inner.wrapped "(" ")")

/-! ## Functions -/

/-- A function of operands. -/
def functionCall (name : String) (values : List Value) : Result Fragment := do
  return (Fragment.join ", " (← parts values)).wrapped (name ++ "(") ")"

/-- The texts of the operands joined. -/
def concat (values : List Value) : Result Value := do
  return .fragment (← functionCall "CONCAT" values)

/-- The name of a date part in SQL. -/
def partName (part : Scalar.DatePart) : String :=
  String.ofList (part.name.toList.map Char.toUpper)

/-- A part of a date. -/
def extract (values : List Value) : Result Value := do
  let (named, v) ← twoOperands "$extract" values
  let part ← Scalar.datePart named
  if v.isSql then
    return .fragment (((Fragment.ofText ("EXTRACT(" ++ partName part ++ " FROM ")).append
      (← v.toSql)).pushText ")")
  else Scalar.extract [named, v]

/-- The field where the condition holds, null where not. -/
def filter (eval : Evaluator) (operands : List Expr) (env : Environment) : Result Value :=
  match operands with
  | [field, condition] => do
    let condition ← eval condition env
    if condition.isSql then
      let start := ((Fragment.ofText "CASE WHEN ").append (← condition.toSql)).pushText " THEN "
      return .fragment ((start.append (← (← eval field env).toSql)).pushText " END")
    else if condition.isTruthy then eval field env
    else return .null
  | _ => fault .filterOperands

/-- What each scalar operator does. -/
def handler : Operator → Option Handler
  | .equal => some (.onValues (orCompute Scalar.equal (comparison .equal)))
  | .notEqual => some (.onValues (orCompute Scalar.notEqual (comparison .notEqual)))
  | .greaterThan => some (.onValues (orCompute Scalar.greaterThan (comparison .greater)))
  | .lessThan => some (.onValues (orCompute Scalar.lessThan (comparison .less)))
  | .greaterEqual => some (.onValues (orCompute Scalar.greaterEqual (comparison .greaterEqual)))
  | .lessEqual => some (.onValues (orCompute Scalar.lessEqual (comparison .lessEqual)))
  | .like => some (.onValues (orCompute (Scalar.likeWith "$like" false) (between "LIKE")))
  | .ilike => some (.onValues (orCompute (Scalar.likeWith "$ilike" true) (between "ILIKE")))
  | .inList => some (.onValues (orCompute Scalar.inList inList))
  | .contains => some (.onValues (orCompute Scalar.contains (between "@>")))
  | .isNull => some (.onValues (orCompute Scalar.isNull isNull))
  | .and => some (.onValues (orCompute Scalar.and (connective "AND")))
  | .or => some (.onValues (orCompute Scalar.or (connective "OR")))
  | .not => some (.onValues (orCompute Scalar.not not))
  | .add => some (.onValues (orCompute (reduce .add) (arithmetic .add)))
  | .subtract => some (.onValues (orCompute (reduce .subtract) (arithmetic .subtract)))
  | .multiply => some (.onValues (orCompute (reduce .multiply) (arithmetic .multiply)))
  | .divide => some (.onValues (orCompute (reduce .divide) (arithmetic .divide)))
  | .extract => some (.onValues extract)
  | .concat => some (.onValues (orCompute Scalar.concat concat))
  | .filter => some (.onOperands filter)
  | _ => none

end QueryForms.SqlScalar
