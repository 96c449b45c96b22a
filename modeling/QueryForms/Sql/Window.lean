import QueryForms.Sql.Clause

/-!
# Windows in statements

A window call is its function followed by `OVER` with the partition, the order and the frame. A window
that is ordered but has no frame gets the frame that counts in words, because SQL's own default would
treat rows with equal keys as one.
-/

namespace QueryForms.SqlWindow

/-- The partition of a window, if there is one. -/
def partitionClause (eval : Evaluator) (env : Environment) (keys : List Expr) :
    Result (List Fragment) := do
  match ← keys.mapM (SqlClause.render eval env) with
  | [] => return []
  | parts => return [(Fragment.ofText "PARTITION BY ").append (Fragment.join ", " parts)]

/-- The order of a window, if there is one. -/
def orderClause (eval : Evaluator) (env : Environment) (specs : List OrderSpec) :
    Result (List Fragment) := do
  if specs.isEmpty then return [] else return [← SqlClause.orderBy eval env specs]

/-- The frame of a window in words, if one is written or there is an order. -/
def frameClause (spec : WindowSpec) : List Fragment :=
  if spec.frame.isNone && spec.order.isEmpty then []
  else
    let frame := spec.effectiveFrame
    [Fragment.ofText
      ("ROWS BETWEEN " ++ frame.start.toSql .first ++ " AND " ++ frame.stop.toSql .last)]

/-- A window call. -/
def call (eval : Evaluator) (operands : List Expr) (env : Environment) : Result Value :=
  match operands with
  | [] => fault .overOperands
  | function :: rest => do
    let spec ← WindowSpec.parse rest.head?
    let call ← SqlClause.render eval (env.withWindow .compiling) function
    let partition ← partitionClause eval env spec.partition
    let order ← orderClause eval env spec.order
    let clauses := Fragment.join " " (partition ++ order ++ frameClause spec)
    return .fragment (((call.pushText " OVER (").append clauses).pushText ")")

/-- A function that only a window call may call. -/
def windowFunction (op name : String) (eval : Evaluator) (operands : List Expr) (env : Environment) :
    Result Value :=
  match env.window with
  | some .compiling => do
    let values ← Interpretation.evaluateAll eval operands env
    return .fragment (← SqlScalar.functionCall name values)
  | _ => .error (.windowMisuse (.functionOutsideOver op))

/-- What each operator on windows does. -/
def handler : Operator → Option Handler
  | .windowed => some (.onOperands call)
  | .rowNumber => some (.onOperands (windowFunction "$row_number" "ROW_NUMBER"))
  | .rank => some (.onOperands (windowFunction "$rank" "RANK"))
  | .denseRank => some (.onOperands (windowFunction "$dense_rank" "DENSE_RANK"))
  | .lag => some (.onOperands (windowFunction "$lag" "LAG"))
  | .lead => some (.onOperands (windowFunction "$lead" "LEAD"))
  | _ => none

end QueryForms.SqlWindow
