import QueryForms.Sql.Scalar
import QueryForms.InMemory.Relation

/-!
# Clauses of a statement

Each stage of a query renders its source and appends its own clause, so parameters stay in the order
of the text. A projection and a union are complete queries; anything else is a part of one.
-/

namespace QueryForms.SqlClause

/-- The value of an expression as part of a statement. -/
def render (eval : Evaluator) (env : Environment) (e : Expr) : Result Fragment := do
  (← eval e env).toSql

/-- The value of an expression as the source of a clause. -/
def source (eval : Evaluator) (env : Environment) (e : Expr) : Result Fragment := do
  (← eval e env).toSource

/-- `FROM` a table. -/
def fromTable (eval : Evaluator) (operands : List Expr) (env : Environment) : Result Value :=
  match operands with
  | [table] => do return .fragment ((Fragment.ofText "FROM ").append (← render eval env table))
  | _ => fault .sourceOperands

/-- An expression under an alias. -/
def aliased (eval : Evaluator) (operands : List Expr) (env : Environment) : Result Value := do
  let (named, e) ← Relation.clauseOperands "$as" operands
  let name ← Relation.aliasName named
  return .fragment (((← render eval env e).pushText " AS ").pushText (quoteIdent name))

/-- A join with its condition; a condition that stands for nothing is true. -/
def join (keyword : String) (eval : Evaluator) (operands : List Expr) (env : Environment) :
    Result Value :=
  match operands with
  | [right, condition, left] => do
    let left ← source eval env left
    let right ← render eval env right
    let joined := ((left.pushText (" " ++ keyword ++ " ")).append right).pushText " ON "
    if condition.isEmpty then return .fragment (joined.pushText "TRUE")
    else return .fragment (joined.append (← render eval env condition))
  | _ => fault .joinOperands

/-- A source with a condition; a condition that stands for nothing adds nothing. -/
def filterRows (op keyword : String) (eval : Evaluator) (operands : List Expr)
    (env : Environment) : Result Value := do
  let (condition, e) ← Relation.clauseOperands op operands
  let rows ← source eval env e
  if condition.isEmpty then return .fragment rows
  else return .fragment ((rows.pushText keyword).append (← render eval env condition))

/-- A source grouped by keys; no keys add nothing. -/
def group (eval : Evaluator) (operands : List Expr) (env : Environment) : Result Value := do
  let (keys, e) ← Relation.clauseOperands "$group" operands
  let rows ← source eval env e
  match ← keys.itemsOrNone.mapM (render eval env) with
  | [] => return .fragment rows
  | parts => return .fragment ((rows.pushText " GROUP BY ").append (Fragment.join ", " parts))

/-- One key of an order with its direction. -/
def orderKey (eval : Evaluator) (env : Environment) (spec : OrderSpec) : Result Fragment := do
  return (← render eval env spec.expr).pushText (if spec.descending then " DESC" else " ASC")

/-- `ORDER BY` keys. -/
def orderBy (eval : Evaluator) (env : Environment) (specs : List OrderSpec) : Result Fragment := do
  return (Fragment.ofText "ORDER BY ").append (Fragment.join ", " (← specs.mapM (orderKey eval env)))

/-- A source in an order; no keys add nothing. -/
def order (eval : Evaluator) (operands : List Expr) (env : Environment) : Result Value := do
  let (specList, e) ← Relation.clauseOperands "$order" operands
  let specs ← OrderSpec.parseList specList
  let rows ← source eval env e
  if specs.isEmpty then return .fragment rows
  else return .fragment ((rows.pushText " ").append (← orderBy eval env specs))

/-- A fragment with a keyword and a count, if there is one. -/
def pushCount (f : Fragment) (keyword : String) : Option Nat → Fragment
  | none => f
  | some n => (f.pushText keyword).pushParam (.integer (Int64.ofNat n))

/-- A page of a source. -/
def limit (eval : Evaluator) (operands : List Expr) (env : Environment) : Result Value := do
  let (spec, e) ← Relation.clauseOperands "$limit" operands
  let page ← Pagination.ofValue (← eval spec env)
  let rows ← source eval env e
  return .fragment (pushCount (pushCount rows " LIMIT " page.limit) " OFFSET " page.offset)

/-- The branches in parentheses with `UNION ALL` between them; a single branch as it is. -/
def union (eval : Evaluator) (operands : List Expr) (env : Environment) : Result Value := do
  match ← operands.mapM (source eval env) with
  | [branch] => return .fragment branch
  | branches =>
    return .fragment
      (Fragment.join " UNION ALL " (branches.map fun f => f.wrapped "(" ")")).asQuery

/-- A field of a projection; an asterisk stands as it is. -/
def selectField (eval : Evaluator) (env : Environment) (field : Expr) : Result Fragment :=
  if field.asName? = some "*" then .ok (Fragment.ofText "*") else render eval env field

/-- `SELECT` fields, all of them if none are asked for. -/
def selectFields (eval : Evaluator) (env : Environment) (fieldList : Expr) : Result Fragment := do
  let columns ← fieldList.itemsOrNone.mapM (selectField eval env)
  let columns := if columns.isEmpty then [Fragment.ofText "*"] else columns
  return (Fragment.ofText "SELECT ").append (Fragment.join ", " columns)

/-- A projection of a source, or of nothing. -/
def select (eval : Evaluator) (operands : List Expr) (env : Environment) : Result Value :=
  match operands with
  | [fieldList] => do return .fragment (← selectFields eval env fieldList).asQuery
  | [fieldList, e] => do
    let fields ← selectFields eval env fieldList
    return .fragment ((fields.pushText " ").append (← source eval env e)).asQuery
  | _ => fault .selectOperands

/-- The operand of an aggregate and the condition under which it counts. -/
def conditional (e : Expr) : Result (Expr × Option Expr) :=
  if e.isCall .filter then
    match e.operands with
    | [field, condition] => .ok (field, some condition)
    | _ => fault .filterOperands
  else .ok (e, none)

/-- An aggregate function of its operand. -/
def aggregate (name : String) (eval : Evaluator) (operands : List Expr) (env : Environment) :
    Result Value := do
  let (field, condition) ← conditional (← Aggregate.oneOperand name operands)
  let operand ← selectField eval env field
  let call := ((Fragment.ofText (name ++ "(")).append operand).pushText ")"
  match condition with
  | none => return .fragment call
  | some e =>
    return .fragment (((call.pushText " FILTER (WHERE ").append (← render eval env e)).pushText ")")

/-- What each operator of a query does. -/
def handler : Operator → Option Handler
  | .source => some (.onOperands fromTable)
  | .aliased => some (.onOperands aliased)
  | .join => some (.onOperands (join "JOIN"))
  | .leftJoin => some (.onOperands (join "LEFT JOIN"))
  | .filterRows => some (.onOperands (filterRows "$where" " WHERE "))
  | .group => some (.onOperands group)
  | .having => some (.onOperands (filterRows "$having" " HAVING "))
  | .order => some (.onOperands order)
  | .limit => some (.onOperands limit)
  | .union => some (.onOperands union)
  | .select => some (.onOperands select)
  | .count => some (.onOperands (aggregate "COUNT"))
  | .sum => some (.onOperands (aggregate "SUM"))
  | .avg => some (.onOperands (aggregate "AVG"))
  | .min => some (.onOperands (aggregate "MIN"))
  | .max => some (.onOperands (aggregate "MAX"))
  | _ => none

end QueryForms.SqlClause
