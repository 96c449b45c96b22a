import QueryForms.Environment

/-!
# Evaluation

The language has two interpretations, in memory and as SQL. They share everything that this module
says: literals stand for themselves, quoted arrays are data, a record evaluates its fields and binds
them in turn, and a call dispatches on the operator at its head. An interpretation adds what symbols
mean and what each operator does. An operator either takes the values of its operands
(`Handler.onValues`), or takes the operands as they stand and decides itself what to evaluate, and
where (`Handler.onOperands`).

`Interpretation.step` evaluates one level of an expression and leaves the levels below to an
evaluator it is given; `Interpretation.evaluate` closes the loop. Operators evaluate parts of their
operands only, so the depth of an expression bounds the levels there are.
-/

namespace QueryForms

/-- A way to evaluate expressions in environments. -/
abbrev Evaluator := Expr → Environment → Result Value

/-- What an operator does. -/
inductive Handler where
  /-- Work on the values of the operands. -/
  | onValues (apply : List Value → Result Value)
  /-- Work on the operands themselves, with a way to evaluate their parts. -/
  | onOperands (apply : Evaluator → List Expr → Environment → Result Value)

/-- A meaning of the language. -/
structure Interpretation where
  /-- What each operator does; none for an operator that the interpretation lacks. -/
  handler : Operator → Option Handler
  /-- What a name means in the namespace of a token. -/
  resolve : Environment → String → String → Result Value

namespace Interpretation

/-- What a symbol means; a symbol without a token is its own text. -/
def resolveSymbol (i : Interpretation) (env : Environment) (symbol : String) : Result Value :=
  match env.splitSymbol? symbol with
  | some (token, name) => i.resolve env token name
  | none => .ok (.string symbol)

/-- The value of a quotation: its operand as data. -/
def quotation : List Expr → Result Value
  | [operand] => .ok operand.toValue
  | operands => fault (.quoteOperands operands.length)

/-- Evaluate expressions from left to right. -/
def evaluateAll (eval : Evaluator) (exprs : List Expr) (env : Environment) : Result (List Value) :=
  exprs.mapM fun e => eval e env

/-- Evaluate a call of an operator. -/
def apply (i : Interpretation) (eval : Evaluator) (op : Operator) (operands : List Expr)
    (env : Environment) : Result Value :=
  if op = .quote then quotation operands
  else
    match i.handler op with
    | none => .error (.unknownOperator op.name)
    | some (.onValues f) => do f (← evaluateAll eval operands env)
    | some (.onOperands f) => f eval operands env

/-- Evaluate a list: nothing is an empty array, anything else a call. -/
def call (i : Interpretation) (eval : Evaluator) (items : List Expr) (env : Environment) :
    Result Value :=
  match items with
  | [] => .ok (.array [])
  | head :: operands =>
    match head.asName? with
    | none => fault (.headNotName head)
    | some name =>
      match Operator.ofName? name with
      | none => .error (.unknownOperator name)
      | some op => i.apply eval op operands env

/-- Evaluate the fields of a record in order. -/
def evaluateFields (eval : Evaluator) (env : Environment) :
    List (String × Expr) → Result (List (String × Value))
  | [] => .ok []
  | (name, e) :: rest => do
    let v ← eval e env
    let values ← evaluateFields eval env rest
    return (name, v) :: values

/-- Evaluate one level of an expression. -/
def step (i : Interpretation) (eval : Evaluator) (e : Expr) (env : Environment) : Result Value :=
  match e with
  | .literal v => .ok v
  | .symbol s => i.resolveSymbol env s
  | .quoted items => .ok (.array items)
  | .record fields => return .object (Entries.ofList (← evaluateFields eval env fields))
  | .list items => i.call eval items env

/-- Evaluate the given number of levels of an expression; below them everything is null. -/
def evaluateLevels (i : Interpretation) : Nat → Evaluator
  | 0 => fun _ _ => .ok .null
  | levels + 1 => i.step (i.evaluateLevels levels)

/-- Evaluate an expression, which has as many levels as it is deep. -/
def evaluate (i : Interpretation) (e : Expr) (env : Environment) : Result Value :=
  i.evaluateLevels e.depth e env

end Interpretation

end QueryForms
