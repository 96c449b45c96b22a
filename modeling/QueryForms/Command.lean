import QueryForms.InMemory.Interpretation
import QueryForms.Sql.Interpretation

/-!
# Commands

A command evaluates or compiles an expression in a context, both given as JSON texts, and answers
with a JSON text. The expression is read first, then the context, and only then is anything
evaluated, so of several faults the first in this order is reported.
-/

namespace QueryForms

/-- What to do with an expression. -/
inductive Action where
  /-- Evaluate it in memory. -/
  | run
  /-- Compile it to SQL. -/
  | compile (style : PlaceholderStyle)
deriving DecidableEq

/-- Why a command has no answer. -/
inductive CommandError where
  /-- The text of the expression is not JSON. -/
  | exprSyntax
  /-- The text of the context is not JSON. -/
  | contextSyntax
  /-- The evaluation stopped. -/
  | evaluation (cause : EvalError)

/-- The wording of an error. -/
def CommandError.message : CommandError → String
  | exprSyntax => "Parse error: Invalid JSON: the expression cannot be read"
  | contextSyntax => "Invalid JSON: the context cannot be read"
  | evaluation cause => "Evaluation error: " ++ cause.message

/-- The expression that a JSON text spells. -/
def Expr.parse? (text : String) : Option Expr :=
  (Value.parse? text).map Expr.ofValue

/-- The context that a JSON text spells; a missing or blank text is the empty context. -/
def Context.read (input : Option String) : Except CommandError Context :=
  let text := input.getD ""
  if text.toList.all Text.isBlank then .ok []
  else match Value.parse? text with
    | none => .error .contextSyntax
    | some v => (Context.ofValue v).mapError .evaluation

/-- An expression, its context and what to do with it. -/
structure Command where
  /-- What to do. -/
  action : Action
  /-- The text of the expression. -/
  expr : String
  /-- The text of the context. -/
  input : Option String
  /-- Whether the answer is indented. -/
  pretty : Bool
deriving DecidableEq

/-- The document that an action answers with. -/
def Action.answer (action : Action) (e : Expr) (context : Context) : Result Json :=
  match action with
  | .run => (InMemory.evaluate e context).map Value.toJson
  | .compile style => (Sql.compile style e context).map Sql.Compiled.toJson

/-- The text that a command answers with. -/
def Command.execute (c : Command) : Except CommandError String := do
  match Expr.parse? c.expr with
  | none => .error .exprSyntax
  | some e =>
    let context ← Context.read c.input
    let answer ← (c.action.answer e context).mapError CommandError.evaluation
    return if c.pretty then answer.pretty else answer.compact

end QueryForms
