import QueryForms.InMemory.Relation

/-!
# The interpretation in memory

Expressions are evaluated on the records that the context binds. `:field` is a field of the current
row, or what is bound to the name where the row has none; `alias:field` is a field of one table of
the row; a name of any other namespace is what is bound to it.
-/

namespace QueryForms.InMemory

/-- What a name means in the namespace of a token. -/
def resolve (env : Environment) (token name : String) : Result Value :=
  let bound := (env.binding? token name).getD .null
  if token = rowToken then
    match (env.row.map fun row => row.lookup name).getD .null with
    | .null => .ok bound
    | v => .ok v
  else
    match aliasOfToken? token with
    | some table => .ok ((env.row.map fun row => row.lookupQualified table name).getD .null)
    | none => .ok bound

/-- What each operator does. -/
def handler (op : Operator) : Option Handler :=
  PlainOperators.handler op <|> Scalar.handler op <|> Relation.handler op <|>
    Aggregate.handler op <|> Windowed.handler op

/-- The interpretation in memory. -/
def interpretation : Interpretation := ⟨handler, resolve⟩

/-- Evaluate an expression in an environment. -/
def evaluateIn (env : Environment) (e : Expr) : Result Value :=
  interpretation.evaluate e env

/-- The environment of an expression in a context. -/
def environment (context : Context) (e : Expr) : Environment :=
  (Environment.ofContext context).declareTables e

/-- Evaluate an expression in a context; relations come back as arrays of records. -/
def evaluate (e : Expr) (context : Context) : Result Value :=
  (evaluateIn (environment context e) e).map Value.materialize

end QueryForms.InMemory
