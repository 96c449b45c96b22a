import QueryForms.Sql.Window

/-!
# The interpretation as SQL

Expressions become a statement with parameters. `:field` and `alias:field` are columns, `@name` is a
table, and a name of any other namespace is what is bound to it. An expression that never touches a
column or a table is computed instead.
-/

namespace QueryForms.Sql

/-- A table: its own name quoted, or the name it is bound to. A bound name that begins with a quote
stands as it is. -/
def table (env : Environment) (name : String) : Result Value :=
  let named (s : String) : Result Value := .ok (.fragment (Fragment.ofText s))
  match env.binding? tableToken name with
  | none => named (quoteIdent name)
  | some .null => named (quoteIdent name)
  | some (.string s) => named (if s.toList.head? = some '"' then s else quoteIdent s)
  | some other => fault (.tableKind name other.kind)

/-- What a name means in the namespace of a token. -/
def resolve (env : Environment) (token name : String) : Result Value :=
  if token = rowToken then .ok (.column ⟨none, name⟩)
  else if token = tableToken then table env name
  else
    match aliasOfToken? token with
    | some qualifier => .ok (.column ⟨some qualifier, name⟩)
    | none => .ok ((env.binding? token name).getD .null)

/-- What each operator does. -/
def handler (op : Operator) : Option Handler :=
  PlainOperators.handler op <|> SqlScalar.handler op <|> SqlClause.handler op <|>
    SqlWindow.handler op

/-- The interpretation as SQL. -/
def interpretation : Interpretation := ⟨handler, resolve⟩

/-- Evaluate an expression in an environment. -/
def evaluateIn (env : Environment) (e : Expr) : Result Value :=
  interpretation.evaluate e env

/-- What an expression compiles to. -/
inductive Compiled where
  /-- A statement with the parameters of its placeholders in order. -/
  | query (statement : String) (params : List Value)
  /-- A value that was computed. -/
  | value (v : Value)

/-- A value as the outcome of a compilation. -/
def Compiled.ofValue (style : PlaceholderStyle) : Value → Compiled
  | .fragment f => .query (f.statement style) f.params
  | .column c => .query c.text []
  | v => .value v

/-- Compile an expression in a context. -/
def compile (style : PlaceholderStyle) (e : Expr) (context : Context) : Result Compiled :=
  (evaluateIn ((Environment.ofContext context).declareTables e) e).map (Compiled.ofValue style)

/-- The document that shows the outcome of a compilation. -/
def Compiled.toJson : Compiled → Json
  | .query statement params =>
    .object [("statement", .string statement), ("values", .array (Value.toJsonList params))]
  | .value v => v.toJson

end QueryForms.Sql
