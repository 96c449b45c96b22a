import QueryForms.Value.Basic

/-!
# Identifiers in SQL

An identifier stands in double quotes, and a quote inside it is written twice, so no name can end
its own quotation. A column is its quoted name, after the quoted alias of its table if it has one;
`*` alone stays bare.
-/

namespace QueryForms

/-- The characters of a name with each double quote written twice. -/
def doubleQuotes : List Char → List Char
  | [] => []
  | c :: cs => if c = '"' then '"' :: '"' :: doubleQuotes cs else c :: doubleQuotes cs

/-- A name in double quotes. -/
def quoteIdent (name : String) : String :=
  String.ofList ('"' :: doubleQuotes name.toList ++ ['"'])

/-- The SQL text of a column. -/
def ColumnRef.text (c : ColumnRef) : String :=
  let name := if c.name = "*" then "*" else quoteIdent c.name
  match c.table with
  | some table => quoteIdent table ++ "." ++ name
  | none => name

end QueryForms
