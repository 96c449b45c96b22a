import QueryForms.Sql.Fragment
import QueryForms.Error
import QueryForms.Date.Text

/-!
# Values in statements

Inside a statement a column and a fragment stand as they are, a complete query in parentheses; a
date is written out as a timestamp, and every other value becomes a parameter.
-/

namespace QueryForms

/-- The text of a date in a statement. -/
def timestampText (t : Instant) : String :=
  "'" ++ DateText.millisZulu t ++ "'::TIMESTAMPTZ"

/-- A value as part of a statement. -/
def Value.toSql : Value → Result Fragment
  | .column c => .ok (Fragment.ofText c.text)
  | .fragment f => .ok (if f.isQuery then f.wrapped "(" ")" else f)
  | .date t => .ok (Fragment.ofText (timestampText t))
  | .rows _ => fault .rowsInSql
  | v => .ok (Fragment.ofParam v)

/-- A value as the source of a clause: a complete query goes without parentheses. -/
def Value.toSource : Value → Result Fragment
  | .fragment f => .ok f
  | v => v.toSql

end QueryForms
