import QueryForms.Value.Basic
import QueryForms.Number.Layout
import QueryForms.Date.Text
import QueryForms.Text.Quoted

/-!
# Values as text

`Value.describe` is the text of a value in a message: the name of its type around its content, all
the way down. `Value.text` is what a value adds to a string: numbers in plain notation, dates with
their offset, and for a container its description.
-/

namespace QueryForms

/-- Texts with a comma between them. -/
def commaSeparated (parts : List String) : String :=
  ", ".intercalate parts

/-- An optional text, marked as present or absent. -/
def describeOption : Option String → String
  | none => "None"
  | some s => "Some(" ++ s ++ ")"

/-- A column, part by part. -/
def ColumnRef.describe (c : ColumnRef) : String :=
  "ColumnRef \x7b namespace: " ++ describeOption (c.table.map Text.quoted) ++ ", name: "
    ++ Text.quoted c.name ++ " \x7d"

/-- The text of a piece. -/
def Piece.describe : Piece → String
  | text s => "Sql(" ++ Text.quoted s ++ ")"
  | placeholder => "Placeholder"

mutual

/-- The text of a value in a message. -/
def Value.describe : Value → String
  | .null => "Null"
  | .boolean b => "Boolean(" ++ (if b then "true" else "false") ++ ")"
  | .float x => "Float(" ++ FloatLayout.message.render x ++ ")"
  | .integer n => "Integer(" ++ toString n.toInt ++ ")"
  | .string s => "String(" ++ Text.quoted s ++ ")"
  | .date t => "Date(" ++ DateText.zulu t ++ ")"
  | .array items => "Array([" ++ commaSeparated (Value.describeList items) ++ "])"
  | .object fields =>
    "Object(\x7b" ++ commaSeparated (Value.describeFields fields) ++ "\x7d)"
  | .rows rows => "Rows([" ++ commaSeparated (Row.describeList rows) ++ "])"
  | .column c => "Column(" ++ c.describe ++ ")"
  | .fragment f => "Fragment(" ++ Fragment.describe f ++ ")"

/-- The texts of values. -/
def Value.describeList : List Value → List String
  | [] => []
  | v :: rest => Value.describe v :: Value.describeList rest

/-- The fields of a record, each name with its value. -/
def Value.describeFields : List (String × Value) → List String
  | [] => []
  | (name, v) :: rest => (Text.quoted name ++ ": " ++ Value.describe v) :: Value.describeFields rest

/-- The text of a row. -/
def Row.describe : Row → String
  | ⟨tables, groups, items⟩ =>
    let keys := match groups with
      | none => none
      | some fields => some ("\x7b" ++ commaSeparated (Value.describeFields fields) ++ "\x7d")
    let members := match items with
      | none => none
      | some rows => some ("[" ++ commaSeparated (Row.describeList rows) ++ "]")
    "Row \x7b tables: \x7b" ++ commaSeparated (Value.describeFields tables) ++ "\x7d, groups: "
      ++ describeOption keys ++ ", items: " ++ describeOption members ++ " \x7d"

/-- The texts of rows. -/
def Row.describeList : List Row → List String
  | [] => []
  | row :: rest => Row.describe row :: Row.describeList rest

/-- The text of a fragment: its pieces, and its parameters apart. -/
def Fragment.describe : Fragment → String
  | ⟨pieces, params, isQuery⟩ =>
    "Fragment \x7b pieces: [" ++ commaSeparated (pieces.map Piece.describe) ++ "], values: ["
      ++ commaSeparated (Value.describeList params) ++ "], query: "
      ++ (if isQuery then "true" else "false") ++ " \x7d"

end

/-- What a value adds to a string. -/
def Value.text : Value → String
  | .string s => s
  | .float x => FloatLayout.plain.render x
  | .integer n => toString n.toInt
  | .boolean b => if b then "true" else "false"
  | .date t => DateText.plain t
  | .null => "null"
  | v => v.describe

end QueryForms
