import QueryForms.Json.Reader
import QueryForms.Sql.Fragment
import QueryForms.Date.Text

/-!
# Values as JSON

Reading JSON gives plain values one for one. Writing knows more types than JSON has: a date is its
text with milliseconds, a float that is not finite is null, a column is its SQL text, a fragment is
its statement with its parameters, and a row is one record, in which the keys of a group come first
and then the fields of its tables, the first of a name counting.
-/

namespace QueryForms

/-! ## Reading -/

mutual

/-- The value of a document. -/
def Value.ofJson : Json → Value
  | .null => .null
  | .boolean b => .boolean b
  | .integer n => .integer n
  | .float x => .float x
  | .string s => .string s
  | .array items => .array (Value.ofJsonList items)
  | .object fields => .object (Value.ofJsonFields fields)

/-- The values of documents. -/
def Value.ofJsonList : List Json → List Value
  | [] => []
  | j :: rest => Value.ofJson j :: Value.ofJsonList rest

/-- The record of an object. -/
def Value.ofJsonFields : List (String × Json) → List (String × Value)
  | [] => []
  | (name, j) :: rest => (name, Value.ofJson j) :: Value.ofJsonFields rest

end

/-- The value of a JSON text. -/
def Value.parse? (text : String) : Option Value :=
  (Json.parse? text).map Value.ofJson

/-! ## Writing -/

mutual

/-- The document that shows a value. -/
def Value.toJson : Value → Json
  | .null => .null
  | .boolean b => .boolean b
  | .integer n => .integer n
  | .float x => if x.isFinite then .float x else .null
  | .string s => .string s
  | .date t => .string (DateText.millisZulu t)
  | .array items => .array (Value.toJsonList items)
  | .object fields => .object (Value.toJsonFields fields)
  | .rows rows => .array (Row.toJsonList rows)
  | .column c => .string c.text
  | .fragment f => Fragment.toJson f

/-- The documents of values. -/
def Value.toJsonList : List Value → List Json
  | [] => []
  | v :: rest => Value.toJson v :: Value.toJsonList rest

/-- The object of a record. -/
def Value.toJsonFields : List (String × Value) → List (String × Json)
  | [] => []
  | (name, v) :: rest => (name, Value.toJson v) :: Value.toJsonFields rest

/-- The record of a row: group keys first, then the fields of the tables. -/
def Row.toJson : Row → Json
  | ⟨tables, groups, _⟩ =>
    let keys := match groups with
      | none => []
      | some fields => Entries.setAllMissing [] (Value.toJsonFields fields)
    .object ((Row.tablesToJson tables).foldl Entries.setAllMissing keys)

/-- The fields of each table that is a record. -/
def Row.tablesToJson : List (String × Value) → List (List (String × Json))
  | [] => []
  | (_, .object fields) :: rest => Value.toJsonFields fields :: Row.tablesToJson rest
  | _ :: rest => Row.tablesToJson rest

/-- The records of rows. -/
def Row.toJsonList : List Row → List Json
  | [] => []
  | row :: rest => Row.toJson row :: Row.toJsonList rest

/-- The statement and the parameters of a fragment. -/
def Fragment.toJson : Fragment → Json
  | ⟨pieces, params, _⟩ =>
    .object [("statement", .string (Piece.render .dollar 1 pieces)),
      ("values", .array (Value.toJsonList params))]

end

/-- The compact JSON text of a value. -/
def Value.jsonText (v : Value) : String :=
  v.toJson.compact

end QueryForms
