import QueryForms.Entries
import QueryForms.Date.Instant
import QueryForms.Number.Checked
import QueryForms.Number.Scientific

/-!
# Values

Everything an expression can give is a `Value`: the plain data of JSON, instants, the relation that
flows between the stages of a query in memory (`rows`), and the pieces a SQL statement is composed
of (`column`, `fragment`). A row binds table aliases to records; a group row also keeps its keys and
its members. A fragment is text with placeholders in it and, apart, the parameters of these in order.
-/

namespace QueryForms

/-- A column, named alone or as one of a table's. -/
structure ColumnRef where
  /-- The table alias before the name. -/
  table : Option String
  /-- The name; `*` means all columns. -/
  name : String
deriving DecidableEq

/-- A stretch of SQL text or a placeholder. -/
inductive Piece where
  /-- Text that stands as it is. -/
  | text (s : String)
  /-- The place of the next parameter. -/
  | placeholder
deriving DecidableEq

mutual

/-- What an expression gives. -/
inductive Value where
  /-- The absent value. -/
  | null
  /-- A truth value. -/
  | boolean (b : Bool)
  /-- A float of 64 bits. -/
  | float (x : Float)
  /-- An integer of 64 bits. -/
  | integer (n : Int64)
  /-- A text. -/
  | string (s : String)
  /-- An instant. -/
  | date (t : Instant)
  /-- A list of values. -/
  | array (items : List Value)
  /-- A record: named fields in order. -/
  | object (fields : List (String × Value))
  /-- A relation in memory. -/
  | rows (list : List Row)
  /-- A column of a SQL statement. -/
  | column (c : ColumnRef)
  /-- A part of a SQL statement. -/
  | fragment (f : Fragment)

/-- A row of a relation in memory. -/
structure Row where
  /-- Alias to record; the missing side of an outer join is null. -/
  tables : List (String × Value)
  /-- Key name to key value, on a group row. -/
  groups : Option (List (String × Value))
  /-- The members of a group, or the rows of a window frame. -/
  items : Option (List Row)

/-- A part of a SQL statement. -/
structure Fragment where
  /-- Text and placeholders in the order of the statement. -/
  pieces : List Piece
  /-- The parameters, in the order of their placeholders. -/
  params : List Value
  /-- Whether it is a complete query, which is put in parentheses as an operand. -/
  isQuery : Bool

end

/-- A record: named fields in order. -/
abbrev Record := Entries Value

instance : Inhabited Value := ⟨.null⟩

instance : Inhabited Row := ⟨⟨[], none, none⟩⟩

/-- The type of a value, as messages call it. -/
inductive Kind where
  | null
  | boolean
  | integer
  | float
  | string
  | date
  | array
  | object
  | rows
  | column
  | fragment
deriving DecidableEq

/-- The word for a type. -/
def Kind.name : Kind → String
  | .null => "null"
  | .boolean => "boolean"
  | .integer => "integer"
  | .float => "float"
  | .string => "string"
  | .date => "date"
  | .array => "array"
  | .object => "object"
  | .rows => "rows"
  | .column => "column"
  | .fragment => "fragment"

namespace Value

/-- The type of a value. -/
def kind : Value → Kind
  | .null => .null
  | .boolean _ => .boolean
  | .float _ => .float
  | .integer _ => .integer
  | .string _ => .string
  | .date _ => .date
  | .array _ => .array
  | .object _ => .object
  | .rows _ => .rows
  | .column _ => .column
  | .fragment _ => .fragment

/-- Whether the value is absent. -/
def isNull : Value → Bool
  | .null => true
  | _ => false

/-- Whether the value exists only in SQL. -/
def isSql : Value → Bool
  | .column _ => true
  | .fragment _ => true
  | _ => false

/-- Whether a value counts as true: a nonzero number, a text or container with something in it, any
date, any part of a statement. -/
def isTruthy : Value → Bool
  | .null => false
  | .boolean b => b
  | .float x => x != 0 && !x.isNaN
  | .integer n => n != 0
  | .string s => s != ""
  | .date _ => true
  | .array items => !items.isEmpty
  | .object fields => !fields.isEmpty
  | .rows list => !list.isEmpty
  | .column _ => true
  | .fragment _ => true

/-- A number as a float. -/
def asFloat? : Value → Option Float
  | .integer n => some (floatOfInt64 n)
  | .float x => some x
  | _ => none

/-- A number as an integer, floats to the nearest one. -/
def asInt64? : Value → Option Int64
  | .integer n => some n
  | .float x => some (nearestInt64 x)
  | _ => none

/-- Milliseconds from the start of 1970: those of a date, or the number itself. -/
def epochMillis? : Value → Option Int
  | .date t => some t.millis
  | .integer n => some n.toInt
  | .float x => some (nearestInt64 x).toInt
  | _ => none

/-! ## Fields and paths -/

/-- A field of a record; null when there is none. -/
def field (v : Value) (name : String) : Value :=
  match v with
  | .object fields => (Entries.get? fields name).getD .null
  | _ => .null

/-- The number that an index text spells: digits, with a plus before them or not. -/
def readIndex? (segment : List Char) : Option Nat :=
  let digits := match segment with
    | '+' :: rest => rest
    | _ => segment
  if digits.isEmpty || !digits.all Char.isDigit then none
  else some (digitsValue digits)

/-- One step of a path: a field of a record or an item of an array. -/
def step? (v : Value) (segment : List Char) : Option Value :=
  match v with
  | .object fields => Entries.get? fields (String.ofList segment)
  | .array items => (readIndex? segment).bind fun i => items[i]?
  | _ => none

/-- A text cut at every occurrence of a character. -/
def splitAll (mark : Char) : List Char → List (List Char)
  | [] => [[]]
  | c :: cs =>
    if c = mark then [] :: splitAll mark cs
    else match splitAll mark cs with
      | first :: rest => (c :: first) :: rest
      | [] => [[c]]

/-- Follow the steps of a path. -/
def walk? : Value → List (List Char) → Option Value
  | v, [] => some v
  | v, segment :: rest => (v.step? segment).bind fun next => walk? next rest

/-- The value at a dotted path. A field whose name is the whole path comes first. -/
def lookupPath? (v : Value) (path : String) : Option Value :=
  let whole := match v with
    | .object fields => Entries.get? fields path
    | _ => none
  match whole with
  | some found => some found
  | none => v.walk? (splitAll '.' path.toList)

end Value

end QueryForms
