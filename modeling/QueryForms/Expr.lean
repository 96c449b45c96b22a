import QueryForms.Value.Equality
import QueryForms.Value.Text
import QueryForms.Operator

/-!
# Expressions

An expression is read from plain data: a text is a symbol, an array is a call with its operator
first, a record with the empty name alone over an array is that array as data, any other record
holds an expression for each field, and every other value stands for itself. `Expr.toValue` writes
an expression back.

The rest are the views that operators take of their operands: as a name, as the items of a list, as
a field of a record, as a call.
-/

namespace QueryForms

/-- An expression of the query language. -/
inductive Expr where
  /-- A value that stands for itself. -/
  | literal (v : Value)
  /-- A name, perhaps with the token of a namespace before it. -/
  | symbol (name : String)
  /-- A call: the operator's name and its operands. -/
  | list (items : List Expr)
  /-- An array of data. -/
  | quoted (items : List Value)
  /-- A record with an expression for each field. -/
  | record (fields : List (String × Expr))

namespace Expr

/-! ## Expressions and data -/

mutual

/-- The expression that plain data spells. -/
def ofValue : Value → Expr
  | .string s => .symbol s
  | .array items => .list (ofValues items)
  | .object [(name, .array items)] =>
    if name = "" then .quoted items else .record [(name, .list (ofValues items))]
  | .object fields => .record (ofFields fields)
  | v => .literal v

/-- The expressions that values spell. -/
def ofValues : List Value → List Expr
  | [] => []
  | v :: rest => ofValue v :: ofValues rest

/-- The expressions that the fields of a record spell. -/
def ofFields : List (String × Value) → List (String × Expr)
  | [] => []
  | (name, v) :: rest => (name, ofValue v) :: ofFields rest

end

mutual

/-- The data that spells an expression. -/
def toValue : Expr → Value
  | .literal v => v
  | .symbol s => .string s
  | .list items => .array (toValues items)
  | .quoted items => .object [("", .array items)]
  | .record fields => .object (toFields fields)

/-- The data that spells expressions. -/
def toValues : List Expr → List Value
  | [] => []
  | e :: rest => toValue e :: toValues rest

/-- The data that spells the fields of a record. -/
def toFields : List (String × Expr) → List (String × Value)
  | [] => []
  | (name, e) :: rest => (name, toValue e) :: toFields rest

end

/-! ## Views -/

/-- The text of a symbol or of a literal text. -/
def asName? : Expr → Option String
  | .symbol s => some s
  | .literal (.string s) => some s
  | _ => none

/-- The name at the head of a call. -/
def head? : Expr → Option String
  | .list (first :: _) => first.asName?
  | _ => none

/-- What follows the head of a call. -/
def operands : Expr → List Expr
  | .list (_ :: rest) => rest
  | _ => []

/-- The operator that an expression calls. -/
def operator? (e : Expr) : Option Operator :=
  e.head?.bind Operator.ofName?

/-- Whether an expression calls a given operator. -/
def isCall (e : Expr) (op : Operator) : Bool :=
  e.operator? == some op

/-- A field of a record. -/
def field? (e : Expr) (name : String) : Option Expr :=
  match e with
  | .record fields => Entries.get? fields name
  | _ => none

/-- The items of a list that is no call; any other expression is the one item. -/
def elements (e : Expr) : List Expr :=
  match e with
  | .list items => if e.operator?.isNone then items else [e]
  | _ => [e]

/-- The items of a list; any other expression is the one item. -/
def items (e : Expr) : List Expr :=
  match e with
  | .list inside => inside
  | _ => [e]

/-- Whether an expression stands for nothing: null, an empty list or an empty record. -/
def isEmpty : Expr → Bool
  | .literal .null => true
  | .list items => items.isEmpty
  | .quoted items => items.isEmpty
  | .record fields => fields.isEmpty
  | _ => false

/-- The items of a list, or none where it stands for nothing. -/
def itemsOrNone (e : Expr) : List Expr :=
  if e.isEmpty then [] else e.items

mutual

/-- Whether a call of a wanted operator stands in an expression, not looking inside the calls of
some operators. -/
def containsCall (wanted stop : Operator → Bool) : Expr → Bool
  | .list items =>
    match (Expr.list items).operator? with
    | some op => wanted op || (!stop op && containsCallIn wanted stop items)
    | none => containsCallIn wanted stop items
  | .record fields => containsCallInFields wanted stop fields
  | _ => false

/-- Whether such a call stands in one of the expressions. -/
def containsCallIn (wanted stop : Operator → Bool) : List Expr → Bool
  | [] => false
  | e :: rest => containsCall wanted stop e || containsCallIn wanted stop rest

/-- Whether such a call stands in one of the fields. -/
def containsCallInFields (wanted stop : Operator → Bool) : List (String × Expr) → Bool
  | [] => false
  | (_, e) :: rest => containsCall wanted stop e || containsCallInFields wanted stop rest

end

/-- Whether an operator opens a scope of its own for aggregates. -/
def closesAggregates (op : Operator) : Bool :=
  op == .windowed || op == .select

/-- Whether an expression combines rows into one: it calls an aggregate for itself. -/
def isAggregated (e : Expr) : Bool :=
  e.containsCall Operator.isAggregate closesAggregates

/-- Whether an expression looks at the rows around its own. -/
def isWindowed (e : Expr) : Bool :=
  e.containsCall (· == .windowed) (· == .select)

/-! ## Depth -/

mutual

/-- How deep an expression is nested; a symbol or a literal has depth one. -/
def depth : Expr → Nat
  | .list items => depthOfList items + 1
  | .record fields => depthOfFields fields + 1
  | _ => 1

/-- The greatest depth among expressions. -/
def depthOfList : List Expr → Nat
  | [] => 0
  | e :: rest => max (depth e) (depthOfList rest)

/-- The greatest depth among fields. -/
def depthOfFields : List (String × Expr) → Nat
  | [] => 0
  | (_, e) :: rest => max (depth e) (depthOfFields rest)

end

/-! ## Text and equality -/

mutual

/-- The text of an expression in a message. -/
def describe : Expr → String
  | .literal v => "Literal(" ++ v.describe ++ ")"
  | .symbol s => "Symbol(" ++ Text.quoted s ++ ")"
  | .list items => "List([" ++ commaSeparated (describeList items) ++ "])"
  | .quoted items => "Quoted([" ++ commaSeparated (Value.describeList items) ++ "])"
  | .record fields => "Object([" ++ commaSeparated (describeFields fields) ++ "])"

/-- The texts of expressions. -/
def describeList : List Expr → List String
  | [] => []
  | e :: rest => describe e :: describeList rest

/-- The texts of fields. -/
def describeFields : List (String × Expr) → List String
  | [] => []
  | (name, e) :: rest => ("(" ++ Text.quoted name ++ ", " ++ describe e ++ ")") :: describeFields rest

end

mutual

/-- Whether two expressions are the same; the order of fields counts. -/
def beq : Expr → Expr → Bool
  | .literal a, .literal b => a == b
  | .symbol a, .symbol b => a == b
  | .list a, .list b => beqList a b
  | .quoted a, .quoted b => Value.beqList a b
  | .record a, .record b => beqFields a b
  | _, _ => false
termination_by structural e => e

/-- Whether two lists hold the same expressions. -/
def beqList : List Expr → List Expr → Bool
  | [], [] => true
  | a :: as, b :: bs => beq a b && beqList as bs
  | _, _ => false
termination_by structural e => e

/-- Whether two lists hold the same fields. -/
def beqFields : List (String × Expr) → List (String × Expr) → Bool
  | [], [] => true
  | (x, a) :: as, (y, b) :: bs => x == y && beq a b && beqFields as bs
  | _, _ => false
termination_by structural e => e

end

end Expr

instance : BEq Expr := ⟨Expr.beq⟩

end QueryForms
