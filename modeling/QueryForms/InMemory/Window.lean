import QueryForms.InMemory.Aggregate
import QueryForms.Window

/-!
# Windows over rows

A projection shows each of its rows all rows and the row's own index. A window call takes the rows
with the same partition keys as its own, sorts them by the order keys, finds its own row among them
and resolves the frame; then it evaluates its function on the own row, whose members are now the rows
of the frame. Ranks and shifts read the window instead of members.
-/

namespace QueryForms

namespace Frame

/-- The rows within the bounds. -/
def rows (f : Frame) : List Row :=
  match f.bounds with
  | some (first, last) => ((f.partition.take (last + 1)).drop first).map Prod.snd
  | none => []

/-- The order keys of the row at a position. -/
def keysAt (f : Frame) (position : Nat) : List Value :=
  ((f.partition[position]?).map Prod.fst).getD []

/-- Whether two positions have equal order keys. -/
def peers (f : Frame) (a b : Nat) : Bool :=
  compareKeys f.descending (f.keysAt a) (f.keysAt b) == .eq

/-- One more than the position of the first row with the current row's order keys. -/
def rank (f : Frame) : Nat :=
  ((List.range f.position).find? fun i => f.peers i f.position).getD f.position + 1

/-- One more than the number of changes of the order keys up to the current row. -/
def denseRank (f : Frame) : Nat :=
  1 + (List.range f.position).countP fun i => !f.peers i (i + 1)

end Frame

namespace Windowed

/-- The window of a row: its partition sorted, its own position in it, and the frame. -/
def frameOf (spec : WindowSpec) (index : Nat) (members : List (List Value × Nat × Row)) :
    Result Frame :=
  let descending := spec.order.map OrderSpec.descending
  let sorted := sortByKeys descending members
  match sorted.findIdx? fun member => member.2.1 == index with
  | none => .error (.windowMisuse .rowOutsidePartition)
  | some position =>
    .ok {
      partition := sorted.map fun member => (member.1, member.2.2)
      descending := descending
      position := position
      bounds := spec.effectiveFrame.resolve? position sorted.length }

/-- The rows with their indices. -/
def indexed (rows : List Row) : List (Nat × Row) :=
  (List.range rows.length).zip rows

/-- The values of expressions on a row. -/
def keysOn (eval : Evaluator) (exprs : List Expr) (env : Environment) (row : Row) :
    Result (List Value) :=
  Interpretation.evaluateAll eval exprs (env.surround row)

/-- The members of a row's partition, with their order keys and indices. -/
def partitionOf (eval : Evaluator) (spec : WindowSpec) (env : Environment) (rows : List Row)
    (index : Nat) : Result (List (List Value × Nat × Row)) := do
  let names ← rows.mapM fun row => do
    return (Value.array (← keysOn eval spec.partition env row)).jsonText
  let own := names[index]?
  let members := (names.zip (indexed rows)).filter fun member => some member.1 == own
  members.mapM fun member => do
    let keys ← keysOn eval (spec.order.map OrderSpec.expr) env member.2.2
    return (keys, member.2)

/-- A window call: the function on the current row, with the frame as its members. -/
def call (eval : Evaluator) (operands : List Expr) (env : Environment) : Result Value :=
  match operands with
  | [] => fault .overOperands
  | function :: rest => do
    let spec ← WindowSpec.parse rest.head?
    match env.window with
    | some (.source rows index) => do
      let frame ← frameOf spec index (← partitionOf eval spec env rows index)
      let current := { (rows[index]?).getD Row.empty with items := some frame.rows }
      eval function ((env.surround current).withWindow (.frame frame))
    | _ => .error (.windowMisuse .overOutsideSelect)

/-- The window that a function of a window call reads. -/
def ownFrame (op : String) (env : Environment) : Result Frame :=
  match env.window with
  | some (.frame f) => .ok f
  | _ => .error (.windowMisuse (.functionOutsideOver op))

/-- A function that gives a number of the window. -/
def ranking (op : String) (number : Frame → Nat) (_ : Evaluator) (_ : List Expr)
    (env : Environment) : Result Value := do
  return PlainOperators.lengthValue (number (← ownFrame op env))

/-- How far a shift goes; one row unless an offset is given. -/
def shiftOffset (op : String) (eval : Evaluator) (env : Environment) : Option Expr → Result Nat
  | none => .ok 1
  | some e => do
    let v ← eval e env
    match v.asInt64? with
    | some n => if 0 ≤ n.toInt then return n.toInt.toNat else fault (.shiftOffset op v.kind)
    | none => fault (.shiftOffset op v.kind)

/-- A field on the row some positions away in the partition, or the default where there is none. -/
def shifted (op : String) (target : Nat → Nat → Option Nat) (eval : Evaluator)
    (operands : List Expr) (env : Environment) : Result Value := do
  let frame ← ownFrame op env
  match operands with
  | [] => fault (.shiftField op)
  | field :: rest =>
    let offset ← shiftOffset op eval env rest.head?
    match (target frame.position offset).bind fun position => frame.partition[position]? with
    | some (_, row) => eval field (env.surround row)
    | none =>
      match rest[1]? with
      | some other => eval other env
      | none => return .null

/-- The position some rows before another. -/
def before (position offset : Nat) : Option Nat :=
  if offset ≤ position then some (position - offset) else none

/-- The position some rows after another. -/
def after (position offset : Nat) : Option Nat :=
  some (position + offset)

/-- What each operator on windows does. -/
def handler : Operator → Option Handler
  | .windowed => some (.onOperands call)
  | .rowNumber => some (.onOperands (ranking "$row_number" fun f => f.position + 1))
  | .rank => some (.onOperands (ranking "$rank" Frame.rank))
  | .denseRank => some (.onOperands (ranking "$dense_rank" Frame.denseRank))
  | .lag => some (.onOperands (shifted "$lag" before))
  | .lead => some (.onOperands (shifted "$lead" after))
  | _ => none

end Windowed

end QueryForms
