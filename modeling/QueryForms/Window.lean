import QueryForms.Error

/-!
# Order and window specifications

An order is a list of keys, each an expression with a direction. A window has a partition, an order
and a frame: the stretch of rows around the current one that aggregates see, given by two bounds.
`OrderSpec`, `Bound`, `FrameSpec` and `WindowSpec` read them from expressions; `FrameSpec.resolve?`
gives the frame as positions in a partition, `Bound.toSql` the words for a statement.
-/

namespace QueryForms

/-- A key to order by. -/
structure OrderSpec where
  /-- The expression whose value is compared. -/
  expr : Expr
  /-- Whether greater values come first. -/
  descending : Bool

namespace OrderSpec

/-- The direction that a name gives, in any case of letters: whether it descends. -/
def direction? (name : String) : Option Bool :=
  let lower := name.toList.map Char.toLower
  if lower = ['a', 's', 'c'] then some false
  else if lower = ['d', 'e', 's', 'c'] then some true
  else none

/-- Read a key: a record of a field and a direction, or any other expression, ascending. -/
def parse (e : Expr) : Result OrderSpec :=
  match e with
  | .record _ =>
    match e.field? "field" with
    | none => fault .orderField
    | some expr =>
      match e.field? "direction" with
      | none => .ok ⟨expr, false⟩
      | some direction =>
        match direction.asName?.bind direction? with
        | some descending => .ok ⟨expr, descending⟩
        | none => fault (.orderDirection direction.asName?)
  | _ => .ok ⟨e, false⟩

/-- Read the keys of an order. -/
def parseList (e : Expr) : Result (List OrderSpec) :=
  if e.isEmpty then .ok [] else e.elements.mapM parse

end OrderSpec

/-- An end of a window frame. -/
inductive Bound where
  /-- The start or the end of the partition. -/
  | unbounded
  /-- The current row. -/
  | current
  /-- So many rows before the current one. -/
  | preceding (offset : Nat)
  /-- So many rows after the current one. -/
  | following (offset : Nat)
deriving DecidableEq

/-- Which end of a frame a bound is. -/
inductive Edge where
  | first
  | last
deriving DecidableEq

namespace Bound

/-- The greatest position that is told apart from the ones beyond. -/
def farthest : Int := Int64.maxValue.toInt

/-- The least position that is told apart from the ones before. -/
def nearest : Int := Int64.minValue.toInt

/-- A position, or the end of the range of positions that it lies beyond. -/
def clamp (position : Int) : Int :=
  max nearest (min position farthest)

/-- The offset of a bound. -/
def parseOffset (bound : String) (e : Expr) : Result Nat :=
  match e.field? "offset" with
  | none => fault (.boundOffsetMissing bound)
  | some (.literal (.integer n)) =>
    if 0 ≤ n.toInt then .ok n.toInt.toNat else fault (.boundOffset (.literal (.integer n)))
  | some other => fault (.boundOffset other)

/-- Read a bound from a record of a type and, where it needs one, an offset. -/
def parse (e : Expr) : Result Bound :=
  match (e.field? "type").bind Expr.asName? with
  | none => fault .boundType
  | some bound =>
    if bound = "unbounded" then .ok .unbounded
    else if bound = "current" then .ok .current
    else if bound = "preceding" then (parseOffset bound e).map .preceding
    else if bound = "following" then (parseOffset bound e).map .following
    else fault (.boundUnknown bound)

/-- The position of a bound for a current row in a partition of a length; it may lie outside. -/
def position (b : Bound) (current length : Nat) (edge : Edge) : Int :=
  let here := clamp current
  match b with
  | .unbounded => if edge = .first then 0 else clamp length - 1
  | .current => here
  | .preceding n => clamp (here - clamp n)
  | .following n => clamp (here + clamp n)

/-- The words of a bound in SQL. -/
def toSql (b : Bound) (edge : Edge) : String :=
  match b with
  | .unbounded => if edge = .first then "UNBOUNDED PRECEDING" else "UNBOUNDED FOLLOWING"
  | .current => "CURRENT ROW"
  | .preceding n => toString n ++ " PRECEDING"
  | .following n => toString n ++ " FOLLOWING"

end Bound

/-- A window frame. -/
structure FrameSpec where
  /-- Where it begins. -/
  start : Bound
  /-- Where it ends. -/
  stop : Bound
deriving DecidableEq

namespace FrameSpec

/-- The first and the last position of the frame within the partition, unless it is empty. A
partition longer than the range of positions has no frames. -/
def resolve? (f : FrameSpec) (current length : Nat) : Option (Nat × Nat) :=
  if length = 0 ∨ Bound.farthest + 1 < length then none
  else
    let first := max (f.start.position current length .first) 0
    let last := min (f.stop.position current length .last) ((length : Int) - 1)
    if last < first then none else some (first.toNat, last.toNat)

/-- Read a frame: without a start it begins with the partition, without an end it stops at the
current row. -/
def parse (e : Expr) : Result FrameSpec := do
  let start ← match e.field? "start" with
    | some bound => Bound.parse bound
    | none => .ok .unbounded
  let stop ← match e.field? "end" with
    | some bound => Bound.parse bound
    | none => .ok .current
  return ⟨start, stop⟩

end FrameSpec

/-- The window of a window call. -/
structure WindowSpec where
  /-- The expressions that rows of one partition agree on. -/
  partition : List Expr
  /-- The order within a partition. -/
  order : List OrderSpec
  /-- The frame, if one is written. -/
  frame : Option FrameSpec

namespace WindowSpec

/-- The window that says nothing. -/
def whole : WindowSpec := ⟨[], [], none⟩

/-- The keys that a record of a window partitions by. -/
def partitionKeys (e : Expr) : List Expr :=
  match e.field? "partition" with
  | some p => if p.isEmpty then [] else p.elements
  | none => []

/-- Read a window from a record; each part may be missing or stand for nothing. -/
def parse : Option Expr → Result WindowSpec
  | none => .ok whole
  | some (.record fields) => do
    let e := Expr.record fields
    let order ← match e.field? "order" with
      | some o => OrderSpec.parseList o
      | none => .ok []
    let frame ← match e.field? "frame" with
      | some f => if f.isEmpty then .ok none else (FrameSpec.parse f).map some
      | none => .ok none
    return ⟨partitionKeys e, order, frame⟩
  | some _ => fault .windowShape

/-- The frame that counts: the one written, else everything up to the current row in an order, else
the whole partition. -/
def effectiveFrame (w : WindowSpec) : FrameSpec :=
  w.frame.getD ⟨.unbounded, if w.order.isEmpty then .unbounded else .current⟩

end WindowSpec

end QueryForms
