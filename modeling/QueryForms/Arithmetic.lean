import QueryForms.Error
import QueryForms.Number.Decimal

/-!
# Arithmetic

Integers stay integers while the result is a whole number of 64 bits, and become floats beyond
(`integerArithmetic`). An integer and a float meet in decimal arithmetic. Dates move by milliseconds,
and a text takes anything added to it. Null with anything is null.

`reduce` applies an operator along a list in which arrays are spread out.
-/

namespace QueryForms

/-- An arithmetic operator. -/
inductive ArithmeticOp where
  | add
  | subtract
  | multiply
  | divide
deriving DecidableEq

namespace ArithmeticOp

/-- The sign of an operator. -/
def sign : ArithmeticOp → String
  | add => "+"
  | subtract => "-"
  | multiply => "*"
  | divide => "/"

/-- The operator on floats. -/
def onFloats : ArithmeticOp → Float → Float → Float
  | add, x, y => x + y
  | subtract, x, y => x - y
  | multiply, x, y => x * y
  | divide, x, y => x / y

/-- The operator on decimals, where the result is one. -/
def onDecimals? : ArithmeticOp → Decimal → Decimal → Option Decimal
  | add, x, y => x.add? y
  | subtract, x, y => x.sub? y
  | multiply, x, y => x.mul? y
  | divide, x, y => x.div? y

/-- The exact result on whole numbers; a division has one only if it is even. -/
def onInts? : ArithmeticOp → Int → Int → Option Int
  | add, a, b => some (a + b)
  | subtract, a, b => some (a - b)
  | multiply, a, b => some (a * b)
  | divide, a, b => if b ≠ 0 ∧ a % b = 0 then some (a / b) else none

end ArithmeticOp

/-- An integer if the exact result is one, else the float of the operands. The one quotient that
leaves the range of integers stops the program. -/
def integerArithmetic (op : ArithmeticOp) (a b : Int64) : Result Value :=
  if op = .divide ∧ b.toInt = 0 then .error .divisionByZero
  else if op = .divide ∧ a.toInt = leastInt ∧ b.toInt = -1 then .error .quotientOverflow
  else match (op.onInts? a.toInt b.toInt).bind fit? with
    | some n => .ok (.integer n)
    | none => .ok (.float (op.onFloats (floatOfInt64 a) (floatOfInt64 b)))

/-- The result of decimal arithmetic: an integer if it is one, else a float. -/
def decimalArithmetic? (op : ArithmeticOp) (a b : Option Decimal) : Option Value := do
  let result ← op.onDecimals? (← a) (← b)
  match result.toInt64? with
  | some n => return .integer n
  | none => return .float result.toFloat

/-- An integer and a float, in decimals where they have room and in floats where not. -/
def mixedArithmetic (op : ArithmeticOp) (a b : Option Decimal) (x y : Float) : Value :=
  (decimalArithmetic? op a b).getD (.float (op.onFloats x y))

/-- A date some milliseconds later. -/
def moveDate (t : Instant) (millis : Int) : Result Value :=
  match Instant.ofMillis? (t.millis + millis) with
  | some moved => .ok (.date moved)
  | none => fault .dateArithmeticRange

/-- Text added to text, or no result for operands that are neither. -/
def addText? (a b : Value) : Option Value :=
  match a, b with
  | .string s, _ => some (.string (s ++ b.text))
  | _, .string s => some (.string (a.text ++ s))
  | _, _ => none

/-- An arithmetic operator on values that are not both numbers or dates: text can be added. -/
def textArithmetic (op : ArithmeticOp) (a b : Value) : Result Value :=
  match if op = .add then addText? a b else none with
  | some text => .ok text
  | none => fault (.arithmeticKinds op.sign a.kind b.kind)

/-- An arithmetic operator on two values. -/
def applyArithmetic (op : ArithmeticOp) (a b : Value) : Result Value :=
  match a, b with
  | .null, _ => .ok .null
  | _, .null => .ok .null
  | .integer m, .integer n => integerArithmetic op m n
  | .float x, .float y => .ok (.float (op.onFloats x y))
  | .integer m, .float y =>
    .ok (mixedArithmetic op (some (.ofInt64 m)) (Decimal.ofFloat? y) (floatOfInt64 m) y)
  | .float x, .integer n =>
    .ok (mixedArithmetic op (Decimal.ofFloat? x) (some (.ofInt64 n)) x (floatOfInt64 n))
  | .date s, .date t =>
    if op = .subtract then .ok (.integer (saturate (s.millis - t.millis)))
    else textArithmetic op a b
  | .date t, .integer n =>
    if op = .add then moveDate t n.toInt
    else if op = .subtract then moveDate t (-n.toInt)
    else textArithmetic op a b
  | _, _ => textArithmetic op a b

mutual

/-- The operands that a value contributes: an array its items, any other value itself. -/
def spread : Value → List Value
  | .array items => spreadAll items
  | v => [v]

/-- The operands that values contribute, arrays spread out at every depth. -/
def spreadAll : List Value → List Value
  | [] => []
  | v :: rest => spread v ++ spreadAll rest

end

/-- An operator along a list of operands. A single operand of `-` is negated; `+` and `*` of nothing
have their neutral elements. -/
def reduce (op : ArithmeticOp) (operands : List Value) : Result Value :=
  match spreadAll operands with
  | [] =>
    match op with
    | .add => .ok (.integer 0)
    | .multiply => .ok (.integer 1)
    | _ => fault (.arithmeticOperands op.sign)
  | [only] => if op = .subtract then applyArithmetic op (.integer 0) only else .ok only
  | first :: rest => rest.foldlM (applyArithmetic op) first

end QueryForms
