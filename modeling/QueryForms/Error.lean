import QueryForms.Expr

/-!
# Errors

An evaluation stops at its first error. An `EvalError` is the cause; `EvalError.message` words it.
Causes of the class "type error" are the constructors of `TypeFault`, grouped by the part of the
language that finds them.
-/

namespace QueryForms

/-- What is wrong with the operands of a call. -/
inductive TypeFault where
  /-- The context is no record. -/
  | contextShape (got : Kind)
  /-- A namespace of the context is no record. -/
  | namespaceShape (token : String) (got : Kind)
  /-- The head of a call is no name. -/
  | headNotName (head : Expr)
  /-- A quotation has not exactly one operand. -/
  | quoteOperands (count : Nat)
  /-- A function has not exactly two operands. -/
  | notTwoOperands (op : String)
  /-- A clause has not exactly two operands. -/
  | clauseOperands (op : String) (count : Nat)
  /-- A comparison has no operands. -/
  | noOperands (op : String)
  /-- A comparison has one operand. -/
  | oneOperand (op : String)
  /-- Two values have no order. -/
  | incomparable (left right : Kind)
  /-- A pattern is no text. -/
  | patternKind (op : String) (got : Kind)
  /-- A list to search is no array. -/
  | listKind (got : Kind)
  /-- A value cannot contain another. -/
  | notSearchable (haystack needle : Kind)
  /-- The test for null has no operand. -/
  | nullTestOperands
  /-- A negation has not exactly one operand. -/
  | negationOperands
  /-- An arithmetic operator has no operand. -/
  | arithmeticOperands (op : String)
  /-- Arithmetic does not apply to two values. -/
  | arithmeticKinds (op : String) (left right : Kind)
  /-- A date moves out of the years of instants. -/
  | dateArithmeticRange
  /-- A part is asked of a value that is no date. -/
  | extractKind (got : Kind)
  /-- A number of milliseconds lies out of the years of instants. -/
  | timestampRange (millis : Int)
  /-- A float as a number of milliseconds lies out of the years of instants. -/
  | floatTimestampRange (millis : Float)
  /-- A text is no date. -/
  | dateText (text : String)
  /-- A value of another type is no date. -/
  | dateKind (got : Kind)
  /-- A conditional field has not exactly two operands. -/
  | filterOperands
  /-- A path is neither text nor index. -/
  | pathKind (got : Kind)
  /-- The name of a field is no text. -/
  | mapFieldKind (got : Kind)
  /-- The records to project are no array. -/
  | mapListKind (got : Kind)
  /-- The values to make unique are no array. -/
  | uniqueKind (got : Kind)
  /-- A value has no size. -/
  | sizeKind (got : Kind)
  /-- A definition lacks its symbol or its value. -/
  | defineOperands
  /-- The target of a definition is no name. -/
  | defineTarget
  /-- A definition has more than one body. -/
  | defineBodies
  /-- A count of a page is no whole number from zero on. -/
  | pageCount (what : String) (got : Kind)
  /-- A record of an order has no field. -/
  | orderField
  /-- A direction is neither ascending nor descending. -/
  | orderDirection (got : Option String)
  /-- A frame bound has no type. -/
  | boundType
  /-- A frame bound's offset is no whole number from zero on. -/
  | boundOffset (got : Expr)
  /-- A frame bound lacks its offset. -/
  | boundOffsetMissing (bound : String)
  /-- A frame bound's type is unknown. -/
  | boundUnknown (bound : String)
  /-- A window is no record. -/
  | windowShape
  /-- A window call has no function. -/
  | overOperands
  /-- A shift along the window has no field. -/
  | shiftField (op : String)
  /-- A shift along the window goes by no whole number from zero on. -/
  | shiftOffset (op : String) (got : Kind)
  /-- An aggregate has not exactly one operand. -/
  | aggregateOperands (op : String) (count : Nat)
  /-- A value is no relation. -/
  | sourceKind (got : Kind)
  /-- A source clause has not exactly one operand. -/
  | sourceOperands
  /-- An alias is no name. -/
  | aliasName
  /-- A join has not exactly three operands. -/
  | joinOperands
  /-- A value to page through is no relation. -/
  | limitKind (got : Kind)
  /-- A branch of a union is no relation. -/
  | unionKind (got : Kind)
  /-- A projection has neither one nor two operands. -/
  | selectOperands
  /-- A table is bound to something other than a name. -/
  | tableKind (name : String) (got : Kind)
  /-- A relation in memory stands in a statement. -/
  | rowsInSql

/-- The wording of a fault. -/
def TypeFault.message : TypeFault → String
  | contextShape got => s!"Context must be an object of namespaces, got {got.name}"
  | namespaceShape token got => s!"Namespace '{token}' must bind an object, got {got.name}"
  | headNotName head => s!"Call form must start with an operator name, got {head.describe}"
  | quoteOperands count => s!"$quote takes exactly one operand, got {count}"
  | notTwoOperands op => s!"{op} requires exactly two operands"
  | clauseOperands op count => s!"{op} requires two operands, got {count}"
  | noOperands op => s!"'{op}' requires operands"
  | oneOperand op => s!"'{op}' requires at least two operands"
  | incomparable left right => s!"Cannot compare {left.name} with {right.name}"
  | patternKind op got => s!"{op} pattern must be a string, got {got.name}"
  | listKind got => s!"$in requires an array, got {got.name}"
  | notSearchable haystack needle =>
    s!"$contains cannot search {haystack.name} for {needle.name}"
  | nullTestOperands => "$isnull requires an operand"
  | negationOperands => "$not takes exactly one operand"
  | arithmeticOperands op => s!"'{op}' requires at least one operand"
  | arithmeticKinds op left right => s!"Cannot apply '{op}' to {left.name} and {right.name}"
  | dateArithmeticRange => "Date arithmetic out of range"
  | extractKind got => s!"$extract requires a date, got {got.name}"
  | timestampRange millis => s!"Timestamp out of range: {millis}"
  | floatTimestampRange millis => s!"Timestamp out of range: {FloatLayout.plain.render millis}"
  | dateText text => s!"Invalid date: '{text}'"
  | dateKind got => s!"$date requires string or number, got {got.name}"
  | filterOperands => "$filter requires a field and a predicate"
  | pathKind got => s!"_get path must be a string or index, got {got.name}"
  | mapFieldKind got => s!"_map field must be a string, got {got.name}"
  | mapListKind got => s!"_map requires array, got {got.name}"
  | uniqueKind got => s!"_unique requires array, got {got.name}"
  | sizeKind got => s!"_size requires array, string or object, got {got.name}"
  | defineOperands => "_define requires a symbol and a value"
  | defineTarget => "_define target must be a symbol"
  | defineBodies => "_define takes at most one body expression"
  | pageCount what got => s!"$limit {what} must be a non-negative integer, got {got.name}"
  | orderField => "Order spec requires a 'field'"
  | orderDirection got =>
    s!"Order direction must be 'asc' or 'desc', got {describeOption (got.map Text.quoted)}"
  | boundType => "Frame bound requires a 'type'"
  | boundOffset got => s!"Frame offset must be a non-negative integer, got {got.describe}"
  | boundOffsetMissing bound => s!"Frame bound '{bound}' requires an 'offset'"
  | boundUnknown bound => s!"Unknown frame bound type: '{bound}'"
  | windowShape => "$over window must be an object with partition, order and frame"
  | overOperands => "$over requires a function"
  | shiftField op => s!"{op} requires a field"
  | shiftOffset op got => s!"{op} offset must be a non-negative integer, got {got.name}"
  | aggregateOperands op count => s!"{op} takes exactly one operand, got {count}"
  | sourceKind got => s!"Expected a row source, got {got.name}"
  | sourceOperands => "$from takes exactly one source"
  | aliasName => "$as alias must be a name"
  | joinOperands => "join requires a source, a condition and a left source"
  | limitKind got => s!"$limit requires rows, got {got.name}"
  | unionKind got => s!"$union requires rows, got {got.name}"
  | selectOperands => "$select requires fields and an optional source"
  | tableKind name got => s!"Table '{name}' must be bound to a name, got {got.name}"
  | rowsInSql => "In-memory rows cannot be used in SQL"

/-- A use of windows where there is none. -/
inductive WindowFault where
  /-- A window call outside the fields of a projection. -/
  | overOutsideSelect
  /-- A row is not in its own partition. -/
  | rowOutsidePartition
  /-- A window function outside a window call. -/
  | functionOutsideOver (op : String)

/-- The wording of a misuse. -/
def WindowFault.message : WindowFault → String
  | overOutsideSelect => "$over is only valid inside a $select projection"
  | rowOutsidePartition => "row is missing from its partition"
  | functionOutsideOver op => s!"{op} must be the function of an $over"

/-- What stops an evaluation. -/
inductive EvalError where
  /-- A call of a name that is no operator. -/
  | unknownOperator (name : String)
  /-- A token that was never declared. -/
  | unknownNamespace (token : String)
  /-- A use of windows where there is none. -/
  | windowMisuse (fault : WindowFault)
  /-- A part that dates do not have. -/
  | unsupportedExtractField (part : String)
  /-- Operands that do not suit the operator. -/
  | typeError (fault : TypeFault)
  /-- A division of integers by zero. -/
  | divisionByZero
  /-- A division of the least integer by minus one, which ends the program. -/
  | quotientOverflow

/-- The wording of an error. -/
def EvalError.message : EvalError → String
  | unknownOperator name => s!"Unknown operator: {name}"
  | unknownNamespace token => s!"Unknown namespace: {token}"
  | windowMisuse fault => s!"Window misuse: {fault.message}"
  | unsupportedExtractField part => s!"Unsupported extract field: {part}"
  | typeError fault => s!"Type error: {fault.message}"
  | divisionByZero => "Division by zero"
  | quotientOverflow => "Quotient out of range"

/-- The outcome of an evaluation step. -/
abbrev Result (α : Type) := Except EvalError α

/-- Stop with a type error. -/
def fault {α : Type} (f : TypeFault) : Result α :=
  .error (.typeError f)

end QueryForms
