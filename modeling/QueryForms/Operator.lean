/-!
# Operators

Every name that may stand at the head of a call. A name that is not in the list is no operator;
one operator has two names, of which `Operator.name` gives the first.
-/

namespace QueryForms

/-- An operator of the language. -/
inductive Operator where
  | quote
  | equal
  | notEqual
  | greaterThan
  | lessThan
  | greaterEqual
  | lessEqual
  | like
  | ilike
  | inList
  | contains
  | isNull
  | and
  | or
  | not
  | add
  | subtract
  | multiply
  | divide
  | get
  | map
  | unique
  | size
  | concatLists
  | wait
  | define
  | date
  | source
  | aliased
  | join
  | leftJoin
  | filterRows
  | group
  | having
  | order
  | limit
  | union
  | select
  | count
  | sum
  | avg
  | min
  | max
  | windowed
  | rowNumber
  | rank
  | denseRank
  | lag
  | lead
  | extract
  | concat
  | filter
deriving DecidableEq

namespace Operator

/-- The name of an operator in expressions. -/
def name : Operator → String
  | quote => "$quote"
  | equal => "="
  | notEqual => "!="
  | greaterThan => ">"
  | lessThan => "<"
  | greaterEqual => ">="
  | lessEqual => "<="
  | like => "$like"
  | ilike => "$ilike"
  | inList => "$in"
  | contains => "$contains"
  | isNull => "$isnull"
  | and => "$and"
  | or => "$or"
  | not => "$not"
  | add => "+"
  | subtract => "-"
  | multiply => "*"
  | divide => "/"
  | get => "_get"
  | map => "_map"
  | unique => "_unique"
  | size => "_size"
  | concatLists => "_concat"
  | wait => "_wait"
  | define => "_define"
  | date => "$date"
  | source => "$from"
  | aliased => "$as"
  | join => "$join"
  | leftJoin => "$leftJoin"
  | filterRows => "$where"
  | group => "$group"
  | having => "$having"
  | order => "$order"
  | limit => "$limit"
  | union => "$union"
  | select => "$select"
  | count => "$count"
  | sum => "$sum"
  | avg => "$avg"
  | min => "$min"
  | max => "$max"
  | windowed => "$over"
  | rowNumber => "$row_number"
  | rank => "$rank"
  | denseRank => "$dense_rank"
  | lag => "$lag"
  | lead => "$lead"
  | extract => "$extract"
  | concat => "$concat"
  | filter => "$filter"

/-- All operators. -/
def all : List Operator :=
  [quote, equal, notEqual, greaterThan, lessThan, greaterEqual, lessEqual, like, ilike, inList,
    contains, isNull, and, or, not, add, subtract, multiply, divide, get, map, unique, size,
    concatLists, wait, define, date, source, aliased, join, leftJoin, filterRows, group, having,
    order, limit, union, select, count, sum, avg, min, max, windowed, rowNumber, rank, denseRank, lag,
    lead, extract, concat, filter]

/-- The operator of a name. -/
def ofName? (s : String) : Option Operator :=
  if s = "$wait" then some wait else all.find? fun op => op.name == s

/-- Whether the operator combines the members of a group. -/
def isAggregate : Operator → Bool
  | count => true
  | sum => true
  | avg => true
  | min => true
  | max => true
  | _ => false

/-- The column name of a call without an alias: the name without its mark. -/
def columnName (op : Operator) : String :=
  String.ofList (op.name.toList.dropWhile fun c => c == '$' || c == '_')

/-- An operator is found under its name. -/
theorem ofName?_name (op : Operator) : ofName? op.name = some op := by
  cases op <;> decide +kernel

end Operator

end QueryForms
