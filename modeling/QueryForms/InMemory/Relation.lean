import QueryForms.InMemory.Window
import QueryForms.Pagination

/-!
# Relations in memory

Each stage of a query takes its source as its last operand and gives rows; a projection turns rows
into an array of records. A plain array becomes rows under the alias that its expression introduces.
Conditions, keys and fields are evaluated with each row in turn as the current one.
-/

namespace QueryForms.Relation

/-! ## Sources -/

/-- The alias that a source given by its head and first operand introduces. -/
def callAlias? (op : Operator) (inner : Option String) (first : Expr) : Option String :=
  if op = .aliased then first.asName?
  else if op = .source then inner
  else none

/-- The alias that a source introduces: a table's name, or the alias of a call that gives one. -/
def sourceAlias? : Expr → Option String
  | .symbol s => stripStart? tableToken s
  | .list (head :: first :: _) =>
    (head.asName?.bind Operator.ofName?).bind fun op => callAlias? op (sourceAlias? first) first
  | _ => none

/-- The alias of a source, or the empty one. -/
def sourceAlias (e : Expr) : String :=
  (sourceAlias? e).getD ""

/-- The rows of a source. -/
def sourceRows (eval : Evaluator) (e : Expr) (env : Environment) : Result (List Row) := do
  let v ← eval e env
  match v.toRows? (sourceAlias e) with
  | some rows => return rows
  | none => fault (.sourceKind v.kind)

/-- The operands of a clause: what it asks for, and its source. -/
def clauseOperands (op : String) : List Expr → Result (Expr × Expr)
  | [first, source] => .ok (first, source)
  | operands => fault (.clauseOperands op operands.length)

/-- The name that an alias expression spells. -/
def aliasName (e : Expr) : Result String :=
  match e.asName? with
  | some name => .ok name
  | none => fault .aliasName

/-- The rows of a table. -/
def source (eval : Evaluator) (operands : List Expr) (env : Environment) : Result Value :=
  match operands with
  | [table] => (sourceRows eval table env).map .rows
  | _ => fault .sourceOperands

/-- A row under another alias: its one record, or all its fields as one record. -/
def renameRow (table : String) (row : Row) : Row :=
  match row.tables, row.isGrouped with
  | [(_, record)], false => Row.single table record
  | _, _ => Row.single table (.object row.flatten)

/-- A relation under another alias; any other value stays as it is. -/
def rename (table : String) : Value → Value
  | .rows list => .rows (list.map (renameRow table))
  | .array items => .rows (items.map (Row.single table))
  | v => v

/-- A source under an alias. -/
def aliased (eval : Evaluator) (operands : List Expr) (env : Environment) : Result Value := do
  let (named, e) ← clauseOperands "$as" operands
  let name ← aliasName named
  return rename name (← eval e env)

/-! ## Joins -/

/-- Whether a condition holds on a row; a condition that stands for nothing always does. -/
def holds (eval : Evaluator) (condition : Expr) (env : Environment) (row : Row) : Result Bool :=
  if condition.isEmpty then .ok true
  else (eval condition (env.surround row)).map Value.isTruthy

/-- The items on which a test holds, in order. -/
def keep {α : Type} (test : α → Result Bool) : List α → Result (List α)
  | [] => .ok []
  | item :: rest => do
    let kept ← test item
    let others ← keep test rest
    return if kept then item :: others else others

/-- The row in which aliases are bound to null. -/
def missingRow (aliases : List String) : Row :=
  ⟨Entries.ofList (aliases.map fun table => (table, .null)), none, none⟩

/-- The matches of a left row: the merged rows on which the condition holds. -/
def matchesOf (eval : Evaluator) (condition : Expr) (env : Environment) (right : List Row)
    (row : Row) : Result (List Row) :=
  keep (holds eval condition env) (right.map row.merge)

/-- The aliases of the right side: those of its first row, or the one its source introduces. -/
def rightAliases (e : Expr) (right : List Row) : List String :=
  match right with
  | row :: _ => Entries.keys row.tables
  | [] => (sourceAlias? e).toList

/-- Every left row with each of its matches; an outer join keeps a left row without matches beside
nulls. -/
def join (outer : Bool) (eval : Evaluator) (operands : List Expr) (env : Environment) :
    Result Value :=
  match operands with
  | [rightSource, condition, leftSource] => do
    let left ← sourceRows eval leftSource env
    let right ← sourceRows eval rightSource env
    let missing := missingRow (rightAliases rightSource right)
    let joined ← left.mapM fun row => do
      let matched ← matchesOf eval condition env right row
      return if outer && matched.isEmpty then [row.merge missing] else matched
    return .rows joined.flatten
  | _ => fault .joinOperands

/-! ## Conditions, groups, order, pages, unions -/

/-- The rows of a source on which a condition holds. -/
def filterRows (op : String) (eval : Evaluator) (operands : List Expr) (env : Environment) :
    Result Value := do
  let (condition, e) ← clauseOperands op operands
  let rows ← sourceRows eval e env
  return .rows (← keep (holds eval condition env) rows)

/-- The name of a column without an alias: an alias call's alias, a symbol without its token, or
the operator of a call without its mark. -/
def outputName (env : Environment) (e : Expr) : String :=
  let aliased := if e.isCall .aliased then e.operands.head?.bind Expr.asName? else none
  match aliased with
  | some name => name
  | none =>
    match e with
    | .symbol s => ((env.splitSymbol? s).map Prod.snd).getD s
    | _ => (e.operator?.map Operator.columnName).getD "?column?"

/-- The name of a group key: a symbol qualified by an alias keeps its alias. -/
def groupKeyName (env : Environment) (e : Expr) : String :=
  match e.asName?.bind env.splitSymbol? with
  | some (token, name) =>
    if token ≠ rowToken ∧ (aliasOfToken? token).isSome then token ++ name else outputName env e
  | none => outputName env e

/-- A row with the values of its group keys and their text, by which groups are told apart. -/
structure Keyed where
  id : String
  keys : List Value
  row : Row

/-- The rows with the values of the group keys. -/
def keyRows (eval : Evaluator) (keys : List Expr) (env : Environment) (rows : List Row) :
    Result (List Keyed) :=
  rows.mapM fun row => do
    let values ← Interpretation.evaluateAll eval keys (env.surround row)
    return ⟨(Value.array values).jsonText, values, row⟩

/-- Keyed rows gathered by their text, in the order of first occurrence. -/
def gather (keyed : List Keyed) : List (List Keyed) :=
  (keyed.map Keyed.id).eraseDups.map fun id => keyed.filter fun k => k.id == id

/-- The group row of gathered rows, keyed as the first of them. -/
def groupRow (names : List String) (members : List Keyed) : Row :=
  Row.ofGroup (Entries.ofList (names.zip ((members.head?.map Keyed.keys).getD [])))
    (members.map Keyed.row)

/-- One row for each combination of keys, in the order of first occurrence. -/
def group (eval : Evaluator) (operands : List Expr) (env : Environment) : Result Value := do
  let (keyList, e) ← clauseOperands "$group" operands
  let keys := keyList.itemsOrNone
  let rows ← sourceRows eval e env
  let keyed ← keyRows eval keys env rows
  return .rows ((gather keyed).map (groupRow (keys.map (groupKeyName env))))

/-- The rows of a source sorted by the values of the order keys. -/
def order (eval : Evaluator) (operands : List Expr) (env : Environment) : Result Value := do
  let (specList, e) ← clauseOperands "$order" operands
  let specs ← OrderSpec.parseList specList
  let rows ← sourceRows eval e env
  let keyed ← rows.mapM fun row => do
    let keys ← Interpretation.evaluateAll eval (specs.map OrderSpec.expr) (env.surround row)
    return (keys, row)
  return .rows ((sortByKeys (specs.map OrderSpec.descending) keyed).map Prod.snd)

/-- A page of a source; of an array an array. -/
def limit (eval : Evaluator) (operands : List Expr) (env : Environment) : Result Value := do
  let (spec, e) ← clauseOperands "$limit" operands
  let page ← Pagination.ofValue (← eval spec env)
  let v ← eval e env
  match v with
  | .array items => return .array (page.apply items)
  | _ =>
    match v.toRows? "" with
    | some rows => return .rows (page.apply rows)
    | none => fault (.limitKind v.kind)

/-- The items of values that are all arrays or null; none if one is something else. -/
def arrayItems? : List Value → Option (List Value)
  | [] => some []
  | .array items :: rest => (arrayItems? rest).map (items ++ ·)
  | .null :: rest => arrayItems? rest
  | _ :: _ => none

/-- The rows of a branch of a union. -/
def branchRows (branch : Value × Expr) : Result (List Row) :=
  match branch.1.toRows? (sourceAlias branch.2) with
  | some rows => .ok rows
  | none => fault (.unionKind branch.1.kind)

/-- The branches one after the other: an array if all are arrays, else rows. -/
def union (eval : Evaluator) (operands : List Expr) (env : Environment) : Result Value := do
  let branches ← Interpretation.evaluateAll eval operands env
  match arrayItems? branches with
  | some items => return .array items
  | none => return .rows (← (branches.zip operands).mapM branchRows).flatten

/-! ## Projection -/

/-- The record of the first table of the current row. -/
def firstRecord (env : Environment) : Record :=
  match env.row.bind fun row => row.tables.head? with
  | some (_, record) => Row.fieldsOf record
  | none => []

/-- The record of a table of the current row, each field qualified by the table. -/
def qualifiedRecord (env : Environment) (table : String) : Record :=
  match env.row.bind fun row => Entries.get? row.tables table with
  | some record => (Row.fieldsOf record).map fun (name, v) => (aliasToken table ++ name, v)
  | none => []

/-- The table whose fields a symbol stands for, if it ends in a colon and an asterisk. -/
def tableOfWildcard? (symbol : String) : Option String :=
  match symbol.toList.reverse with
  | '*' :: ':' :: rest => some (String.ofList rest.reverse)
  | _ => none

/-- The fields that a wildcard stands for on the current row; none for any other symbol. -/
def wildcard? (env : Environment) (symbol : String) : Option (Result Record) :=
  if symbol = "*" ∨ symbol = ":*" then some (.ok (firstRecord env))
  else (tableOfWildcard? symbol).map fun table =>
    if env.hasToken (aliasToken table) then .ok (qualifiedRecord env table)
    else .error (.unknownNamespace (aliasToken table))

/-- What a field of a projection adds to the record of the current row. -/
def project (eval : Evaluator) (env : Environment) (field : Expr) : Result Record :=
  if field.isCall .aliased then do
    let (named, e) ← clauseOperands "$as" field.operands
    let name ← aliasName named
    return [(name, ← eval e env)]
  else
    match field.asName?.bind (wildcard? env) with
    | some fields => fields
    | none => do return [(outputName env field, ← eval field env)]

/-- The record of the current row: all its fields if none are asked for. -/
def projectAll (eval : Evaluator) (fields : List Expr) (env : Environment) : Result Value := do
  let start := if fields.isEmpty then (env.row.map Row.flatten).getD [] else []
  let added ← fields.mapM (project eval env)
  return .object (added.foldl Entries.setAll start)

/-- The rows that a projection shows: the rows of its source, or one for all of them if a field
combines rows and none is a group's. -/
def selectedRows (fields : List Expr) (rows : List Row) : List Row :=
  if fields.any Expr.isAggregated && !rows.any Row.isGrouped then [Row.ofGroup [] rows] else rows

/-- The environment of a row of a projection; window calls see the rows around it. -/
def rowScope (env : Environment) (rows : List Row) (windowed : Bool) (indexed : Nat × Row) :
    Environment :=
  let here := env.surround indexed.2
  if windowed then here.withWindow (.source rows indexed.1) else here

/-- A record for each row of the source, or for the current row without a source. -/
def select (eval : Evaluator) (operands : List Expr) (env : Environment) : Result Value := do
  let (fieldList, rows) ← match operands with
    | [fieldList] => pure (fieldList, [env.row.getD Row.empty])
    | [fieldList, e] => do pure (fieldList, ← sourceRows eval e env)
    | _ => fault .selectOperands
  let fields := fieldList.itemsOrNone
  let rows := selectedRows fields rows
  let windowed := fields.any Expr.isWindowed
  let records ← (Windowed.indexed rows).mapM fun indexed =>
    projectAll eval fields (rowScope env rows windowed indexed)
  return .array records

/-- What each relational operator does. -/
def handler : Operator → Option Handler
  | .source => some (.onOperands source)
  | .aliased => some (.onOperands aliased)
  | .join => some (.onOperands (join false))
  | .leftJoin => some (.onOperands (join true))
  | .filterRows => some (.onOperands (filterRows "$where"))
  | .group => some (.onOperands group)
  | .having => some (.onOperands (filterRows "$having"))
  | .order => some (.onOperands order)
  | .limit => some (.onOperands limit)
  | .union => some (.onOperands union)
  | .select => some (.onOperands select)
  | _ => none

end QueryForms.Relation
