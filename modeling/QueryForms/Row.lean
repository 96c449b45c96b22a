import QueryForms.Value.Basic

/-!
# Rows

A row of a relation binds aliases to records. `merge` puts two rows side by side, `ofGroup` makes one
row of many. A field is looked up among the keys of a group first and then in each record in order;
`flatten` gives all fields as one record by the same preference.
-/

namespace QueryForms.Row

/-- The row that binds nothing. -/
def empty : Row := ⟨[], none, none⟩

/-- A row of one record. -/
def single (table : String) (record : Value) : Row :=
  ⟨[(table, record)], none, none⟩

/-- The bindings of both rows; of an alias bound in both the second row's record counts. -/
def merge (row other : Row) : Row :=
  ⟨Entries.setAll row.tables other.tables, none, none⟩

/-- The row of a group, with the tables of its first member. -/
def ofGroup (keys : Record) (members : List Row) : Row :=
  ⟨(members.head?.map Row.tables).getD [], some keys, some members⟩

/-- Whether the row is a group's. -/
def isGrouped (row : Row) : Bool :=
  row.groups.isSome

/-- The rows that an aggregate combines: the members, or the row itself. -/
def members (row : Row) : List Row :=
  row.items.getD [row]

/-- A key of the group. -/
def groupKey? (row : Row) (name : String) : Option Value :=
  row.groups.bind fun keys => Entries.get? keys name

/-- The value of a field by name alone. -/
def lookup (row : Row) (field : String) : Value :=
  match row.groupKey? field with
  | some v => v
  | none => (row.tables.findSome? fun table => table.2.lookupPath? field).getD .null

/-- The value of a field of one table. -/
def lookupQualified (row : Row) (table field : String) : Value :=
  match row.groupKey? (table ++ ":" ++ field) with
  | some v => v
  | none =>
    ((Entries.get? row.tables table).bind fun record => record.lookupPath? field).getD .null

/-- The fields of a record; other values have none. -/
def fieldsOf : Value → Record
  | .object fields => fields
  | _ => []

/-- All fields as one record; of fields of one name the first counts. -/
def flatten (row : Row) : Record :=
  row.tables.foldl (fun out table => Entries.setAllMissing out (fieldsOf table.2))
    (Entries.setAllMissing [] (row.groups.getD []))

end QueryForms.Row

namespace QueryForms

/-- A value as the rows of a relation: rows are, the items of an array become rows under an alias,
null has none. -/
def Value.toRows? (v : Value) (table : String) : Option (List Row) :=
  match v with
  | .rows list => some list
  | .array items => some (items.map (Row.single table))
  | .null => some []
  | _ => none

mutual

/-- A value without relations: each is an array of its flattened rows. -/
def Value.materialize : Value → Value
  | .rows list => .array (list.map fun row => .object row.flatten)
  | .array items => .array (Value.materializeList items)
  | .object fields => .object (Value.materializeFields fields)
  | v => v

/-- Values without relations. -/
def Value.materializeList : List Value → List Value
  | [] => []
  | v :: rest => Value.materialize v :: Value.materializeList rest

/-- A record without relations. -/
def Value.materializeFields : List (String × Value) → List (String × Value)
  | [] => []
  | (name, v) :: rest => (name, Value.materialize v) :: Value.materializeFields rest

end

end QueryForms
