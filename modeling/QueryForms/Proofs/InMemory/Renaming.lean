import Mathlib.Data.List.Forall2
import QueryForms.Proofs.InMemory.Resolution

/-!
# Lookups and flattened rows

The keys of a group and the tables of a row are searched in the order in which they are flattened.
So a field without a dot is read in a row of records as it is in the record of all its fields
(`lookup_eq_get?_flatten`), and a row that gets another alias keeps these fields, whether its record
is taken over or its tables are made one (`readAlike_renameRow`).
-/

namespace QueryForms

/-! ## Rows -/

namespace Row

/-- Every table of a row has a record, or null where a join found none. -/
def OfRecords (row : Row) : Prop :=
  ∀ table ∈ row.tables, table.2 = .null ∨ ∃ fields, table.2 = .object fields

variable {row : Row} {field : String}

/-- Of the tables that are flattened in turn the first that has a field counts, unless the field was
there before. -/
theorem get?_foldl_fieldsOf (tables : List (String × Value)) (start : Record) (field : String) :
    Entries.get?
        (tables.foldl (fun out table => Entries.setAllMissing out (fieldsOf table.2)) start) field
      = (Entries.get? start field).or
          (tables.findSome? fun table => Entries.get? (fieldsOf table.2) field) := by
  induction tables generalizing start with
  | nil => exact Option.or_none.symm
  | cons table rest ih =>
    rw [List.foldl_cons, ih, Entries.get?_setAllMissing, Option.or_assoc, List.findSome?_cons]
    cases Entries.get? (fieldsOf table.2) field <;> rfl

/-- A field of the flattened row is a key of the group, or else a field of the first record that has
it. -/
theorem get?_flatten (row : Row) (field : String) :
    Entries.get? row.flatten field = (row.groupKey? field).or
      (row.tables.findSome? fun table => Entries.get? (fieldsOf table.2) field) := by
  rw [flatten, get?_foldl_fieldsOf, Entries.get?_setAllMissing, groupKey?]
  cases row.groups <;> rfl

/-- A record is searched for a field without a dot as its fields are. -/
theorem lookupPath?_of_record {v : Value} (record : v = .null ∨ ∃ fields, v = .object fields)
    (flat : '.' ∉ field.toList) : v.lookupPath? field = Entries.get? (fieldsOf v) field := by
  rw [Value.lookupPath?_of_flat flat]
  rcases record with rfl | ⟨fields, rfl⟩
  · rfl
  · rw [Value.step?, String.ofList_toList, fieldsOf]

/-- The tables are searched for a field without a dot as their fields are. -/
theorem findSome?_lookupPath? {tables : List (String × Value)}
    (records : ∀ table ∈ tables, table.2 = .null ∨ ∃ fields, table.2 = .object fields)
    (flat : '.' ∉ field.toList) :
    tables.findSome? (fun table => table.2.lookupPath? field)
      = tables.findSome? fun table => Entries.get? (fieldsOf table.2) field := by
  induction tables with
  | nil => rfl
  | cons table rest ih =>
    obtain ⟨record, later⟩ := List.forall_mem_cons.1 records
    rw [List.findSome?_cons, List.findSome?_cons, lookupPath?_of_record record flat, ih later]

/-- A field without a dot is read as in the record of all fields. -/
theorem lookup_eq_get?_flatten (records : row.OfRecords) (flat : '.' ∉ field.toList) :
    row.lookup field = (Entries.get? row.flatten field).getD .null := by
  rw [get?_flatten, lookup, findSome?_lookupPath? records flat]
  cases row.groupKey? field <;> rfl

/-- Without group keys a field is read in the tables. -/
theorem lookup_of_not_isGrouped (ungrouped : row.isGrouped = false) (field : String) :
    row.lookup field
      = (row.tables.findSome? fun table => table.2.lookupPath? field).getD .null := by
  have noKeys : row.groups = none :=
    Option.isNone_iff_eq_none.1 (Option.isSome_eq_false_iff.1 ungrouped)
  rw [lookup, groupKey?, noKeys]
  rfl

theorem lookup_single_eq (table : String) (record : Value) (field : String) :
    (single table record).lookup field = (record.lookupPath? field).getD .null := by
  rw [lookup_of_not_isGrouped rfl, single, List.findSome?_cons]
  cases record.lookupPath? field <;> rfl

/-- Two rows are read alike if every field without a dot has one value in both. -/
def ReadAlike (row other : Row) : Prop :=
  ∀ field : String, '.' ∉ field.toList → row.lookup field = other.lookup field

/-- Under another alias a row of records is read as before. -/
theorem OfRecords.readAlike_renameRow (records : row.OfRecords) (table : String) :
    row.ReadAlike (Relation.renameRow table row) := by
  intro field flat
  rw [Relation.renameRow.eq_def]
  split
  · next name record only ungrouped =>
    rw [lookup_single_eq, lookup_of_not_isGrouped ungrouped, only, List.findSome?_cons]
    cases record.lookupPath? field <;> rfl
  · rw [lookup_single_eq, lookupPath?_of_record (.inr ⟨_, rfl⟩) flat, fieldsOf,
      lookup_eq_get?_flatten records flat]

/-- A record is read alike under every alias. -/
theorem readAlike_single (table other : String) (record : Value) :
    (single table record).ReadAlike (single other record) := by
  intro field _
  rw [lookup_single_eq, lookup_single_eq]

end Row

/-! ## Relations -/

/-- A relation under another alias has a row for each row, which is read alike if that one is of
records. -/
theorem Relation.readAlike_rename {v : Value} {table : String} {rows : List Row}
    (relation : v.toRows? table = some rows) (name : String) :
    ∃ renamed, (∀ other, (rename name v).toRows? other = some renamed) ∧
      List.Forall₂ (fun row again => row.OfRecords → row.ReadAlike again) rows renamed := by
  cases v with
  | rows list =>
    obtain rfl := Option.some.inj relation
    refine ⟨list.map (renameRow name), fun _ => rfl, ?_⟩
    rw [List.forall₂_map_right_iff, List.forall₂_same]
    exact fun row _ records => records.readAlike_renameRow name
  | array items =>
    obtain rfl := Option.some.inj relation
    refine ⟨items.map (Row.single name), fun _ => rfl, ?_⟩
    rw [List.forall₂_map_left_iff, List.forall₂_map_right_iff, List.forall₂_same]
    exact fun item _ _ => Row.readAlike_single table name item
  | null =>
    obtain rfl := Option.some.inj relation
    exact ⟨[], fun _ => rfl, .nil⟩
  | _ => cases relation

namespace InMemory

/-- A source under an alias is the value of the source, renamed. -/
theorem evaluateIn_aliased {env : Environment} {named e : Expr} {name : String} {v : Value}
    (spelled : named.asName? = some name) (value : evaluateIn env e = .ok v) :
    evaluateIn env (.list [.symbol "$as", named, e]) = .ok (Relation.rename name v) := by
  have value : interpretation.evaluate e env = .ok v := value
  refine Eq.trans (evaluate_call .aliased rfl _ _) ?_
  simp only [Relation.aliased, Relation.clauseOperands, Relation.aliasName, spelled, value, bind,
    Except.bind]
  rfl

/-- In a row of records a field without a dot is read as in the record of all fields, and so an
alias given to a relation leaves all such fields of its rows as they are. -/
theorem dotless_fields_survive :
    (∀ {row : Row} {field : String}, row.OfRecords → '.' ∉ field.toList →
      row.lookup field = (Entries.get? row.flatten field).getD .null) ∧
    ∀ {env : Environment} {named e : Expr} {name table : String} {v : Value} {rows : List Row},
      named.asName? = some name → evaluateIn env e = .ok v → v.toRows? table = some rows →
      ∃ w renamed, evaluateIn env (.list [.symbol "$as", named, e]) = .ok w ∧
        (∀ other, w.toRows? other = some renamed) ∧
        List.Forall₂ (fun row again => row.OfRecords → row.ReadAlike again) rows renamed := by
  refine ⟨Row.lookup_eq_get?_flatten, fun spelled value relation => ?_⟩
  obtain ⟨renamed, same, alike⟩ := Relation.readAlike_rename relation _
  exact ⟨_, renamed, evaluateIn_aliased spelled value, same, alike⟩

/-- Two tables with one name of a field, and a table that was not matched. -/
theorem joined_fields_survive :
    ∃ env e row, evaluateIn env e = .ok (.rows [row]) ∧
      Entries.keys row.tables = ["u", "o", "p"] ∧
      row.lookup "n" = (Entries.get? row.flatten "n").getD .null ∧ row.lookup "n" = .string "a" ∧
      ∃ w again, evaluateIn env (.list [.symbol "$as", .symbol "x", e]) = .ok w ∧
        (∀ other, w.toRows? other = some [again]) ∧ again.lookup "n" = .string "a" := by
  let env := Environment.ofContext [("@", [("u", .array [.object [("n", .string "a")]]),
    ("o", .array [.object [("m", .integer 1), ("n", .string "b")]]), ("p", .array [])])]
  let row : Row := ⟨[("u", .object [("n", .string "a")]),
    ("o", .object [("m", .integer 1), ("n", .string "b")]), ("p", .null)], none, none⟩
  let e : Expr := .list [.symbol "$leftJoin", .list [.symbol "$from", .symbol "@p"], .list [],
    .list [.symbol "$join", .list [.symbol "$from", .symbol "@o"], .list [],
      .list [.symbol "$from", .symbol "@u"]]]
  have value : evaluateIn env e = .ok (.rows [row]) := rfl
  have records : row.OfRecords :=
    List.forall_mem_cons.2 ⟨.inr ⟨_, rfl⟩, List.forall_mem_cons.2 ⟨.inr ⟨_, rfl⟩,
      List.forall_mem_singleton.2 (.inl rfl)⟩⟩
  have spelled : (Expr.symbol "x").asName? = some "x" := rfl
  have relation : (Value.rows [row]).toRows? "" = some [row] := rfl
  obtain ⟨w, renamed, result, rows, alike⟩ := dotless_fields_survive.2 spelled value relation
  cases alike with
  | @cons _ again _ _ same none =>
    cases none
    refine ⟨env, e, row, value, rfl, dotless_fields_survive.1 records (by decide), rfl, w, again,
      result, rows, ?_⟩
    exact (same records "n" (by decide)).symm

end InMemory

end QueryForms
