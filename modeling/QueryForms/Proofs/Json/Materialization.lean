import QueryForms.Proofs.Entries
import QueryForms.Proofs.Json.Exact
import QueryForms.Proofs.Rows

/-!
# Documents of relations

A row is shown as the record of all its fields, whether it was made that record before or not
(`toJson_flatten`). Making records of rows goes into arrays and records, but not into rows, while
their document is made all the way down; the outcome is the same (`toJson_materialize`).
-/

namespace QueryForms

/-! ## Rows -/

namespace Row

/-- The fields of one more record are shown behind those that are shown before. -/
theorem toJsonFields_setAllMissing (fields added : Record) :
    Value.toJsonFields (Entries.setAllMissing fields added)
      = Entries.setAllMissing (Value.toJsonFields fields) (Value.toJsonFields added) := by
  simp only [Value.toJsonFields_eq_map]
  exact Entries.map_setAllMissing Value.toJson fields added

/-- The tables are filled in one after the other; those that are no records have nothing to show. -/
theorem toJsonFields_foldl (tables : List (String × Value)) (fields : Record) :
    Value.toJsonFields
        (tables.foldl (fun out table => Entries.setAllMissing out (fieldsOf table.2)) fields)
      = (tablesToJson tables).foldl Entries.setAllMissing (Value.toJsonFields fields) := by
  induction tables generalizing fields with
  | nil => rfl
  | cons table rest ih =>
    obtain ⟨name, v⟩ := table
    cases v with
    | object added =>
      rw [List.foldl_cons, ih, tablesToJson, List.foldl_cons, fieldsOf, toJsonFields_setAllMissing]
    | _ => exact ih fields

/-- A row is shown as the record of its fields. -/
theorem toJson_flatten (row : Row) : (Value.object row.flatten).toJson = row.toJson := by
  obtain ⟨tables, groups, items⟩ := row
  rw [Value.toJson, flatten, toJsonFields_foldl, toJsonFields_setAllMissing]
  cases groups <;> rfl

theorem toJsonList_eq_map (rows : List Row) : toJsonList rows = rows.map toJson := by
  induction rows with
  | nil => rfl
  | cons row rest ih => rw [toJsonList, ih, List.map_cons]

end Row

/-! ## Values -/

/-- A value is shown as it is without its relations. -/
theorem Value.toJson_materialize (v : Value) : v.materialize.toJson = v.toJson := by
  have whole : v.Everywhere fun _ => True := .of_forall (fun _ => trivial) v
  induction whole with
  | @intro v _ _ ih =>
    cases v with
    | rows list =>
      rw [materialize, toJson, toJson, toJsonList_eq_map, Row.toJsonList_eq_map, List.map_map]
      exact congrArg Json.array (List.map_congr_left fun row _ => row.toJson_flatten)
    | array items =>
      rw [materialize, toJson, toJson, materializeList_eq_map, toJsonList_eq_map, toJsonList_eq_map,
        List.map_map]
      exact congrArg Json.array (List.map_congr_left fun item hi => ih item hi)
    | object fields =>
      rw [materialize, toJson, toJson, materializeFields_eq_map, toJsonFields_eq_map,
        toJsonFields_eq_map, List.map_map]
      refine congrArg Json.object (List.map_congr_left fun field hf => ?_)
      exact congrArg (Prod.mk field.1) (ih field.2 (List.mem_map_of_mem hf))
    | _ => rfl

end QueryForms
