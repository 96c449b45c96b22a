import QueryForms.Json.Value
import QueryForms.Proofs.Entries
import QueryForms.Proofs.Everywhere
import QueryForms.Proofs.Json.Injective

/-!
# Values and their text

In the document of a value every float is finite, so two values have one JSON text exactly if they
have one document (`Value.jsonText_eq_iff`). A value of null, truth values, integers and texts, and of
arrays and records of these, is exact: it is read back from the document that shows it. So two exact
values have one JSON text only if they are the same, the order of fields included
(`Value.jsonText_inj`).
-/

namespace QueryForms

namespace Value

/-- Whether a value is of a type that JSON has, other than a float. -/
def isExact : Value → Bool
  | .null => true
  | .boolean _ => true
  | .integer _ => true
  | .string _ => true
  | .array _ => true
  | .object _ => true
  | _ => false

/-- Exact all the way down. -/
def Exact (v : Value) : Prop :=
  v.Everywhere fun part => part.isExact = true

theorem toJsonList_eq_map (values : List Value) : toJsonList values = values.map toJson := by
  induction values with
  | nil => rfl
  | cons v rest ih => rw [toJsonList, ih, List.map_cons]

theorem toJsonFields_eq_map (fields : List (String × Value)) :
    toJsonFields fields = fields.map fun field => (field.1, field.2.toJson) := by
  induction fields with
  | nil => rfl
  | cons field rest ih => rw [toJsonFields, ih, List.map_cons]

theorem ofJsonList_eq_map (documents : List Json) :
    ofJsonList documents = documents.map ofJson := by
  induction documents with
  | nil => rfl
  | cons j rest ih => rw [ofJsonList, ih, List.map_cons]

theorem ofJsonFields_eq_map (fields : List (String × Json)) :
    ofJsonFields fields = fields.map fun field => (field.1, ofJson field.2) := by
  induction fields with
  | nil => rfl
  | cons field rest ih => rw [ofJsonFields, ih, List.map_cons]

end Value

theorem Json.isExactList_iff {items : List Json} :
    isExactList items = true ↔ ∀ j ∈ items, j.isExact = true := by
  induction items with
  | nil => simp [isExactList]
  | cons j rest ih => rw [isExactList, Bool.and_eq_true, ih, List.forall_mem_cons]

theorem Json.isExactFields_iff {fields : List (String × Json)} :
    isExactFields fields = true ↔ ∀ field ∈ fields, field.2.isExact = true := by
  induction fields with
  | nil => simp [isExactFields]
  | cons field rest ih => rw [isExactFields, Bool.and_eq_true, ih, List.forall_mem_cons]

theorem Json.isFiniteFields_iff {fields : List (String × Json)} :
    isFiniteFields fields = true ↔ ∀ field ∈ fields, field.2.isFinite = true := by
  induction fields with
  | nil => simp [isFiniteFields]
  | cons field rest ih => rw [isFiniteFields, Bool.and_eq_true, ih, List.forall_mem_cons]

/-- Free names are filled with finite documents from finite ones. -/
theorem Json.isFiniteFields_setAllMissing {fields added : Entries Json}
    (finite : isFiniteFields fields = true) (finite' : isFiniteFields added = true) :
    isFiniteFields (Entries.setAllMissing fields added) = true := by
  rw [isFiniteFields_iff] at finite finite' ⊢
  exact fun field hf => (Entries.mem_setAllMissing hf).elim (finite field) (finite' field)

/-! ## Documents of values -/

mutual

/-- Floats that are not finite are shown as null. -/
theorem Value.isFinite_toJson : ∀ v : Value, v.toJson.isFinite = true
  | .null => rfl
  | .boolean _ => rfl
  | .float x => by
    rw [Value.toJson]
    split
    · assumption
    · rfl
  | .integer _ => rfl
  | .string _ => rfl
  | .date _ => rfl
  | .array items => Value.isFinite_toJsonList items
  | .object fields => Value.isFinite_toJsonFields fields
  | .rows list => Row.isFinite_toJsonList list
  | .column _ => rfl
  | .fragment f => Fragment.isFinite_toJson f

theorem Value.isFinite_toJsonList : ∀ items : List Value,
    Json.isFiniteList (Value.toJsonList items) = true
  | [] => rfl
  | v :: rest => Bool.and_eq_true_iff.2 ⟨Value.isFinite_toJson v, Value.isFinite_toJsonList rest⟩

theorem Value.isFinite_toJsonFields : ∀ fields : List (String × Value),
    Json.isFiniteFields (Value.toJsonFields fields) = true
  | [] => rfl
  | (_, v) :: rest => Bool.and_eq_true_iff.2 ⟨Value.isFinite_toJson v, Value.isFinite_toJsonFields rest⟩

theorem Row.isFinite_toJson : ∀ row : Row, row.toJson.isFinite = true
  | ⟨tables, none, _⟩ => Row.isFinite_tablesToJson tables rfl
  | ⟨tables, some keys, _⟩ =>
    Row.isFinite_tablesToJson tables
      (Json.isFiniteFields_setAllMissing rfl (Value.isFinite_toJsonFields keys))

/-- The fields of tables are filled in after finite ones. -/
theorem Row.isFinite_tablesToJson : ∀ (tables : List (String × Value)) {fields : Entries Json},
    Json.isFiniteFields fields = true →
    Json.isFiniteFields ((Row.tablesToJson tables).foldl Entries.setAllMissing fields) = true
  | [], _, finite => finite
  | (_, v) :: rest, _, finite => by
    cases v with
    | object record =>
      exact Row.isFinite_tablesToJson rest
        (Json.isFiniteFields_setAllMissing finite (Value.isFinite_toJsonFields record))
    | _ => exact Row.isFinite_tablesToJson rest finite

theorem Row.isFinite_toJsonList : ∀ rows : List Row, Json.isFiniteList (Row.toJsonList rows) = true
  | [] => rfl
  | row :: rest => Bool.and_eq_true_iff.2 ⟨Row.isFinite_toJson row, Row.isFinite_toJsonList rest⟩

theorem Fragment.isFinite_toJson : ∀ f : Fragment, f.toJson.isFinite = true
  | ⟨_, params, _⟩ => Bool.and_eq_true_iff.2 ⟨Value.isFinite_toJsonList params, rfl⟩

end

namespace Value

variable {v w : Value}

/-- Values have one text exactly if they have one document. -/
theorem jsonText_eq_iff (v w : Value) : v.jsonText = w.jsonText ↔ v.toJson = w.toJson :=
  ⟨Json.compact_injective v.isFinite_toJson w.isFinite_toJson, congrArg Json.compact⟩

/-! ## Exact values -/

/-- An exact value is shown without floats. -/
theorem Exact.isExact_toJson (h : v.Exact) : v.toJson.isExact = true := by
  induction h with
  | @intro v here _ ih =>
    cases v with
    | array items =>
      rw [toJson, toJsonList_eq_map, Json.isExact, Json.isExactList_iff]
      exact List.forall_mem_map.2 ih
    | object fields =>
      rw [toJson, toJsonFields_eq_map, Json.isExact, Json.isExactFields_iff]
      exact List.forall_mem_map.2 fun field hf => ih _ (List.mem_map_of_mem hf)
    | null | boolean _ | integer _ | string _ => rfl
    | _ => cases here

/-- An exact value is read back from the document that shows it. -/
theorem Exact.ofJson_toJson (h : v.Exact) : ofJson v.toJson = v := by
  induction h with
  | @intro v here _ ih =>
    cases v with
    | array items =>
      rw [toJson, toJsonList_eq_map, ofJson, ofJsonList_eq_map, List.map_map]
      exact congrArg array ((List.map_congr_left ih).trans (List.map_id _))
    | object fields =>
      rw [toJson, toJsonFields_eq_map, ofJson, ofJsonFields_eq_map, List.map_map]
      refine congrArg object ((List.map_congr_left fun field hf => ?_).trans (List.map_id _))
      exact Prod.ext rfl (ih _ (List.mem_map_of_mem hf))
    | null | boolean _ | integer _ | string _ => rfl
    | _ => cases here

/-- Exact values have one text only if they are the same. -/
theorem jsonText_inj (hv : v.Exact) (hw : w.Exact) : v.jsonText = w.jsonText ↔ v = w := by
  refine ⟨fun h => ?_, fun h => h ▸ rfl⟩
  rw [← hv.ofJson_toJson, (jsonText_eq_iff v w).1 h, hw.ofJson_toJson]

end Value

end QueryForms
