import QueryForms.Proofs.Separation

/-!
# Results without relations

What an expression gives comes back with its relations made arrays of records. This reaches relations
in arrays and records, but not in the rows of another relation: these are flattened as they are. So
the result holds no relation if and only if the rows that are flattened hold none
(`evaluate_relationFree_iff`).
-/

namespace QueryForms

mutual

/-- The rows of the relations in a value that are not in rows themselves. -/
def Value.outerRows : Value → List Row
  | .rows list => list
  | .array items => Value.outerRowsOfItems items
  | .object fields => Value.outerRowsOfFields fields
  | _ => []

/-- The rows of the relations in values. -/
def Value.outerRowsOfItems : List Value → List Row
  | [] => []
  | v :: rest => Value.outerRows v ++ Value.outerRowsOfItems rest

/-- The rows of the relations in the fields of a record. -/
def Value.outerRowsOfFields : List (String × Value) → List Row
  | [] => []
  | (_, v) :: rest => Value.outerRows v ++ Value.outerRowsOfFields rest

end

namespace Value

/-- Whether a value holds no relation, at any depth. -/
def RelationFree (v : Value) : Prop :=
  v.Everywhere fun part => part.isRelation = false

theorem outerRowsOfItems_eq_flatMap (items : List Value) :
    outerRowsOfItems items = items.flatMap outerRows := by
  induction items with
  | nil => rfl
  | cons v rest ih => rw [outerRowsOfItems, ih, List.flatMap_cons]

theorem outerRowsOfFields_eq_flatMap (fields : List (String × Value)) :
    outerRowsOfFields fields = (fields.map Prod.snd).flatMap outerRows := by
  induction fields with
  | nil => rfl
  | cons field rest ih => rw [outerRowsOfFields, ih, List.map_cons, List.flatMap_cons]

/-- A record holds no relation if none of its fields does. -/
theorem relationFree_object_iff {fields : Record} :
    (Value.object fields).RelationFree ↔ ∀ field ∈ fields, field.2.RelationFree :=
  Everywhere.object_iff.trans (and_iff_right rfl)

theorem relationFree_array_iff {items : List Value} :
    (Value.array items).RelationFree ↔ ∀ v ∈ items, v.RelationFree :=
  Everywhere.array_iff.trans (and_iff_right rfl)

/-- A value comes back without relations if the rows that are flattened hold none. -/
theorem relationFree_materialize_iff (v : Value) :
    v.materialize.RelationFree
      ↔ ∀ row ∈ v.outerRows, ∀ field ∈ row.flatten, field.2.RelationFree := by
  have whole : v.Everywhere fun _ => True := .of_forall (fun _ => trivial) v
  induction whole with
  | @intro v _ _ ih =>
    cases v with
    | rows list =>
      rw [materialize, relationFree_array_iff, List.forall_mem_map]
      exact forall₂_congr fun row _ => relationFree_object_iff
    | array items =>
      rw [materialize, materializeList_eq_map, relationFree_array_iff, List.forall_mem_map,
        outerRows, outerRowsOfItems_eq_flatMap, List.forall_mem_flatMap]
      exact forall₂_congr fun item hi => ih item hi
    | object fields =>
      rw [materialize, materializeFields_eq_map, relationFree_object_iff, List.forall_mem_map,
        outerRows, outerRowsOfFields_eq_flatMap, List.forall_mem_flatMap, List.forall_mem_map]
      exact forall₂_congr fun field hf => ih field.2 (List.mem_map_of_mem hf)
    | _ =>
      refine iff_of_true (.of_parts_nil rfl rfl) fun row inside => ?_
      exact absurd inside List.not_mem_nil

end Value

end QueryForms
