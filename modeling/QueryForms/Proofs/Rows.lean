import QueryForms.InMemory.Relation
import QueryForms.Proofs.Invariant

/-!
# What the rows of a relation hold

`Row.Holds P` says that every value in a row has a property all the way down: its records, the keys
of its group, its members. Rows are put side by side, gathered into groups, renamed and flattened,
and their fields are looked up; nothing of that finds a value that was not there, so it keeps every
invariant that allows relations.
-/

namespace QueryForms

/-! ## Rows -/

/-- All data in a row has a property. -/
def Row.Holds (P : Value → Prop) (row : Row) : Prop :=
  ∀ v ∈ row.parts, v.Everywhere P

theorem Row.holds_iff {P : Value → Prop} {row : Row} :
    row.Holds P ↔ (∀ table ∈ row.tables, table.2.Everywhere P) ∧
      (∀ key ∈ row.groups.getD [], key.2.Everywhere P) ∧
      ∀ items ∈ row.items, (Value.rows items).Everywhere P := by
  simp only [Row.Holds, Row.parts, List.forall_mem_append, List.forall_mem_map, and_assoc,
    Option.mem_toList]
  exact Iff.rfl

theorem Value.Everywhere.rows_iff {P : Value → Prop} {list : List Row} :
    (Value.rows list).Everywhere P ↔ P (.rows list) ∧ ∀ row ∈ list, row.Holds P := by
  refine ⟨fun h => ⟨h.here, fun row hr v hv => h.inside (List.mem_flatMap.2 ⟨row, hr, hv⟩)⟩, ?_⟩
  rintro ⟨here, inside⟩
  refine ⟨here, fun part hp => ?_⟩
  obtain ⟨row, hr, hp⟩ := List.mem_flatMap.1 hp
  exact inside row hr part hp

namespace Row.Holds

variable {I : Invariant} {row other : Row}

open Invariant

theorem tables (h : row.Holds I.value) : ∀ table ∈ row.tables, I.Good table.2 :=
  (holds_iff.1 h).1

theorem groups (h : row.Holds I.value) : ∀ key ∈ row.groups.getD [], I.Good key.2 :=
  (holds_iff.1 h).2.1

theorem items (h : row.Holds I.value) : ∀ items ∈ row.items, I.Good (.rows items) :=
  (holds_iff.1 h).2.2

/-- A row that is no group's and has no members. -/
theorem of_tables {tables : List (String × Value)} (h : ∀ table ∈ tables, I.Good table.2) :
    (Row.mk tables none none).Holds I.value :=
  holds_iff.2 ⟨h, fun _ hm => absurd hm List.not_mem_nil, fun _ hm => nomatch hm⟩

@[simp] theorem empty : Row.empty.Holds I.value :=
  of_tables fun _ hm => absurd hm List.not_mem_nil

theorem single {v : Value} (h : I.Good v) (table : String) : (Row.single table v).Holds I.value :=
  of_tables (List.forall_mem_singleton.2 h)

theorem merge (h : row.Holds I.value) (ho : other.Holds I.value) :
    (row.merge other).Holds I.value :=
  of_tables (Entries.forall_setAll h.tables ho.tables)

/-- The row in which aliases are bound to null. -/
theorem missing (aliases : List String) : (Relation.missingRow aliases).Holds I.value := by
  refine of_tables (Entries.forall_ofList fun entry hm => ?_)
  obtain ⟨table, -, rfl⟩ := List.mem_map.1 hm
  exact good_null

/-- The rows that an aggregate combines hold what the row holds. -/
theorem members (h : row.Holds I.value) : ∀ member ∈ row.members, member.Holds I.value := by
  rw [Row.members]
  cases inside : row.items with
  | none => exact List.forall_mem_singleton.2 h
  | some items => exact (Value.Everywhere.rows_iff.1 (h.items items inside)).2

/-- What is put into a row as its members. -/
theorem withItems (h : row.Holds I.value) {list : List Row} (hl : I.Good (.rows list)) :
    Row.Holds I.value { row with items := some list } :=
  holds_iff.2 ⟨h.tables, h.groups, fun _ hm => Option.mem_some.1 hm ▸ hl⟩

theorem ofGroup {keys : Record} (hk : ∀ key ∈ keys, I.Good key.2) {list : List Row}
    (hl : I.Good (.rows list)) : (Row.ofGroup keys list).Holds I.value := by
  refine holds_iff.2 ⟨?_, hk, fun _ hm => Option.mem_some.1 hm ▸ hl⟩
  have inside := (Value.Everywhere.rows_iff.1 hl).2
  cases list with
  | nil => exact fun _ hm => absurd hm List.not_mem_nil
  | cons first rest => exact (inside first (List.mem_cons_self ..)).tables

theorem groupKey? (h : row.Holds I.value) {name : String} {v : Value}
    (hv : row.groupKey? name = some v) : I.Good v := by
  obtain ⟨keys, hk, hv⟩ := Option.bind_eq_some_iff.1 hv
  exact h.groups (name, v) (hk ▸ Entries.mem_of_get? hv)

theorem lookup (h : row.Holds I.value) (field : String) : I.Good (row.lookup field) := by
  rw [Row.lookup]
  split
  · next v found => exact h.groupKey? found
  · refine good_getD fun v hv => ?_
    obtain ⟨table, hm, hv⟩ := List.exists_of_findSome?_eq_some hv
    exact (h.tables table hm).lookupPath? hv

theorem lookupQualified (h : row.Holds I.value) (table field : String) :
    I.Good (row.lookupQualified table field) := by
  rw [Row.lookupQualified]
  split
  · next v found => exact h.groupKey? found
  · refine good_getD fun v hv => ?_
    obtain ⟨record, hr, hv⟩ := Option.bind_eq_some_iff.1 hv
    exact (h.tables _ (Entries.mem_of_get? hr)).lookupPath? hv

theorem fieldsOf {v : Value} (h : I.Good v) : ∀ field ∈ Row.fieldsOf v, I.Good field.2 := by
  cases v with
  | object fields => exact good_object_iff.1 h
  | _ => exact fun _ hm => absurd hm List.not_mem_nil

theorem flatten (h : row.Holds I.value) : ∀ field ∈ row.flatten, I.Good field.2 := by
  have keys : ∀ field ∈ Entries.setAllMissing [] (row.groups.getD []), I.Good field.2 :=
    Entries.forall_setAllMissing (fun _ hm => absurd hm List.not_mem_nil) h.groups
  exact List.foldlRecOn (motive := fun out : Record => ∀ field ∈ out, I.Good field.2)
    row.tables _ keys fun _ out table hm =>
      Entries.forall_setAllMissing out (fieldsOf (h.tables table hm))

/-- Under another alias a row holds what it held. -/
theorem renameRow (h : row.Holds I.value) (table : String) :
    (Relation.renameRow table row).Holds I.value := by
  rw [Relation.renameRow.eq_def]
  split
  · next name record only _ => exact single (h.tables (name, record) (by simp [only])) table
  · exact single (good_object_iff.2 h.flatten) table

end Row.Holds

/-! ## Relations -/

/-- An invariant that allows relations has them good if their rows are. -/
theorem Invariant.good_rows_iff {I : Invariant} (rows : ∀ list, I.value (.rows list))
    {list : List Row} : I.Good (.rows list) ↔ ∀ row ∈ list, row.Holds I.value :=
  Value.Everywhere.rows_iff.trans (and_iff_right (rows list))

namespace Relation

variable {I : Invariant}

open Invariant

/-- The rows that a good value stands for. -/
theorem holds_toRows? {v : Value} (hv : I.Good v) {table : String} {list : List Row}
    (h : v.toRows? table = some list) : ∀ row ∈ list, row.Holds I.value := by
  cases v <;> simp only [Value.toRows?, Option.some.injEq, reduceCtorEq] at h <;> subst h
  case rows list => exact (Value.Everywhere.rows_iff.1 hv).2
  case null => exact fun _ hm => absurd hm List.not_mem_nil
  case array items =>
    intro row hm
    obtain ⟨item, hi, rfl⟩ := List.mem_map.1 hm
    exact .single (good_array_iff.1 hv item hi) table

theorem good_rename (rows : ∀ list, I.value (.rows list)) (table : String) {v : Value}
    (hv : I.Good v) : I.Good (rename table v) := by
  cases v with
  | rows list =>
    refine (good_rows_iff rows).2 fun row hm => ?_
    obtain ⟨old, ho, rfl⟩ := List.mem_map.1 hm
    exact ((Value.Everywhere.rows_iff.1 hv).2 old ho).renameRow table
  | array items =>
    refine (good_rows_iff rows).2 fun row hm => ?_
    obtain ⟨item, hi, rfl⟩ := List.mem_map.1 hm
    exact .single (good_array_iff.1 hv item hi) table
  | _ => exact hv

/-- The fields that stand for a whole row are fields of its tables. -/
theorem good_firstRecord {env : Environment}
    (tables : ∀ row ∈ env.row, ∀ table ∈ row.tables, I.Good table.2) :
    ∀ field ∈ firstRecord env, I.Good field.2 := by
  rw [firstRecord]
  split
  · next name record first =>
    obtain ⟨row, here, first⟩ := Option.bind_eq_some_iff.1 first
    exact Row.Holds.fieldsOf (tables row here _ (List.mem_of_mem_head? first))
  · exact fun _ hm => absurd hm List.not_mem_nil

theorem good_qualifiedRecord {env : Environment}
    (tables : ∀ row ∈ env.row, ∀ table ∈ row.tables, I.Good table.2) (table : String) :
    ∀ field ∈ qualifiedRecord env table, I.Good field.2 := by
  rw [qualifiedRecord]
  split
  · next record found =>
    obtain ⟨row, here, found⟩ := Option.bind_eq_some_iff.1 found
    refine List.forall_mem_map.2 fun field hf => ?_
    exact Row.Holds.fieldsOf (tables row here _ (Entries.mem_of_get? found)) field hf
  · exact fun _ hm => absurd hm List.not_mem_nil

/-- The keys of a group are keys of its first member. -/
theorem good_groupKeys (names : List String) {members : List Keyed}
    (keys : ∀ k ∈ members, ∀ v ∈ k.keys, I.Good v) :
    ∀ key ∈ Entries.ofList (names.zip ((members.head?.map Keyed.keys).getD [])), I.Good key.2 := by
  refine Entries.forall_ofList fun key h => ?_
  have value := (List.of_mem_zip h).2
  cases first : members.head? with
  | none => simp [first] at value
  | some k =>
    rw [first] at value
    exact keys k (List.mem_of_mem_head? first) _ value

/-- The items of branches are items of one of them. -/
theorem good_arrayItems? {values : List Value} (hv : ∀ v ∈ values, I.Good v) {items : List Value}
    (h : arrayItems? values = some items) : ∀ item ∈ items, I.Good item := by
  induction values generalizing items with
  | nil => exact Option.some.inj h ▸ fun _ hm => absurd hm List.not_mem_nil
  | cons v rest ih =>
    have others : ∀ {items}, arrayItems? rest = some items → ∀ item ∈ items, I.Good item :=
      fun h => ih (fun w hw => hv w (List.mem_cons_of_mem _ hw)) h
    cases v with
    | array first =>
      obtain ⟨more, hm, rfl⟩ := Option.map_eq_some_iff.1 h
      have here := good_array_iff.1 (hv _ (List.mem_cons_self ..))
      exact List.forall_mem_append.2 ⟨here, others hm⟩
    | null => exact others h
    | _ => exact nomatch h

end Relation

/-! ## Windows -/

/-- All rows that a window call can see have a property. -/
def WindowState.Holds (P : Value → Prop) : WindowState → Prop
  | .source rows _ => ∀ row ∈ rows, row.Holds P
  | .frame f => ∀ member ∈ f.partition, member.2.Holds P
  | .compiling => True

/-- What every value has, all rows have. -/
theorem Row.Holds.of_forall {P : Value → Prop} (h : ∀ v, P v) (row : Row) : row.Holds P :=
  fun v _ => .of_forall h v

/-- What every value has, all rows that a window call can see have. -/
theorem WindowState.Holds.of_forall {P : Value → Prop} (h : ∀ v, P v) (w : WindowState) :
    w.Holds P := by
  cases w with
  | source rows index => exact fun row _ => .of_forall h row
  | frame f => exact fun member _ => .of_forall h member.2
  | compiling => exact trivial

/-- The rows of a frame are rows of its partition. -/
theorem Frame.forall_rows {P : Row → Prop} {f : Frame} (h : ∀ member ∈ f.partition, P member.2) :
    ∀ row ∈ f.rows, P row := by
  rw [Frame.rows]
  split
  · intro row hm
    obtain ⟨member, inside, rfl⟩ := List.mem_map.1 hm
    exact h member (List.mem_of_mem_take (List.mem_of_mem_drop inside))
  · exact fun _ hm => absurd hm List.not_mem_nil

theorem Value.materializeList_eq_map (values : List Value) :
    materializeList values = values.map materialize := by
  induction values with
  | nil => rfl
  | cons v rest ih => rw [materializeList, ih, List.map_cons]

theorem Value.materializeFields_eq_map (fields : List (String × Value)) :
    materializeFields fields = fields.map fun field => (field.1, field.2.materialize) := by
  induction fields with
  | nil => rfl
  | cons field rest ih => rw [materializeFields, ih, List.map_cons]

/-- Putting an item in its place adds nothing else. -/
theorem mem_insertByKeys {α : Type} {descending : List Bool} {item other : List Value × α}
    {list : List (List Value × α)} (h : other ∈ insertByKeys descending item list) :
    other = item ∨ other ∈ list := by
  induction list with
  | nil => exact .inl (List.mem_singleton.1 h)
  | cons first rest ih =>
    rw [insertByKeys] at h
    split at h
    · rcases List.mem_cons.1 h with rfl | h
      · exact .inr (List.mem_cons_self ..)
      · exact (ih h).imp_right (List.mem_cons_of_mem _)
    · exact List.mem_cons.1 h

/-- What is sorted was there before. -/
theorem mem_of_mem_sortByKeys {α : Type} {descending : List Bool} {item : List Value × α}
    {list : List (List Value × α)} (h : item ∈ sortByKeys descending list) : item ∈ list := by
  induction list with
  | nil => exact h
  | cons first rest ih =>
    rcases mem_insertByKeys h with rfl | h
    · exact List.mem_cons_self ..
    · exact List.mem_cons_of_mem _ (ih h)

end QueryForms
