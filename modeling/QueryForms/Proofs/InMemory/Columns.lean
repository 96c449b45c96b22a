import QueryForms.Proofs.Entries
import QueryForms.Proofs.InMemory.Places
import QueryForms.Proofs.InMemory.Windows

/-!
# Columns of a projection

A field of a projection that is no wildcard makes one column: its output name and its value on the row
(`Relation.yields_project_column`). The columns are bound in one record, so of two columns of one name
the later one is left. Each field has its value under a name of its own if and only if no two fields
have the same output name (`InMemory.select_reads_back`).
-/

namespace QueryForms

/-! ## Reading columns back -/

namespace Entries

variable {α : Type} {columns : Entries α}

/-- Values that entries hold under names of their own, one for each. -/
def ReadsBack (values : List α) (entries : Entries α) : Prop :=
  ∃ names : List String, names.Nodup ∧ names.map (get? entries) = values.map some

/-- Columns of different names are read under these. -/
theorem readsBack_ofList (once : (keys columns).Nodup) :
    ReadsBack (columns.map Prod.snd) (ofList columns) := by
  refine ⟨keys columns, once, ?_⟩
  rw [keys, List.map_map, List.map_map]
  refine List.map_congr_left fun column inside => ?_
  obtain ⟨before, after, rfl⟩ := List.append_of_mem inside
  rw [keys, List.map_append, List.map_cons] at once
  have last : column.1 ∉ keys after := (List.nodup_cons.1 (List.nodup_append.1 once).2.1).1
  exact get?_setAll_of_last [] before after last

/-- There are as many names as columns only if no two columns have the same one. -/
theorem nodup_keys_of_readsBack (read : ReadsBack (columns.map Prod.snd) (ofList columns)) :
    (keys columns).Nodup := by
  obtain ⟨names, distinct, values⟩ := read
  have bound : names ⊆ keys (ofList columns) := fun name inside => by
    obtain ⟨value, -, found⟩ := List.mem_map.1 (values ▸ List.mem_map_of_mem inside)
    exact List.mem_map_of_mem (f := Prod.fst) (mem_of_get? found.symm)
  have own : keys (ofList columns) ⊆ keys columns := fun name inside =>
    (mem_keys_setAll.1 inside).resolve_left List.not_mem_nil
  have once : (keys (ofList columns)).Nodup := 
    nodup_keys_setAll (show (keys ([] : Entries α)).Nodup from .nil) columns
  -- The names that are bound are among those of the columns; the names read are as many as columns.
  have enough : (keys columns).length ≤ (keys (ofList columns)).length :=
    calc (keys columns).length = names.length := by
          have counted := congrArg List.length values
          rw [List.length_map, List.length_map, List.length_map] at counted
          rw [counted, keys, List.length_map]
      _ ≤ (keys (ofList columns)).length := (distinct.subperm bound).length_le
  exact ((once.subperm own).perm_of_length_le enough).nodup_iff.1 once

theorem readsBack_iff :
    ReadsBack (columns.map Prod.snd) (ofList columns) ↔ (keys columns).Nodup :=
  ⟨nodup_keys_of_readsBack, readsBack_ofList⟩

end Entries

/-! ## Columns -/

/-- Whether a field stands for all fields of a row or of a table. -/
def Expr.IsWildcard (field : Expr) : Prop :=
  ∃ s, field.asName? = some s ∧ (s = "*" ∨ (Relation.tableOfWildcard? s).isSome)

namespace Relation

/-- What a field adds to a record: its name and its value. -/
def IsColumn (eval : Evaluator) (env : Environment) (field : Expr) (column : String × Value) : Prop :=
  column.1 = outputName env field ∧ eval field.fieldValue env = .ok column.2

variable {eval : Evaluator} {env : Environment} {field : Expr} {fields : List Expr}

/-- Other symbols stand for no fields of a row. -/
theorem wildcard?_eq_none (plain : ¬ field.IsWildcard) :
    field.asName?.bind (wildcard? env) = none := by
  cases named : field.asName? with
  | none => rfl
  | some s =>
    have other : ¬ (s = "*" ∨ (tableOfWildcard? s).isSome) := fun h => plain ⟨s, named, h⟩
    obtain ⟨notAll, notTable⟩ := not_or.1 other
    have notRow : s ≠ ":*" := fun same => notTable (same ▸ rfl)
    rw [Option.bind_some, wildcard?, if_neg (not_or.2 ⟨notAll, notRow⟩),
      Option.not_isSome_iff_eq_none.1 notTable]
    rfl

theorem aliasName_eq_ok {e : Expr} {name : String} (h : aliasName e = .ok name) :
    e.asName? = some name := by
  rw [aliasName.eq_def] at h
  split at h
  · next found =>
    cases h
    exact found
  · cases h

/-- Under an alias a column has the alias as its name. -/
theorem outputName_of_aliased {target : Expr} {name : String}
    (named : field.isCall .aliased = true) (first : field.operands.head? = some target)
    (spelled : target.asName? = some name) : outputName env field = name := by
  simp only [outputName, named, if_true, first, Option.bind_some, spelled]

/-- A field that is no wildcard makes one column. -/
theorem yields_project_column (plain : ¬ field.IsWildcard) :
    Yields (project eval env field) fun record =>
      ∃ column, record = [column] ∧ IsColumn eval env field column := by
  rw [project]
  split
  · next named =>
    refine .bind (.itself (clauseOperands "$as" field.operands)) fun pair both => ?_
    refine .bind (.itself (aliasName pair.1)) fun name spelled => ?_
    refine .bind (.itself (eval pair.2 env)) fun v value => Yields.pure_iff.2 ⟨_, rfl, ?_, ?_⟩
    · have head : field.operands.head? = some pair.1 := by rw [clauseOperands_eq_ok both]; rfl
      exact (outputName_of_aliased named head (aliasName_eq_ok spelled)).symm
    · rw [Expr.fieldValue, if_pos named, clauseOperands_eq_ok both]
      exact value
  · next other =>
    rw [wildcard?_eq_none plain]
    refine .bind (.itself (eval field env)) fun v value => Yields.pure_iff.2 ⟨_, rfl, rfl, ?_⟩
    rw [Expr.fieldValue, if_neg other]
    exact value

/-- Records of one column each hold the columns, one after the other. -/
theorem forall₂_flatten {list : List Expr} {P : Expr → String × Value → Prop} {added : List Record}
    (each : List.Forall₂ (fun field record => ∃ column, record = [column] ∧ P field column)
      list added) : List.Forall₂ P list added.flatten := by
  induction each with
  | nil => exact .nil
  | cons first _ ih =>
    obtain ⟨column, rfl, here⟩ := first
    exact .cons here ih

/-- A record binds the columns of its fields one after the other. -/
theorem yields_projectAll_columns (plain : ∀ field ∈ fields, ¬ field.IsWildcard) :
    Yields (projectAll eval fields env) fun record =>
      ∃ columns out : Record, record = .object out ∧
        List.Forall₂ (IsColumn eval env) fields columns ∧
        (fields ≠ [] → out = Entries.ofList columns) := by
  refine .bind (.forall₂_mapM fun field inside => yields_project_column (plain field inside))
    fun added each => Yields.pure_iff.2 ⟨added.flatten, _, rfl, forall₂_flatten each, fun filled => ?_⟩
  have start : fields.isEmpty = false := Bool.eq_false_of_not_eq_true (mt List.isEmpty_iff.1 filled)
  rw [start]
  exact List.foldl_flatten.symm

/-- Output names depend on the declared tokens only, and so are the same on every row. -/
theorem outputName_rowScope (env : Environment) (rows : List Row) (windowed : Bool)
    (member : Nat × Row) : outputName (rowScope env rows windowed member) = outputName env := by
  funext e
  obtain ⟨w, scope⟩ := rowScope_eq env rows windowed member
  rw [scope]
  rfl

end Relation

/-! ## Projections -/

namespace InMemory

section

variable {env : Environment} {fieldList source : Expr} {rows : List Row}

/-- Without wildcards every record of a projection is made of the columns of its fields. The values of
all fields are read back from it, each under a name of its own, if and only if no two fields have the
same output name. -/
theorem select_reads_back
    (sourced : Relation.sourceRows interpretation.evaluate source env = .ok rows)
    (plain : ∀ field ∈ fieldList.itemsOrNone, ¬ field.IsWildcard) {result : Value}
    (evaluated : evaluateIn env (.list [.symbol "$select", fieldList, source]) = .ok result) :
    ∃ records, result = .array records ∧
      List.Forall₂ (fun member record => ∃ columns out : Record, record = .object out ∧
        List.Forall₂ (Relation.IsColumn interpretation.evaluate
            (Relation.rowScope env (Relation.selectedRows fieldList.itemsOrNone rows)
              (fieldList.itemsOrNone.any Expr.isWindowed) member)) fieldList.itemsOrNone columns ∧
        (fieldList.itemsOrNone ≠ [] → out = Entries.ofList columns) ∧
        (Entries.ReadsBack (columns.map Prod.snd) out
          ↔ (fieldList.itemsOrNone.map (Relation.outputName env)).Nodup))
      (Windowed.indexed (Relation.selectedRows fieldList.itemsOrNone rows)) records := by
  obtain ⟨records, rfl, made⟩ := (Relation.select_eq_ok_iff sourced).1
    ((evaluate_call .select rfl [fieldList, source] env).symm.trans evaluated)
  refine ⟨records, rfl, made.imp fun member record projected => ?_⟩
  obtain ⟨columns, out, rfl, columned, bound⟩ :=
    Relation.yields_projectAll_columns plain record projected
  refine ⟨columns, out, rfl, columned, bound, ?_⟩
  have named : fieldList.itemsOrNone.map (Relation.outputName env) = Entries.keys columns := by
    rw [← List.forall₂_eq_eq_eq, Entries.keys, List.forall₂_map_left_iff, List.forall₂_map_right_iff]
    exact columned.imp fun field column here =>
      (here.1.trans (congrFun (Relation.outputName_rowScope ..) field)).symm
  rw [named]
  by_cases none : fieldList.itemsOrNone = []
  · rw [none] at columned
    cases columned
    exact iff_of_true ⟨[], .nil, rfl⟩ .nil
  · rw [bound none]
    exact Entries.readsBack_iff

/-- A field and one under an alias. -/
theorem columns_of_two_names :
    ∃ out : Record, evaluateIn (Environment.ofContext []) (.list [.symbol "$select",
        .list [.symbol ":a", .list [.symbol "$as", .symbol "x", .symbol ":b"]],
        .quoted [.object [("a", .integer 1), ("b", .integer 2)]]]) = .ok (.array [.object out]) ∧
      Entries.ReadsBack [.integer 1, .integer 2] out := by
  have sourced : Relation.sourceRows interpretation.evaluate
      (.quoted [.object [("a", .integer 1), ("b", .integer 2)]]) (Environment.ofContext [])
        = .ok [Row.single "" (.object [("a", .integer 1), ("b", .integer 2)])] := rfl
  have plain : ∀ field ∈ (Expr.list [.symbol ":a",
      .list [.symbol "$as", .symbol "x", .symbol ":b"]]).itemsOrNone, ¬ field.IsWildcard := by
    refine List.forall_mem_cons.2 ⟨?_, List.forall_mem_singleton.2 ?_⟩
    · rintro ⟨_, ⟨⟩, wild⟩
      exact absurd wild (by decide)
    · rintro ⟨_, ⟨⟩, _⟩
  have names : ([Expr.symbol ":a", .list [.symbol "$as", .symbol "x", .symbol ":b"]].map
      (Relation.outputName (Environment.ofContext []))).Nodup :=
    (show ["a", "x"].Nodup by decide)
  have evaluated : evaluateIn (Environment.ofContext []) (.list [.symbol "$select",
      .list [.symbol ":a", .list [.symbol "$as", .symbol "x", .symbol ":b"]],
      .quoted [.object [("a", .integer 1), ("b", .integer 2)]]])
        = .ok (.array [.object [("a", .integer 1), ("x", .integer 2)]]) := rfl
  obtain ⟨records, same, made⟩ := select_reads_back sourced plain evaluated
  cases same
  cases made with
  | cons first rest =>
    obtain ⟨columns, out, ⟨⟩, columned, -, read⟩ := first
    cases columned with
    | cons first rest =>
      cases rest with
      | cons second rest =>
        cases rest
        have values := congrArg₂ (fun v w => [v, w])
          (Except.ok.inj (first.2.symm.trans rfl) : _ = Value.integer 1)
          (Except.ok.inj (second.2.symm.trans rfl) : _ = Value.integer 2)
        exact ⟨_, evaluated, values ▸ read.2 names⟩

/-- Of two fields of one output name the later one is left, and the value of the other is nowhere. -/
theorem column_of_one_name :
    ∃ row : Row, evaluateIn (environment [] (.list [.symbol "@u", .symbol "@o"]))
        (.list [.symbol "$join",
          .list [.symbol "$as", .symbol "o", .quoted [.object [("name", .string "pen")]]], .list [],
          .list [.symbol "$as", .symbol "u", .quoted [.object [("name", .string "Ada")]]]])
        = .ok (.rows [row]) ∧
      evaluateIn ((environment [] (.list [.symbol "@u", .symbol "@o"])).surround row)
        (.symbol "u:name") = .ok (.string "Ada") ∧
      evaluateIn ((environment [] (.list [.symbol "@u", .symbol "@o"])).surround row)
        (.symbol "o:name") = .ok (.string "pen") ∧
      evaluateIn (environment [] (.list [.symbol "@u", .symbol "@o"]))
        (.list [.symbol "$select", .list [.symbol "u:name", .symbol "o:name"],
          .list [.symbol "$join",
            .list [.symbol "$as", .symbol "o", .quoted [.object [("name", .string "pen")]]], .list [],
            .list [.symbol "$as", .symbol "u", .quoted [.object [("name", .string "Ada")]]]]])
        = .ok (.array [.object [("name", .string "pen")]]) ∧
      ¬ Entries.ReadsBack [Value.string "Ada", .string "pen"] [("name", .string "pen")] := by
  refine ⟨_, rfl, rfl, rfl, rfl, fun read => ?_⟩
  have once : (Entries.keys [("name", Value.string "Ada"), ("name", .string "pen")]).Nodup :=
    Entries.nodup_keys_of_readsBack read
  exact absurd once (show ¬ ["name", "name"].Nodup by decide)

end

end InMemory

end QueryForms
