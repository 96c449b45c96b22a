import QueryForms.Proofs.InMemory.Groups

/-!
# Projections

A projection has a record for each row that it shows, in order (`select_eq_ok_iff`). Of a relation
with groups it shows every row; conditions on groups leave nothing but groups (`yields_havings`). So
there is a record for each group that the conditions leave, but one of no rows at all where they leave
none and a field combines rows (`select_of_groups`).
-/

namespace QueryForms

namespace Expr

/-- A source under conditions on its groups, the last one first. -/
def havings (conditions : List Expr) (source : Expr) : Expr :=
  conditions.foldr (fun condition e => .list [.symbol "$having", condition, e]) source

end Expr

namespace Relation

section

variable {eval : Evaluator} {env : Environment} {fieldList e : Expr} {rows : List Row}

theorem sourceRows_of_rows (evaluated : eval e env = .ok (.rows rows)) :
    sourceRows eval e env = .ok rows := by
  rw [sourceRows, evaluated]
  rfl

/-- A projection has a record for each row that it shows. -/
theorem select_eq_ok_iff {result : Value} (source : sourceRows eval e env = .ok rows) :
    select eval [fieldList, e] env = .ok result
      ↔ ∃ records, result = .array records ∧
        List.Forall₂ (fun member record => projectAll eval fieldList.itemsOrNone
            (rowScope env (selectedRows fieldList.itemsOrNone rows)
              (fieldList.itemsOrNone.any Expr.isWindowed) member) = .ok record)
          (Windowed.indexed (selectedRows fieldList.itemsOrNone rows)) records := by
  have records : select eval [fieldList, e] env
      = ((Windowed.indexed (selectedRows fieldList.itemsOrNone rows)).mapM fun member =>
          projectAll eval fieldList.itemsOrNone
            (rowScope env (selectedRows fieldList.itemsOrNone rows)
              (fieldList.itemsOrNone.any Expr.isWindowed) member)).map .array := by
    simp only [select, source, bind, Except.bind, pure, Except.pure]
    rfl
  simp only [records, map_eq_ok_iff, mapM_eq_ok_iff]

/-- Groups are shown as they are; where there are none, a field that combines rows shows one of no
rows. -/
theorem selectedRows_of_grouped (fields : List Expr) {groups : List Row}
    (grouped : ∀ group ∈ groups, group.isGrouped = true) :
    (groups ≠ [] → selectedRows fields groups = groups) ∧
      (groups = [] → selectedRows fields groups
        = if fields.any Expr.isAggregated then [Row.ofGroup [] []] else []) := by
  refine ⟨fun filled => ?_, fun none => ?_⟩
  · obtain ⟨group, inside⟩ := List.exists_mem_of_ne_nil _ filled
    have some : groups.any Row.isGrouped = true :=
      List.any_eq_true.2 ⟨group, inside, grouped group inside⟩
    rw [selectedRows, some, Bool.not_true, Bool.and_false]
    rfl
  · rw [none, selectedRows, List.any_nil, Bool.not_false, Bool.and_true]

/-- A condition keeps some of the rows, in order. -/
theorem yields_keep {α : Type} (test : α → Result Bool) (list : List α) :
    Yields (keep test list) fun kept => kept.Sublist list := by
  induction list with
  | nil => exact Yields.ok_iff.2 (.refl _)
  | cons item rest ih =>
    refine .bind (.trivial (test item)) fun kept _ => .bind ih fun others sublist => ?_
    refine Yields.pure_iff.2 ?_
    cases kept
    · exact sublist.cons item
    · exact sublist.cons_cons item

/-- A test that succeeds on all items keeps those on which it holds. -/
theorem keep_eq_ok {α : Type} {test : α → Result Bool} {kept : α → Bool} {list : List α}
    (tested : ∀ item ∈ list, test item = .ok (kept item)) :
    keep test list = .ok (list.filter kept) := by
  induction list with
  | nil => rfl
  | cons item rest ih =>
    obtain ⟨first, tested⟩ := List.forall_mem_cons.1 tested
    rw [keep, first, ih tested, List.filter_cons]
    rfl

/-- A condition that has a value on a row holds if it is truthy or stands for nothing. -/
theorem holds_eq_ok {condition : Expr} {v : Value} {row : Row}
    (tested : eval condition (env.surround row) = .ok v) :
    holds eval condition env row = .ok (condition.isEmpty || v.isTruthy) := by
  rw [holds]
  split
  · next empty => rw [empty, Bool.true_or]
  · next filled =>
    rw [tested, Bool.eq_false_of_not_eq_true filled, Bool.false_or]
    rfl

/-- A condition that has a value on every row of a source keeps the rows on which it is truthy. -/
theorem filterRows_eq_ok (op : String) {condition : Expr} {value : Row → Value}
    (source : sourceRows eval e env = .ok rows)
    (tested : ∀ row ∈ rows, eval condition (env.surround row) = .ok (value row)) :
    filterRows op eval [condition, e] env
      = .ok (.rows (rows.filter fun row => condition.isEmpty || (value row).isTruthy)) := by
  have held : ∀ row ∈ rows, holds eval condition env row
      = .ok (condition.isEmpty || (value row).isTruthy) := fun row hr => holds_eq_ok (tested row hr)
  simp only [filterRows, clauseOperands, bind, Except.bind, source, keep_eq_ok held]
  rfl

/-- Whether a value is a relation of groups. -/
def AllGrouped (v : Value) : Prop :=
  ∃ groups, v = .rows groups ∧ ∀ group ∈ groups, group.isGrouped = true

theorem yields_group (keyList : Expr) : Yields (group eval [keyList, e] env) AllGrouped := by
  refine .bind (.itself (clauseOperands "$group" [keyList, e])) fun _ operands => ?_
  cases operands
  refine .bind (.trivial (sourceRows eval e env)) fun rows _ => .bind (.trivial _) fun keyed _ => ?_
  refine Yields.pure_iff.2 ⟨_, rfl, fun group h => ?_⟩
  obtain ⟨members, -, rfl⟩ := List.mem_map.1 h
  rfl

/-- A condition on groups leaves groups. -/
theorem yields_filterRows {op : String} {condition : Expr} (source : Yields (eval e env) AllGrouped) :
    Yields (filterRows op eval [condition, e] env) AllGrouped := by
  have rows : Yields (sourceRows eval e env) fun rows => ∀ row ∈ rows, row.isGrouped = true := by
    refine .bind source fun v grouped => ?_
    obtain ⟨groups, rfl, grouped⟩ := grouped
    exact Yields.pure_iff.2 grouped
  refine .bind (.itself (clauseOperands op [condition, e])) fun _ operands => ?_
  cases operands
  refine .bind rows fun groups grouped => .bind (yields_keep _ groups) fun kept sublist => ?_
  exact Yields.pure_iff.2 ⟨kept, rfl, fun group h => grouped group (sublist.subset h)⟩

end

end Relation

namespace InMemory

/-- Groups under conditions are groups. -/
theorem yields_havings (env : Environment) (conditions : List Expr) (keyList source : Expr) :
    Yields (interpretation.evaluate
        (Expr.havings conditions (.list [.symbol "$group", keyList, source])) env)
      Relation.AllGrouped := by
  induction conditions with
  | nil =>
    rw [Expr.havings, List.foldr_nil]
    exact evaluate_call .group rfl [keyList, source] env ▸ Relation.yields_group keyList
  | cons condition rest ih =>
    rw [Expr.havings, List.foldr_cons, ← Expr.havings]
    exact evaluate_call .having rfl [condition, _] env ▸ Relation.yields_filterRows ih

/-- A projection of groups, under any conditions, has a record for each of them, in order. Where the
conditions leave none, it has none either, but one record of no rows if a field combines rows. -/
theorem select_of_groups (env : Environment) (fieldList keyList source : Expr)
    (conditions : List Expr) {v : Value}
    (evaluated : evaluateIn env
      (Expr.havings conditions (.list [.symbol "$group", keyList, source])) = .ok v) :
    ∃ groups shown, v = .rows groups ∧
      (groups ≠ [] → shown = groups) ∧
      (groups = [] → shown
        = if fieldList.itemsOrNone.any Expr.isAggregated then [Row.ofGroup [] []] else []) ∧
      ∀ result,
        evaluateIn env (.list [.symbol "$select", fieldList,
            Expr.havings conditions (.list [.symbol "$group", keyList, source])]) = .ok result
          ↔ ∃ records, result = .array records ∧
            List.Forall₂ (fun member record =>
                Relation.projectAll interpretation.evaluate fieldList.itemsOrNone
                  (Relation.rowScope env shown (fieldList.itemsOrNone.any Expr.isWindowed) member)
                    = .ok record)
              (Windowed.indexed shown) records := by
  obtain ⟨groups, rfl, grouped⟩ := yields_havings env conditions keyList source v evaluated
  obtain ⟨some, none⟩ := Relation.selectedRows_of_grouped fieldList.itemsOrNone grouped
  refine ⟨groups, Relation.selectedRows fieldList.itemsOrNone groups, rfl, some, none,
    fun result => ?_⟩
  rw [← Relation.select_eq_ok_iff (Relation.sourceRows_of_rows evaluated)]
  exact Eq.congr_left (evaluate_call .select rfl [fieldList, _] env)

/-- Of two cities the one with two records makes the one record. -/
theorem record_of_greater_city :
    ∃ env, evaluateIn env (.list [.symbol "$select",
        .list [.symbol ":city", .list [.symbol "$count", .symbol "*"]],
        Expr.havings [.list [.symbol ">", .list [.symbol "$count", .symbol "*"],
            .literal (.integer 1)]]
          (.list [.symbol "$group", .list [.symbol ":city"],
            .quoted [.object [("id", .integer 1), ("city", .string "A")],
              .object [("id", .integer 2), ("city", .string "B")],
              .object [("id", .integer 3), ("city", .string "A")]]])])
      = .ok (.array [.object [("city", .string "A"), ("count", .integer 2)]]) := by
  obtain ⟨groups, shown, same, filled, -, records⟩ := select_of_groups
    (environment [] (.list [.symbol ":city"]))
    (.list [.symbol ":city", .list [.symbol "$count", .symbol "*"]])
    (.list [.symbol ":city"])
    (.quoted [.object [("id", .integer 1), ("city", .string "A")],
      .object [("id", .integer 2), ("city", .string "B")],
      .object [("id", .integer 3), ("city", .string "A")]])
    [.list [.symbol ">", .list [.symbol "$count", .symbol "*"], .literal (.integer 1)]] rfl
  cases same
  cases filled nofun
  exact ⟨_, (records _).2 ⟨_, rfl, .cons rfl .nil⟩⟩

/-- Where no group is left, a field that combines rows makes a record all the same. -/
theorem record_of_no_groups :
    evaluate (Expr.havings [.list [.symbol ">", .list [.symbol "$count", .symbol "*"],
          .literal (.integer 5)]]
        (.list [.symbol "$group", .list [.symbol ":city"],
          .quoted [.object [("id", .integer 1), ("city", .string "A")]]])) []
      = .ok (.array []) ∧
    evaluate (.list [.symbol "$select",
        .list [.symbol ":city", .list [.symbol "$count", .symbol "*"]],
        Expr.havings [.list [.symbol ">", .list [.symbol "$count", .symbol "*"],
            .literal (.integer 5)]]
          (.list [.symbol "$group", .list [.symbol ":city"],
            .quoted [.object [("id", .integer 1), ("city", .string "A")]]])]) []
      = .ok (.array [.object [("city", .null), ("count", .integer 0)]]) :=
  ⟨rfl, rfl⟩

end InMemory

end QueryForms
