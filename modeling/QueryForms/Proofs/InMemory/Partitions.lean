import QueryForms.Proofs.InMemory.Frames
import QueryForms.Proofs.InMemory.WindowOrder

/-!
# Aggregates over partitions

A window call over a partition alone shows its function all rows of the partition, in their order
(`Windowed.rows_frameFor_whole`). A group of the same keys has the same members. So an aggregate has
the value on each row of a partition that it has on the group (`aggregates_of_partition`).
-/

namespace QueryForms

open Interpretation (evaluateAll)

/-! ## Whole partitions -/

/-- Sorting by no keys changes nothing. -/
theorem sortByKeys_nil {α : Type} (descending : List Bool) (items : List α) :
    sortByKeys descending (items.map fun item => ([], item))
      = items.map fun item => ([], item) := by
  induction items with
  | nil => rfl
  | cons item rest ih =>
    rw [List.map_cons, sortByKeys, List.foldr_cons, ← sortByKeys, ih]
    cases rest with
    | nil => rfl
    | cons other rest =>
      have level : compareKeys descending [] [] ≠ .gt := by simp [compareKeys]
      rw [List.map_cons, insertByKeys, if_neg level]

/-- A row of a partition without an order and a frame sees all rows of the partition. -/
theorem Windowed.rows_frameFor_whole (keys : List Expr) (key : Row → List Value) {rows : List Row}
    {member : Nat × Row} (inside : member ∈ indexed rows) (short : rows.length ≤ Bound.farthest) :
    (frameFor ⟨keys, [], none⟩ key (fun _ => []) rows member).rows
      = Relation.companions key rows member.2 := by
  have whole : placed ⟨keys, [], none⟩ key (fun _ => []) rows member.2
      = partition key rows member.2 := by
    rw [placed, sortedBy, sortByKeys_nil, List.map_map]
    exact List.map_id _
  have filled : 0 < (partition key rows member.2).length :=
    List.length_pos_of_mem (mem_partition key (getElem?_of_mem_indexed inside))
  have within : ((partition key rows member.2).length : Int) ≤ Bound.farthest :=
    Int.le_trans (Int.ofNat_le.2 (length_partition_le key rows member.2)) short
  have bounds : (frameFor ⟨keys, [], none⟩ key (fun _ => []) rows member).bounds
      = some (0, (partition key rows member.2).length - 1) := by
    rw [frameFor, whole]
    exact FrameSpec.resolve?_unbounded within filled
  rw [Frame.rows, bounds, ← map_snd_partition, frameFor, whole]
  simp only [List.drop_zero, Nat.sub_add_cancel filled]
  rw [List.take_of_length_le (by rw [List.length_map]), List.map_map]
  rfl

/-! ## Queries -/

namespace InMemory

section

variable {context : Context} {env : Environment} {op : Operator} {f source : Expr}
  {keys : List Expr} {rows groups : List Row} {key : Row → List Value} {total : Row → Value}

/-- The groups of a source by keys that all have a value on every row. -/
theorem evaluate_groupedBy (filled : keys ≠ [])
    (sourced : Relation.sourceRows interpretation.evaluate source env = .ok rows)
    (keyed : ∀ row ∈ rows,
      evaluateAll interpretation.evaluate keys (env.surround row) = .ok (key row)) :
    evaluateIn env (.groupedBy keys source)
      = .ok (.rows (Relation.groupsOf (keys.map (Relation.groupKeyName env)) key rows)) := by
  have items : (Expr.list keys).itemsOrNone = keys := by
    simp [Expr.itemsOrNone, Expr.isEmpty, Expr.items, filled]
  have grouped : Relation.group interpretation.evaluate [.list keys, source] env
      = .ok (.rows (Relation.groupsOf ((Expr.list keys).itemsOrNone.map
          (Relation.groupKeyName env)) key rows)) :=
    Relation.group_eq_ok sourced (items.symm ▸ keyed)
  rw [items] at grouped
  exact (evaluate_call .group rfl [.list keys, source] env).trans grouped

section

variable (combines : op.isAggregate = true) (free : f.Windowless)
  (sourced : Relation.sourceRows interpretation.evaluate source env = .ok rows)
  (keyed : ∀ row ∈ rows,
    evaluateAll interpretation.evaluate keys (env.surround row) = .ok (key row))

include combines free sourced keyed

/-- Over a partition the aggregate has on each row the value that it has on the row's group. -/
theorem evaluate_partitions (name : String) (filled : keys ≠ [])
    (spelled : (Expr.list keys).operator? = none) (windowless : ∀ e ∈ keys, e.Windowless)
    (short : rows.length ≤ Bound.farthest) {names : List String}
    (aggregated : ∀ group ∈ Relation.groupsOf names key rows,
      evaluateIn (env.surround group) (.aggregate op f) = .ok (total group)) :
    evaluateIn env (.selectAs name (.overPartition (.aggregate op f) keys) source)
      = .ok (.array ((Windowed.indexed rows).map fun member =>
          .object [(name, total (Relation.groupFor names key rows member.2))])) := by
  have parsed : WindowSpec.parse (some (.record [("partition", .list keys)]))
      = .ok ⟨keys, [], none⟩ := by
    have present : (Expr.list keys).isEmpty = false := by simpa [Expr.isEmpty] using filled
    simp [WindowSpec.parse, WindowSpec.partitionKeys, Expr.field?, Entries.get?, present,
      Expr.elements, spelled, bind, Except.bind, pure, Except.pure]
  have looksAtNone : ∀ e ∈ keys ++ [].map OrderSpec.expr, e.Windowless :=
    List.forall_mem_append.2 ⟨windowless, List.forall_mem_nil _⟩
  refine evaluate_selectAs_windowCall (fun member hm => ?_) sourced name
  have inside := Windowed.mem_of_mem_indexed hm
  rw [evaluate_windowCall_of_windowless parsed looksAtNone hm keyed (fun _ _ => rfl),
    ← aggregated _ (Relation.mem_groupFor names key inside).1]
  refine evaluate_aggregate_congr combines free env ?_ _ env.window
  rw [Relation.members_groupFor, ← Windowed.rows_frameFor_whole keys key hm short]
  rfl

/-- On the groups of a source the aggregate has its values, one record for each group. -/
theorem evaluate_groups (name : String) (filled : keys ≠ [])
    (aggregated : ∀ group ∈ Relation.groupsOf (keys.map (Relation.groupKeyName env)) key rows,
      evaluateIn (env.surround group) (.aggregate op f) = .ok (total group)) :
    ∃ shown, evaluateIn env (.selectAs name (.aggregate op f) (.groupedBy keys source))
        = .ok (.array shown) ∧
      ∀ (j : Nat) (group : Row),
        (Relation.groupsOf (keys.map (Relation.groupKeyName env)) key rows)[j]? = some group →
          shown[j]? = some (.object [(name, total group)]) := by
  have evaluated : interpretation.evaluate (.groupedBy keys source) env
      = .ok (.rows (Relation.groupsOf (keys.map (Relation.groupKeyName env)) key rows)) :=
    evaluate_groupedBy filled sourced keyed
  have grouped : Relation.sourceRows interpretation.evaluate (.groupedBy keys source) env
      = .ok (Relation.groupsOf (keys.map (Relation.groupKeyName env)) key rows) :=
    Relation.sourceRows_of_rows evaluated
  by_cases empty : Relation.groupsOf (keys.map (Relation.groupKeyName env)) key rows = []
  · -- there is one record all the same, of no members
    rw [empty] at grouped ⊢
    have shown : Relation.selectedRows [.list [.symbol "$as", .symbol name, .aggregate op f]] []
        = [Row.ofGroup [] []] := by
      rw [Relation.selectedRows_named, Expr.isAggregated_aggregate combines]
      rfl
    obtain ⟨v, value⟩ :
        ∃ v, evaluateIn (env.surround (Row.ofGroup [] [])) (.aggregate op f) = .ok v :=
      evaluate_aggregate_of_no_members combines f rfl
    have aggregated : ∀ row ∈ [Row.ofGroup [] []],
        evaluateIn (env.surround row) (.aggregate op f) = .ok v :=
      List.forall_mem_singleton.2 value
    exact ⟨_, evaluate_selectAs_aggregate combines free name grouped shown aggregated, nofun⟩
  · have shown := (Relation.selectedRows_of_grouped
      [.list [.symbol "$as", .symbol name, .aggregate op f]]
      fun _ => Relation.isGrouped_of_mem_groupsOf).1 empty
    refine ⟨_, evaluate_selectAs_aggregate combines free name grouped shown aggregated,
      fun j group found => ?_⟩
    rw [List.getElem?_map, Windowed.getElem?_indexed found]
    rfl

end

/-- An array that an expression has for its value comes back with its items made plain. -/
theorem evaluate_of_array {e : Expr} {items : List Value}
    (h : evaluateIn (environment context e) e = .ok (.array items)) :
    evaluate e context = .ok (.array (items.map Value.materialize)) := by
  rw [evaluate, h, Except.map, Value.materialize, Value.materializeList_eq_map]

/-- A window call in the field of a projection brings the same names into scope as its function
there and its partition in a grouping. -/
theorem environment_selectAs (context : Context) (name : String) (function source : Expr)
    (keys : List Expr) :
    environment context (.selectAs name function (.groupedBy keys source))
      = environment context (.selectAs name (.overPartition function keys) source) := by
  have selects : ∀ tokens e source, Environment.declareIn tokens (.selectAs name e source)
      = Environment.declareIn (Environment.declareIn (Environment.declareIn
          (Environment.declareName tokens name) (.symbol name)) e) source := by
    intro tokens e source
    exact Environment.declareIn_call (by decide : Operator.select ≠ .aliased) tokens _
  have partitions : ∀ tokens, Environment.declareIn tokens (.overPartition function keys)
      = Environment.declareIn (Environment.declareIn tokens function) (.list keys) :=
    fun tokens => Environment.declareIn_call (by decide : Operator.windowed ≠ .aliased) tokens _
  have groups : ∀ tokens, Environment.declareIn tokens (.groupedBy keys source)
      = Environment.declareIn (Environment.declareIn tokens (.list keys)) source :=
    fun tokens => Environment.declareIn_call (by decide : Operator.group ≠ .aliased) tokens _
  rw [environment, environment, Environment.declareTables, Environment.declareTables, selects,
    selects, partitions, groups]

/-- Over a partition an aggregate has on each row the value that it has on the group of the same
keys that the row belongs to, if it has a value on every group. The operand and the keys may be any
expressions that look at no window. No source is longer than the greatest position that there is. -/
theorem aggregates_of_partition {name : String} (combines : op.isAggregate = true)
    (free : f.Windowless) (filled : keys ≠ []) (spelled : (Expr.list keys).operator? = none)
    (windowless : ∀ e ∈ keys, e.Windowless)
    (scope : environment context
      (.selectAs name (.overPartition (.aggregate op f) keys) source) = env)
    (sourced : Relation.sourceRows interpretation.evaluate source env = .ok rows)
    (short : rows.length ≤ Bound.farthest)
    (keyed : ∀ row ∈ rows,
      evaluateAll interpretation.evaluate keys (env.surround row) = .ok (key row))
    (grouped : evaluateIn env (.groupedBy keys source) = .ok (.rows groups))
    (aggregated : ∀ group ∈ groups,
      evaluateIn (env.surround group) (.aggregate op f) = .ok (total group)) :
    ∃ records shown,
      evaluate (.selectAs name (.overPartition (.aggregate op f) keys) source) context
        = .ok (.array records) ∧
      evaluate (.selectAs name (.aggregate op f) (.groupedBy keys source)) context
        = .ok (.array shown) ∧
      records.length = rows.length ∧
      (∀ row ∈ rows, ∃ group ∈ groups, row ∈ group.members) ∧
      ∀ (i j : Nat) (row group : Row), rows[i]? = some row → groups[j]? = some group →
        row ∈ group.members →
          records[i]? = some (.object [(name, (total group).materialize)]) ∧
            shown[j]? = some (.object [(name, (total group).materialize)]) := by
  cases grouped.symm.trans (evaluate_groupedBy filled sourced keyed)
  have records := evaluate_partitions combines free sourced keyed name filled spelled windowless
    short aggregated
  obtain ⟨shown, found, values⟩ :=
    evaluate_groups combines free sourced keyed name filled aggregated
  refine ⟨_, _, evaluate_of_array (by rw [scope, records]),
    evaluate_of_array (by rw [environment_selectAs, scope, found]), ?_,
    fun row hr => ⟨_, Relation.mem_groupFor _ key hr⟩,
    fun i j row group here there inside => ⟨?_, ?_⟩⟩
  · rw [List.length_map, List.length_map, Windowed.length_indexed]
  · rw [List.getElem?_map, List.getElem?_map, Windowed.getElem?_indexed here,
      Relation.eq_groupFor (List.mem_of_getElem? there) inside]
    rfl
  · rw [List.getElem?_map, values j group there]
    rfl

/-- Of three records the last has the first one's letter, so both have the sum of their group. -/
theorem sums_of_letters :
    ∃ records shown,
      evaluate (.selectAs "x" (.overPartition (.aggregate .sum (.symbol ":v")) [.symbol ":k"])
          (.quoted [.object [("k", .string "a"), ("v", .integer 1)],
            .object [("k", .string "b"), ("v", .integer 2)],
            .object [("k", .string "a"), ("v", .integer 3)]])) [] = .ok (.array records) ∧
      evaluate (.selectAs "x" (.aggregate .sum (.symbol ":v")) (.groupedBy [.symbol ":k"]
          (.quoted [.object [("k", .string "a"), ("v", .integer 1)],
            .object [("k", .string "b"), ("v", .integer 2)],
            .object [("k", .string "a"), ("v", .integer 3)]]))) [] = .ok (.array shown) ∧
      records[2]? = some (.object [("x", .integer 4)]) ∧
      shown[0]? = some (.object [("x", .integer 4)]) := by
  have symbol : ∀ s, (Expr.symbol s).Windowless := fun s => Expr.Everywhere.symbol_iff.2 nofun
  let first := Row.single "" (.object [("k", .string "a"), ("v", .integer 1)])
  let second := Row.single "" (.object [("k", .string "b"), ("v", .integer 2)])
  let third := Row.single "" (.object [("k", .string "a"), ("v", .integer 3)])
  let scope := environment [] (.selectAs "x" (.overPartition (.aggregate .sum (.symbol ":v"))
    [.symbol ":k"]) (.quoted [.object [("k", .string "a"), ("v", .integer 1)],
      .object [("k", .string "b"), ("v", .integer 2)],
      .object [("k", .string "a"), ("v", .integer 3)]]))
  have keyed : ∀ row ∈ [first, second, third], evaluateAll interpretation.evaluate [.symbol ":k"]
      (scope.surround row) = .ok [row.lookup "k"] := by
    simp only [List.forall_mem_cons, List.not_mem_nil, false_implies, implies_true, and_true]
    exact ⟨rfl, rfl, rfl⟩
  have aggregated : ∀ group ∈ [Row.ofGroup [("k", .string "a")] [first, third],
      .ofGroup [("k", .string "b")] [second]],
      evaluateIn (scope.surround group) (.aggregate .sum (.symbol ":v"))
        = .ok (.integer (if group.members.length = 2 then 4 else 2)) := by
    simp only [List.forall_mem_cons, List.not_mem_nil, false_implies, implies_true, and_true]
    exact ⟨rfl, rfl⟩
  obtain ⟨records, shown, evaluated, evaluated', -, -, values⟩ := aggregates_of_partition rfl
    (symbol _) (List.cons_ne_nil _ _) rfl (List.forall_mem_singleton.2 (symbol _)) rfl rfl
    (by decide) keyed rfl aggregated
  exact ⟨records, shown, evaluated, evaluated', values 2 0 third _ rfl rfl (.tail _ (.head _))⟩

end

end InMemory

end QueryForms
