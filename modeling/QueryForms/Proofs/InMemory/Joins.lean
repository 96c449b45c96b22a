import QueryForms.Proofs.Entries
import QueryForms.Proofs.InMemory.Projection

/-!
# Joins

A join puts each left row beside the right rows that it matches, in order; a left join also keeps a
left row without matches, beside nulls (`Relation.joined`, `Relation.leftJoined`). That is what the
operators give where the condition has a value on every pair (`InMemory.join_of_sources`). The nulls
stand under the aliases of the first right row, so where right rows bind different aliases some of them
stay unbound (`InMemory.nulls_of_first_row`).

Of two records under one alias the right row's is kept. So a row of a join carries every record of its
right row, and every record of its left row under an alias that the right side does not bind
(`InMemory.join_carries`).
-/

namespace QueryForms

/-! ## Rows side by side -/

theorem Relation.mem_keys_missingRow {aliases : List String} {name : String} :
    name ∈ Entries.keys (missingRow aliases).tables ↔ name ∈ aliases := by
  rw [missingRow, Entries.ofList, Entries.mem_keys_setAll]
  simp [Entries.keys]

namespace Row

variable {row other : Row}

/-- A row binds each of its aliases once. -/
def BindsOnce (row : Row) : Prop :=
  (Entries.keys row.tables).Nodup

theorem BindsOnce.merge (once : row.BindsOnce) (other : Row) : (row.merge other).BindsOnce :=
  Entries.nodup_keys_setAll once other.tables

/-- Beside a row that binds aliases to null, these are null, and all others are as they were. -/
theorem get?_merge_missingRow (row : Row) (aliases : List String) (name : String) :
    Entries.get? (row.merge (Relation.missingRow aliases)).tables name
      = if name ∈ aliases then some .null else Entries.get? row.tables name := by
  split
  · next inside =>
    obtain ⟨entry, added, read⟩ :=
      Entries.get?_setAll_of_mem (Relation.mem_keys_missingRow.2 inside) row.tables
    have null : entry.2 = .null :=
      Entries.forall_ofList (P := fun v => v = Value.null) (by simp) entry added
    rw [merge, read, null]
  · next free =>
    exact Entries.get?_setAll_of_not_mem (mt Relation.mem_keys_missingRow.1 free) row.tables

/-- A row with all records of its right side, which binds each of its aliases once, and with those of
its left side under aliases that the right one does not bind. -/
structure Carries (out left right : Row) : Prop where
  ofLeft : ∀ table ∈ left.tables, table.1 ∉ Entries.keys right.tables → table ∈ out.tables
  ofRight : right.BindsOnce → right.tables ⊆ out.tables

/-- Rows side by side are carried by the row that they make. -/
theorem carries_merge (row other : Row) : (row.merge other).Carries row other where
  ofLeft _ inside free := Entries.mem_setAll_of_not_mem inside free
  ofRight once _ inside := Entries.mem_setAll_of_nodup once inside row.tables

end Row

/-! ## Joins of lists of rows -/

namespace Relation

section

variable (kept : Row → Bool) (aliases : List String) (left right : List Row)

/-- A left row beside each of the right rows that it matches. -/
def matched (row : Row) : List Row :=
  (right.filter fun other => kept (row.merge other)).map row.merge

/-- Each left row beside each of its matches. -/
def joined : List Row :=
  left.flatMap (matched kept right)

/-- What a left join makes of a left row: its matches, or one row beside nulls if there are none. -/
def outerMatched (row : Row) : List Row :=
  if (matched kept right row).isEmpty then [row.merge (missingRow aliases)]
  else matched kept right row

/-- Each left row beside each of its matches, or beside nulls. -/
def leftJoined : List Row :=
  left.flatMap (outerMatched kept aliases right)

theorem length_matched (row : Row) :
    (matched kept right row).length = right.countP fun other => kept (row.merge other) := by
  rw [matched, List.length_map, ← List.countP_eq_length_filter]

theorem matched_sublist (row : Row) :
    (matched kept right row).Sublist (outerMatched kept aliases right row) := by
  rw [outerMatched]
  split
  · next none =>
    rw [List.isEmpty_iff.1 none]
    exact List.nil_sublist _
  · exact .refl _

/-- The matches are rows of the left join, in the same order. -/
theorem joined_sublist :
    (joined kept left right).Sublist (leftJoined kept aliases left right) := by
  induction left with
  | nil => exact .slnil
  | cons row rest ih => exact (matched_sublist kept aliases right row).append ih

theorem length_outerMatched (row : Row) :
    (outerMatched kept aliases right row).length
      = max 1 (right.countP fun other => kept (row.merge other)) := by
  rw [← length_matched, outerMatched]
  split
  · next none =>
    rw [List.isEmpty_iff.1 none]
    rfl
  · next some =>
    have filled : 0 < (matched kept right row).length :=
      List.length_pos_iff.2 (mt List.isEmpty_iff.2 some)
    omega

/-- A left join has a row for each match, and one for each left row without matches. -/
theorem length_leftJoined :
    (leftJoined kept aliases left right).length
      = (left.map fun row => max 1 (right.countP fun other => kept (row.merge other))).sum := by
  rw [leftJoined, List.length_flatMap]
  exact congrArg List.sum (List.map_congr_left fun row _ =>
    length_outerMatched kept aliases right row)

end

/-! ## The operators -/

/-- Whether a row makes a condition true, given the values of the condition; one that stands for
nothing is true of every row. -/
def accepts (condition : Expr) (value : Row → Value) (row : Row) : Bool :=
  condition.isEmpty || (value row).isTruthy

section

variable {eval : Evaluator} {env : Environment} {leftSource rightSource condition : Expr}
  {left right : List Row}

/-- The rows that a join makes of a left row. -/
def joinPart (outer : Bool) (eval : Evaluator) (condition : Expr) (env : Environment)
    (aliases : List String) (right : List Row) (row : Row) : Result (List Row) := do
  let matched ← matchesOf eval condition env right row
  return if outer && matched.isEmpty then [row.merge (missingRow aliases)] else matched

/-- A join gives the rows that it makes of each left row, one after the other. -/
theorem join_eq_ok_iff {outer : Bool} {result : Value}
    (ofLeft : sourceRows eval leftSource env = .ok left)
    (ofRight : sourceRows eval rightSource env = .ok right) :
    join outer eval [rightSource, condition, leftSource] env = .ok result
      ↔ ∃ parts : List (List Row), result = .rows parts.flatten ∧
        List.Forall₂ (fun row part => joinPart outer eval condition env
          (rightAliases rightSource right) right row = .ok part) left parts := by
  have parts : join outer eval [rightSource, condition, leftSource] env
      = (left.mapM (joinPart outer eval condition env (rightAliases rightSource right) right)).map
        fun parts : List (List Row) => .rows parts.flatten := by
    simp only [join, bind, Except.bind, ofLeft, ofRight]
    rfl
  simp only [parts, map_eq_ok_iff, mapM_eq_ok_iff]

/-- Where the condition has a value on a left row beside every right row, its matches are known. -/
theorem matchesOf_eq_ok {value : Row → Value} {row : Row}
    (tested : ∀ other ∈ right, eval condition (env.surround (row.merge other))
      = .ok (value (row.merge other))) :
    matchesOf eval condition env right row
      = .ok (matched (accepts condition value) right row) := by
  have held : ∀ pair ∈ right.map row.merge,
      holds eval condition env pair = .ok (accepts condition value pair) :=
    List.forall_mem_map.2 fun other inside => holds_eq_ok (tested other inside)
  rw [matchesOf, keep_eq_ok held, List.filter_map]
  rfl

/-- Where the condition has a value on every pair of rows, a join gives the rows that it should. -/
theorem join_eq_ok (outer : Bool) {value : Row → Value}
    (ofLeft : sourceRows eval leftSource env = .ok left)
    (ofRight : sourceRows eval rightSource env = .ok right)
    (tested : ∀ row ∈ left, ∀ other ∈ right, eval condition (env.surround (row.merge other))
      = .ok (value (row.merge other))) :
    join outer eval [rightSource, condition, leftSource] env
      = .ok (.rows (if outer then
          leftJoined (accepts condition value) (rightAliases rightSource right) left right
        else joined (accepts condition value) left right)) := by
  have part : ∀ row ∈ left, joinPart outer eval condition env (rightAliases rightSource right) right row
      = .ok (if outer then
          outerMatched (accepts condition value) (rightAliases rightSource right) right row
        else matched (accepts condition value) right row) := fun row inside => by
    rw [joinPart, matchesOf_eq_ok (tested row inside)]
    cases outer
    · rfl
    · rfl
  refine (join_eq_ok_iff ofLeft ofRight).2 ⟨_, ?_, mapM_eq_ok_iff.1 (mapM_eq_ok part)⟩
  cases outer
  · rfl
  · rfl

/-- Where all right rows bind the same aliases, these are the aliases of the right side. -/
theorem rightAliases_of_alike (rightSource : Expr)
    (alike : ∀ row ∈ right, ∀ other ∈ right, Entries.keys row.tables = Entries.keys other.tables) :
    ∀ row ∈ right, rightAliases rightSource right = Entries.keys row.tables := by
  intro row inside
  cases right with
  | nil => exact absurd inside List.not_mem_nil
  | cons first rest => exact alike first (List.mem_cons_self ..) row inside

/-- Where a test keeps nothing, it fails everywhere. -/
theorem yields_keep_nil {α : Type} (test : α → Result Bool) (list : List α) :
    Yields (keep test list) fun kept => kept = [] → ∀ item ∈ list, test item = .ok false := by
  induction list with
  | nil => exact Yields.ok_iff.2 fun _ _ inside => absurd inside List.not_mem_nil
  | cons first rest ih =>
    refine .bind (.itself (test first)) fun kept tested => .bind ih fun others apart => ?_
    refine Yields.pure_iff.2 fun none => ?_
    cases kept
    · exact List.forall_mem_cons.2 ⟨tested, apart none⟩
    · cases none

/-- The rows that a join makes of a left row are its merges with right rows, or the one beside nulls
if the condition holds beside no right row. -/
theorem yields_joinPart (outer : Bool) (aliases : List String) (row : Row) :
    Yields (joinPart outer eval condition env aliases right row) fun part =>
      (∀ out ∈ part, ∃ other ∈ right, out = row.merge other) ∨
        (outer = true ∧ part = [row.merge (missingRow aliases)] ∧
          ∀ other ∈ right, holds eval condition env (row.merge other) = .ok false) := by
  refine .bind ((yields_keep _ _).and (yields_keep_nil _ _)) fun matched ⟨kept, apart⟩ => ?_
  refine Yields.pure_iff.2 ?_
  split
  · next none =>
    obtain ⟨outer, none⟩ := Bool.and_eq_true_iff.1 none
    exact .inr ⟨outer, rfl, List.forall_mem_map.1 (apart (List.isEmpty_iff.1 none))⟩
  · refine .inl fun out inside => ?_
    obtain ⟨other, there, rfl⟩ := List.mem_map.1 (kept.subset inside)
    exact ⟨other, there, rfl⟩

end

end Relation

/-! ## Queries -/

namespace InMemory

section

variable {env : Environment} {leftSource rightSource condition : Expr} {left right : List Row}

/-- A join of two sources has, for each left row in order, its merge with each right row that makes the
condition true, in order. A left join also has one row for each left row without any, with nulls under
the aliases of the first right row, which are those of every right row if all bind the same ones. -/
theorem join_of_sources {value : Row → Value}
    (ofLeft : Relation.sourceRows interpretation.evaluate leftSource env = .ok left)
    (ofRight : Relation.sourceRows interpretation.evaluate rightSource env = .ok right)
    (tested : ∀ row ∈ left, ∀ other ∈ right,
      evaluateIn (env.surround (row.merge other)) condition = .ok (value (row.merge other))) :
    evaluateIn env (.list [.symbol "$join", rightSource, condition, leftSource])
        = .ok (.rows (Relation.joined (Relation.accepts condition value) left right)) ∧
      evaluateIn env (.list [.symbol "$leftJoin", rightSource, condition, leftSource])
        = .ok (.rows (Relation.leftJoined (Relation.accepts condition value)
            (Relation.rightAliases rightSource right) left right)) ∧
      (Relation.joined (Relation.accepts condition value) left right).Sublist
        (Relation.leftJoined (Relation.accepts condition value)
          (Relation.rightAliases rightSource right) left right) ∧
      (Relation.leftJoined (Relation.accepts condition value)
          (Relation.rightAliases rightSource right) left right).length
        = (left.map fun row => max 1 (right.countP fun other =>
            Relation.accepts condition value (row.merge other))).sum ∧
      (∀ (row : Row) (name : String),
        Entries.get? (row.merge (Relation.missingRow
            (Relation.rightAliases rightSource right))).tables name
          = if name ∈ Relation.rightAliases rightSource right then some .null
            else Entries.get? row.tables name) ∧
      ((∀ row ∈ right, ∀ other ∈ right, Entries.keys row.tables = Entries.keys other.tables) →
        ∀ row ∈ right, Relation.rightAliases rightSource right = Entries.keys row.tables) :=
  ⟨(evaluate_call .join rfl _ env).trans (Relation.join_eq_ok false ofLeft ofRight tested),
    (evaluate_call .leftJoin rfl _ env).trans (Relation.join_eq_ok true ofLeft ofRight tested),
    Relation.joined_sublist .., Relation.length_leftJoined ..,
    fun row name => row.get?_merge_missingRow _ name,
    Relation.rightAliases_of_alike rightSource⟩

/-- Of two numbers one is less than both numbers beside it, and the other than none. -/
theorem join_of_numbers :
    evaluateIn (Environment.ofContext []) (.list [.symbol "$join",
        .list [.symbol "$as", .symbol "r", .quoted [.object [("m", .integer 1)],
          .object [("m", .integer 3)]]],
        .list [.symbol "<", .symbol ":n", .symbol ":m"],
        .list [.symbol "$as", .symbol "l", .quoted [.object [("n", .integer 0)],
          .object [("n", .integer 4)]]]])
      = .ok (.rows [
          ⟨[("l", .object [("n", .integer 0)]), ("r", .object [("m", .integer 1)])], none, none⟩,
          ⟨[("l", .object [("n", .integer 0)]), ("r", .object [("m", .integer 3)])], none, none⟩]) ∧
    evaluateIn (Environment.ofContext []) (.list [.symbol "$leftJoin",
        .list [.symbol "$as", .symbol "r", .quoted [.object [("m", .integer 1)],
          .object [("m", .integer 3)]]],
        .list [.symbol "<", .symbol ":n", .symbol ":m"],
        .list [.symbol "$as", .symbol "l", .quoted [.object [("n", .integer 0)],
          .object [("n", .integer 4)]]]])
      = .ok (.rows [
          ⟨[("l", .object [("n", .integer 0)]), ("r", .object [("m", .integer 1)])], none, none⟩,
          ⟨[("l", .object [("n", .integer 0)]), ("r", .object [("m", .integer 3)])], none, none⟩,
          ⟨[("l", .object [("n", .integer 4)]), ("r", .null)], none, none⟩]) := by
  let condition : Expr := .list [.symbol "<", .symbol ":n", .symbol ":m"]
  let value : Row → Value := fun row =>
    (evaluateIn ((Environment.ofContext []).surround row) condition).toOption.getD .null
  have ofLeft : Relation.sourceRows interpretation.evaluate (.list [.symbol "$as", .symbol "l",
        .quoted [.object [("n", .integer 0)], .object [("n", .integer 4)]]]) (Environment.ofContext [])
      = .ok [Row.single "l" (.object [("n", .integer 0)]),
          Row.single "l" (.object [("n", .integer 4)])] := rfl
  have ofRight : Relation.sourceRows interpretation.evaluate (.list [.symbol "$as", .symbol "r",
        .quoted [.object [("m", .integer 1)], .object [("m", .integer 3)]]]) (Environment.ofContext [])
      = .ok [Row.single "r" (.object [("m", .integer 1)]),
          Row.single "r" (.object [("m", .integer 3)])] := rfl
  have tested : ∀ row ∈ [Row.single "l" (.object [("n", .integer 0)]),
        Row.single "l" (.object [("n", .integer 4)])],
      ∀ other ∈ [Row.single "r" (.object [("m", .integer 1)]),
        Row.single "r" (.object [("m", .integer 3)])],
      evaluateIn ((Environment.ofContext []).surround (row.merge other)) condition
        = .ok (value (row.merge other)) := by
    simp only [List.forall_mem_cons, List.not_mem_nil, false_implies, implies_true, and_true]
    exact ⟨⟨rfl, rfl⟩, rfl, rfl⟩
  obtain ⟨inner, outer, -⟩ := join_of_sources ofLeft ofRight tested
  exact ⟨inner.trans rfl, outer.trans rfl⟩

/-- Beside right rows of two aliases, a left row that matches none of them gets a null under the first
alias only. -/
theorem nulls_of_first_row :
    Relation.sourceRows interpretation.evaluate (.list [.symbol "$union",
        .list [.symbol "$as", .symbol "a", .quoted [.object [("n", .integer 1)]]],
        .list [.symbol "$as", .symbol "b", .quoted [.object [("n", .integer 2)]]]])
        (Environment.ofContext [])
      = .ok [Row.single "a" (.object [("n", .integer 1)]),
          Row.single "b" (.object [("n", .integer 2)])] ∧
    ∃ out : Row, evaluateIn (Environment.ofContext []) (.list [.symbol "$leftJoin",
        .list [.symbol "$union",
          .list [.symbol "$as", .symbol "a", .quoted [.object [("n", .integer 1)]]],
          .list [.symbol "$as", .symbol "b", .quoted [.object [("n", .integer 2)]]]],
        .literal (.boolean false),
        .list [.symbol "$as", .symbol "l", .quoted [.object [("n", .integer 0)]]]])
        = .ok (.rows [out]) ∧
      Entries.get? out.tables "a" = some .null ∧ Entries.get? out.tables "b" = none :=
  ⟨rfl, _, rfl, rfl, rfl⟩

/-- A row of a join is built from a left row and carries both of its sides, but of two records under
one alias the left one is replaced. It binds each of its aliases once if the left row does. -/
theorem join_carries {op : Operator} (joins : op = .join ∨ op = .leftJoin)
    (ofLeft : Relation.sourceRows interpretation.evaluate leftSource env = .ok left)
    (ofRight : Relation.sourceRows interpretation.evaluate rightSource env = .ok right)
    {result : Value}
    (evaluated : evaluateIn env (.list [.symbol op.name, rightSource, condition, leftSource])
      = .ok result) :
    ∃ parts : List (List Row), result = .rows parts.flatten ∧
      List.Forall₂ (fun row part => ∀ out ∈ part, (row.BindsOnce → out.BindsOnce) ∧
        ((∃ other ∈ right, out = row.merge other ∧ out.Carries row other) ∨
          (op = .leftJoin ∧ part = [out] ∧
            (∀ other ∈ right, Relation.holds interpretation.evaluate condition env (row.merge other)
              = .ok false) ∧
            ∀ table ∈ row.tables, table.1 ∉ Relation.rightAliases rightSource right →
              table ∈ out.tables))) left parts := by
  obtain ⟨outer, known, isLeft⟩ : ∃ outer, handler op = some (.onOperands (Relation.join outer)) ∧
      (outer = true → op = .leftJoin) := by
    rcases joins with rfl | rfl
    · exact ⟨false, rfl, nofun⟩
    · exact ⟨true, rfl, fun _ => rfl⟩
  obtain ⟨parts, rfl, made⟩ := (Relation.join_eq_ok_iff ofLeft ofRight).1
    ((evaluate_call op known [rightSource, condition, leftSource] env).symm.trans evaluated)
  refine ⟨parts, rfl, made.imp fun row part made out inside => ?_⟩
  rcases Relation.yields_joinPart _ _ _ _ made with merges | ⟨isOuter, rfl, apart⟩
  · obtain ⟨other, there, rfl⟩ := merges out inside
    exact ⟨(·.merge other), .inl ⟨other, there, rfl, row.carries_merge other⟩⟩
  · obtain rfl := List.mem_singleton.1 inside
    refine ⟨(·.merge _), .inr ⟨isLeft isOuter, rfl, apart, fun table bound free => ?_⟩⟩
    exact Entries.mem_setAll_of_not_mem bound (mt Relation.mem_keys_missingRow.1 free)

/-- A row beside its one match. -/
theorem join_carries_numbers :
    ∃ out : Row, evaluateIn (Environment.ofContext []) (.list [.symbol "$leftJoin",
        .list [.symbol "$as", .symbol "r", .quoted [.object [("n", .integer 2)]]],
        .list [],
        .list [.symbol "$as", .symbol "l", .quoted [.object [("n", .integer 1)]]]])
        = .ok (.rows [out]) ∧
      out.Carries (Row.single "l" (.object [("n", .integer 1)]))
        (Row.single "r" (.object [("n", .integer 2)])) := by
  have ofLeft : Relation.sourceRows interpretation.evaluate (.list [.symbol "$as", .symbol "l",
        .quoted [.object [("n", .integer 1)]]]) (Environment.ofContext [])
      = .ok [Row.single "l" (.object [("n", .integer 1)])] := rfl
  have ofRight : Relation.sourceRows interpretation.evaluate (.list [.symbol "$as", .symbol "r",
        .quoted [.object [("n", .integer 2)]]]) (Environment.ofContext [])
      = .ok [Row.single "r" (.object [("n", .integer 2)])] := rfl
  have evaluated : evaluateIn (Environment.ofContext []) (.list [.symbol Operator.leftJoin.name,
        .list [.symbol "$as", .symbol "r", .quoted [.object [("n", .integer 2)]]],
        .list [],
        .list [.symbol "$as", .symbol "l", .quoted [.object [("n", .integer 1)]]]])
        = .ok (.rows [(Row.single "l" (.object [("n", .integer 1)])).merge
            (Row.single "r" (.object [("n", .integer 2)]))]) := rfl
  obtain ⟨parts, same, made⟩ := join_carries (.inr rfl) ofLeft ofRight evaluated
  cases made with
  | cons first rest =>
    cases rest
    obtain rfl := (Value.rows.inj same).trans (List.append_nil _)
    obtain ⟨-, ⟨other, there, -, carried⟩ | ⟨-, -, apart, -⟩⟩ := first _ (List.mem_singleton.2 rfl)
    · obtain rfl := List.mem_singleton.1 there
      exact ⟨_, evaluated, carried⟩
    · cases apart _ (List.mem_singleton.2 rfl)

/-- Of two sources without an alias both bind the empty one, and the left record is not in the row. -/
theorem join_replaces_record :
    Relation.sourceRows interpretation.evaluate (.quoted [.object [("a", .integer 1)]])
        (Environment.ofContext []) = .ok [Row.single "" (.object [("a", .integer 1)])] ∧
    ∃ out : Row, evaluateIn (Environment.ofContext []) (.list [.symbol "$join",
        .quoted [.object [("b", .integer 2)]], .list [], .quoted [.object [("a", .integer 1)]]])
        = .ok (.rows [out]) ∧
      ("", .object [("a", .integer 1)]) ∉ out.tables :=
  ⟨rfl, Row.single "" (.object [("b", .integer 2)]), rfl, by simp [Row.single]⟩

end

end InMemory

end QueryForms
