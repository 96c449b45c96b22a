import QueryForms.Proofs.Sql.Condition

/-!
# Comparisons of several operands

In memory the first operand is compared with each of the others. A statement compares every column
with every constant, a constant in front on the left side, and where there are only columns the first
with each of the others. `compile_comparison`: this is what either of them gives, on every row whose
fields are integers. Both say the same of an equality, of columns alone (`heldInStatement_of_columns`),
and of one column before constants or one constant before columns (`heldInStatement_of_apart`).
-/

namespace QueryForms.Sql

open SqlScalar
open Interpretation (evaluateAll)

/-! ## What a comparison says -/

/-- What a comparison says in memory: its first operand compares so with each of the others. -/
def heldInMemory (c : Comparison) (number : Value → Int64) : List Value → Bool
  | [] => true
  | first :: rest => rest.all fun v => c.holds (number first).toInt (number v).toInt

/-- What a comparison says in a statement: every column compares so with every constant, or every
constant with every column if a constant is in front. -/
def heldInStatement (c : Comparison) (number : Value → Int64) (values : List Value) : Bool :=
  let columns := values.filter Value.isSql
  match values.filter fun v => !v.isSql with
  | [] => heldInMemory c number columns
  | constants =>
    columns.all fun column => constants.all fun v =>
      if exchanged values then c.holds (number v).toInt (number column).toInt
      else c.holds (number column).toInt (number v).toInt

section

variable {number : Value → Int64} {values : List Value}

/-- Where there are only columns the sides stay. -/
theorem exchanged_of_columns (none : values.filter (fun v => !v.isSql) = []) :
    exchanged values = false := by
  cases values with
  | nil => rfl
  | cons first rest =>
    have column := List.filter_eq_nil_iff.1 none first (List.mem_cons_self ..)
    exact Bool.eq_false_iff.2 column

/-- A statement holds if all its clauses do. -/
theorem all_comparedPairs (c : Comparison) (number : Value → Int64) (values : List Value) :
    ((comparedPairs values).all fun sides =>
        (if exchanged values then c.swap else c).holds (number sides.1).toInt
          (number sides.2).toInt)
      = heldInStatement c number values := by
  rw [comparedPairs, heldInStatement]
  cases constants : values.filter fun v => !v.isSql with
  | nil =>
    rw [exchanged_of_columns constants]
    cases values.filter Value.isSql with
    | nil => rfl
    | cons first rest => exact List.all_map
  | cons first rest =>
    simp only [List.all_flatMap, List.all_map, Function.comp_def]
    cases exchanged values with
    | false => rfl
    | true => simp only [if_true, Comparison.holds_swap]

/-- A list of at least two items has a first and a second one. -/
theorem exists_cons_cons {α : Type} {list : List α} (two : 2 ≤ list.length) :
    ∃ first second rest, list = first :: second :: rest := by
  obtain ⟨first, others, rfl⟩ := List.exists_cons_of_length_pos (Nat.zero_lt_of_lt two)
  obtain ⟨second, rest, rfl⟩ := List.exists_cons_of_length_pos (Nat.lt_of_succ_lt_succ two)
  exact ⟨first, second, rest, rfl⟩

/-- Two operands of which one is a column make a clause. -/
theorem comparedPairs_ne_nil (two : 2 ≤ values.length) (column : values.any Value.isSql = true) :
    comparedPairs values ≠ [] := by
  obtain ⟨v, inside, isSql⟩ := List.any_eq_true.1 column
  have columns : v ∈ values.filter Value.isSql := List.mem_filter.2 ⟨inside, isSql⟩
  rw [comparedPairs]
  cases constants : values.filter fun v => !v.isSql with
  | nil =>
    have all : values.filter Value.isSql = values := List.filter_eq_self.2 fun v hv => by
      simpa using List.filter_eq_nil_iff.1 constants v hv
    obtain ⟨first, second, rest, rfl⟩ := exists_cons_cons two
    rw [all]
    exact List.cons_ne_nil _ _
  | cons first rest =>
    exact List.ne_nil_of_mem
      (List.mem_flatMap.2 ⟨v, columns, List.mem_map_of_mem (List.mem_cons_self ..)⟩)

/-- Columns alone are compared as in memory. -/
theorem heldInStatement_of_columns (c : Comparison) (columns : ∀ v ∈ values, v.isSql = true) :
    heldInStatement c number values = heldInMemory c number values := by
  have none : values.filter (fun v => !v.isSql) = [] :=
    List.filter_eq_nil_iff.2 fun v hv => by simp [columns v hv]
  rw [heldInStatement, none, List.filter_eq_self.2 columns]

/-- An equality in a statement says that every column equals every constant. -/
theorem heldInStatement_equal_iff (constant : ∃ v ∈ values, v.isSql = false) :
    heldInStatement .equal number values = true
      ↔ ∀ column ∈ values, column.isSql = true → ∀ v ∈ values, v.isSql = false →
        (number column).toInt = (number v).toInt := by
  have either : ∀ column v : Value,
      (if exchanged values then Comparison.equal.holds (number v).toInt (number column).toInt
        else Comparison.equal.holds (number column).toInt (number v).toInt) = true
        ↔ (number column).toInt = (number v).toInt := fun column v => by
    split
    · exact beq_iff_eq.trans eq_comm
    · exact beq_iff_eq
  rw [heldInStatement]
  cases constants : values.filter fun v => !v.isSql with
  | nil =>
    obtain ⟨v, inside, plain⟩ := constant
    exact absurd (List.filter_eq_nil_iff.1 constants v inside) (by simp [plain])
  | cons first rest =>
    simp only [← constants, List.all_eq_true, either, List.mem_filter, Bool.not_eq_true', and_imp]

/-- An equality says in both that all operands are equal. -/
theorem heldInStatement_equal {first : Value} {rest : List Value}
    (column : (first :: rest).any Value.isSql = true) :
    heldInStatement .equal number (first :: rest) = heldInMemory .equal number (first :: rest) := by
  by_cases columns : ∀ v ∈ first :: rest, v.isSql = true
  · exact heldInStatement_of_columns .equal columns
  · push Not at columns
    obtain ⟨v, hv, other⟩ := columns
    have plain : v.isSql = false := Bool.eq_false_iff.2 other
    obtain ⟨column, hc, isSql⟩ := List.any_eq_true.1 column
    rw [Bool.eq_iff_iff, heldInStatement_equal_iff ⟨v, hv, plain⟩, heldInMemory, List.all_eq_true]
    constructor
    · intro equal other ho
      have here : first ∈ first :: rest := List.mem_cons_self ..
      have there := List.mem_cons_of_mem first ho
      -- two operands of one sort both equal one of the other sort
      refine beq_iff_eq.2 ?_
      cases front : first.isSql <;> cases sort : other.isSql
      · exact (equal column hc isSql first here front).symm.trans
          (equal column hc isSql other there sort)
      · exact (equal other there sort first here front).symm
      · exact equal first here front other there sort
      · exact (equal first here front v hv plain).trans (equal other there sort v hv plain).symm
    · intro equal
      have all : ∀ other ∈ first :: rest, (number first).toInt = (number other).toInt :=
        List.forall_mem_cons.2 ⟨rfl, fun other ho => beq_iff_eq.1 (equal other ho)⟩
      exact fun column hc _ v hv _ => (all column hc).symm.trans (all v hv)

/-- A column before constants, or a constant before columns, is compared with each of them. -/
theorem heldInStatement_of_apart (c : Comparison) {first : Value} {rest : List Value}
    (apart : ∀ v ∈ rest, v.isSql = !first.isSql) :
    heldInStatement c number (first :: rest) = heldInMemory c number (first :: rest) := by
  cases front : first.isSql with
  | true =>
    have others : ∀ v ∈ rest, v.isSql = false := fun v hv => by rw [apart v hv, front]; rfl
    have constants : (first :: rest).filter (fun v => !v.isSql) = rest := by
      rw [List.filter_cons_of_neg (by simp [front]), List.filter_eq_self.2]
      exact fun v hv => by rw [others v hv]; rfl
    have columns : (first :: rest).filter Value.isSql = [first] := by
      rw [List.filter_cons_of_pos front, List.filter_eq_nil_iff.2]
      exact fun v hv => by simp [others v hv]
    rw [heldInStatement, constants, columns]
    cases rest with
    | nil => rfl
    | cons v rest =>
      simp [heldInMemory, exchanged, front]
  | false =>
    have others : ∀ v ∈ rest, v.isSql = true := fun v hv => by rw [apart v hv, front]; rfl
    have constants : (first :: rest).filter (fun v => !v.isSql) = [first] := by
      rw [List.filter_cons_of_pos (by simp [front]), List.filter_eq_nil_iff.2]
      exact fun v hv => by simp [others v hv]
    have columns : (first :: rest).filter Value.isSql = rest := by
      rw [List.filter_cons_of_neg (by simp [front]), List.filter_eq_self.2 others]
    rw [heldInStatement, constants, columns]
    simp [heldInMemory, exchanged, front]

end

/-! ## What its clauses read as -/

section

variable {row : String → Value}

/-- Whether both sides of a clause are operands with a number on a row. -/
def BothNumbers (row : String → Value) (sides : Value × Value) : Prop :=
  OperandValue row (numberOf row sides.1) sides.1 ∧ OperandValue row (numberOf row sides.2) sides.2

/-- Whether the sides of a clause compare so on a row. -/
def sidesHold (c : Comparison) (row : String → Value) (sides : Value × Value) : Bool :=
  c.holds (numberOf row sides.1).toInt (numberOf row sides.2).toInt

/-- Each clause reads as its comparison. -/
theorem mapM_infixSql (c : Comparison) {pairs : List (Value × Value)}
    (numbers : ∀ sides ∈ pairs, BothNumbers row sides) :
    ∃ fs readings, (pairs.mapM fun (left, right) => infixSql c.sign left right) = .ok fs ∧
      List.Forall₂ (fun f sides => Fragment.Reads f (comparisonItems c sides)) fs readings ∧
      List.Forall₂ (fun sides b => (Reading.binary (.compare c) sides.1 sides.2).truth? row
        = some (some b)) readings (pairs.map (sidesHold c row)) := by
  induction pairs with
  | nil => exact ⟨[], [], rfl, .nil, .nil⟩
  | cons sides rest ih =>
    obtain ⟨here, numbers⟩ := List.forall_mem_cons.1 numbers
    obtain ⟨f, l, r, clause, reads, true⟩ := infixSql_reads c here.1 here.2
    obtain ⟨fs, readings, clauses, others, trues⟩ := ih numbers
    refine ⟨f :: fs, (l, r) :: readings, ?_, .cons reads others, .cons true trues⟩
    rw [List.mapM_cons, clauses]
    simp only [clause]
    rfl

/-- Clauses read as the condition that all of them hold. -/
theorem clauses_read (c : Comparison) {pairs : List (Value × Value)} (some : pairs ≠ [])
    (numbers : ∀ sides ∈ pairs, BothNumbers row sides) :
    ∃ fs items r, (pairs.mapM fun (left, right) => infixSql c.sign left right) = .ok fs ∧
      (Fragment.join " AND " fs).Reads items ∧ readDisjunction items = .some r ∧
      r.truth? row = .some (.some (pairs.all (sidesHold c row))) := by
  obtain ⟨fs, readings, clauses, reads, trues⟩ := mapM_infixSql c numbers
  cases pairs with
  | nil => exact absurd rfl some
  | cons sides rest =>
    cases trues with
    | @cons first b readings bs true trues =>
      cases reads with
      | @cons f _ fs _ hf others =>
        have between : " AND " ∈ middleTexts := by decide
        have joined := hf.join between (.junction .and) (List.forall₂_map_right_iff.2 others)
        refine ⟨_, _, _, clauses, joined, readDisjunction_comparisons c first readings, ?_⟩
        have all : (sides :: rest).all (sidesHold c row)
            = (rest.map (sidesHold c row)).foldl Bool.and (sidesHold c row sides) := by
          rw [← Junction.all_eq_foldl, ← List.map_cons, List.all_map]
          rfl
        rw [all]
        exact truth?_foldl .and true (List.forall₂_map_left_iff.2 trues)

end

/-! ## Comparisons in both interpretations -/

section

variable {fields : String → Prop} {record : Record} {memory scope : Environment}
  {operands : List Expr}

/-- The values of operands in both interpretations. -/
theorem operands_agree (sees : SeesFields fields record memory scope)
    (known : ∀ e ∈ operands, IsOperand fields e) :
    evaluateAll InMemory.interpretation.evaluate operands memory
        = .ok ((operands.map (numberOf (columnsOf record) ∘ operandValue)).map .integer) ∧
      evaluateAll interpretation.evaluate operands scope = .ok (operands.map operandValue) := by
  rw [List.map_map]
  exact ⟨mapM_eq_ok fun e he => (operand_agrees sees (known e he) (Nat.le_refl _)).1,
    mapM_eq_ok fun e he => (operand_agrees sees (known e he) (Nat.le_refl _)).2.1⟩

/-- In memory a comparison has the truth that the first operand compares so with the others. -/
theorem comparison_inMemory (c : Comparison) (sees : SeesFields fields record memory scope)
    (known : ∀ e ∈ operands, IsOperand fields e) (several : 2 ≤ operands.length) :
    InMemory.evaluateIn memory (.list (.symbol c.operator.name :: operands))
      = .ok (.boolean
          (heldInMemory c (numberOf (columnsOf record)) (operands.map operandValue))) := by
  refine (InMemory.local_interpretation.evaluate_onValues c.handler_operator.1
    c.operator_ne_quote (operands_agree sees known).1).trans ?_
  obtain ⟨first, second, rest, rfl⟩ := exists_cons_cons several
  refine (c.compute_integers _ _ _).trans ?_
  rw [List.map_cons, heldInMemory, ← List.map_cons, List.all_map, List.all_map]
  rfl

/-- In a statement it has the truth that its columns compare so with its constants. -/
theorem comparison_inStatement (c : Comparison) (sees : SeesFields fields record memory scope)
    (known : ∀ e ∈ operands, IsOperand fields e) (several : 2 ≤ operands.length)
    (column : ∃ s, .symbol s ∈ operands) :
    ∃ f items r, evaluateIn scope (.list (.symbol c.operator.name :: operands))
        = .ok (.fragment f) ∧
      f.isQuery = false ∧ f.Reads items ∧ readDisjunction items = some r ∧
      r.truth? (columnsOf record) = some (some
        (heldInStatement c (numberOf (columnsOf record)) (operands.map operandValue))) := by
  have two : 2 ≤ (operands.map operandValue).length := by rwa [List.length_map]
  have isSql : (operands.map operandValue).any Value.isSql = true := by
    obtain ⟨s, there⟩ := column
    exact List.any_eq_true.2 ⟨_, List.mem_map_of_mem there, rfl⟩
  have numbers : ∀ sides ∈ comparedPairs (operands.map operandValue),
      BothNumbers (columnsOf record) sides := by
    have all : ∀ v ∈ operands.map operandValue,
        OperandValue (columnsOf record) (numberOf (columnsOf record) v) v :=
      List.forall_mem_map.2 fun e he => (operand_agrees sees (known e he) (Nat.le_refl _)).2.2
    intro sides hs
    obtain ⟨left, right⟩ := Regime.ComposesScalars.mem_comparedPairs hs
    exact ⟨all _ left, all _ right⟩
  obtain ⟨fs, items, r, clauses, reads, read, truth⟩ :=
    clauses_read (if exchanged (operands.map operandValue) then c.swap else c)
      (comparedPairs_ne_nil two isSql) numbers
  refine ⟨_, items, r, ?_, isQuery_join _ _, reads, read, ?_⟩
  · refine (local_interpretation.evaluate_onValues c.handler_operator.2 c.operator_ne_quote
      (operands_agree sees known).2).trans ?_
    rw [orCompute, if_pos isSql, comparison, if_neg (Nat.not_lt.2 two)]
    simp only [clauses]
    rfl
  · rw [truth, ← all_comparedPairs]
    rfl

end

/-- On a row whose fields are integers a comparison has in memory the truth that its first operand
compares so with each of the others. It compiles to a statement that reads as a condition with the
truth that its columns compare so with its constants. These are the same of an equality, of columns
alone, of one column before constants, and of one constant before columns. -/
theorem compile_comparison (c : Comparison) {fields : String → Prop} {record : Record}
    {first : Expr} {rest : List Expr} (known : ∀ e ∈ first :: rest, IsOperand fields e)
    (several : rest ≠ []) (column : ∃ s, .symbol s ∈ first :: rest)
    (hf : ∀ f, fields f → f ≠ "*" ∧ ∃ n, Entries.get? record f = some (.integer n))
    (style : PlaceholderStyle) (table : String) :
    InMemory.evaluateIn
        ((InMemory.environment [] (.list (.symbol c.operator.name :: first :: rest))).surround
          (Row.single table (.object record)))
        (.list (.symbol c.operator.name :: first :: rest))
      = .ok (.boolean (heldInMemory c (numberOf (columnsOf record))
          ((first :: rest).map operandValue))) ∧
    (∃ statement params r,
      compile style (.list (.symbol c.operator.name :: first :: rest)) []
          = .ok (.query statement params) ∧
        readCondition statement params = some r ∧
        r.truth? (columnsOf record) = some (some (heldInStatement c
          (numberOf (columnsOf record)) ((first :: rest).map operandValue)))) ∧
    (c = .equal ∨ (∀ e ∈ first :: rest, (operandValue e).isSql = true) ∨
        (∀ e ∈ rest, (operandValue e).isSql = !(operandValue first).isSql) →
      heldInStatement c (numberOf (columnsOf record)) ((first :: rest).map operandValue)
        = heldInMemory c (numberOf (columnsOf record)) ((first :: rest).map operandValue)) := by
  have two : 2 ≤ (first :: rest).length := Nat.succ_le_succ (List.length_pos_of_ne_nil several)
  have tokens : ((Environment.ofContext []).declareTables
      (.list (.symbol c.operator.name :: first :: rest))).tokens
        = [rowToken, tableToken, contextToken] := by
    have other : c.operator ≠ .aliased := by cases c <;> decide
    exact declareIn_call other fun e he => declareIn_operand (known e he)
  have sees : SeesFields fields record
      ((InMemory.environment [] (.list (.symbol c.operator.name :: first :: rest))).surround
        (Row.single table (.object record)))
      ((Environment.ofContext []).declareTables
        (.list (.symbol c.operator.name :: first :: rest))) :=
    seesFields_of_tokens tokens hf table
  refine ⟨comparison_inMemory c sees known two, ?_, ?_⟩
  · obtain ⟨f, items, r, compiled, part, reads, read, truth⟩ :=
      comparison_inStatement c sees known two column
    refine ⟨_, _, r, ?_, readCondition_statement reads read style, truth⟩
    rw [compile, compiled]
    rfl
  · rintro (rfl | columns | apart)
    · obtain ⟨s, there⟩ := column
      exact heldInStatement_equal (List.any_eq_true.2 ⟨_, List.mem_map_of_mem there, rfl⟩)
    · exact heldInStatement_of_columns c (List.forall_mem_map.2 columns)
    · exact heldInStatement_of_apart c (List.forall_mem_map.2 apart)

/-- A constant is greater than two columns in both. -/
theorem comparison_with_constant_in_front :
    ∃ r, InMemory.evaluateIn
        ((InMemory.environment [] (.list [.symbol ">", .literal (.integer 10), .symbol ":a",
          .symbol ":b"])).surround
            (Row.single "t" (.object [("a", .integer 3), ("b", .integer 7)])))
        (.list [.symbol ">", .literal (.integer 10), .symbol ":a", .symbol ":b"])
          = .ok (.boolean true) ∧
      readCondition "\"a\" < $1 AND \"b\" < $2" [.integer 10, .integer 10] = some r ∧
      r.truth? (columnsOf [("a", .integer 3), ("b", .integer 7)]) = some (some true) := by
  have known : ∀ e ∈ [.literal (.integer 10), .symbol ":a", .symbol ":b"],
      IsOperand (fun f => f = "a" ∨ f = "b") e := by
    simp only [List.forall_mem_cons, List.not_mem_nil, false_implies, implies_true, and_true]
    exact ⟨.number 10, .field "a" (.inl rfl), .field "b" (.inr rfl)⟩
  have integers : ∀ f, f = "a" ∨ f = "b" → f ≠ "*" ∧
      ∃ n, Entries.get? [("a", Value.integer 3), ("b", .integer 7)] f = some (.integer n) := by
    rintro f (rfl | rfl)
    · exact ⟨by decide, 3, rfl⟩
    · exact ⟨by decide, 7, rfl⟩
  obtain ⟨inMemory, ⟨statement, params, r, compiled, read, truth⟩, same⟩ :=
    compile_comparison .greater known (List.cons_ne_nil _ _) ⟨":a", .tail _ (.head _)⟩ integers
      .dollar "t"
  obtain ⟨rfl, rfl⟩ := Compiled.query.inj (Except.ok.inj compiled)
  exact ⟨r, inMemory, read, truth⟩

/-- With a second column before a constant, memory compares the columns and the statement does not. -/
theorem comparison_of_columns_and_constant :
    InMemory.evaluateIn
        ((InMemory.environment [] (.list [.symbol ">", .symbol ":a", .symbol ":b",
          .literal (.integer 1)])).surround
            (Row.single "t" (.object [("a", .integer 2), ("b", .integer 3)])))
        (.list [.symbol ">", .symbol ":a", .symbol ":b", .literal (.integer 1)])
      = .ok (.boolean false) ∧
    ∃ r, compile .dollar (.list [.symbol ">", .symbol ":a", .symbol ":b",
          .literal (.integer 1)]) []
        = .ok (.query "\"a\" > $1 AND \"b\" > $2" [.integer 1, .integer 1]) ∧
      readCondition "\"a\" > $1 AND \"b\" > $2" [.integer 1, .integer 1] = some r ∧
      r.truth? (columnsOf [("a", .integer 2), ("b", .integer 3)]) = some (some true) :=
  ⟨rfl, _, rfl, rfl, rfl⟩

end QueryForms.Sql
