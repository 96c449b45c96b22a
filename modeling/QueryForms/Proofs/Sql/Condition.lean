import QueryForms.InMemory.Interpretation
import QueryForms.Proofs.Levels
import QueryForms.Proofs.Sql.Compilation
import QueryForms.Proofs.Sql.Reading

/-!
# Conditions keep their meaning

A condition of comparisons between fields and integers, under `$and`, `$or` and `$not` at any
nesting, is evaluated in memory and compiled to a statement. `Sql.compile_condition`: where the
fields are integers on a row, the statement reads as a condition with the truth that memory gives on
that row; and a condition without fields, which compiles to a value, compiles to what memory gives.

The simulation is by induction on the condition. Comparisons of constants fold to truth values, and
these stand as parameters in what is around them; comparisons that begin with a constant exchange
their sides; everything else is put in parentheses before it is connected.
-/

namespace QueryForms

/-! ## Conditions -/

/-- The operator of a comparison. -/
def SqlScalar.Comparison.operator : Comparison → Operator
  | equal => .equal
  | notEqual => .notEqual
  | greater => .greaterThan
  | less => .lessThan
  | greaterEqual => .greaterEqual
  | lessEqual => .lessEqual

/-- A field among the given ones, or an integer. -/
inductive IsOperand (fields : String → Prop) : Expr → Prop where
  | field (name : String) (known : fields name) : IsOperand fields (.symbol (rowToken ++ name))
  | number (n : Int64) : IsOperand fields (.literal (.integer n))

/-- A condition over the given fields. -/
inductive IsCondition (fields : String → Prop) : Expr → Prop where
  | compare (c : SqlScalar.Comparison) {left right : Expr} (hl : IsOperand fields left)
    (hr : IsOperand fields right) :
    IsCondition fields (.list [.symbol c.operator.name, left, right])
  | and {first : Expr} {rest : List Expr} (hf : IsCondition fields first)
    (hr : ∀ e ∈ rest, IsCondition fields e) :
    IsCondition fields (.list (.symbol Operator.and.name :: first :: rest))
  | or {first : Expr} {rest : List Expr} (hf : IsCondition fields first)
    (hr : ∀ e ∈ rest, IsCondition fields e) :
    IsCondition fields (.list (.symbol Operator.or.name :: first :: rest))
  | not {e : Expr} (he : IsCondition fields e) :
    IsCondition fields (.list [.symbol Operator.not.name, e])

/-! ## Evaluating calls -/

/-- An operator on values works on the values of its operands. -/
theorem Interpretation.step_onValues {i : Interpretation} {op : Operator}
    {f : List Value → Result Value} (h : i.handler op = some (.onValues f)) (other : op ≠ .quote)
    (eval : Evaluator) (operands : List Expr) (env : Environment) :
    i.step eval (.list (.symbol op.name :: operands)) env
      = (operands.mapM fun e => eval e env) >>= f := by
  simp only [step, call, Expr.asName?, Operator.ofName?_name, apply, if_neg other, h]
  rfl

/-- A call of an operator on values works on the values of its operands. -/
theorem Interpretation.Local.evaluate_onValues {i : Interpretation} (h : i.Local) {op : Operator}
    {f : List Value → Result Value} (known : i.handler op = some (.onValues f)) (other : op ≠ .quote)
    {operands : List Expr} {values : List Value} {env : Environment}
    (evaluated : evaluateAll i.evaluate operands env = .ok values) :
    i.evaluate (.list (.symbol op.name :: operands)) env = f values := by
  have step : i.step i.evaluate (.list (.symbol op.name :: operands)) env
      = evaluateAll i.evaluate operands env >>= f := step_onValues known other _ _ _
  rw [h.evaluate_eq_step, step, evaluated]
  rfl

/-- Below a call there is at least one level. -/
theorem Expr.exists_levels {items : List Expr} {levels : Nat}
    (h : (Expr.list items).depth ≤ levels) :
    ∃ below, levels = below + 1 ∧ ∀ e ∈ items, e.depth ≤ below := by
  rw [depth] at h
  refine ⟨levels - 1, by omega, fun e he => ?_⟩
  have := depth_le_depthOfList he
  omega

/-- Of two evaluations of a list the first gives truths, and the second what belongs to them. -/
theorem mapM_agree {α : Type} {f g : α → Result Value} {R : Bool → Value → Prop} {list : List α}
    (h : ∀ a ∈ list, ∃ b v, f a = .ok (.boolean b) ∧ g a = .ok v ∧ R b v) :
    ∃ bs vs, list.mapM f = .ok (bs.map .boolean) ∧ list.mapM g = .ok vs ∧ List.Forall₂ R bs vs := by
  induction list with
  | nil => exact ⟨[], [], rfl, rfl, .nil⟩
  | cons a rest ih =>
    obtain ⟨b, v, hf, hg, related⟩ := h a (List.mem_cons_self ..)
    obtain ⟨bs, vs, hfs, hgs, others⟩ := ih fun c hc => h c (List.mem_cons_of_mem _ hc)
    refine ⟨b :: bs, v :: vs, ?_, ?_, .cons related others⟩
    · rw [List.mapM_cons, hf, hfs]
      rfl
    · rw [List.mapM_cons, hg, hgs]
      rfl

/-! ## Comparisons of integers -/

/-- The first of some operands is tested against each of the others. -/
theorem Scalar.compareAll_eq_ok {op : String} {test : Value → Value → Result Bool} {a b : Value}
    {rest : List Value} {holds : Value → Bool} (h : ∀ v ∈ b :: rest, test a v = .ok (holds v)) :
    compareAll op test (a :: b :: rest) = .ok (.boolean ((b :: rest).all holds)) := by
  have tested : ∀ {list : List Value}, (∀ v ∈ list, test a v = .ok (holds v)) →
      compareAll.holdsForAll test a list = .ok (list.all holds) := by
    intro list h
    induction list with
    | nil => rfl
    | cons v list ih =>
      rw [compareAll.holdsForAll, h v (List.mem_cons_self ..), List.all_cons]
      cases holds v
      · rfl
      · exact ih fun v hv => h v (List.mem_cons_of_mem _ hv)
  exact congrArg (Except.map Value.boolean) (tested h)

theorem Scalar.compareAll_two {op : String} {test : Value → Value → Result Bool} {a b : Value}
    {truth : Bool} (tested : test a b = .ok truth) :
    compareAll op test [a, b] = .ok (.boolean truth) := by
  have all := @compareAll_eq_ok op test a b [] (fun _ => truth)
    (List.forall_mem_singleton.2 tested)
  rwa [List.all_cons, List.all_nil, Bool.and_true] at all

namespace SqlScalar.Comparison

/-- A comparison with its sides exchanged says the same. -/
theorem holds_swap (c : Comparison) (a b : Int) : c.swap.holds b a = c.holds a b := by
  cases c <;> simp [swap, holds, eq_comm, bne]

/-- What a comparison tests of two values in memory. -/
def test (c : Comparison) (a b : Value) : Result Bool :=
  match c with
  | .equal => .ok (looseEq a b)
  | .notEqual => .ok (!looseEq a b)
  | .greater => Scalar.ordered Ordering.isGT a b
  | .less => Scalar.ordered Ordering.isLT a b
  | .greaterEqual => Scalar.ordered Ordering.isGE a b
  | .lessEqual => Scalar.ordered Ordering.isLE a b

/-- What a comparison computes of values in memory. -/
def compute (c : Comparison) : List Value → Result Value :=
  Scalar.compareAll c.operator.name c.test

/-- In memory a comparison computes, and in statements too unless a column is compared. -/
theorem handler_operator (c : Comparison) :
    InMemory.handler c.operator = some (.onValues c.compute) ∧
      Sql.handler c.operator = some (.onValues (orCompute c.compute (comparison c))) := by
  cases c <;> exact ⟨rfl, rfl⟩

theorem operator_ne_quote (c : Comparison) : c.operator ≠ .quote := by
  cases c <;> decide

theorem operator_ne_aliased (c : Comparison) : c.operator ≠ .aliased := by
  cases c <;> decide

/-- Machine integers are compared as the integers that they stand for. -/
theorem test_integers (c : Comparison) (a b : Int64) :
    c.test (.integer a) (.integer b) = .ok (c.holds a.toInt b.toInt) := by
  have same : (a == b) = (a.toInt == b.toInt) := by
    rw [Bool.eq_iff_iff, beq_iff_eq, beq_iff_eq, Int64.toInt_inj]
  have order : ∀ a b : Int,
      (compare a b).isGT = decide (b < a) ∧ (compare a b).isLT = decide (a < b) ∧
        (compare a b).isGE = decide (b ≤ a) ∧ (compare a b).isLE = decide (a ≤ b) := by
    intro a b
    have cases : compare a b = if a < b then .lt else if a = b then .eq else .gt := rfl
    rw [cases]
    split
    · simp; omega
    · split <;> simp <;> omega
  cases c with
  | equal => rw [test, looseEq, same, holds]
  | notEqual => rw [test, looseEq, same, holds, bne]
  | greater => exact congrArg Except.ok (order a.toInt b.toInt).1
  | less => exact congrArg Except.ok (order a.toInt b.toInt).2.1
  | greaterEqual => exact congrArg Except.ok (order a.toInt b.toInt).2.2.1
  | lessEqual => exact congrArg Except.ok (order a.toInt b.toInt).2.2.2

/-- Of integers the first is compared with each of the others. -/
theorem compute_integers (c : Comparison) (a b : Int64) (rest : List Int64) :
    c.compute (.integer a :: (b :: rest).map .integer)
      = .ok (.boolean ((b :: rest).all fun b => c.holds a.toInt b.toInt)) := by
  -- the others are integers, as whose numbers they are compared
  have held : ∀ v ∈ (b :: rest).map Value.integer,
      c.test (.integer a) v = .ok (c.holds a.toInt ((v.asInt64?.getD 0).toInt)) :=
    List.forall_mem_map.2 fun b _ => c.test_integers a b
  refine (Scalar.compareAll_eq_ok held).trans ?_
  rw [← List.map_cons, List.all_map]
  rfl

end SqlScalar.Comparison

/-! ## Operands -/

theorem stripStart?_rowToken (name : String) :
    stripStart? rowToken (rowToken ++ name) = some name := by
  simp [stripStart?, rowToken]

/-- A symbol of the current row is split after its token, where there are only the standing ones. -/
theorem Environment.splitSymbol?_row {scope : Environment}
    (h : scope.tokens = [rowToken, tableToken, contextToken]) (name : String) :
    scope.splitSymbol? (rowToken ++ name) = some (rowToken, name) := by
  have row := stripStart?_rowToken name
  have other : stripStart? tableToken (rowToken ++ name) = none ∧
      stripStart? contextToken (rowToken ++ name) = none := by
    simp [stripStart?, rowToken, tableToken, contextToken]
  -- of the standing tokens only that of the row begins with a colon
  rw [splitSymbol?, h]
  simp [longerToken, row, other]

/-- The field of a row of one record. -/
theorem Row.lookup_single {record : Record} {name : String} {v : Value}
    (h : Entries.get? record name = some v) (table : String) :
    (Row.single table (.object record)).lookup name = v := by
  simp [lookup, single, groupKey?, Value.lookupPath?, h]

namespace Sql

/-- What an operand compiles to: its number, or a column that holds it. -/
inductive OperandValue (row : String → Value) (n : Int64) : Value → Prop where
  | number : OperandValue row n (.integer n)
  | column (name : String) (one : name ≠ "*") (holds : row name = .integer n) :
    OperandValue row n (.column ⟨none, name⟩)

/-- What an operand is in a statement: the column of a field, or a number. -/
def operandValue : Expr → Value
  | .symbol s => .column ⟨none, (stripStart? rowToken s).getD s⟩
  | .literal v => v
  | _ => .null

/-- The number that an operand of a statement stands for on a row. -/
def numberOf (row : String → Value) : Value → Int64
  | .integer n => n
  | .column c => (row c.name).asInt64?.getD 0
  | _ => 0

/-- What a condition compiles to: its truth, or a fragment that reads as a condition with it. -/
inductive ConditionValue (row : String → Value) (b : Bool) : Value → Prop where
  | truth : ConditionValue row b (.boolean b)
  | fragment {f : Fragment} {items : List Item} {r : Reading} (part : f.isQuery = false)
    (reads : f.Reads items) (read : readDisjunction items = some r)
    (true : r.truth? row = some (some b)) : ConditionValue row b (.fragment f)

/-- An operand in a statement reads as one operand with its value. -/
theorem OperandValue.toSql {row : String → Value} {n : Int64} {v : Value}
    (h : OperandValue row n v) :
    ∃ f r, v.toSql = .ok f ∧ f.Reads [.operand r] ∧ r.scalar? row = some (.integer n) := by
  cases h with
  | number => exact ⟨_, .value (.integer n), rfl, .ofParam _, rfl⟩
  | column name one holds =>
    exact ⟨_, .column name, rfl, .ofColumn one, congrArg some holds⟩

/-- A sign between two operands reads as their comparison. -/
theorem infixSql_reads {row : String → Value} (c : SqlScalar.Comparison) {v w : Value}
    {n m : Int64} (hv : OperandValue row n v) (hw : OperandValue row m w) :
    ∃ f l r, SqlScalar.infixSql c.sign v w = .ok f ∧
      f.Reads [.operand l, .mark c.sign, .operand r] ∧
      (Reading.binary (.compare c) l r).truth? row = some (some (c.holds n.toInt m.toInt)) := by
  obtain ⟨f, l, hf, left, ln⟩ := hv.toSql
  obtain ⟨g, r, hg, right, rm⟩ := hw.toSql
  have reads : ((f.pushText (" " ++ c.sign ++ " ")).append g).Reads
      [.operand l, .mark c.sign, .operand r] :=
    left.middle right (sign_mem_middleTexts c) (.sign c)
  refine ⟨_, l, r, by rw [SqlScalar.infixSql, hf, hg]; rfl, reads, ?_⟩
  simp [Reading.truth?, ln, rm, compareTruth?]

/-- A single comparison is a condition. -/
theorem conditionValue_infix {row : String → Value} (c : SqlScalar.Comparison) {v w : Value}
    {n m : Int64} (hv : OperandValue row n v) (hw : OperandValue row m w) :
    ∃ f, SqlScalar.infixSql c.sign v w = .ok f ∧
      ConditionValue row (c.holds n.toInt m.toInt) (.fragment (Fragment.join " AND " [f])) := by
  obtain ⟨f, l, r, hf, reads, true⟩ := infixSql_reads c hv hw
  exact ⟨f, hf, .fragment rfl reads.empty_append (readDisjunction_compare c l r) true⟩

/-- A comparison of one pair is the one clause. -/
theorem comparison_eq_clause {c : SqlScalar.Comparison} {values : List Value} {left right : Value}
    {op : SqlScalar.Comparison} {f : Fragment} (two : ¬values.length < 2)
    (pairs : SqlScalar.comparedPairs values = [(left, right)])
    (sign : (if SqlScalar.exchanged values then c.swap else c) = op)
    (hf : SqlScalar.infixSql op.sign left right = .ok f) :
    SqlScalar.comparison c values = .ok (.fragment (Fragment.join " AND " [f])) := by
  rw [SqlScalar.comparison, if_neg two, pairs, sign]
  simp only [List.mapM_cons, List.mapM_nil, hf]
  rfl

/-- Where one side is a column, a comparison becomes SQL; a comparison of constants is computed. -/
theorem conditionValue_compare {row : String → Value} (c : SqlScalar.Comparison) {v w : Value}
    {n m : Int64} (hv : OperandValue row n v) (hw : OperandValue row m w)
    {compute : List Value → Result Value}
    (hc : compute [.integer n, .integer m] = .ok (.boolean (c.holds n.toInt m.toInt))) :
    ∃ out, SqlScalar.orCompute compute (SqlScalar.comparison c) [v, w] = .ok out ∧
      ConditionValue row (c.holds n.toInt m.toInt) out := by
  have two : ¬[v, w].length < 2 := by simp
  cases hv with
  | number =>
    cases hw with
    | number => exact ⟨_, hc, .truth⟩
    | column name one holds =>
      -- the constant comes first, so the sides are exchanged
      have constant : OperandValue row n (.integer n) := .number
      obtain ⟨f, hf, value⟩ := conditionValue_infix c.swap (.column name one holds) constant
      rw [SqlScalar.Comparison.holds_swap] at value
      exact ⟨_, comparison_eq_clause two rfl rfl hf, value⟩
  | column name one holds =>
    obtain ⟨f, hf, value⟩ := conditionValue_infix c (.column name one holds) hw
    refine ⟨_, comparison_eq_clause two ?_ rfl hf, value⟩
    cases hw <;> rfl

/-! ## Connectives -/

/-- The part that a condition is in a statement, in parentheses, reads as one operand with its
truth. -/
theorem ConditionValue.toSql {row : String → Value} {b : Bool} {v : Value}
    (h : ConditionValue row b v) :
    ∃ f r, v.toSql = .ok f ∧ (f.wrapped "(" ")").Reads [.operand r] ∧
      r.truth? row = some (some b) := by
  cases h with
  | truth =>
    refine ⟨_, .value (.boolean b), rfl, ?_, rfl⟩
    exact (Fragment.Reads.ofParam _).parenthesized (readDisjunction_operand _)
  | @fragment f items r part reads read true =>
    refine ⟨f, r, ?_, reads.parenthesized read, true⟩
    simp [Value.toSql, part]

theorem mapM_toSql {row : String → Value} {bs : List Bool} {values : List Value}
    (h : List.Forall₂ (ConditionValue row) bs values) :
    ∃ fs rs, values.mapM Value.toSql = .ok fs ∧
      List.Forall₂ (fun f r => (Fragment.wrapped f "(" ")").Reads [.operand r]) fs rs ∧
      List.Forall₂ (fun r b => Reading.truth? row r = some (some b)) rs bs := by
  induction h with
  | nil => exact ⟨[], [], rfl, .nil, .nil⟩
  | cons hv _ ih =>
    obtain ⟨f, r, hf, reads, true⟩ := hv.toSql
    obtain ⟨fs, rs, hfs, others, trues⟩ := ih
    refine ⟨f :: fs, r :: rs, ?_, .cons reads others, .cons true trues⟩
    rw [List.mapM_cons, hf, hfs]
    rfl

/-- What is joined is no query of its own. -/
theorem isQuery_join (s : String) (parts : List Fragment) :
    (Fragment.join s parts).isQuery = false := by
  cases parts with
  | nil => rfl
  | cons first rest =>
    rw [Fragment.join, Fragment.appendAll]
    exact List.foldlRecOn (motive := fun f : Fragment => f.isQuery = false) rest _ rfl
      fun _ hf _ _ => hf

/-- Conditions with a word between them, each in parentheses. -/
theorem connective_reads (j : Junction) {row : String → Value} {b : Bool} {first : Value}
    {bs : List Bool} {rest : List Value} (hf : ConditionValue row b first)
    (hr : List.Forall₂ (ConditionValue row) bs rest) :
    ∃ f r rs, SqlScalar.connective j.word (first :: rest) = .ok (.fragment f) ∧
      f.isQuery = false ∧ f.Reads (connected (.word j.word) r rs) ∧
      r.truth? row = some (some b) ∧
      List.Forall₂ (fun r b => Reading.truth? row r = some (some b)) rs bs := by
  obtain ⟨f, r, toSql, reads, true⟩ := hf.toSql
  obtain ⟨fs, rs, toSqls, others, trues⟩ := mapM_toSql hr
  -- in parentheses a part is one operand, so the word cannot be read into it
  have between : " " ++ j.word ++ " " ∈ middleTexts := by cases j <;> decide
  have wrapped : List.Forall₂ Fragment.Reads (fs.map fun f => f.wrapped "(" ")")
      (rs.map fun r => [.operand r]) := by simpa using others
  have joined := reads.join between (.junction j) wrapped
  refine ⟨Fragment.join (" " ++ j.word ++ " ")
      (f.wrapped "(" ")" :: fs.map fun f => f.wrapped "(" ")"),
    r, rs, ?_, isQuery_join _ _, ?_, true, trues⟩
  · rw [SqlScalar.connective, SqlScalar.parts, List.mapM_cons, toSql, toSqls]
    rfl
  · simpa [connected, List.flatMap_map] using joined

/-- A condition that is no SQL is its truth. -/
theorem ConditionValue.eq_boolean {row : String → Value} {b : Bool} {v : Value}
    (h : ConditionValue row b v) (plain : ¬v.isSql = true) : v = .boolean b := by
  cases h with
  | truth => rfl
  | fragment => exact absurd rfl plain

theorem eq_map_boolean {row : String → Value} {bs : List Bool} {values : List Value}
    (h : List.Forall₂ (ConditionValue row) bs values) (plain : ∀ v ∈ values, ¬v.isSql = true) :
    values = bs.map Value.boolean := by
  induction h with
  | nil => rfl
  | cons hv _ ih =>
    rw [hv.eq_boolean (plain _ (List.mem_cons_self ..)),
      ih fun v hm => plain v (List.mem_cons_of_mem _ hm)]
    rfl

namespace Junction

/-- The operator of a word. -/
def operator : Junction → Operator
  | and => .and
  | or => .or

/-- What the operator computes. -/
def compute : Junction → List Value → Result Value
  | and => Scalar.and
  | or => Scalar.or

/-- In memory the operator computes, and in statements it stands between its operands unless they
are truths. -/
theorem handler_operator (j : Junction) :
    InMemory.handler j.operator = some (.onValues j.compute) ∧
      handler j.operator
        = some (.onValues (SqlScalar.orCompute j.compute (SqlScalar.connective j.word))) := by
  cases j <;> exact ⟨rfl, rfl⟩

theorem all_eq_foldl (b : Bool) (bs : List Bool) : (b :: bs).all id = bs.foldl Bool.and b := by
  induction bs generalizing b with
  | nil => simp
  | cons c rest ih =>
    rw [List.foldl_cons, ← ih]
    simp [Bool.and_assoc]

theorem any_eq_foldl (b : Bool) (bs : List Bool) : (b :: bs).any id = bs.foldl Bool.or b := by
  induction bs generalizing b with
  | nil => simp
  | cons c rest ih =>
    rw [List.foldl_cons, ← ih]
    simp [Bool.or_assoc]

/-- Of truths the operator computes what the word says, from left to right. -/
theorem compute_truths (j : Junction) (b : Bool) (bs : List Bool) :
    j.compute ((b :: bs).map .boolean) = .ok (.boolean (bs.foldl j.combine b)) := by
  cases j with
  | and => rw [compute, Scalar.and, List.all_map, combine, ← all_eq_foldl]; rfl
  | or => rw [compute, Scalar.or, List.any_map, combine, ← any_eq_foldl]; rfl

end Junction

/-- Connected conditions: truths are computed, others have the word between them. -/
theorem conditionValue_connected (j : Junction) {row : String → Value} {b : Bool} {first : Value}
    {bs : List Bool} {rest : List Value} (hf : ConditionValue row b first)
    (hr : List.Forall₂ (ConditionValue row) bs rest) :
    ∃ out, SqlScalar.orCompute j.compute (SqlScalar.connective j.word) (first :: rest) = .ok out ∧
      ConditionValue row (bs.foldl j.combine b) out := by
  rw [SqlScalar.orCompute]
  split
  · obtain ⟨f, r, rs, compiled, part, reads, true, trues⟩ := connective_reads j hf hr
    refine ⟨_, compiled, ?_⟩
    exact .fragment part reads (readDisjunction_connected j r rs) (truth?_foldl j true trues)
  · next plain =>
    -- a condition that is no SQL was folded, so only truths are left
    have none : ∀ v ∈ first :: rest, ¬v.isSql = true := by simpa using plain
    have truths := eq_map_boolean (.cons hf hr) none
    rw [truths, j.compute_truths]
    exact ⟨_, rfl, .truth⟩

/-- A negation: of a truth its opposite, of another condition `NOT` before it. -/
theorem conditionValue_not {row : String → Value} {b : Bool} {v : Value}
    (hv : ConditionValue row b v) :
    ∃ out, SqlScalar.orCompute Scalar.not SqlScalar.not [v] = .ok out ∧
      ConditionValue row (!b) out := by
  cases hv with
  | truth => exact ⟨_, rfl, .truth⟩
  | @fragment f items r part reads read true =>
    have wrapped := (reads.parenthesized read).leading (s := "NOT ") (by decide) .not
    have value : ConditionValue row (!b)
        (.fragment ((Fragment.ofText "NOT ").append (f.wrapped "(" ")"))) := by
      refine .fragment rfl wrapped (readDisjunction_not r) ?_
      rw [Reading.truth?, true]
      rfl
    refine ⟨_, ?_, value⟩
    have toSql : (Value.fragment f).toSql = .ok f := by simp [Value.toSql, part]
    have sql : SqlScalar.orCompute Scalar.not SqlScalar.not [.fragment f]
        = (Value.fragment f).toSql >>= fun f =>
          .ok (.fragment ((Fragment.ofText "NOT ").append (f.wrapped "(" ")"))) := rfl
    rw [sql, toSql]
    rfl

/-! ## The simulation -/

/-- A scope in memory and one of a statement that both see the fields of a row. -/
structure SeesFields (fields : String → Prop) (record : Record) (memory scope : Environment) :
    Prop where
  /-- In memory the row is one record. -/
  row : ∃ table, memory.row = some (Row.single table (.object record))
  /-- The fields are integers in the record. -/
  integers : ∀ f, fields f → ∃ n, Entries.get? record f = some (.integer n)
  /-- No field is the star. -/
  notStar : ∀ f, fields f → f ≠ "*"
  /-- In memory a field is named in the current row. -/
  memoryNames : ∀ f, fields f → memory.splitSymbol? (rowToken ++ f) = some (rowToken, f)
  /-- In the statement too. -/
  scopeNames : ∀ f, fields f → scope.splitSymbol? (rowToken ++ f) = some (rowToken, f)

/-- The values of the columns on a row; a field that is not there is null. -/
def columnsOf (record : Record) (name : String) : Value :=
  (Entries.get? record name).getD .null

section Simulation

variable {fields : String → Prop} {record : Record} {memory scope : Environment}

/-- In memory an operand is its number, and in the statement the number or a column that holds it. -/
theorem operand_agrees (sees : SeesFields fields record memory scope) {e : Expr}
    (he : IsOperand fields e) {levels : Nat} (enough : e.depth ≤ levels) :
    InMemory.interpretation.evaluateLevels levels e memory
        = .ok (.integer (numberOf (columnsOf record) (operandValue e))) ∧
      interpretation.evaluateLevels levels e scope = .ok (operandValue e) ∧
      OperandValue (columnsOf record) (numberOf (columnsOf record) (operandValue e))
        (operandValue e) := by
  cases levels with
  | zero => cases he <;> simp [Expr.depth] at enough
  | succ levels =>
    cases he with
    | number n => exact ⟨rfl, rfl, .number⟩
    | field name known =>
      obtain ⟨n, found⟩ := sees.integers name known
      obtain ⟨table, row⟩ := sees.row
      have holds : columnsOf record name = .integer n := by rw [columnsOf, found]; rfl
      have there : (memory.row.map fun row => row.lookup name).getD .null = .integer n := by
        rw [row]
        exact Row.lookup_single found table
      have column : operandValue (.symbol (rowToken ++ name)) = .column ⟨none, name⟩ := by
        rw [operandValue, stripStart?_rowToken]
        rfl
      have number : numberOf (columnsOf record) (.column ⟨none, name⟩) = n := by
        rw [numberOf, holds]
        rfl
      rw [column, number]
      refine ⟨?_, ?_, .column name (sees.notStar name known) holds⟩
      · rw [Interpretation.evaluateLevels, Interpretation.step, Interpretation.resolveSymbol,
          sees.memoryNames name known]
        simp [InMemory.interpretation, InMemory.resolve, there]
      · rw [Interpretation.evaluateLevels, Interpretation.step, Interpretation.resolveSymbol,
          sees.scopeNames name known]
        simp [interpretation, resolve]

/-- What is said of a condition at a level: it has a truth in memory, and what it compiles to has
that truth on the row. -/
def TruthAgrees (record : Record) (memory scope : Environment) (levels : Nat) (e : Expr) : Prop :=
  ∃ b v, InMemory.interpretation.evaluateLevels levels e memory = .ok (.boolean b) ∧
    interpretation.evaluateLevels levels e scope = .ok v ∧
    ConditionValue (columnsOf record) b v

/-- Connected conditions agree if each of them does. -/
theorem connected_agrees (j : Junction) {first : Expr} {rest : List Expr} {below : Nat}
    (hf : TruthAgrees record memory scope below first)
    (hr : ∀ e ∈ rest, TruthAgrees record memory scope below e) :
    TruthAgrees record memory scope (below + 1)
      (.list (.symbol j.operator.name :: first :: rest)) := by
  obtain ⟨b, v, firstMemory, firstSql, hv⟩ := hf
  obtain ⟨bs, vs, restMemory, restSql, hvs⟩ := mapM_agree hr
  obtain ⟨out, compiled, value⟩ := conditionValue_connected j hv hvs
  have other : j.operator ≠ .quote := by cases j <;> decide
  refine ⟨_, out, ?_, ?_, value⟩
  · rw [Interpretation.evaluateLevels, Interpretation.step_onValues j.handler_operator.1 other,
      List.mapM_cons, firstMemory, restMemory]
    exact j.compute_truths b bs
  · rw [Interpretation.evaluateLevels, Interpretation.step_onValues j.handler_operator.2 other,
      List.mapM_cons, firstSql, restSql]
    exact compiled

/-- A condition has a truth in memory, and what it compiles to has it on the row. -/
theorem condition_agrees (sees : SeesFields fields record memory scope) {e : Expr}
    (he : IsCondition fields e) {levels : Nat} (enough : e.depth ≤ levels) :
    TruthAgrees record memory scope levels e := by
  -- the levels are general, as the operands of a call have one level less
  induction he generalizing levels with
  | @compare c left right hl hr =>
    obtain ⟨below, rfl, inside⟩ := Expr.exists_levels enough
    obtain ⟨leftMemory, leftSql, hv⟩ := operand_agrees sees hl (inside left (by simp))
    obtain ⟨rightMemory, rightSql, hw⟩ := operand_agrees sees hr (inside right (by simp))
    have computed : c.compute _ = _ := Scalar.compareAll_two
      (c.test_integers (numberOf (columnsOf record) (operandValue left))
        (numberOf (columnsOf record) (operandValue right)))
    obtain ⟨out, compiled, value⟩ := conditionValue_compare c hv hw computed
    refine ⟨_, out, ?_, ?_, value⟩
    · rw [Interpretation.evaluateLevels,
        Interpretation.step_onValues c.handler_operator.1 c.operator_ne_quote]
      simp only [List.mapM_cons, List.mapM_nil, leftMemory, rightMemory]
      exact computed
    · rw [Interpretation.evaluateLevels,
        Interpretation.step_onValues c.handler_operator.2 c.operator_ne_quote]
      simp only [List.mapM_cons, List.mapM_nil, leftSql, rightSql]
      exact compiled
  | and _ _ ihf ihr =>
    obtain ⟨below, rfl, inside⟩ := Expr.exists_levels enough
    exact connected_agrees .and (ihf (inside _ (by simp)))
      fun e he => ihr e he (inside e (by simp [he]))
  | or _ _ ihf ihr =>
    obtain ⟨below, rfl, inside⟩ := Expr.exists_levels enough
    exact connected_agrees .or (ihf (inside _ (by simp)))
      fun e he => ihr e he (inside e (by simp [he]))
  | @not e _ ih =>
    obtain ⟨below, rfl, inside⟩ := Expr.exists_levels enough
    obtain ⟨b, v, inMemory, inSql, hv⟩ := ih (inside e (by simp))
    obtain ⟨out, compiled, value⟩ := conditionValue_not hv
    refine ⟨_, out, ?_, ?_, value⟩
    · rw [Interpretation.evaluateLevels,
        Interpretation.step_onValues (f := Scalar.not) rfl (by decide), List.mapM_cons, inMemory]
      rfl
    · rw [Interpretation.evaluateLevels, Interpretation.step_onValues
        (f := SqlScalar.orCompute Scalar.not SqlScalar.not) rfl (by decide), List.mapM_cons, inSql]
      exact compiled

end Simulation

/-! ## Conditions of a whole statement -/

section Declarations

variable {tokens : List String}

/-- A call that introduces no alias declares nothing if its operands do not. -/
theorem declareIn_call {op : Operator} {operands : List Expr} (other : op ≠ .aliased)
    (same : ∀ e ∈ operands, Environment.declareIn tokens e = tokens) :
    Environment.declareIn tokens (.list (.symbol op.name :: operands)) = tokens :=
  (Environment.declareIn_call other tokens operands).trans
    (Environment.declareInList_eq same)

theorem declareIn_operand {fields : String → Prop} {e : Expr} (he : IsOperand fields e) :
    Environment.declareIn tokens e = tokens := by
  cases he with
  | number n => rfl
  | field name known =>
    have noTable : stripStart? tableToken (rowToken ++ name) = none := by
      simp [stripStart?, rowToken, tableToken]
    rw [Environment.declareIn, noTable]

/-- A condition names no table and no alias. -/
theorem declareIn_condition {fields : String → Prop} {e : Expr} (he : IsCondition fields e) :
    Environment.declareIn tokens e = tokens := by
  induction he with
  | compare c hl hr =>
    refine declareIn_call c.operator_ne_aliased (List.forall_mem_cons.2 ⟨declareIn_operand hl, ?_⟩)
    exact List.forall_mem_singleton.2 (declareIn_operand hr)
  | and _ _ ihf ihr => exact declareIn_call (by decide) (List.forall_mem_cons.2 ⟨ihf, ihr⟩)
  | or _ _ ihf ihr => exact declareIn_call (by decide) (List.forall_mem_cons.2 ⟨ihf, ihr⟩)
  | not _ ih => exact declareIn_call (by decide) (List.forall_mem_singleton.2 ih)

end Declarations

/-- A statement of one fragment reads as the fragment does. -/
theorem readCondition_statement {f : Fragment} {items : List Item} {r : Reading}
    (reads : f.Reads items) (read : readDisjunction items = some r) (style : PlaceholderStyle) :
    readCondition (f.statement style) f.params = some r := by
  rw [readCondition, nest_eq_nestBy, (Fragment.reads_iff.1 reads).statement]
  exact read

/-- Where only the standing tokens are declared the fields of a row are seen in both scopes. -/
theorem seesFields_of_tokens {fields : String → Prop} {record : Record} {e : Expr}
    (tokens : ((Environment.ofContext []).declareTables e).tokens
      = [rowToken, tableToken, contextToken])
    (hf : ∀ f, fields f → f ≠ "*" ∧ ∃ n, Entries.get? record f = some (.integer n))
    (table : String) :
    SeesFields fields record
      ((InMemory.environment [] e).surround (Row.single table (.object record)))
      ((Environment.ofContext []).declareTables e) :=
  ⟨⟨table, rfl⟩, fun f known => (hf f known).2, fun f known => (hf f known).1,
    fun f _ => Environment.splitSymbol?_row tokens f,
    fun f _ => Environment.splitSymbol?_row tokens f⟩

/-- On a row whose fields are integers a condition has a truth in memory. It compiles to the truth
itself, or to a statement that reads as a condition with that truth on the row. -/
theorem compile_condition {fields : String → Prop} {record : Record} {e : Expr}
    (he : IsCondition fields e)
    (hf : ∀ f, fields f → f ≠ "*" ∧ ∃ n, Entries.get? record f = some (.integer n))
    (style : PlaceholderStyle) (table : String) :
    ∃ b, InMemory.evaluateIn
        ((InMemory.environment [] e).surround (Row.single table (.object record))) e
          = .ok (.boolean b) ∧
      (compile style e [] = .ok (.value (.boolean b)) ∨
        ∃ statement params r, compile style e [] = .ok (.query statement params) ∧
          readCondition statement params = some r ∧
          r.truth? (columnsOf record) = some (some b)) := by
  have tokens : ((Environment.ofContext []).declareTables e).tokens
      = [rowToken, tableToken, contextToken] := declareIn_condition he
  have sees : SeesFields fields record
      ((InMemory.environment [] e).surround (Row.single table (.object record)))
      ((Environment.ofContext []).declareTables e) :=
    seesFields_of_tokens tokens hf table
  obtain ⟨b, v, inMemory, inSql, value⟩ := condition_agrees sees he (Nat.le_refl e.depth)
  refine ⟨b, inMemory, ?_⟩
  have compiled : compile style e [] = .ok (Compiled.ofValue style v) := by
    rw [compile, evaluateIn, Interpretation.evaluate, inSql]
    rfl
  cases value with
  | truth => exact .inl compiled
  | @fragment f items r part reads read true =>
    exact .inr ⟨_, _, r, compiled, readCondition_statement reads read style, true⟩

/-- A number before a column, a comparison of numbers and a negation. -/
theorem condition_of_exchanged_sides :
    ∃ r, readCondition "(\"age\" < $1) AND (NOT (($2) OR (\"age\" <= \"limit\")))"
        [.integer 18, .boolean false] = some r ∧
      r.truth? (columnsOf [("age", .integer 7), ("limit", .integer 5)]) = some (some true) := by
  have condition : IsCondition (fun f => f = "age" ∨ f = "limit")
      (.list [.symbol "$and", .list [.symbol ">", .literal (.integer 18), .symbol ":age"],
        .list [.symbol "$not", .list [.symbol "$or",
          .list [.symbol "=", .literal (.integer 1), .literal (.integer 2)],
          .list [.symbol "<=", .symbol ":age", .symbol ":limit"]]]]) :=
    .and (.compare .greater (.number 18) (.field "age" (.inl rfl))) fun e he =>
      List.mem_singleton.1 he ▸ .not (.or (.compare .equal (.number 1) (.number 2)) fun e he =>
        List.mem_singleton.1 he ▸
          .compare .lessEqual (.field "age" (.inl rfl)) (.field "limit" (.inr rfl)))
  have known : ∀ f, f = "age" ∨ f = "limit" → f ≠ "*" ∧
      ∃ n, Entries.get? [("age", Value.integer 7), ("limit", .integer 5)] f
        = some (.integer n) := by
    rintro f (rfl | rfl)
    · exact ⟨by decide, 7, rfl⟩
    · exact ⟨by decide, 5, rfl⟩
  obtain ⟨b, inMemory, compiled⟩ := compile_condition condition known .dollar "people"
  obtain rfl : true = b := Value.boolean.inj (Except.ok.inj inMemory)
  rcases compiled with compiled | ⟨statement, params, r, compiled, read, truth⟩
  · exact nomatch compiled
  · obtain ⟨rfl, rfl⟩ := Compiled.query.inj (Except.ok.inj compiled)
    exact ⟨r, read, truth⟩

end Sql

end QueryForms
