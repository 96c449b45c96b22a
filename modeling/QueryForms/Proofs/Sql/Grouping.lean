import QueryForms.Proofs.Levels
import QueryForms.Proofs.Sql.Condition
import QueryForms.Proofs.Sql.Term

/-!
# Which operators keep their operands

A scalar is built from columns and literals by comparisons of two operands, `$and`, `$or`, `$not` and
arithmetic. Its operator tree has the value of what has no column in it, and has comparisons that
begin with such a value mirrored (`IsTermOf`). `Sql.compile_scalar`: a scalar that compiles to a
statement has an operator tree, and the statement reads as this tree exactly if the tree is grouped.

So operators keep their operands under `$and`, `$or` and `$not`, and arithmetic keeps its operands
wherever it stands; but a comparison, a negation or a connection of conditions that is compared or
computed with is read apart (`Sql.comparison_of_conjunction`).
-/

namespace QueryForms

/-! ## Scalars -/

/-- The operator of an arithmetic sign. -/
def ArithmeticOp.operator : ArithmeticOp → Operator
  | add => .add
  | subtract => .subtract
  | multiply => .multiply
  | divide => .divide

/-- A literal: null, a truth value, a number or a text. -/
def Value.isAtom : Value → Bool
  | .null => true
  | .boolean _ => true
  | .integer _ => true
  | .float _ => true
  | .string _ => true
  | _ => false

/-- A scalar over columns and literals. -/
inductive IsScalar (scope : Environment) : Expr → Prop where
  | column {symbol name : String} (names : scope.splitSymbol? symbol = some (rowToken, name))
    (one : name ≠ "*") : IsScalar scope (.symbol symbol)
  | text {symbol : String} (itself : scope.splitSymbol? symbol = none) :
    IsScalar scope (.symbol symbol)
  | literal {v : Value} (atom : v.isAtom = true) : IsScalar scope (.literal v)
  | compare (c : SqlScalar.Comparison) {left right : Expr} (hl : IsScalar scope left)
    (hr : IsScalar scope right) : IsScalar scope (.list [.symbol c.operator.name, left, right])
  | junction (j : Sql.Junction) {operands : List Expr} (h : ∀ e ∈ operands, IsScalar scope e) :
    IsScalar scope (.list (.symbol j.operator.name :: operands))
  | not {e : Expr} (h : IsScalar scope e) :
    IsScalar scope (.list [.symbol Operator.not.name, e])
  | arithmetic (op : ArithmeticOp) {operands : List Expr} (h : ∀ e ∈ operands, IsScalar scope e) :
    IsScalar scope (.list (.symbol op.operator.name :: operands))

/-- A column stands in an expression. -/
inductive Expr.HasColumn (scope : Environment) : Expr → Prop where
  | column {symbol name : String} (names : scope.splitSymbol? symbol = some (rowToken, name)) :
    HasColumn scope (.symbol symbol)
  | operand {head e : Expr} {operands : List Expr} (he : e ∈ operands) (h : HasColumn scope e) :
    HasColumn scope (.list (head :: operands))

/-- The operator tree of a scalar: what has no column is its value in memory, and a comparison that
begins with such a value is mirrored. -/
inductive IsTermOf (scope : Environment) : Expr → Sql.Term → Prop where
  | value {e : Expr} {v : Value} (free : ¬e.HasColumn scope)
    (holds : InMemory.evaluateIn scope e = .ok v) : IsTermOf scope e (.value v)
  | column {symbol name : String} (names : scope.splitSymbol? symbol = some (rowToken, name)) :
    IsTermOf scope (.symbol symbol) (.column name)
  | compare (c : SqlScalar.Comparison) {left right : Expr} {l r : Sql.Term}
    (first : left.HasColumn scope) (hl : IsTermOf scope left l) (hr : IsTermOf scope right r) :
    IsTermOf scope (.list [.symbol c.operator.name, left, right]) (.compare c l r)
  | mirrored (c : SqlScalar.Comparison) {left right : Expr} {l r : Sql.Term}
    (first : ¬left.HasColumn scope) (second : right.HasColumn scope) (hl : IsTermOf scope left l)
    (hr : IsTermOf scope right r) :
    IsTermOf scope (.list [.symbol c.operator.name, left, right]) (.compare c.swap r l)
  | junction (j : Sql.Junction) {first : Expr} {rest : List Expr} {t : Sql.Term}
    {ts : List Sql.Term} (column : ∃ e ∈ first :: rest, e.HasColumn scope)
    (hf : IsTermOf scope first t) (hr : List.Forall₂ (IsTermOf scope) rest ts) :
    IsTermOf scope (.list (.symbol j.operator.name :: first :: rest)) (.junction j t ts)
  | not {e : Expr} {t : Sql.Term} (column : e.HasColumn scope) (h : IsTermOf scope e t) :
    IsTermOf scope (.list [.symbol Operator.not.name, e]) (.negation t)
  | negative {e : Expr} {t : Sql.Term} (column : e.HasColumn scope) (h : IsTermOf scope e t) :
    IsTermOf scope (.list [.symbol ArithmeticOp.subtract.operator.name, e]) (.negative t)
  | arithmetic (op : ArithmeticOp) {first : Expr} {rest : List Expr} {t : Sql.Term}
    {ts : List Sql.Term} (column : ∃ e ∈ first :: rest, e.HasColumn scope)
    (several : op = .subtract → rest ≠ []) (hf : IsTermOf scope first t)
    (hr : List.Forall₂ (IsTermOf scope) rest ts) :
    IsTermOf scope (.list (.symbol op.operator.name :: first :: rest)) (.arithmetic op t ts)

variable {scope : Environment}

theorem Expr.hasColumn_symbol_iff {symbol : String} :
    (Expr.symbol symbol).HasColumn scope ↔
      ∃ name, scope.splitSymbol? symbol = some (rowToken, name) :=
  ⟨fun h => by cases h with | column names => exact ⟨_, names⟩, fun ⟨_, names⟩ => .column names⟩

theorem Expr.hasColumn_call_iff {head : Expr} {operands : List Expr} :
    (Expr.list (head :: operands)).HasColumn scope ↔ ∃ e ∈ operands, e.HasColumn scope :=
  ⟨fun h => by cases h with | operand he h => exact ⟨_, he, h⟩, fun ⟨_, he, h⟩ => .operand he h⟩

/-- The tree of an expression is a value if no column stands in the expression. -/
theorem IsTermOf.hasColumn_iff {e : Expr} {t : Sql.Term} (h : IsTermOf scope e t) :
    e.HasColumn scope ↔ t.isValue = false := by
  cases h with
  | value free => simp [free, Sql.Term.isValue]
  | column names => simp [Expr.HasColumn.column names, Sql.Term.isValue]
  | compare c first => simp [Expr.hasColumn_call_iff, first, Sql.Term.isValue]
  | mirrored c first second => simp [Expr.hasColumn_call_iff, second, Sql.Term.isValue]
  | junction j column => simpa [Expr.hasColumn_call_iff, Sql.Term.isValue] using column
  | not column => simp [Expr.hasColumn_call_iff, column, Sql.Term.isValue]
  | negative column => simp [Expr.hasColumn_call_iff, column, Sql.Term.isValue]
  | arithmetic op column => simpa [Expr.hasColumn_call_iff, Sql.Term.isValue] using column

/-! ## Literals -/

theorem Scalar.compareAll_isAtom {op : String} {test : Value → Value → Result Bool}
    (values : List Value) : Yields (compareAll op test values) fun v => v.isAtom = true := by
  rw [compareAll.eq_def]
  split
  · exact .fault _
  · exact .fault _
  · exact .map fun _ _ => rfl

/-- Of literals arithmetic gives literals; only dates move to dates. -/
theorem applyArithmetic_isAtom (op : ArithmeticOp) {a b : Value} (ha : a.isAtom = true)
    (hb : b.isAtom = true) : Yields (applyArithmetic op a b) fun v => v.isAtom = true := by
  have integers : ∀ m n, Yields (integerArithmetic op m n) fun v => v.isAtom = true := by
    intro m n
    rw [integerArithmetic]
    split
    · exact .error _
    · split
      · exact .error _
      · split <;> exact Yields.ok_iff.2 rfl
  have mixed : ∀ m n x y, (mixedArithmetic op m n x y).isAtom = true := by
    intro m n x y
    rw [mixedArithmetic]
    cases result : decimalArithmetic? op m n with
    | none => rfl
    | some v =>
      rw [decimalArithmetic?] at result
      obtain ⟨d, -, result⟩ := Option.bind_eq_some_iff.1 result
      obtain ⟨e, -, result⟩ := Option.bind_eq_some_iff.1 result
      obtain ⟨f, -, result⟩ := Option.bind_eq_some_iff.1 result
      split at result <;> obtain rfl := Option.some.inj result <;> rfl
  have text : Yields (textArithmetic op a b) fun v => v.isAtom = true := by
    rw [textArithmetic]
    split
    · next result =>
      split at result
      · rw [addText?.eq_def] at result
        split at result
        · obtain rfl := Option.some.inj result; exact Yields.ok_iff.2 rfl
        · obtain rfl := Option.some.inj result; exact Yields.ok_iff.2 rfl
        · cases result
      · cases result
    · exact .fault _
  rw [applyArithmetic.eq_def]
  split
  case h_3 => exact integers _ _
  case h_5 | h_6 => exact Yields.ok_iff.2 (mixed _ _ _ _)
  case h_7 | h_8 => cases ha
  case h_9 => exact text
  all_goals exact Yields.ok_iff.2 rfl

theorem spreadAll_of_isAtom {values : List Value} (h : ∀ v ∈ values, v.isAtom = true) :
    spreadAll values = values := by
  induction values with
  | nil => rfl
  | cons v rest ih =>
    have itself : spread v = [v] := by
      have atom := h v (List.mem_cons_self ..)
      cases v <;> first | rfl | exact nomatch atom
    rw [spreadAll, itself, ih fun w hw => h w (List.mem_cons_of_mem _ hw)]
    rfl

theorem reduce_isAtom (op : ArithmeticOp) {values : List Value}
    (h : ∀ v ∈ values, v.isAtom = true) : Yields (reduce op values) fun v => v.isAtom = true := by
  rw [reduce.eq_def, spreadAll_of_isAtom h]
  match values, h with
  | [], _ => cases op <;> first | exact Yields.ok_iff.2 rfl | exact .fault _
  | [only], h =>
    have atom := h only (List.mem_singleton.2 rfl)
    dsimp only
    split
    · exact applyArithmetic_isAtom op rfl atom
    · exact Yields.ok_iff.2 atom
  | first :: second :: rest, h =>
    exact .foldlM (fun a b ha hb => applyArithmetic_isAtom op ha (h b (List.mem_cons_of_mem _ hb)))
      (h first (List.mem_cons_self ..))

/-! ## Outcomes of lists -/

theorem exists_forall₂ {α β γ : Type} {R : α → β → Prop} {S : β → γ → Prop} {as : List α}
    {cs : List γ} (h : List.Forall₂ (fun a c => ∃ b, R a b ∧ S b c) as cs) :
    ∃ bs, List.Forall₂ R as bs ∧ List.Forall₂ S bs cs := by
  induction h with
  | nil => exact ⟨[], .nil, .nil⟩
  | cons here _ ih =>
    obtain ⟨b, first, second⟩ := here
    obtain ⟨bs, firsts, seconds⟩ := ih
    exact ⟨b :: bs, .cons first firsts, .cons second seconds⟩

namespace Sql

/-! ## Trees in statements -/

/-- What a scalar with a tree compiles to: its value, its column, or a fragment that is written as
the tree. -/
inductive Written : Term → Value → Prop where
  | value {v : Value} (atom : v.isAtom = true) : Written (.value v) v
  | column {name : String} (one : name ≠ "*") : Written (.column name) (.column ⟨none, name⟩)
  | fragment {t : Term} {f : Fragment} (sql : t.isValue = false) (part : f.isQuery = false)
    (reads : f.ReadsBy readGroup t.items) : Written t (.fragment f)

namespace Written

variable {t : Term} {v : Value}

/-- What is no SQL is a value. -/
theorem isSql_eq (h : Written t v) : v.isSql = !t.isValue := by
  cases h with
  | value atom => cases v <;> first | rfl | exact nomatch atom
  | column => rfl
  | fragment sql => rw [sql]; rfl

theorem eq_value (h : Written t v) (plain : v.isSql = false) : t = .value v := by
  cases h with
  | value => rfl
  | column => exact nomatch plain
  | fragment => exact nomatch plain

/-- In a statement the tree stands as it is written. -/
theorem toSql (h : Written t v) : ∃ f, v.toSql = .ok f ∧ f.ReadsBy readGroup t.items := by
  cases h with
  | value atom =>
    refine ⟨_, ?_, .ofParam v⟩
    cases v <;> first | rfl | exact nomatch atom
  | column one => exact ⟨_, rfl, .ofColumn one⟩
  | fragment _ part reads => exact ⟨_, by simp [Value.toSql, part], reads⟩

theorem parts {ts : List Term} {values : List Value} (h : List.Forall₂ Written ts values) :
    ∃ fs, SqlScalar.parts values = .ok fs ∧
      List.Forall₂ (fun f t => Fragment.ReadsBy readGroup f (Term.items t)) fs ts := by
  induction h with
  | nil => exact ⟨[], rfl, .nil⟩
  | cons hv _ ih =>
    obtain ⟨f, toSql, reads⟩ := hv.toSql
    obtain ⟨fs, parts, others⟩ := ih
    refine ⟨f :: fs, ?_, .cons reads others⟩
    rw [SqlScalar.parts, List.mapM_cons, toSql, ← SqlScalar.parts, parts]
    rfl

/-- Parts in parentheses are read as items of their own. -/
theorem wrapped {f : Fragment} {t : Term} (h : f.ReadsBy readGroup t.items) :
    (f.wrapped "(" ")").ReadsBy readGroup [group t.items] :=
  h.parenthesized (by decide) .parenthesis rfl

end Written

/-! ## Operators in statements -/

/-- Of two operands, one of which is SQL, the first that is SQL comes first. -/
theorem written_comparison (c : SqlScalar.Comparison) {l r : Term} {v w : Value}
    (hl : Written l v) (hr : Written r w) (sql : v.isSql = true ∨ w.isSql = true) :
    ∃ f, SqlScalar.comparison c [v, w] = .ok (.fragment f) ∧
      Written (if v.isSql then .compare c l r else .compare c.swap r l) (.fragment f) := by
  have clause : ∀ (c : SqlScalar.Comparison) {l r : Term} {v w : Value}, Written l v →
      Written r w → ∃ f, SqlScalar.infixSql c.sign v w = .ok f ∧
        Written (.compare c l r) (.fragment (Fragment.join " AND " [f])) := by
    intro c l r v w hl hr
    obtain ⟨f, hf, left⟩ := hl.toSql
    obtain ⟨g, hg, right⟩ := hr.toSql
    refine ⟨_, by rw [SqlScalar.infixSql, hf, hg]; rfl, .fragment rfl rfl ?_⟩
    have reads := left.middle right (sign_mem_middleTexts c) (.sign c)
    rw [List.append_assoc] at reads
    exact reads.empty_append
  have two : ¬[v, w].length < 2 := by simp
  cases hv : v.isSql with
  | true =>
    obtain ⟨f, hf, written⟩ := clause c hl hr
    refine ⟨_, comparison_eq_clause two ?_ ?_ hf, by simpa using written⟩
    · cases hw : w.isSql <;> simp [SqlScalar.comparedPairs, hv, hw]
    · simp [SqlScalar.exchanged, hv]
  | false =>
    -- the constant comes first, so the sides are exchanged
    have hw : w.isSql = true := by simpa [hv] using sql
    obtain ⟨f, hf, written⟩ := clause c.swap hr hl
    refine ⟨_, comparison_eq_clause two ?_ ?_ hf, by simpa using written⟩
    · simp [SqlScalar.comparedPairs, hv, hw]
    · simp [SqlScalar.exchanged, hv]

/-- Conditions with a word between them, each in parentheses. -/
theorem written_junction (j : Junction) {t : Term} {ts : List Term} {values : List Value}
    (h : List.Forall₂ Written (t :: ts) values) :
    ∃ f, SqlScalar.connective j.word values = .ok (.fragment f) ∧
      Written (.junction j t ts) (.fragment f) := by
  obtain ⟨fs, parts, reads⟩ := Written.parts h
  cases reads with
  | @cons f _ fs _ first rest =>
    have between : " " ++ j.word ++ " " ∈ middleTexts := by cases j <;> decide
    have others : List.Forall₂ (Fragment.ReadsBy readGroup) (fs.map fun f => f.wrapped "(" ")")
        (ts.map fun t => [group t.items]) := by
      simpa using rest.imp fun _ _ => Written.wrapped
    refine ⟨_, by rw [SqlScalar.connective, parts]; rfl, .fragment rfl (isQuery_join _ _) ?_⟩
    simpa [Term.items, Term.itemsOfAll_eq_map, List.flatMap_map]
      using (Written.wrapped first).join between (.junction j) others

/-- `NOT` before its operand in parentheses. -/
theorem written_not {t : Term} {v : Value} (h : Written t v) :
    ∃ f, SqlScalar.not [v] = .ok (.fragment f) ∧ Written (.negation t) (.fragment f) := by
  obtain ⟨f, toSql, reads⟩ := h.toSql
  exact ⟨_, by rw [SqlScalar.not, toSql]; rfl,
    .fragment rfl rfl ((Written.wrapped reads).leading (by decide) .not)⟩

theorem Wording.arithmetic (op : ArithmeticOp) :
    Wording (" " ++ op.sign ++ " ") [.mark op.sign] := by
  cases op <;> exact ⟨fun _ _ => rfl, rfl, by decide⟩

theorem Opening.minus : Opening "(-" [] [.mark "-"] :=
  ⟨fun _ _ => rfl, rfl, by decide⟩

/-- One operand with a minus sign before it, in parentheses. -/
theorem written_negative {t : Term} {v : Value} (h : Written t v) :
    ∃ f, SqlScalar.arithmetic .subtract [v] = .ok (.fragment f) ∧
      Written (.negative t) (.fragment f) := by
  obtain ⟨fs, parts, reads⟩ := Written.parts (.cons h .nil)
  cases reads with
  | @cons f _ _ _ reads rest =>
    cases rest
    have whole : ((Fragment.ofText "-").append f).wrapped "(" ")" = f.wrapped "(-" ")" :=
      Fragment.wrapped_append "(" "-" ")" f
    refine ⟨_, by rw [SqlScalar.arithmetic, parts]; rfl, .fragment rfl rfl ?_⟩
    show (((Fragment.ofText "-").append f).wrapped "(" ")").ReadsBy readGroup _
    rw [whole]
    exact reads.parenthesized (by decide) .minus rfl

/-- Operands with an arithmetic sign between them, all in parentheses. -/
theorem written_arithmetic {op : ArithmeticOp} {t : Term} {ts : List Term} {values : List Value}
    (several : op = .subtract → ts ≠ []) (h : List.Forall₂ Written (t :: ts) values) :
    ∃ f, SqlScalar.arithmetic op values = .ok (.fragment f) ∧
      Written (.arithmetic op t ts) (.fragment f) := by
  obtain ⟨fs, parts, reads⟩ := Written.parts h
  cases reads with
  | @cons f _ fs _ first rest =>
    cases rest with
    | nil =>
      have other : op ≠ .subtract := fun eq => several eq rfl
      refine ⟨f.wrapped "(" ")", ?_, .fragment rfl rfl ?_⟩
      · rw [SqlScalar.arithmetic, parts]
        show Except.ok _ = _
        simp [other]
      · simpa [Term.items, Term.itemsOfAll] using Written.wrapped first
    | @cons g u fs ts second rest =>
      have others : List.Forall₂ (Fragment.ReadsBy readGroup) (g :: fs)
          ((u :: ts).map Term.items) := by simpa using ⟨second, rest⟩
      have joined := first.join (by cases op <;> decide) (.arithmetic op) others
      refine ⟨_, by rw [SqlScalar.arithmetic, parts]; rfl, .fragment rfl rfl ?_⟩
      rw [Term.items, Term.itemsOfAll_eq_map]
      exact joined.parenthesized (by decide) .parenthesis rfl

/-! ## Operators on constants -/

/-- An operator that stands in a statement where an operand is SQL, and is computed otherwise. -/
structure Computes (op : Operator) (compute sql : List Value → Result Value) : Prop where
  /-- In memory it is always computed. -/
  inMemory : InMemory.handler op = some (.onValues compute)
  /-- In statements it is computed without SQL. -/
  inSql : handler op = some (.onValues (SqlScalar.orCompute compute sql))
  /-- It evaluates its operands. -/
  evaluates : op ≠ .quote
  /-- Of literals it computes a literal. -/
  atom : ∀ values, (∀ v ∈ values, v.isAtom = true) → Yields (compute values) fun v => v.isAtom = true

theorem computes_comparison (c : SqlScalar.Comparison) :
    Computes c.operator c.compute (SqlScalar.comparison c) :=
  ⟨c.handler_operator.1, c.handler_operator.2, c.operator_ne_quote,
    fun _ _ => Scalar.compareAll_isAtom _⟩

theorem computes_junction (j : Junction) :
    Computes j.operator j.compute (SqlScalar.connective j.word) := by
  cases j <;> exact ⟨rfl, rfl, by decide, fun _ _ => Yields.ok_iff.2 rfl⟩

theorem computes_not : Computes .not Scalar.not SqlScalar.not := by
  refine ⟨rfl, rfl, by decide, fun values _ => ?_⟩
  rw [Scalar.not.eq_def]
  split
  · exact Yields.ok_iff.2 rfl
  · exact .fault _

theorem computes_arithmetic (op : ArithmeticOp) :
    Computes op.operator (reduce op) (SqlScalar.arithmetic op) := by
  cases op <;> exact ⟨rfl, rfl, by decide, fun _ => reduce_isAtom _⟩

/-! ## The operator tree of a scalar -/

section Scalars

variable {scope : Environment}

/-- A scalar has an operator tree, and compiles to it. -/
def CompilesTo (scope : Environment) (e : Expr) (v : Value) : Prop :=
  ∃ t, IsTermOf scope e t ∧ Written t v

/-- What compiles to no SQL has no column, and is a literal in memory. -/
theorem CompilesTo.constant {e : Expr} {v : Value} (h : CompilesTo scope e v)
    (plain : v.isSql = false) :
    ¬e.HasColumn scope ∧ InMemory.evaluateIn scope e = .ok v ∧ v.isAtom = true := by
  obtain ⟨t, tree, written⟩ := h
  obtain rfl := written.eq_value plain
  cases tree with
  | value free holds =>
    cases written with
    | value atom => exact ⟨free, holds, atom⟩
    | fragment sql => exact nomatch sql

/-- Operands that compile to no SQL have their values in memory. -/
theorem mapM_constant {operands : List Expr} {values : List Value}
    (h : List.Forall₂ (CompilesTo scope) operands values)
    (plain : ∀ v ∈ values, v.isSql = false) :
    (∀ e ∈ operands, ¬e.HasColumn scope) ∧ operands.mapM (InMemory.evaluateIn scope) = .ok values ∧
      ∀ v ∈ values, v.isAtom = true := by
  induction h with
  | nil => exact ⟨by simp, rfl, by simp⟩
  | @cons e v operands values here _ ih =>
    obtain ⟨free, holds, atom⟩ := here.constant (plain v (List.mem_cons_self ..))
    obtain ⟨others, all, atoms⟩ := ih fun w hw => plain w (List.mem_cons_of_mem _ hw)
    refine ⟨List.forall_mem_cons.2 ⟨free, others⟩, ?_, List.forall_mem_cons.2 ⟨atom, atoms⟩⟩
    rw [List.mapM_cons, holds, all]
    rfl

/-- A call compiles to its tree where its operands do and its operator composes trees. -/
theorem Computes.yields {op : Operator} {compute sql : List Value → Result Value}
    (h : Computes op compute sql) {operands : List Expr}
    (inside : ∀ e ∈ operands, Yields (evaluateIn scope e) (CompilesTo scope e))
    (composed : ∀ ts values, List.Forall₂ (IsTermOf scope) operands ts →
      List.Forall₂ Written ts values → (∃ v ∈ values, v.isSql = true) →
        Yields (sql values) (CompilesTo scope (.list (.symbol op.name :: operands)))) :
    Yields (evaluateIn scope (.list (.symbol op.name :: operands)))
      (CompilesTo scope (.list (.symbol op.name :: operands))) := by
  rw [evaluateIn, local_interpretation.evaluate_eq_step,
    Interpretation.step_onValues h.inSql h.evaluates]
  refine .bind (.forall₂_mapM inside) fun values hv => ?_
  rw [SqlScalar.orCompute]
  split
  · next some =>
    obtain ⟨ts, trees, written⟩ := exists_forall₂ hv
    exact composed ts values trees written (List.any_eq_true.1 some)
  · next none =>
    obtain ⟨free, inMemory, atoms⟩ := mapM_constant hv (by simpa using none)
    intro v computed
    refine ⟨.value v, .value ?_ ?_, .value (h.atom values atoms v computed)⟩
    · rw [Expr.hasColumn_call_iff]
      rintro ⟨e, he, column⟩
      exact free e he column
    · rw [InMemory.evaluateIn, InMemory.local_interpretation.evaluate_eq_step,
        Interpretation.step_onValues h.inMemory h.evaluates]
      show (operands.mapM (InMemory.evaluateIn scope)) >>= compute = .ok v
      rw [inMemory]
      exact computed

/-- Among operands of which one is SQL a column stands. -/
theorem exists_hasColumn {operands : List Expr} {ts : List Term} {values : List Value}
    (trees : List.Forall₂ (IsTermOf scope) operands ts) (written : List.Forall₂ Written ts values)
    (sql : ∃ v ∈ values, v.isSql = true) : ∃ e ∈ operands, e.HasColumn scope := by
  induction trees generalizing values with
  | nil =>
    cases written
    obtain ⟨v, hv, -⟩ := sql
    exact absurd hv List.not_mem_nil
  | @cons e t operands ts tree _ ih =>
    cases written with
    | @cons _ v _ values here others =>
      obtain ⟨w, hw, sql⟩ := sql
      rcases List.mem_cons.1 hw with rfl | hw
      · exact ⟨e, List.mem_cons_self .., tree.hasColumn_iff.2 (by simpa [here.isSql_eq] using sql)⟩
      · obtain ⟨found, he, column⟩ := ih others ⟨w, hw, sql⟩
        exact ⟨found, List.mem_cons_of_mem _ he, column⟩

/-- A scalar that compiles has an operator tree, and compiles to it. -/
theorem scalar_compilesTo {e : Expr} (he : IsScalar scope e) :
    Yields (evaluateIn scope e) (CompilesTo scope e) := by
  induction he with
  | @column symbol name names one =>
    have value : evaluateIn scope (.symbol symbol) = .ok (.column ⟨none, name⟩) := by
      show interpretation.resolveSymbol scope symbol = _
      rw [Interpretation.resolveSymbol, names]
      rfl
    rw [value]
    exact Yields.ok_iff.2 ⟨_, .column names, .column one⟩
  | @text symbol itself =>
    have value : ∀ i : Interpretation, i.resolveSymbol scope symbol = .ok (.string symbol) := by
      intro i
      rw [Interpretation.resolveSymbol, itself]
    have free : ¬(Expr.symbol symbol).HasColumn scope := by simp [Expr.hasColumn_symbol_iff, itself]
    have here : evaluateIn scope (.symbol symbol) = .ok (.string symbol) := value interpretation
    rw [here]
    exact Yields.ok_iff.2 ⟨_, .value free (value InMemory.interpretation), .value rfl⟩
  | @literal v atom =>
    have free : ¬(Expr.literal v).HasColumn scope := by rintro ⟨⟩
    have here : evaluateIn scope (.literal v) = .ok v := rfl
    rw [here]
    exact Yields.ok_iff.2 ⟨_, .value free rfl, .value atom⟩
  | @compare c left right _ _ ihl ihr =>
    refine (computes_comparison c).yields (by simp [ihl, ihr]) fun ts values trees written sql => ?_
    obtain ⟨l, _, hl, other, rfl⟩ := List.forall₂_cons_left_iff.1 trees
    obtain ⟨r, _, hr, ⟨⟩, rfl⟩ := List.forall₂_cons_left_iff.1 other
    obtain ⟨v, _, wl, other, rfl⟩ := List.forall₂_cons_left_iff.1 written
    obtain ⟨w, _, wr, ⟨⟩, rfl⟩ := List.forall₂_cons_left_iff.1 other
    have side : v.isSql = true ∨ w.isSql = true := by simpa using sql
    obtain ⟨f, compiled, out⟩ := written_comparison c wl wr side
    rw [compiled]
    refine Yields.ok_iff.2 ⟨_, ?_, out⟩
    split
    · next first => exact .compare c (hl.hasColumn_iff.2 (by simpa [wl.isSql_eq] using first)) hl hr
    · next first =>
      have second : w.isSql = true := side.resolve_left first
      exact .mirrored c (fun column => first (by simp [wl.isSql_eq, hl.hasColumn_iff.1 column]))
        (hr.hasColumn_iff.2 (by simpa [wr.isSql_eq] using second)) hl hr
  | @junction j operands _ ih =>
    refine (computes_junction j).yields ih fun ts values trees written sql => ?_
    have column := exists_hasColumn trees written sql
    cases trees with
    | nil => simp at column
    | cons hf hr =>
      obtain ⟨f, compiled, out⟩ := written_junction j written
      rw [compiled]
      exact Yields.ok_iff.2 ⟨_, .junction j column hf hr, out⟩
  | @not e _ ih =>
    refine computes_not.yields (by simp [ih]) fun ts values trees written sql => ?_
    have column : e.HasColumn scope := by simpa using exists_hasColumn trees written sql
    obtain ⟨t, _, tree, ⟨⟩, rfl⟩ := List.forall₂_cons_left_iff.1 trees
    obtain ⟨v, _, here, ⟨⟩, rfl⟩ := List.forall₂_cons_left_iff.1 written
    obtain ⟨f, compiled, out⟩ := written_not here
    rw [compiled]
    exact Yields.ok_iff.2 ⟨_, .not column tree, out⟩
  | @arithmetic op operands _ ih =>
    refine (computes_arithmetic op).yields ih fun ts values trees written sql => ?_
    have column := exists_hasColumn trees written sql
    cases trees with
    | nil => simp at column
    | @cons first t rest ts hf hr =>
      by_cases alone : op = .subtract ∧ rest = []
      · obtain ⟨rfl, rfl⟩ := alone
        cases hr
        obtain ⟨v, _, here, ⟨⟩, rfl⟩ := List.forall₂_cons_left_iff.1 written
        obtain ⟨f, compiled, out⟩ := written_negative here
        rw [compiled]
        exact Yields.ok_iff.2 ⟨_, .negative (by simpa using column) hf, out⟩
      · have several : op = .subtract → rest ≠ [] := fun eq none => alone ⟨eq, none⟩
        have severals : op = .subtract → ts ≠ [] := fun eq none =>
          several eq (List.forall₂_nil_right_iff.1 (none ▸ hr))
        obtain ⟨f, compiled, out⟩ := written_arithmetic severals written
        rw [compiled]
        exact Yields.ok_iff.2 ⟨_, .arithmetic op column several hf hr, out⟩

end Scalars

/-! ## Statements -/

/-- A tree is the statement of what compiles to it. -/
theorem Written.readExpression_eq {t : Term} {v : Value} (h : Written t v) {style : PlaceholderStyle}
    {statement : String} {params : List Value}
    (compiled : Compiled.ofValue style v = .query statement params) :
    readExpression statement params = readSigned t.items := by
  cases h with
  | value atom =>
    have itself : Compiled.ofValue style v = .value v := by
      cases v <;> first | rfl | exact nomatch atom
    exact nomatch itself.symm.trans compiled
  | @column name one =>
    obtain ⟨rfl, rfl⟩ := Compiled.query.inj compiled
    have text : (Fragment.ofText (ColumnRef.text ⟨none, name⟩)).statement style
        = ColumnRef.text ⟨none, name⟩ := by
      simp [Fragment.statement, Fragment.ofText, Piece.render_pushText, Piece.render]
    have read := readExpression_statement (.ofColumn one) style
    rw [text] at read
    exact read
  | fragment _ _ reads =>
    obtain ⟨rfl, rfl⟩ := Compiled.query.inj compiled
    exact readExpression_statement reads style

/-- A scalar that compiles to a statement has an operator tree, and the statement reads as this tree
exactly if no comparison, negation or connection of conditions stands in it as an operand beside a
sign of comparison or arithmetic. -/
theorem compile_scalar {e : Expr} {context : Context}
    (he : IsScalar ((Environment.ofContext context).declareTables e) e) {style : PlaceholderStyle}
    {statement : String} {params : List Value}
    (compiled : compile style e context = .ok (.query statement params)) :
    ∃ t, IsTermOf ((Environment.ofContext context).declareTables e) e t ∧
      (readExpression statement params = some t.reading ↔ t.Grouped) := by
  rw [compile] at compiled
  cases outcome : evaluateIn ((Environment.ofContext context).declareTables e) e with
  | error failure => rw [outcome] at compiled; cases compiled
  | ok v =>
    rw [outcome] at compiled
    obtain ⟨t, tree, written⟩ := scalar_compilesTo he v outcome
    refine ⟨t, tree, ?_⟩
    rw [written.readExpression_eq (Except.ok.inj compiled)]
    exact Term.readSigned_items_iff

/-- A computed number before a sum with a sign. -/
theorem scalar_of_signed_sum :
    ∃ t, IsTermOf ((Environment.ofContext []).declareTables
        (.list [.symbol ">", .list [.symbol "*", .literal (.integer 2), .literal (.integer 3)],
          .list [.symbol "-", .list [.symbol "+", .symbol ":a", .literal (.integer 1)]]]))
        (.list [.symbol ">", .list [.symbol "*", .literal (.integer 2), .literal (.integer 3)],
          .list [.symbol "-", .list [.symbol "+", .symbol ":a", .literal (.integer 1)]]]) t ∧
      (readExpression "(-(\"a\" + $1)) < $2" [.integer 1, .integer 6] = some t.reading
        ↔ t.Grouped) := by
  have number : ∀ scope n, IsScalar scope (.literal (.integer n)) := fun _ _ => .literal rfl
  refine @compile_scalar _ [] (.compare .greater ?_ ?_) .dollar _ _ rfl
  · exact .arithmetic .multiply (List.forall_mem_cons.2 ⟨number _ _,
      List.forall_mem_singleton.2 (number _ _)⟩)
  · refine .arithmetic .subtract (List.forall_mem_singleton.2 (.arithmetic .add ?_))
    exact List.forall_mem_cons.2 ⟨.column rfl (by decide),
      List.forall_mem_singleton.2 (number _ _)⟩

/-- A connection of conditions that is compared reads as a condition beside a comparison. -/
theorem comparison_of_conjunction :
    compile .dollar (.list [.symbol "=", .list [.symbol "$and", .symbol ":a", .symbol ":b"],
        .symbol ":c"]) [] = .ok (.query "(\"a\") AND (\"b\") = \"c\"" []) ∧
      IsTermOf ((Environment.ofContext []).declareTables (.list [.symbol "=",
          .list [.symbol "$and", .symbol ":a", .symbol ":b"], .symbol ":c"]))
        (.list [.symbol "=", .list [.symbol "$and", .symbol ":a", .symbol ":b"], .symbol ":c"])
        (.compare .equal (.junction .and (.column "a") [.column "b"]) (.column "c")) ∧
      readExpression "(\"a\") AND (\"b\") = \"c\"" [] = some (.binary .and (.column "a")
        (.binary (.compare .equal) (.column "b") (.column "c"))) := by
  have a : (Expr.symbol ":a").HasColumn (Environment.ofContext []) := .column rfl
  refine ⟨rfl, .compare .equal (.operand (List.mem_cons_self ..) a) ?_ (.column rfl), rfl⟩
  exact .junction .and ⟨_, List.mem_cons_self .., a⟩ (.column rfl) (.cons (.column rfl) .nil)

end Sql

end QueryForms
