import QueryForms.Proofs.InMemory.Projection
import QueryForms.Proofs.Sql.Condition

/-!
# Fields that are null

A statement that compares a field with a literal is unknown on a row on which the field is null,
whatever the literal, and an unknown condition keeps no row. In memory only comparisons by order do as
much: null equals null and nothing else, so `=` keeps the row beside null, and `!=` beside anything
else (`Sql.comparison_of_nullField`).
-/

namespace QueryForms

/-! ## Literals -/

/-- Whether a symbol begins with none of the standing tokens, so that it is its own text. -/
def standsForText (symbol : String) : Bool :=
  [rowToken, tableToken, contextToken].all fun token => (stripStart? token symbol).isNone

namespace Expr

mutual

/-- The value of an expression that stands for itself: data, a text, an array of data, or a record of
such expressions. -/
def literal? : Expr → Option Value
  | .literal v => if v.isPlain then some v else none
  | .symbol s => if standsForText s then some (.string s) else none
  | .list items => if items.isEmpty then some (.array []) else none
  | .quoted items => some (.array items)
  | .record fields => (literalFields? fields).map fun values => .object (Entries.ofList values)

/-- The values of fields that each stand for themselves. -/
def literalFields? : List (String × Expr) → Option (List (String × Value))
  | [] => some []
  | (name, e) :: rest => do return (name, ← literal? e) :: (← literalFields? rest)

end

end Expr

theorem stripStart?_of_standsForText {s : String} (free : standsForText s = true) :
    stripStart? rowToken s = none ∧ stripStart? tableToken s = none ∧
      stripStart? contextToken s = none := by
  simpa [standsForText] using free

namespace Environment

/-- Where there are only the standing tokens a text has none. -/
theorem splitSymbol?_text {scope : Environment} {s : String}
    (standing : scope.tokens = [rowToken, tableToken, contextToken])
    (free : standsForText s = true) : scope.splitSymbol? s = none := by
  obtain ⟨row, table, context⟩ := stripStart?_of_standsForText free
  simp [splitSymbol?, standing, longerToken, row, table, context]

mutual

/-- A literal declares nothing. -/
theorem declareIn_literal (tokens : List String) : ∀ (e : Expr) {v : Value},
    e.literal? = some v → declareIn tokens e = tokens
  | .literal _, _, _ => rfl
  | .quoted _, _, _ => rfl
  | .symbol s, _, literal => by
    rw [Expr.literal?] at literal
    obtain ⟨free, -⟩ := Option.ite_none_right_eq_some.1 literal
    rw [declareIn, (stripStart?_of_standsForText free).2.1]
  | .list [], _, _ => rfl
  | .list (_ :: _), _, literal => nomatch literal
  | .record fields, _, literal => by
    obtain ⟨values, inside, -⟩ := Option.map_eq_some_iff.1 literal
    exact declareInFields_literal tokens fields inside

theorem declareInFields_literal (tokens : List String) : ∀ (fields : List (String × Expr))
    {values : List (String × Value)}, Expr.literalFields? fields = some values →
      declareInFields tokens fields = tokens
  | [], _, _ => rfl
  | (name, e) :: rest, _, literal => by
    obtain ⟨v, first, literal⟩ := Option.bind_eq_some_iff.1 literal
    obtain ⟨values, others, -⟩ := Option.bind_eq_some_iff.1 literal
    rw [declareInFields, declareIn_literal tokens e first]
    exact declareInFields_literal tokens rest others

end

end Environment

namespace Interpretation

variable {i : Interpretation} {scope : Environment}

mutual

/-- A literal evaluates to its value. -/
theorem Local.evaluate_literal (h : i.Local)
    (standing : scope.tokens = [rowToken, tableToken, contextToken]) : ∀ (e : Expr) {v : Value},
      e.literal? = some v → i.evaluate e scope = .ok v
  | .literal w, v, literal => by
    rw [Expr.literal?] at literal
    exact congrArg Except.ok (Option.some.inj (Option.ite_none_right_eq_some.1 literal).2)
  | .quoted items, v, literal => congrArg Except.ok (Option.some.inj literal)
  | .symbol s, v, literal => by
    rw [Expr.literal?] at literal
    obtain ⟨free, same⟩ := Option.ite_none_right_eq_some.1 literal
    show i.resolveSymbol scope s = .ok v
    rw [resolveSymbol, Environment.splitSymbol?_text standing free]
    exact congrArg Except.ok (Option.some.inj same)
  | .list [], v, literal => congrArg Except.ok (Option.some.inj literal)
  | .list (_ :: _), _, literal => nomatch literal
  | .record fields, v, literal => by
    obtain ⟨values, inside, rfl⟩ := Option.map_eq_some_iff.1 literal
    rw [h.evaluate_eq_step, step, Local.evaluateFields_literal h standing fields inside]
    rfl

theorem Local.evaluateFields_literal (h : i.Local)
    (standing : scope.tokens = [rowToken, tableToken, contextToken]) :
    ∀ (fields : List (String × Expr)) {values : List (String × Value)},
      Expr.literalFields? fields = some values →
        evaluateFields i.evaluate scope fields = .ok values
  | [], _, literal => congrArg Except.ok (Option.some.inj literal)
  | (name, e) :: rest, _, literal => by
    obtain ⟨v, first, literal⟩ := Option.bind_eq_some_iff.1 literal
    obtain ⟨values, others, same⟩ := Option.bind_eq_some_iff.1 literal
    rw [evaluateFields, Local.evaluate_literal h standing e first,
      Local.evaluateFields_literal h standing rest others]
    exact congrArg Except.ok (Option.some.inj same)

end

/-- A symbol of the current row is resolved by its name. -/
theorem evaluate_field (standing : scope.tokens = [rowToken, tableToken, contextToken])
    (name : String) :
    i.evaluate (.symbol (rowToken ++ name)) scope = i.resolve scope rowToken name := by
  show i.resolveSymbol scope (rowToken ++ name) = i.resolve scope rowToken name
  rw [resolveSymbol, Environment.splitSymbol?_row standing]

end Interpretation

namespace Sql

open SqlScalar
open Interpretation (evaluateAll)

/-! ## In memory -/

/-- Whether a comparison of a field that is null holds in memory beside a literal. -/
def heldOfNull (c : Comparison) (v : Value) : Bool :=
  match c with
  | .equal => v.isNull
  | .notEqual => !v.isNull
  | _ => false

theorem looseEq_null (v : Value) : looseEq .null v = v.isNull ∧ looseEq v .null = v.isNull := by
  cases v <;> exact ⟨rfl, rfl⟩

theorem ordered_null (accepted : Ordering → Bool) (v : Value) :
    Scalar.ordered accepted .null v = .ok false ∧ Scalar.ordered accepted v .null = .ok false := by
  cases v <;> exact ⟨rfl, rfl⟩

/-- What a comparison computes beside null. -/
theorem compute_null (c : Comparison) (v : Value) :
    c.compute [.null, v] = .ok (.boolean (heldOfNull c v)) ∧
      c.compute [v, .null] = .ok (.boolean (heldOfNull c v)) := by
  have tested : c.test .null v = .ok (heldOfNull c v) ∧ c.test v .null = .ok (heldOfNull c v) := by
    obtain ⟨before, behind⟩ := looseEq_null v
    cases c with
    | equal => exact ⟨congrArg Except.ok before, congrArg Except.ok behind⟩
    | notEqual =>
      exact ⟨congrArg (Except.ok ∘ Bool.not) before, congrArg (Except.ok ∘ Bool.not) behind⟩
    | _ => exact ordered_null _ v
  exact ⟨Scalar.compareAll_two tested.1, Scalar.compareAll_two tested.2⟩

/-- A field that is null or not there is null on the row. -/
theorem lookup_of_null {f : String} {record : Record} (flat : '.' ∉ f.toList)
    (null : columnsOf record f = .null) (table : String) :
    (Row.single table (.object record)).lookup f = .null := by
  cases found : Entries.get? record f with
  | some v =>
    rw [columnsOf, found, Option.getD_some] at null
    rw [Row.lookup_single found, null]
  | none =>
    have path : (Value.object record).lookupPath? f = none := by
      rw [Value.lookupPath?_of_flat flat, Value.step?, String.ofList_toList, found]
    simp only [Row.lookup, Row.single, Row.groupKey?, Option.bind_none, List.findSome?_cons, path,
      List.findSome?_nil, Option.getD_none]

section

variable {c : Comparison} {f : String} {e : Expr} {v : Value} {operands : List Expr}

/-- A field and a literal, as they stand. -/
def Beside (f : String) (e : Expr) (operands : List Expr) : Prop :=
  operands = [.symbol (rowToken ++ f), e] ∨ operands = [e, .symbol (rowToken ++ f)]

/-- The values of a field and a literal, as these stand. -/
theorem evaluateAll_beside {i : Interpretation} {scope : Environment} {a : Value}
    (sides : Beside f e operands)
    (field : i.evaluate (.symbol (rowToken ++ f)) scope = .ok a) (value : i.evaluate e scope = .ok v) :
    ∃ values, evaluateAll i.evaluate operands scope = .ok values ∧
      (values = [a, v] ∨ values = [v, a]) := by
  rcases sides with rfl | rfl
  · refine ⟨[a, v], ?_, .inl rfl⟩
    simp only [evaluateAll, List.mapM_cons, List.mapM_nil, field, value]
    rfl
  · refine ⟨[v, a], ?_, .inr rfl⟩
    simp only [evaluateAll, List.mapM_cons, List.mapM_nil, field, value]
    rfl

/-- The scope of a comparison of a field with a literal. -/
theorem tokens_of_beside (sides : Beside f e operands) (literal : e.literal? = some v) :
    (InMemory.environment [] (.list (.symbol c.operator.name :: operands))).tokens
      = [rowToken, tableToken, contextToken] := by
  have field : ∀ tokens, Environment.declareIn tokens (.symbol (rowToken ++ f)) = tokens :=
    fun _ => declareIn_operand (@IsOperand.field (fun _ => True) f trivial)
  refine declareIn_call c.operator_ne_aliased ?_
  rcases sides with rfl | rfl
  · exact List.forall_mem_cons.2 ⟨field _,
      List.forall_mem_singleton.2 (Environment.declareIn_literal _ e literal)⟩
  · exact List.forall_mem_cons.2 ⟨Environment.declareIn_literal _ e literal,
      List.forall_mem_singleton.2 (field _)⟩

/-- In memory a comparison of a field that is null holds beside null or beside other literals, or not
at all. -/
theorem evaluate_nullField {env : Environment} (sides : Beside f e operands)
    (literal : e.literal? = some v) (standing : env.tokens = [rowToken, tableToken, contextToken])
    (unbound : env.bindings = []) {row : Row} (null : row.lookup f = .null) :
    InMemory.evaluateIn (env.surround row) (.list (.symbol c.operator.name :: operands))
      = .ok (.boolean (heldOfNull c v)) := by
  have standing : (env.surround row).tokens = [rowToken, tableToken, contextToken] := standing
  have field : InMemory.interpretation.evaluate (.symbol (rowToken ++ f)) (env.surround row)
      = .ok .null := by
    have missing : (env.surround row).binding? rowToken f = none := by
      show env.binding? rowToken f = none
      rw [Environment.binding?, unbound]
      rfl
    rw [Interpretation.evaluate_field standing]
    show InMemory.resolve (env.surround row) rowToken f = .ok .null
    rw [InMemory.resolve, missing]
    simp only [Environment.surround, Option.map_some, Option.getD_some, null, if_true,
      Option.getD_none]
  obtain ⟨values, evaluated, order⟩ := evaluateAll_beside sides field
    (InMemory.local_interpretation.evaluate_literal standing e literal)
  refine (InMemory.local_interpretation.evaluate_onValues c.handler_operator.1
    c.operator_ne_quote evaluated).trans ?_
  rcases order with rfl | rfl
  · exact (compute_null c v).1
  · exact (compute_null c v).2

/-! ## In a statement -/

/-- Tokens with their parameters, in which a timestamp that is written out is one operand. -/
def substituteTimed (params : List Value) : Nat → List Token → List Item
  | next, .text s :: .mark "::" :: .word "TIMESTAMPTZ" :: rest =>
    .operand (.value (.string s)) :: substituteTimed params next rest
  | next, token :: rest =>
    token.toItem params next
      :: substituteTimed params (if token.isPlaceholder then next + 1 else next) rest
  | _, [] => []

/-- What a statement with parameters and timestamps reads as. -/
def readTimedCondition (statement : String) (params : List Value) : Option Reading :=
  (nest [] [] (substituteTimed params 0 (tokensOf statement.toList))).bind readDisjunction

/-- Data in a statement reads as one constant: a parameter, or a timestamp. -/
theorem substituteTimed_of_plain (plain : v.isPlain = true) :
    ∃ g w, v.toSql = .ok g ∧ ∀ style,
      substituteTimed g.params 0 (tokensOf (g.chars style 1)) = [.operand (.value w)] := by
  have param : ∀ style, substituteTimed (Fragment.ofParam v).params 0
      (tokensOf ((Fragment.ofParam v).chars style 1)) = [.operand (.value v)] := fun style => by
    rw [Fragment.chars_ofParam]
    cases style with
    | dollar => rw [tokensOf_dollarMark]; rfl
    | question => rw [tokensOf_questionMark]; rfl
  cases v with
  | date t =>
    refine ⟨_, .string (DateText.millisZulu t), rfl, fun style => ?_⟩
    rw [Fragment.chars_ofText, (tokensOf_timestampText t).2]
    rfl
  | rows _ => cases plain
  | column _ => cases plain
  | fragment _ => cases plain
  | _ => exact ⟨_, _, rfl, param⟩

/-- The text of a statement of one clause. -/
theorem statement_clause (f between : String) (g : Fragment) (style : PlaceholderStyle) :
    ((Fragment.join " AND "
        [((Fragment.ofText (quoteIdent f)).pushText between).append g]).statement style).toList
      = (quoteIdent f).toList ++ between.toList ++ g.chars style 1 := by
  show (Fragment.empty.append _).chars style 1 = _
  rw [Fragment.chars_append, Fragment.chars_append, Fragment.chars_pushText, Fragment.chars_ofText]
  simp [Fragment.chars, Fragment.empty, Fragment.pushText, Fragment.ofText,
    Fragment.count_pushText, Piece.render]

/-- A clause of a column and a constant reads as their comparison. -/
theorem readTimedCondition_clause (c : Comparison) (one : f ≠ "*") (plain : v.isPlain = true) :
    ∃ g w, infixSql c.sign (.column ⟨none, f⟩) v = .ok g ∧ ∀ style,
      readTimedCondition ((Fragment.join " AND " [g]).statement style)
          (Fragment.join " AND " [g]).params
        = some (.binary (.compare c) (.column f) (.value w)) := by
  obtain ⟨g, w, toSql, read⟩ := substituteTimed_of_plain plain
  refine ⟨((Fragment.ofText (quoteIdent f)).pushText (" " ++ c.sign ++ " ")).append g, w, ?_,
    fun style => ?_⟩
  · have column : (Value.column ⟨none, f⟩).toSql = .ok (Fragment.ofText (quoteIdent f)) := by
      rw [Value.toSql, ColumnRef.text, if_neg one]
    rw [infixSql, column, toSql]
    rfl
  · have between : " " ++ c.sign ++ " " ∈ betweenTexts := by
      simp only [betweenTexts, List.mem_append, sign_mem_middleTexts, true_or]
    have params : (Fragment.join " AND "
        [((Fragment.ofText (quoteIdent f)).pushText (" " ++ c.sign ++ " ")).append g]).params
        = g.params := rfl
    have sign : tokensOf (" " ++ c.sign ++ " ").toList = [.mark c.sign] := by cases c <;> rfl
    have items : substituteTimed g.params 0
        ([.identifier f] ++ [.mark c.sign] ++ tokensOf (g.chars style 1))
        = [.operand (.column f), .mark c.sign, .operand (.value w)] := by
      rw [← read style]
      rfl
    have flat : nest [] [] [.operand (.column f), .mark c.sign, .operand (.value w)]
        = some [.operand (.column f), .mark c.sign, .operand (.value w)] := by cases c <;> rfl
    rw [readTimedCondition, statement_clause, params, (lexical_quoteIdent f).tokensOf_between between,
      tokensOf_quoteIdent, sign, items, flat]
    exact readDisjunction_compare c _ _

/-- A comparison of a field with data is a clause with the field on the left. -/
theorem comparison_beside (c : Comparison) (one : f ≠ "*") (plain : v.isPlain = true)
    {values : List Value} (order : values = [.column ⟨none, f⟩, v] ∨ values = [v, .column ⟨none, f⟩]) :
    ∃ g op w, comparison c values = .ok (.fragment (Fragment.join " AND " [g])) ∧ ∀ style,
      readTimedCondition ((Fragment.join " AND " [g]).statement style)
          (Fragment.join " AND " [g]).params
        = some (.binary (.compare op) (.column f) (.value w)) := by
  have data : v.isSql = false := by
    cases v with
    | column _ => cases plain
    | fragment _ => cases plain
    | _ => rfl
  have column : (Value.column ⟨none, f⟩).isSql = true := rfl
  rcases order with rfl | rfl
  · obtain ⟨g, w, clause, read⟩ := readTimedCondition_clause c one plain
    have pairs : comparedPairs [.column ⟨none, f⟩, v] = [(.column ⟨none, f⟩, v)] := by
      simp [comparedPairs, column, data]
    exact ⟨g, c, w, comparison_eq_clause (by simp) pairs rfl clause, read⟩
  · obtain ⟨g, w, clause, read⟩ := readTimedCondition_clause c.swap one plain
    have pairs : comparedPairs [v, .column ⟨none, f⟩] = [(.column ⟨none, f⟩, v)] := by
      simp [comparedPairs, column, data]
    have front : exchanged [v, .column ⟨none, f⟩] = true := by simp [exchanged, data]
    exact ⟨g, c.swap, w, comparison_eq_clause (by simp) pairs (if_pos front) clause, read⟩

theorem isPlain_of_literal (literal : e.literal? = some v) : v.isPlain = true := by
  cases e with
  | literal w =>
    rw [Expr.literal?] at literal
    obtain ⟨plain, same⟩ := Option.ite_none_right_eq_some.1 literal
    exact Option.some.inj same ▸ plain
  | symbol s =>
    rw [Expr.literal?] at literal
    exact Option.some.inj (Option.ite_none_right_eq_some.1 literal).2 ▸ rfl
  | list items =>
    rw [Expr.literal?] at literal
    exact Option.some.inj (Option.ite_none_right_eq_some.1 literal).2 ▸ rfl
  | quoted items => exact Option.some.inj literal ▸ rfl
  | record fields =>
    obtain ⟨values, -, rfl⟩ := Option.map_eq_some_iff.1 literal
    rfl

/-- A comparison of a field with a literal compiles to a statement that is unknown on every row on
which the field is null. -/
theorem compile_nullField (c : Comparison) (one : f ≠ "*") (sides : Beside f e operands)
    (literal : e.literal? = some v) (style : PlaceholderStyle) :
    ∃ statement params r,
      compile style (.list (.symbol c.operator.name :: operands)) [] = .ok (.query statement params) ∧
      readTimedCondition statement params = some r ∧
      ∀ record, columnsOf record f = .null → r.truth? (columnsOf record) = some none := by
  have standing : ((Environment.ofContext []).declareTables
      (.list (.symbol c.operator.name :: operands))).tokens
        = [rowToken, tableToken, contextToken] := tokens_of_beside sides literal
  obtain ⟨values, evaluated, order⟩ := evaluateAll_beside sides
    (Interpretation.evaluate_field standing f)
    (local_interpretation.evaluate_literal standing e literal)
  obtain ⟨g, op, w, compared, read⟩ :=
    comparison_beside c one (isPlain_of_literal literal) order
  have isSql : values.any Value.isSql = true := by
    rcases order with rfl | rfl <;> simp [Value.isSql]
  have compiled : evaluateIn ((Environment.ofContext []).declareTables
      (.list (.symbol c.operator.name :: operands))) (.list (.symbol c.operator.name :: operands))
        = .ok (.fragment (Fragment.join " AND " [g])) := by
    refine (local_interpretation.evaluate_onValues c.handler_operator.2 c.operator_ne_quote
      evaluated).trans ?_
    rw [orCompute, if_pos isSql, compared]
  refine ⟨_, _, _, ?_, read style, fun record null => ?_⟩
  · rw [compile, compiled]
    rfl
  · show compareTruth? op (columnsOf record f) w = some none
    rw [null]
    rfl

/-! ## Both -/

/-- On rows on which a field is null, a comparison of it with a literal is unknown in a statement. In
memory it keeps all of these rows if it is `=` beside null or `!=` beside anything else, and otherwise
none. -/
theorem comparison_of_nullField (c : Comparison) (one : f ≠ "*") (flat : '.' ∉ f.toList)
    (sides : Beside f e operands) (literal : e.literal? = some v) (style : PlaceholderStyle) :
    (∀ source rows, Relation.sourceRows InMemory.interpretation.evaluate source
          (InMemory.environment [] (.list (.symbol c.operator.name :: operands))) = .ok rows →
        (∀ row ∈ rows, ∃ table record, row = Row.single table (.object record) ∧
          columnsOf record f = .null) →
        InMemory.evaluateIn
            (InMemory.environment [] (.list (.symbol c.operator.name :: operands)))
            (.list [.symbol "$where", .list (.symbol c.operator.name :: operands), source])
          = .ok (.rows (if heldOfNull c v then rows else []))) ∧
      ∃ statement params r,
        compile style (.list (.symbol c.operator.name :: operands)) []
            = .ok (.query statement params) ∧
          readTimedCondition statement params = some r ∧
          ∀ record, columnsOf record f = .null → r.truth? (columnsOf record) = some none := by
  refine ⟨fun source rows sourced null => ?_, compile_nullField c one sides literal style⟩
  have tested : ∀ row ∈ rows, InMemory.interpretation.evaluate
      (.list (.symbol c.operator.name :: operands))
      ((InMemory.environment [] (.list (.symbol c.operator.name :: operands))).surround row)
        = .ok (.boolean (heldOfNull c v)) := fun row hr => by
    obtain ⟨table, record, rfl, missing⟩ := null row hr
    exact evaluate_nullField sides literal (tokens_of_beside sides literal) rfl
      (lookup_of_null flat missing table)
  refine (InMemory.evaluate_call .filterRows rfl _ _).trans
    ((Relation.filterRows_eq_ok "$where" sourced tested).trans ?_)
  show Except.ok (Value.rows (rows.filter fun _ => heldOfNull c v)) = _
  cases heldOfNull c v with
  | true => exact congrArg (Except.ok ∘ Value.rows) (List.filter_true rows)
  | false => exact congrArg (Except.ok ∘ Value.rows) (List.filter_false rows)

/-- A text beside a field that is not there: memory keeps the row, and the statement is unknown. -/
theorem comparison_of_missing_field :
    InMemory.evaluateIn
        (InMemory.environment [] (.list [.symbol "!=", .symbol "x", .symbol ":f"]))
        (.list [.symbol "$where", .list [.symbol "!=", .symbol "x", .symbol ":f"],
          .quoted [.object [("g", .integer 1)]]])
      = .ok (.rows [.single "" (.object [("g", .integer 1)])]) ∧
    ∃ statement params r,
      compile .question (.list [.symbol "!=", .symbol "x", .symbol ":f"]) []
          = .ok (.query statement params) ∧
        readTimedCondition statement params = some r ∧
        r.truth? (columnsOf [("g", .integer 1)]) = some none := by
  have literal : (Expr.symbol "x").literal? = some (.string "x") := rfl
  have sides : Beside "f" (.symbol "x") [.symbol "x", .symbol ":f"] := .inr rfl
  obtain ⟨inMemory, statement, params, r, compiled, read, unknown⟩ :=
    comparison_of_nullField .notEqual (by decide) (by decide) sides literal .question
  have null : ∀ row ∈ [Row.single "" (.object [("g", .integer 1)])], ∃ table record,
      row = Row.single table (.object record) ∧ columnsOf record "f" = .null :=
    List.forall_mem_singleton.2 ⟨"", [("g", .integer 1)], rfl, rfl⟩
  exact ⟨inMemory (.quoted [.object [("g", .integer 1)]]) _ rfl null, statement, params, r, compiled,
    read, unknown _ rfl⟩

/-- A field that is null is unequal to a number, and equal to null, in memory alone. -/
theorem nullField_kept_in_memory :
    InMemory.evaluate (.list [.symbol "$where",
        .list [.symbol "!=", .symbol ":f", .literal (.integer 5)], .quoted [.object [("f", .null)]]]) []
      = .ok (.array [.object [("f", .null)]]) ∧
    (∃ r, compile .dollar (.list [.symbol "!=", .symbol ":f", .literal (.integer 5)]) []
        = .ok (.query "\"f\" <> $1" [.integer 5]) ∧
      readCondition "\"f\" <> $1" [.integer 5] = some r ∧
      r.truth? (columnsOf [("f", .null)]) = some none) ∧
    InMemory.evaluate (.list [.symbol "$where",
        .list [.symbol "=", .symbol ":f", .literal .null], .quoted [.object [("f", .null)]]]) []
      = .ok (.array [.object [("f", .null)]]) ∧
    ∃ r, compile .dollar (.list [.symbol "=", .symbol ":f", .literal .null]) []
        = .ok (.query "\"f\" = $1" [.null]) ∧
      readCondition "\"f\" = $1" [.null] = some r ∧
      r.truth? (columnsOf [("f", .null)]) = some none :=
  ⟨rfl, ⟨_, rfl, rfl, rfl⟩, rfl, _, rfl, rfl, rfl⟩

end

end Sql

end QueryForms
