import QueryForms.Proofs.Declarations
import QueryForms.Proofs.InMemory.Ordering

/-!
# Stability

`$order` is a stable sort: the rows that it gives are those of its source, no row has greater keys
than a later one, and rows with level keys stand in the order of their indices in the source
(`InMemory.order_of_source`). Rows that are dropped beforehand therefore leave the others where they
would be otherwise, and so a condition may be asked before the order or after it
(`InMemory.filter_order_comm`).
-/

namespace QueryForms

open Interpretation (evaluateAll)

/-! ## Queries -/

namespace InMemory

section

variable {env : Environment} {specList condition e : Expr} {specs : List OrderSpec}
  {rows : List Row} {key : Row → List Value} {value : Row → Value}

/-- A source put in order by keys that all have a value on every row has its rows, each with the
index it had: no row has greater keys than a later one, and of two rows with level keys the one with
the lesser index comes first. -/
theorem order_of_source (parsed : OrderSpec.parseList specList = .ok specs)
    (source : Relation.sourceRows interpretation.evaluate e env = .ok rows)
    (keyed : ∀ row ∈ rows, evaluateAll interpretation.evaluate (specs.map OrderSpec.expr)
      (env.surround row) = .ok (key row)) :
    ∃ (sorted : List Row) (placed : List (Nat × Row)),
      evaluateIn env (.list [.symbol "$order", specList, e]) = .ok (.rows sorted) ∧
      sorted.Perm rows ∧
      sorted.Pairwise (fun a b =>
        (compareKeys (specs.map OrderSpec.descending) (key a) (key b)).isLE) ∧
      placed.Perm (Windowed.indexed rows) ∧ sorted = placed.map Prod.snd ∧
      placed.Pairwise fun a b =>
        compareKeys (specs.map OrderSpec.descending) (key a.2) (key b.2) = .eq → a.1 < b.1 := by
  have alike : ∀ member ∈ Windowed.indexed rows,
      (key member.2).length = (specs.map OrderSpec.expr).length := fun member hm =>
    Interpretation.length_evaluateAll (keyed _ (Windowed.mem_of_mem_indexed hm))
  -- the indices do not matter to where the rows are placed
  have unindexed := @map_sortedBy _ (specs.map OrderSpec.descending) key _ Prod.snd
    (Windowed.indexed rows)
  rw [Windowed.map_snd_indexed] at unindexed
  refine ⟨_, _, (evaluate_call .order rfl [specList, e] env).trans
    (Relation.order_eq_ok parsed source keyed), Relation.ordered_perm ..,
    Relation.pairwise_ordered fun row hr => Interpretation.length_evaluateAll (keyed row hr),
    sortedBy_perm .., unindexed.symm,
    (pairwise_sortedBy alike (Windowed.pairwise_indexed rows)).imp fun placed level => ?_⟩
  rcases placed with less | ⟨-, earlier⟩
  · exact absurd (less.symm.trans level) nofun
  · exact earlier

/-- Three records by two keys, the second one descending; the last two are level. -/
theorem order_of_letters :
    ∃ sorted, evaluateIn (Environment.ofContext []) (.list [.symbol "$order",
        .list [.symbol ":k", .record [("field", .symbol ":n"), ("direction", .symbol "desc")]],
        .quoted [.object [("k", .string "a"), ("n", .integer 1)],
          .object [("k", .string "a"), ("n", .integer 2), ("first", .boolean true)],
          .object [("k", .string "a"), ("n", .integer 2)]]]) = .ok (.rows sorted) ∧
      sorted.length = 3 ∧ sorted.Pairwise fun a b =>
        (compareKeys [false, true] [a.lookup "k", a.lookup "n"] [b.lookup "k", b.lookup "n"]).isLE := by
  let rows := [Row.single "" (.object [("k", .string "a"), ("n", .integer 1)]),
    .single "" (.object [("k", .string "a"), ("n", .integer 2), ("first", .boolean true)]),
    .single "" (.object [("k", .string "a"), ("n", .integer 2)])]
  have keyed : ∀ row ∈ rows, evaluateAll interpretation.evaluate
      ([⟨.symbol ":k", false⟩, ⟨.symbol ":n", true⟩].map OrderSpec.expr)
      ((Environment.ofContext []).surround row) = .ok [row.lookup "k", row.lookup "n"] := by
    simp only [rows, List.forall_mem_cons, List.not_mem_nil, false_implies, implies_true, and_true]
    exact ⟨rfl, rfl, rfl⟩
  have parsed : OrderSpec.parseList (.list [.symbol ":k",
      .record [("field", .symbol ":n"), ("direction", .symbol "desc")]])
      = .ok [⟨.symbol ":k", false⟩, ⟨.symbol ":n", true⟩] := rfl
  have source : Relation.sourceRows interpretation.evaluate
      (.quoted [.object [("k", .string "a"), ("n", .integer 1)],
        .object [("k", .string "a"), ("n", .integer 2), ("first", .boolean true)],
        .object [("k", .string "a"), ("n", .integer 2)]]) (Environment.ofContext []) = .ok rows := rfl
  obtain ⟨sorted, -, evaluated, perm, inOrder, -⟩ := order_of_source parsed source keyed
  exact ⟨sorted, evaluated, perm.length_eq, inOrder⟩

/-- A condition on rows in order and an order of the rows of a condition declare the same. -/
theorem alike_filter_order (context : Context) (condition specList e : Expr) :
    (environment context (.list [.symbol "$where", condition,
        .list [.symbol "$order", specList, e]])).Alike
      (environment context (.list [.symbol "$order", specList,
        .list [.symbol "$where", condition, e]])) := by
  have filters : ∀ source, Environment.declareIn [] (.list [.symbol "$where", condition, source])
      = Environment.declareInList [] [condition, source] := fun _ =>
    Environment.declareIn_call (by decide : Operator.filterRows ≠ .aliased) [] _
  have orders : ∀ source, Environment.declareIn [] (.list [.symbol "$order", specList, source])
      = Environment.declareInList [] [specList, source] := fun _ =>
    Environment.declareIn_call (by decide : Operator.order ≠ .aliased) [] _
  refine Environment.alike_declareTables _ fun token => ?_
  simp only [filters, orders, Environment.mem_declareInList_iff, List.not_mem_nil, false_or,
    List.mem_cons, or_false, exists_eq_or_imp, exists_eq_left]
  exact or_left_comm

/-- Where a condition and the keys of an order have a value on every row of a source, the rows on
which the condition holds are in one order, whether the condition is asked of the rows in order or the
order is made of the rows on which it holds. In any context the two queries have this one result. -/
theorem filter_order_comm (parsed : OrderSpec.parseList specList = .ok specs)
    (source : Relation.sourceRows interpretation.evaluate e env = .ok rows)
    (keyed : ∀ row ∈ rows, evaluateAll interpretation.evaluate (specs.map OrderSpec.expr)
      (env.surround row) = .ok (key row))
    (tested : ∀ row ∈ rows, evaluateIn (env.surround row) condition = .ok (value row)) :
    ∃ result : List Row,
      evaluateIn env (.list [.symbol "$where", condition, .list [.symbol "$order", specList, e]])
        = .ok (.rows result) ∧
      evaluateIn env (.list [.symbol "$order", specList, .list [.symbol "$where", condition, e]])
        = .ok (.rows result) ∧
      result.Perm (rows.filter fun row => condition.isEmpty || (value row).isTruthy) ∧
      ∀ context, environment context (.list [.symbol "$where", condition,
          .list [.symbol "$order", specList, e]]) = env →
        evaluate (.list [.symbol "$where", condition, .list [.symbol "$order", specList, e]]) context
            = .ok (Value.rows result).materialize ∧
          evaluate (.list [.symbol "$order", specList, .list [.symbol "$where", condition, e]])
            context = .ok (Value.rows result).materialize := by
  let kept := fun row => condition.isEmpty || (value row).isTruthy
  have alike : ∀ row ∈ rows, (key row).length = (specs.map OrderSpec.expr).length := fun row hr =>
    Interpretation.length_evaluateAll (keyed row hr)
  have ordered := (evaluate_call .order rfl [specList, e] env).trans
    (Relation.order_eq_ok parsed source keyed)
  have filtered := (evaluate_call .filterRows rfl [condition, e] env).trans
    (Relation.filterRows_eq_ok "$where" source tested)
  have first : evaluateIn env (.list [.symbol "$where", condition,
      .list [.symbol "$order", specList, e]]) = .ok (.rows ((Relation.ordered
        (specs.map OrderSpec.descending) key rows).filter kept)) :=
    (evaluate_call .filterRows rfl [condition, _] env).trans
      (Relation.filterRows_eq_ok "$where" (Relation.sourceRows_of_rows ordered) fun row hr =>
        tested row ((Relation.ordered_perm ..).mem_iff.1 hr))
  have second : evaluateIn env (.list [.symbol "$order", specList,
      .list [.symbol "$where", condition, e]]) = .ok (.rows (Relation.ordered
        (specs.map OrderSpec.descending) key (rows.filter kept))) :=
    (evaluate_call .order rfl [specList, _] env).trans
      (Relation.order_eq_ok parsed (Relation.sourceRows_of_rows filtered) fun row hr =>
        keyed row (List.mem_of_mem_filter hr))
  rw [← Relation.filter_ordered kept alike] at second
  refine ⟨_, first, second, (Relation.ordered_perm ..).filter kept, fun context scope => ⟨?_, ?_⟩⟩
  · rw [evaluate, scope, first]
    rfl
  · rw [evaluate, evaluateIn_congr ((alike_filter_order context condition specList e).symm), scope,
      second]
    rfl

/-- Of three records the one without a number is left out before the others are put in order, or
after. -/
theorem filter_order_of_letters :
    ∃ result, result.length = 2 ∧
      evaluate (.list [.symbol "$where", .symbol ":n", .list [.symbol "$order", .list [.symbol ":k"],
          .quoted [.object [("k", .string "b"), ("n", .integer 2)], .object [("k", .string "a")],
            .object [("k", .string "a"), ("n", .integer 1)]]]]) []
        = .ok (Value.rows result).materialize ∧
      evaluate (.list [.symbol "$order", .list [.symbol ":k"], .list [.symbol "$where", .symbol ":n",
          .quoted [.object [("k", .string "b"), ("n", .integer 2)], .object [("k", .string "a")],
            .object [("k", .string "a"), ("n", .integer 1)]]]]) []
        = .ok (Value.rows result).materialize := by
  let rows := [Row.single "" (.object [("k", .string "b"), ("n", .integer 2)]),
    .single "" (.object [("k", .string "a")]),
    .single "" (.object [("k", .string "a"), ("n", .integer 1)])]
  let source := Expr.quoted [.object [("k", .string "b"), ("n", .integer 2)],
    .object [("k", .string "a")], .object [("k", .string "a"), ("n", .integer 1)]]
  let env := environment [] (.list [.symbol "$where", .symbol ":n",
    .list [.symbol "$order", .list [.symbol ":k"], source]])
  have parsed : OrderSpec.parseList (.list [.symbol ":k"]) = .ok [⟨.symbol ":k", false⟩] := rfl
  have sourced : Relation.sourceRows interpretation.evaluate source env = .ok rows := rfl
  have keyed : ∀ row ∈ rows, evaluateAll interpretation.evaluate
      ([⟨.symbol ":k", false⟩].map OrderSpec.expr) (env.surround row) = .ok [row.lookup "k"] := by
    simp only [rows, List.forall_mem_cons, List.not_mem_nil, false_implies, implies_true, and_true]
    exact ⟨rfl, rfl, rfl⟩
  have tested : ∀ row ∈ rows,
      evaluateIn (env.surround row) (.symbol ":n") = .ok (row.lookup "n") := by
    simp only [rows, List.forall_mem_cons, List.not_mem_nil, false_implies, implies_true, and_true]
    exact ⟨rfl, rfl, rfl⟩
  obtain ⟨result, -, -, perm, inContext⟩ := filter_order_comm parsed sourced keyed tested
  obtain ⟨first, second⟩ := inContext [] rfl
  exact ⟨result, perm.length_eq, first, second⟩

end

end InMemory

end QueryForms
