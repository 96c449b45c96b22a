import QueryForms.Proofs.InMemory.Projection

/-!
# Windows

An expression that looks at no window has one value whatever the window
(`InMemory.evaluate_besideWindow`). The partition of a row are the rows with the text of its keys. An
aggregate looks at members only, so it has one value on rows with the same members.
-/

namespace QueryForms

open Interpretation (evaluateAll)

/-! ## Expressions that look at no window -/

/-- Whether no call in an expression looks at the window around it. -/
def Expr.Windowless (e : Expr) : Prop :=
  e.Everywhere fun part => ∀ op, part.operator? = some op → op.looksAtWindow = false

/-- A call looks at no window if its operator does not and its operands do not. -/
theorem Expr.windowless_call (op : Operator) (blind : op.looksAtWindow = false)
    {operands : List Expr} (inside : ∀ e ∈ operands, e.Windowless) :
    (Expr.list (.symbol op.name :: operands)).Windowless := by
  refine Everywhere.list_iff.2 ⟨?_, List.forall_mem_cons.2 ⟨Everywhere.symbol_iff.2 nofun, inside⟩⟩
  intro other calls
  obtain rfl := Option.some.inj ((Operator.ofName?_name op).symm.trans calls)
  exact blind

/-- Environments that are the same but for the window, for expressions that look at none. -/
def Accord.besideWindow : Accord where
  expr e := ∀ op, e.operator? = some op → op.looksAtWindow = false
  value _ := True
  plain _ _ := trivial
  literal v _ := .of_forall (fun _ => trivial) v
  quoted _ _ v _ := .of_forall (fun _ => trivial) v
  identifier _ _ _ calls := nomatch calls
  related a b := ∃ w, b = { a with window := w }
  bindings _ _ _ entry _ := .of_forall (fun _ => trivial) entry.2
  row := by
    rintro a _ ⟨w, rfl⟩
    exact ⟨rfl, fun row _ => .of_forall (fun _ => trivial) row⟩
  window _ free calls looks := by
    rw [free _ calls] at looks
    cases looks
  split := by
    rintro a _ _ _ ⟨w, rfl⟩ _ _
    rfl
  binding := by
    rintro a _ _ _ _ ⟨w, rfl⟩ _ _
    rfl
  wildcard := by
    rintro a _ _ _ _ ⟨w, rfl⟩ _ _ _
    rfl
  surround := by
    rintro a _ row other ⟨w, rfl⟩ same _
    obtain rfl : row = other := same
    exact ⟨w, rfl⟩
  withWindow := by
    rintro a _ v w ⟨_, rfl⟩ _ _
    exact ⟨some w, rfl⟩
  defined := by
    rintro a _ _ _ _ _ _ ⟨w, rfl⟩ _ _ _ _
    exact ⟨w, rfl⟩

/-- An expression that looks at no window has one value whatever the window. -/
theorem InMemory.evaluate_besideWindow {e : Expr} (free : e.Windowless) (env : Environment)
    (w : Option WindowState) :
    interpretation.evaluate e { env with window := w } = interpretation.evaluate e env :=
  (Accord.matches_evaluateLevels (A := .besideWindow) (fun _ _ => matches_step fun _ => trivial)
    e.depth e env _ free ⟨w, rfl⟩).1.symm

/-- Expressions that look at no window have their values whatever the window. -/
theorem InMemory.evaluateAll_besideWindow {keys : List Expr} (free : ∀ e ∈ keys, e.Windowless)
    (env : Environment) (w : Option WindowState) :
    evaluateAll interpretation.evaluate keys { env with window := w }
      = evaluateAll interpretation.evaluate keys env :=
  mapM_congr fun e he => evaluate_besideWindow (free e he) env w

/-! ## Partitions -/

namespace Windowed

/-- The rows of a row's partition with their indices. -/
def partition (key : Row → List Value) (rows : List Row) (row : Row) : List (Nat × Row) :=
  (indexed rows).filter fun member => Relation.keyText key member.2 == Relation.keyText key row

theorem map_snd_partition (key : Row → List Value) (rows : List Row) (row : Row) :
    (partition key rows row).map Prod.snd = Relation.companions key rows row := by
  rw [Relation.companions]
  conv_rhs => rw [← map_snd_indexed rows, List.filter_map]
  rfl

theorem length_partition_le (key : Row → List Value) (rows : List Row) (row : Row) :
    (partition key rows row).length ≤ rows.length :=
  (List.length_filter_le ..).trans_eq (length_indexed rows)

/-- A row is in its partition. -/
theorem mem_partition (key : Row → List Value) {rows : List Row} {index : Nat} {row : Row}
    (here : rows[index]? = some row) : (index, row) ∈ partition key rows row :=
  List.mem_filter.2 ⟨List.mem_of_getElem? (getElem?_indexed here), beq_self_eq_true _⟩

section

variable {eval : Evaluator} {env : Environment} {rows : List Row} {index : Nat} {row : Row}
  {key : Row → List Value}

/-- The members of a row's partition are the rows with the text of its keys. -/
theorem partitionOf_eq_ok {spec : WindowSpec} (order : Row → List Value)
    (here : rows[index]? = some row)
    (keyed : ∀ row ∈ rows, keysOn eval spec.partition env row = .ok (key row))
    (ordered : ∀ row ∈ rows,
      keysOn eval (spec.order.map OrderSpec.expr) env row = .ok (order row)) :
    partitionOf eval spec env rows index
      = .ok ((partition key rows row).map fun member => (order member.2, member)) := by
  have names : (rows.mapM fun row => do
      return (Value.array (← keysOn eval spec.partition env row)).jsonText)
        = .ok (rows.map (Relation.keyText key)) := by
    refine mapM_eq_ok fun row hr => ?_
    rw [keyed row hr]
    rfl
  -- each row stands beside the text of its own keys
  have beside : (rows.map (Relation.keyText key)).zip (indexed rows)
      = (indexed rows).map fun member => (Relation.keyText key member.2, member) := by
    have texts : rows.map (Relation.keyText key)
        = (indexed rows).map fun member => Relation.keyText key member.2 := by
      conv_lhs => rw [← map_snd_indexed rows, List.map_map]
      rfl
    rw [texts, List.map_prod_right_eq_zip]
  have own : (rows.map (Relation.keyText key))[index]? = some (Relation.keyText key row) := by
    rw [List.getElem?_map, here]
    rfl
  rw [partitionOf, names]
  simp only [bind, Except.bind, own, beside, List.filter_map]
  refine (mapM_eq_ok (g := fun member => (order member.2.2, member.2)) fun member hm => ?_).trans ?_
  · obtain ⟨own, inside, rfl⟩ := List.mem_map.1 hm
    rw [ordered own.2 (mem_of_mem_indexed (List.mem_filter.1 inside).1)]
    rfl
  · rw [List.map_map]
    rfl

end

end Windowed

/-! ## Aggregates -/

namespace Aggregate

section

variable {eval : Evaluator} {a b : Environment} {op : Operator}
  {apply : Evaluator → List Expr → Environment → Result Value}

theorem memberValues_congr {e : Expr} (same : members a = members b)
    (alike : ∀ row, eval e (a.surround row) = eval e (b.surround row)) :
    memberValues eval e a = memberValues eval e b := by
  simp only [memberValues, same, alike]

/-- An aggregate has one outcome where it has the same members, and where its operand and the
identifier have one on each of them. -/
theorem apply_congr (known : handler op = some (.onOperands apply)) {f : Expr}
    (same : members a = members b)
    (alike : ∀ e, e = f ∨ e = .symbol ":id" →
      ∀ row, eval e (a.surround row) = eval e (b.surround row)) :
    apply eval [f] a = apply eval [f] b := by
  have values := memberValues_congr same (alike f (.inl rfl))
  cases op <;> simp only [handler, Option.some.injEq, Handler.onOperands.injEq, reduceCtorEq]
    at known <;> subst known
  case count =>
    have counted := memberValues_congr (e := if f.asName? = some "*" then .symbol ":id" else f) same
      (alike _ (by split <;> simp))
    simp only [count, oneOperand, bind, Except.bind, counted]
  case sum => simp only [sum, oneOperand, bind, Except.bind, values]
  case avg => simp only [avg, oneOperand, bind, Except.bind, values]
  all_goals simp only [extreme, oneOperand, bind, Except.bind, values]

/-- Every aggregate has a value where there are no members. -/
theorem apply_of_no_members (known : handler op = some (.onOperands apply)) (f : Expr)
    (none : members a = []) : ∃ v, apply eval [f] a = .ok v := by
  have values : ∀ e, memberValues eval e a = .ok [] := by
    intro e
    rw [memberValues, none]
    rfl
  cases op <;> simp only [handler, Option.some.injEq, Handler.onOperands.injEq, reduceCtorEq]
    at known <;> subst known
  case count => exact ⟨.integer 0, by simp only [count, oneOperand, bind, Except.bind, values]; rfl⟩
  case avg => exact ⟨.float (0 / 0), by simp only [avg, oneOperand, bind, Except.bind, values]; rfl⟩
  all_goals
    exact ⟨.null, by simp only [sum, extreme, oneOperand, bind, Except.bind, values]; rfl⟩

end

end Aggregate

/-! ## Queries -/

namespace Expr

/-- A call of an aggregate. -/
def aggregate (op : Operator) (f : Expr) : Expr :=
  .list [.symbol op.name, f]

/-- A window call. -/
def windowCall (function window : Expr) : Expr :=
  .list [.symbol "$over", function, window]

/-- A window call with a partition alone. -/
def overPartition (function : Expr) (keys : List Expr) : Expr :=
  .list [.symbol "$over", function, .record [("partition", .list keys)]]

/-- The groups of a source. -/
def groupedBy (keys : List Expr) (source : Expr) : Expr :=
  .list [.symbol "$group", .list keys, source]

/-- One field of a source under a name. -/
def selectAs (name : String) (e source : Expr) : Expr :=
  .list [.symbol "$select", .list [.list [.symbol "$as", .symbol name, e]], source]

theorem containsCall_call (wanted stop : Operator → Bool) (op : Operator) (operands : List Expr) :
    containsCall wanted stop (.list (.symbol op.name :: operands))
      = (wanted op || (!stop op && containsCallIn wanted stop operands)) := by
  simp [containsCall, containsCallIn, operator?, head?, asName?, Operator.ofName?_name]

/-- A name changes nothing about which calls stand in an expression. -/
theorem containsCall_named {wanted stop : Operator → Bool} (other : wanted .aliased = false)
    (through : stop .aliased = false) (name : String) (e : Expr) :
    containsCall wanted stop (.list [.symbol "$as", .symbol name, e])
      = containsCall wanted stop e := by
  refine (containsCall_call wanted stop .aliased [.symbol name, e]).trans ?_
  simp [containsCallIn, containsCall, other, through]

theorem isAggregated_aggregate {op : Operator} (combines : op.isAggregate = true) (f : Expr) :
    (aggregate op f).isAggregated = true := by
  refine (containsCall_call _ _ op _).trans ?_
  rw [combines, Bool.true_or]

theorem isAggregated_windowCall (function window : Expr) :
    (windowCall function window).isAggregated = false :=
  containsCall_call _ _ .windowed _

theorem isWindowed_windowCall (function window : Expr) :
    (windowCall function window).isWindowed = true :=
  containsCall_call _ _ .windowed _

end Expr

namespace Relation

section

variable {eval : Evaluator} {env : Environment} {name : String} {e source : Expr} {rows : List Row}

theorem isGrouped_of_mem_groupsOf {names : List String} {key : Row → List Value} {group : Row}
    (h : group ∈ groupsOf names key rows) : group.isGrouped = true := by
  obtain ⟨part, -, rfl⟩ := List.mem_map.1 h
  rfl

theorem rowScope_eq (env : Environment) (rows : List Row) (windowed : Bool) (member : Nat × Row) :
    ∃ w, rowScope env rows windowed member = { env.surround member.2 with window := w } := by
  cases windowed
  · exact ⟨_, rfl⟩
  · exact ⟨_, rfl⟩

/-- Without a field that combines rows, or of groups, all rows are shown. -/
theorem selectedRows_named (name : String) (e : Expr) (rows : List Row) :
    selectedRows [.list [.symbol "$as", .symbol name, e]] rows
      = if e.isAggregated && !rows.any Row.isGrouped then [Row.ofGroup [] rows] else rows := by
  rw [selectedRows, List.any_cons, List.any_nil, Bool.or_false, Expr.isAggregated,
    Expr.containsCall_named rfl rfl name e, ← Expr.isAggregated]

/-- One named field makes a record of one field. -/
theorem projectAll_named {v : Value} (value : eval e env = .ok v) :
    projectAll eval [.list [.symbol "$as", .symbol name, e]] env = .ok (.object [(name, v)]) := by
  have isAlias : (Expr.list [.symbol "$as", .symbol name, e]).isCall .aliased = true := rfl
  have projected : project eval env (.list [.symbol "$as", .symbol name, e]) = .ok [(name, v)] := by
    simp only [project, isAlias, if_true, Expr.operands, clauseOperands, aliasName, Expr.asName?,
      bind, Except.bind, value]
    rfl
  simp only [projectAll, List.mapM_cons, List.mapM_nil, projected, bind, Except.bind]
  rfl

end

end Relation

namespace InMemory

section

variable {env : Environment} {name : String} {e source : Expr} {rows : List Row}

/-- A projection of one named field has a record with it for each row that it shows. -/
theorem evaluate_selectAs {shown : List Row} (value : Nat × Row → Value)
    (sourced : Relation.sourceRows interpretation.evaluate source env = .ok rows)
    (selected : Relation.selectedRows [.list [.symbol "$as", .symbol name, e]] rows = shown)
    (values : ∀ member ∈ Windowed.indexed shown,
      evaluateIn (Relation.rowScope env shown e.isWindowed member) e = .ok (value member)) :
    evaluateIn env (.selectAs name e source)
      = .ok (.array ((Windowed.indexed shown).map fun member =>
          .object [(name, value member)])) := by
  have windowed : [Expr.list [.symbol "$as", .symbol name, e]].any Expr.isWindowed
      = e.isWindowed := by
    rw [List.any_cons, List.any_nil, Bool.or_false]
    exact Expr.containsCall_named rfl rfl name e
  have fields : (Expr.list [.list [.symbol "$as", .symbol name, e]]).itemsOrNone
      = [.list [.symbol "$as", .symbol name, e]] := rfl
  have records := mapM_eq_ok (f := fun member => Relation.projectAll interpretation.evaluate
    [.list [.symbol "$as", .symbol name, e]] (Relation.rowScope env shown e.isWindowed member))
    fun member hm => Relation.projectAll_named (values member hm)
  refine (evaluate_call .select rfl _ env).trans ?_
  simp only [Relation.select, sourced, fields, selected, windowed, bind, Except.bind, pure,
    Except.pure, records]

end

section

variable {op : Operator} {f : Expr} {keys : List Expr} {env : Environment} {rows : List Row}
  {key : Row → List Value}

/-- What an aggregate does. -/
theorem handler_of_isAggregate (combines : op.isAggregate = true) :
    ∃ apply, Aggregate.handler op = some (.onOperands apply) ∧
      handler op = some (.onOperands apply) := by
  cases op <;> cases combines <;> exact ⟨_, rfl, rfl⟩

theorem evaluate_aggregate_of_no_members (combines : op.isAggregate = true) (f : Expr)
    (none : Aggregate.members env = []) : ∃ v, evaluateIn env (.aggregate op f) = .ok v := by
  obtain ⟨apply, known, called⟩ := handler_of_isAggregate combines
  obtain ⟨v, value⟩ : ∃ v, apply interpretation.evaluate [f] env = .ok v :=
    Aggregate.apply_of_no_members known f none
  exact ⟨v, (evaluate_call op called [f] env).trans value⟩

/-- An aggregate has one value on rows with the same members, whatever the window. -/
theorem evaluate_aggregate_congr (combines : op.isAggregate = true) (free : f.Windowless)
    (env : Environment) {row other : Row} (same : row.members = other.members)
    (w v : Option WindowState) :
    evaluateIn { env.surround row with window := w } (.aggregate op f)
      = evaluateIn { env.surround other with window := v } (.aggregate op f) := by
  obtain ⟨apply, known, called⟩ := handler_of_isAggregate combines
  have identifier : (Expr.symbol ":id").Windowless := Expr.Everywhere.symbol_iff.2 nofun
  rw [evaluateIn, evaluateIn, Expr.aggregate, evaluate_call op called, evaluate_call op called]
  refine Aggregate.apply_congr known same fun e he member => ?_
  have windowless : e.Windowless := by
    rcases he with rfl | rfl
    · exact free
    · exact identifier
  exact (evaluate_besideWindow windowless (env.surround member) w).trans
    (evaluate_besideWindow windowless (env.surround member) v).symm

/-- A projection of an aggregate has its value on each row that it shows. -/
theorem evaluate_selectAs_aggregate (combines : op.isAggregate = true) (free : f.Windowless)
    (name : String) {source : Expr} {shown : List Row} {total : Row → Value}
    (sourced : Relation.sourceRows interpretation.evaluate source env = .ok rows)
    (selected : Relation.selectedRows [.list [.symbol "$as", .symbol name, .aggregate op f]] rows
      = shown)
    (aggregated : ∀ row ∈ shown,
      evaluateIn (env.surround row) (.aggregate op f) = .ok (total row)) :
    evaluateIn env (.selectAs name (.aggregate op f) source)
      = .ok (.array ((Windowed.indexed shown).map fun member =>
          .object [(name, total member.2)])) := by
  refine evaluate_selectAs (fun member => total member.2) sourced selected fun member hm => ?_
  obtain ⟨w, scope⟩ := Relation.rowScope_eq env shown (Expr.aggregate op f).isWindowed member
  rw [scope, ← aggregated _ (Windowed.mem_of_mem_indexed hm)]
  exact evaluate_aggregate_congr combines free env rfl w env.window

end

end InMemory

end QueryForms
