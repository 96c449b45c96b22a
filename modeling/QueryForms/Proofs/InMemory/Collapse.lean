import QueryForms.Proofs.InMemory.Projection

/-!
# Fields that combine rows

Of rows that are no groups a projection has a record each, or one record of all of them if a field
calls an aggregate. A call counts where it is evaluated for the field itself, outside of window calls,
nested projections and quotations (`Expr.Combines`). The walk that decides this does not stop at a
quotation, so an aggregate that is quoted makes one record of all rows too, although it is data
(`Expr.isAggregated_iff`). Otherwise there are as many records as it should
(`InMemory.select_of_ungrouped`).
-/

namespace QueryForms

/-! ## Calls in an expression -/

namespace Expr

variable {wanted closed other : Operator → Bool} {e : Expr}

/-- An expression is met in another one on a way that does not enter the calls of closed operators. -/
inductive Meets (closed : Operator → Bool) : Expr → Expr → Prop where
  | here (e : Expr) : Meets closed e e
  | inside {e part met : Expr} (enters : ∀ op ∈ e.operator?, closed op = false)
    (within : part ∈ e.parts) (further : Meets closed part met) : Meets closed e met

/-- A call of a wanted operator is met. -/
def MeetsCall (wanted closed : Operator → Bool) (e : Expr) : Prop :=
  ∃ call, e.Meets closed call ∧ ∃ op ∈ call.operator?, wanted op = true

theorem containsCallIn_eq_any (items : List Expr) :
    containsCallIn wanted closed items = items.any (containsCall wanted closed) := by
  induction items with
  | nil => rfl
  | cons first rest ih => rw [containsCallIn, List.any_cons, ih]

theorem containsCallInFields_eq_any (fields : List (String × Expr)) :
    containsCallInFields wanted closed fields
      = (fields.map Prod.snd).any (containsCall wanted closed) := by
  induction fields with
  | nil => rfl
  | cons first rest ih => rw [containsCallInFields, List.map_cons, List.any_cons, ih]

/-- An expression contains a call if it is one, or if a part contains one and may be looked at. -/
theorem containsCall_eq_true_iff :
    e.containsCall wanted closed = true ↔ (∃ op ∈ e.operator?, wanted op = true) ∨
      (∀ op ∈ e.operator?, closed op = false) ∧
        ∃ part ∈ e.parts, part.containsCall wanted closed = true := by
  cases e with
  | list items =>
    rw [containsCall, containsCallIn_eq_any]
    cases (Expr.list items).operator? with
    | none => simp [parts]
    | some op => simp [parts]
  | record fields =>
    rw [containsCall, containsCallInFields_eq_any, List.any_eq_true]
    simp [operator?, head?, parts]
  | _ => simp [containsCall, operator?, head?, parts]

/-- What contains a call meets it. -/
theorem meetsCall_of_containsCall {e : Expr} (found : e.containsCall wanted closed = true) :
    e.MeetsCall wanted closed := by
  rcases containsCall_eq_true_iff.1 found with own | ⟨enters, part, within, found⟩
  · exact ⟨e, .here e, own⟩
  · obtain ⟨call, met, calls⟩ := meetsCall_of_containsCall found
    exact ⟨call, .inside enters within met, calls⟩
termination_by e.depth
decreasing_by exact depth_lt_of_mem_parts within

/-- The walk finds the calls that are met. -/
theorem containsCall_iff : e.containsCall wanted closed = true ↔ e.MeetsCall wanted closed := by
  refine ⟨meetsCall_of_containsCall, ?_⟩
  rintro ⟨call, met, calls⟩
  induction met with
  | here e => exact containsCall_eq_true_iff.2 (.inl calls)
  | inside enters within _ ih =>
    exact containsCall_eq_true_iff.2 (.inr ⟨enters, _, within, ih calls⟩)

namespace Meets

variable {met further : Expr}

/-- What is met on a way that enters fewer calls. -/
theorem mono (h : e.Meets closed met) (fewer : ∀ op, closed op = false → other op = false) :
    e.Meets other met := by
  induction h with
  | here e => exact .here e
  | inside enters within _ ih => exact .inside (fun op calls => fewer op (enters op calls)) within ih

theorem trans (h : e.Meets closed met) (next : met.Meets closed further) :
    e.Meets closed further := by
  induction h with
  | here e => exact next
  | inside enters within _ ih => exact .inside enters within (ih next)

end Meets

/-! ## Aggregates -/

/-- Whether the operands of a call are not evaluated for the field itself: those of window calls and
of nested projections have rows of their own, and what is quoted is data. -/
def shieldsAggregates (op : Operator) : Bool :=
  closesAggregates op || op == .quote

/-- A field combines rows: it calls an aggregate that is evaluated for itself. -/
def Combines (e : Expr) : Prop :=
  e.MeetsCall Operator.isAggregate shieldsAggregates

/-- A field quotes a call of an aggregate. -/
def QuotesAggregate (e : Expr) : Prop :=
  ∃ quotation, e.Meets shieldsAggregates quotation ∧ quotation.operator? = some .quote ∧
    ∃ part ∈ quotation.parts, part.isAggregated = true

/-- What is met is met outside of all quotations, or inside of one that is. -/
theorem Meets.shielded_or_quoted {met : Expr} (h : e.Meets closesAggregates met) :
    e.Meets shieldsAggregates met ∨ ∃ quotation, e.Meets shieldsAggregates quotation ∧
      quotation.operator? = some .quote ∧
        ∃ part ∈ quotation.parts, part.Meets closesAggregates met := by
  -- The quotation is the first one on the way.
  induction h with
  | here e => exact .inl (.here e)
  | @inside e part met enters within inner ih =>
    by_cases quotes : e.operator? = some .quote
    · exact .inr ⟨e, .here e, quotes, part, within, inner⟩
    · have goesOn : ∀ op ∈ e.operator?, shieldsAggregates op = false := fun op calls => by
        have other : op ≠ .quote := fun same => quotes (same ▸ calls)
        rw [shieldsAggregates, enters op calls, Bool.false_or, beq_eq_false_iff_ne]
        exact other
      exact ih.imp (.inside goesOn within) fun ⟨quotation, there, rest⟩ =>
        ⟨quotation, .inside goesOn within there, rest⟩

/-- The walk of a projection finds the aggregates of a field, and those that it quotes. -/
theorem isAggregated_iff : e.isAggregated = true ↔ e.Combines ∨ e.QuotesAggregate := by
  have fewer : ∀ op, shieldsAggregates op = false → closesAggregates op = false :=
    fun op free => (Bool.or_eq_false_iff.1 free).1
  constructor
  · intro found
    obtain ⟨call, met, calls⟩ := containsCall_iff.1 found
    refine met.shielded_or_quoted.imp (fun met => ⟨call, met, calls⟩) ?_
    rintro ⟨quotation, there, quotes, part, within, met⟩
    exact ⟨quotation, there, quotes, part, within, containsCall_iff.2 ⟨call, met, calls⟩⟩
  · rintro (⟨call, met, calls⟩ | ⟨quotation, there, quotes, part, within, found⟩)
    · exact containsCall_iff.2 ⟨call, met.mono fewer, calls⟩
    · obtain ⟨call, met, calls⟩ := containsCall_iff.1 found
      have entered : ∀ op ∈ quotation.operator?, closesAggregates op = false := by
        rw [quotes]
        rintro _ ⟨⟩
        rfl
      exact containsCall_iff.2
        ⟨call, (there.mono fewer).trans (.inside entered within met), calls⟩

end Expr

/-! ## Projections -/

namespace Relation

/-- Rows that are no groups are all shown, or as one group if a field asks for it. -/
theorem selectedRows_of_ungrouped (fields : List Expr) {rows : List Row}
    (ungrouped : ∀ row ∈ rows, row.isGrouped = false) :
    selectedRows fields rows
      = if fields.any Expr.isAggregated then [Row.ofGroup [] rows] else rows := by
  have none : rows.any Row.isGrouped = false := by
    rw [List.any_eq_false]
    exact fun row inside => Bool.eq_false_iff.1 (ungrouped row inside)
  rw [selectedRows, none, Bool.not_false, Bool.and_true]

end Relation

namespace InMemory

section

variable {env : Environment} {fieldList source : Expr} {rows : List Row}

/-- A projection of rows that are no groups makes one record of all of them if a field calls an
aggregate for itself, or quotes such a call, and otherwise one of each, in order. -/
theorem select_of_ungrouped
    (sourced : Relation.sourceRows interpretation.evaluate source env = .ok rows)
    (ungrouped : ∀ row ∈ rows, row.isGrouped = false) {result : Value}
    (evaluated : evaluateIn env (.list [.symbol "$select", fieldList, source]) = .ok result) :
    ∃ records, result = .array records ∧
      ((∃ field ∈ fieldList.itemsOrNone, field.Combines ∨ field.QuotesAggregate) →
        ∃ record, records = [record] ∧
          Relation.projectAll interpretation.evaluate fieldList.itemsOrNone
            (Relation.rowScope env [Row.ofGroup [] rows] (fieldList.itemsOrNone.any Expr.isWindowed)
              (0, Row.ofGroup [] rows)) = .ok record) ∧
      ((∀ field ∈ fieldList.itemsOrNone, ¬ (field.Combines ∨ field.QuotesAggregate)) →
        records.length = rows.length ∧
          List.Forall₂ (fun member record =>
            Relation.projectAll interpretation.evaluate fieldList.itemsOrNone
              (Relation.rowScope env rows (fieldList.itemsOrNone.any Expr.isWindowed) member)
                = .ok record) (Windowed.indexed rows) records) := by
  obtain ⟨records, rfl, made⟩ := (Relation.select_eq_ok_iff sourced).1
    ((evaluate_call .select rfl [fieldList, source] env).symm.trans evaluated)
  rw [Relation.selectedRows_of_ungrouped _ ungrouped] at made
  simp only [← Expr.isAggregated_iff]
  refine ⟨records, rfl, fun collapses => ?_, fun spreads => ?_⟩
  · rw [if_pos (List.any_eq_true.2 collapses)] at made
    cases made with
    | cons first rest =>
      cases rest
      exact ⟨_, rfl, first⟩
  · rw [if_neg fun found => ?_] at made
    · exact ⟨made.length_eq.symm.trans (Windowed.length_indexed rows), made⟩
    · obtain ⟨field, inside, aggregated⟩ := List.any_eq_true.1 found
      exact spreads field inside aggregated

/-- Of two rows a field makes two records, and a count one. -/
theorem records_of_two_rows :
    (∃ records, evaluateIn (Environment.ofContext []) (.list [.symbol "$select",
        .list [.symbol ":a"], .quoted [.object [("a", .integer 1)], .object [("a", .integer 2)]]])
      = .ok (.array records) ∧ records.length = 2) ∧
    ∃ record, evaluateIn (Environment.ofContext []) (.list [.symbol "$select",
        .list [.list [.symbol "$count", .symbol ":a"]],
        .quoted [.object [("a", .integer 1)], .object [("a", .integer 2)]]])
      = .ok (.array [record]) := by
  have sourced : Relation.sourceRows interpretation.evaluate
      (.quoted [.object [("a", .integer 1)], .object [("a", .integer 2)]]) (Environment.ofContext [])
        = .ok [Row.single "" (.object [("a", .integer 1)]),
          Row.single "" (.object [("a", .integer 2)])] := rfl
  have ungrouped : ∀ row ∈ [Row.single "" (.object [("a", .integer 1)]),
      Row.single "" (.object [("a", .integer 2)])], row.isGrouped = false := by
    rw [List.forall_mem_cons, List.forall_mem_singleton]
    exact ⟨rfl, rfl⟩
  have shown : evaluateIn (Environment.ofContext []) (.list [.symbol "$select",
        .list [.symbol ":a"], .quoted [.object [("a", .integer 1)], .object [("a", .integer 2)]]])
      = .ok (.array [.object [("a", .integer 1)], .object [("a", .integer 2)]]) := rfl
  have counted : evaluateIn (Environment.ofContext []) (.list [.symbol "$select",
        .list [.list [.symbol "$count", .symbol ":a"]],
        .quoted [.object [("a", .integer 1)], .object [("a", .integer 2)]]])
      = .ok (.array [.object [("count", .integer 2)]]) := rfl
  have apart : ∀ field ∈ (Expr.list [.symbol ":a"]).itemsOrNone,
      ¬ (field.Combines ∨ field.QuotesAggregate) :=
    List.forall_mem_singleton.2 fun found => Bool.false_ne_true (Expr.isAggregated_iff.2 found)
  have combines : ∃ field ∈ (Expr.list [.list [.symbol "$count", .symbol ":a"]]).itemsOrNone,
      field.Combines ∨ field.QuotesAggregate :=
    ⟨_, List.mem_singleton.2 rfl, .inl ⟨_, .here _, .count, rfl, rfl⟩⟩
  constructor
  · obtain ⟨records, same, -, spreads⟩ := select_of_ungrouped sourced ungrouped shown
    exact ⟨records, shown.trans (congrArg _ same), (spreads apart).1⟩
  · obtain ⟨records, same, collapses, -⟩ := select_of_ungrouped sourced ungrouped counted
    obtain ⟨record, rfl, -⟩ := collapses combines
    exact ⟨record, counted.trans (congrArg _ same)⟩

/-- A quoted count makes one record of two rows, although it is no call of the field. -/
theorem record_of_quoted_count :
    Relation.sourceRows interpretation.evaluate
        (.quoted [.object [("a", .integer 1)], .object [("a", .integer 2)]]) (Environment.ofContext [])
      = .ok [Row.single "" (.object [("a", .integer 1)]),
          Row.single "" (.object [("a", .integer 2)])] ∧
    ¬ (Expr.list [.symbol "$as", .symbol "q",
        .list [.symbol "$quote", .list [.symbol "$count", .symbol "*"]]]).Combines ∧
    evaluateIn (Environment.ofContext []) (.list [.symbol "$select",
        .list [.list [.symbol "$as", .symbol "q",
          .list [.symbol "$quote", .list [.symbol "$count", .symbol "*"]]]],
        .quoted [.object [("a", .integer 1)], .object [("a", .integer 2)]]])
      = .ok (.array [.object [("q", .array [.string "$count", .string "*"])]]) :=
  ⟨rfl, fun combines => Bool.false_ne_true (Expr.containsCall_iff.2 combines), rfl⟩

end

end InMemory

end QueryForms
