import QueryForms.Proofs.InMemory.Renaming
import QueryForms.Proofs.InMemory.Windows
import QueryForms.Proofs.UnusedTable

/-!
# Pages that cut nothing

A page as long as its source leaves all of it. Of a table it is a plain array though, and the rows
of an array have no name, so what is behind the page sees the records of the table under no name
(`where_of_page`). `Row.unname` takes the name from a row. It is a mask, so an expression that looks
at no window and spells no field of the table cannot tell (`evaluate_unname`), and a condition like
that keeps the same rows with the page and without it.
-/

namespace QueryForms

variable {table : String}

/-! ## Rows without the name of a table -/

namespace Row

/-- Records by table, with those of one table under no name. -/
def unnameTables (table : String) (tables : List (String × Value)) : List (String × Value) :=
  tables.map fun entry => (if entry.1 = table then "" else entry.1, entry.2)

mutual

/-- A row in which a table has no name, down to its members. -/
def unname (table : String) : Row → Row
  | ⟨tables, groups, none⟩ => ⟨unnameTables table tables, groups, none⟩
  | ⟨tables, groups, some items⟩ =>
    ⟨unnameTables table tables, groups, some (unnameAll table items)⟩

/-- Rows in which a table has no name. -/
def unnameAll (table : String) : List Row → List Row
  | [] => []
  | row :: rest => unname table row :: unnameAll table rest

end

theorem unnameAll_eq_map (table : String) (list : List Row) :
    unnameAll table list = list.map (unname table) := by
  induction list with
  | nil => rfl
  | cons row rest ih => rw [unnameAll, ih, List.map_cons]

theorem tables_unname (row : Row) : (unname table row).tables = unnameTables table row.tables := by
  obtain ⟨tables, groups, _ | items⟩ := row <;> rfl

/-- Under any other name there is the same record. -/
theorem get?_unnameTables {other : String} (away : other ≠ table) (named : other ≠ "")
    (tables : List (String × Value)) :
    Entries.get? (unnameTables table tables) other = Entries.get? tables other := by
  induction tables with
  | nil => rfl
  | cons entry rest ih =>
    obtain ⟨name, record⟩ := entry
    rw [unnameTables, List.map_cons, Entries.get?, Entries.get?, ← unnameTables, ih]
    by_cases here : name = table
    · rw [if_pos here, if_neg (Ne.symm named), if_neg (here ▸ Ne.symm away)]
    · rw [if_neg here]

/-- Taking the name of a table from rows is a mask. -/
def Mask.unname (table : String) : Mask where
  hide := Row.unname table
  groups row := by
    obtain ⟨tables, groups, _ | items⟩ := row <;> rfl
  records row := by
    rw [tables_unname, unnameTables, List.map_map]
    rfl
  members row := by
    obtain ⟨tables, groups, _ | items⟩ := row
    · rfl
    · exact unnameAll_eq_map table items
  ofGroup list := by
    rw [Row.ofGroup, Row.ofGroup, Row.unname, unnameAll_eq_map, List.head?_map]
    cases list.head? with
    | none => rfl
    | some row => exact congrArg (Row.mk · _ _) (tables_unname row).symm

end Row

/-! ## Expressions that do not spell the table -/

/-- No name in an expression begins with the token of a table, unless the table has no name. -/
def Expr.Unqualified (table : String) (e : Expr) : Prop :=
  e.Everywhere fun part => ∀ s, part.asName? = some s →
    stripStart? (aliasToken table) s = none ∨ table = ""

/-- Environments with rows that are the same but for the name of a table, for expressions that look
at no window and do not spell the table. -/
def Accord.unname (table : String) : Accord where
  expr e := (∀ op, e.operator? = some op → op.looksAtWindow = false) ∧
    ∀ s, e.asName? = some s → stripStart? (aliasToken table) s = none ∨ table = ""
  value _ := True
  plain _ _ := trivial
  literal v _ := .of_forall (fun _ => trivial) v
  quoted _ _ v _ := .of_forall (fun _ => trivial) v
  identifier _ _ := by
    refine ⟨nofun, fun s named => Option.some.inj named ▸ ?_⟩
    by_cases unnamed : table = ""
    · exact .inr unnamed
    · refine .inl ((overlooks_identifier table).2.resolve_right fun row => unnamed ?_)
      exact aliasToken_inj row
  mask := .unname table
  tables := by
    intro e s other rest he named begins filled row
    have away : other ≠ table := by
      rintro rfl
      rcases he.2 s named with fails | unnamed
      · exact stripStart?_eq_none_iff.1 fails rest begins
      · exact filled unnamed
    exact (congrArg (Entries.get? · other) (Row.tables_unname row)).trans
      (Row.get?_unnameTables away filled row.tables)
  related a b := a.tokens = b.tokens ∧ a.bindings = b.bindings ∧
    a.row.map (Row.unname table) = b.row.map (Row.unname table)
  bindings _ _ _ entry _ := .of_forall (fun _ => trivial) entry.2
  row h := ⟨h.2.2, fun row _ => .of_forall (fun _ => trivial) row⟩
  window _ free calls looks := by
    rw [free.1 _ calls] at looks
    cases looks
  split h _ _ := by rw [Environment.splitSymbol?, Environment.splitSymbol?, h.1]
  binding h _ _ := Environment.binding?_congr fun _ _ _ => by rw [h.2.1]
  wildcard h _ _ _ := by rw [Environment.hasToken, Environment.hasToken, h.1]
  surround h same _ := ⟨h.1, h.2.1, congrArg some same⟩
  withWindow h _ _ := h
  defined h _ _ _ _ := ⟨h.1, by rw [h.2.1], h.2.2⟩

/-- An expression that looks at no window and does not spell a table has one value on rows that are
the same but for the name of the table. -/
theorem InMemory.evaluate_unname {e : Expr} (windowless : e.Windowless)
    (unqualified : e.Unqualified table) (env : Environment) {row other : Row}
    (same : row.unname table = other.unname table) :
    interpretation.evaluate e (env.surround row) = interpretation.evaluate e (env.surround other) :=
  (Accord.matches_evaluateLevels (A := .unname table) (fun _ _ => matches_step fun _ => trivial)
    e.depth e (env.surround row) (env.surround other) (windowless.and unqualified)
    ⟨rfl, rfl, congrArg some same⟩).1

/-! ## Pages -/

/-- A page that takes as many items as there are takes all of them. -/
theorem Pagination.apply_of_length_le {α : Type} {n : Nat} {items : List α}
    (whole : items.length ≤ n) : (Pagination.mk none (some n)).apply items = items :=
  List.take_of_length_le whole

theorem Pagination.ofValue_integer {m : Int64} (counts : 1 ≤ m.toInt) :
    ofValue (.integer m) = .ok ⟨none, some m.toInt.toNat⟩ := by
  have notNegative : ¬ m.toInt < 0 := by omega
  have notZero : m.toInt ≠ 0 := by omega
  simp only [ofValue, count, if_neg notNegative, if_neg notZero]
  rfl

namespace Relation

/-- Of items that are seen in some way those are kept that the test holds of so seen. -/
theorem keep_map {α β : Type} (test : β → Result Bool) (see : α → β) (list : List α) :
    keep test (list.map see) = (keep (fun item => test (see item)) list).map (List.map see) := by
  induction list with
  | nil => rfl
  | cons item rest ih =>
    rw [List.map_cons, keep, keep, ih]
    cases test (see item) with
    | error e => rfl
    | ok kept =>
      cases keep (fun item => test (see item)) rest with
      | error e => rfl
      | ok others => cases kept <;> rfl

end Relation

namespace Expr

/-- A source under a condition. -/
def filtered (condition source : Expr) : Expr :=
  .list [.symbol "$where", condition, source]

/-- The first rows of a source. -/
def page (m : Int64) (source : Expr) : Expr :=
  .list [.symbol "$limit", .literal (.integer m), source]

/-- A table by its name. -/
def ofTable (name : String) : Expr :=
  .symbol (tableToken ++ name)

end Expr

namespace InMemory

variable {env : Environment} {records : List Value} {m : Int64}

/-- A condition keeps rows of its source. -/
theorem evaluateIn_filtered {source : Expr} {rows : List Row}
    (sourced : Relation.sourceRows interpretation.evaluate source env = .ok rows)
    (condition : Expr) :
    evaluateIn env (.filtered condition source)
      = (Relation.keep (Relation.holds interpretation.evaluate condition env) rows).map .rows := by
  refine Eq.trans (evaluate_call .filterRows rfl _ _) ?_
  simp only [Relation.filterRows, Relation.clauseOperands, sourced, bind, Except.bind, pure,
    Except.pure]
  rfl

/-- A page as long as its source is the source, as rows or as an array. -/
theorem evaluate_page {source : Expr} {v : Value} {rows : List Row} (counts : 1 ≤ m.toInt)
    (value : interpretation.evaluate source env = .ok v) (shown : v.toRows? "" = some rows)
    (present : v ≠ .null) (whole : (rows.length : Int) ≤ m.toInt) :
    interpretation.evaluate (.page m source) env = .ok v := by
  have count : interpretation.evaluate (.literal (.integer m)) env = .ok (.integer m) := rfl
  refine Eq.trans (evaluate_call .limit rfl _ _) ?_
  simp only [Relation.limit, Relation.clauseOperands, count, Pagination.ofValue_integer counts,
    value, bind, Except.bind]
  cases v with
  | null => exact absurd rfl present
  | array items =>
    obtain rfl := Option.some.inj shown
    rw [List.length_map] at whole
    have all : items.length ≤ m.toInt.toNat := by omega
    simp only [Pagination.apply_of_length_le all]
    rfl
  | rows list =>
    obtain rfl := Option.some.inj shown
    have all : list.length ≤ m.toInt.toNat := by omega
    simp only [Value.toRows?, Pagination.apply_of_length_le all]
    rfl
  | _ => cases shown

section Sources

variable (bound : env.bindings.bound? tableToken table = some (.array records))
  (split : env.splitSymbol? (tableToken ++ table) = some (tableToken, table))

include bound split

/-- A table has the records that are bound to it. -/
theorem evaluateIn_ofTable : evaluateIn env (.ofTable table) = .ok (.array records) := by
  have noAlias : ∀ other, tableToken ≠ aliasToken other := fun other same =>
    nomatch (aliasOfToken?_eq_some_iff.2 same : aliasOfToken? tableToken = some other)
  rw [Expr.ofTable, evaluateIn_symbol env split, resolve_of_no_alias noAlias,
    Environment.binding?_eq, bound]
  rfl

/-- The rows of a table go by its name. -/
theorem sourceRows_ofTable :
    Relation.sourceRows interpretation.evaluate (.ofTable table) env
      = .ok (records.map (Row.single table)) := by
  have named : Relation.sourceAlias (.ofTable table) = table := by
    rw [Relation.sourceAlias, Expr.ofTable, Relation.sourceAlias?, stripStart?_eq_some_iff.2 rfl]
    rfl
  have value : interpretation.evaluate (.ofTable table) env = .ok (.array records) :=
    evaluateIn_ofTable bound split
  rw [Relation.sourceRows, value, named]
  rfl

/-- A table under no name. -/
theorem sourceRows_unnamed :
    Relation.sourceRows interpretation.evaluate
        (.list [.symbol "$as", .symbol "", .ofTable table]) env
      = .ok (records.map (Row.single "")) := by
  have value : interpretation.evaluate (.ofTable table) env = .ok (.array records) :=
    evaluateIn_ofTable bound split
  have renamed : interpretation.evaluate (.list [.symbol "$as", .symbol "", .ofTable table]) env
      = .ok (.rows (records.map (Row.single ""))) :=
    evaluateIn_aliased rfl value
  exact Relation.sourceRows_of_rows renamed

/-- A stage before the page keeps the name of the table. -/
theorem evaluate_from :
    interpretation.evaluate (.list [.symbol "$from", .ofTable table]) env
      = .ok (.rows (records.map (Row.single table))) := by
  refine Eq.trans (evaluate_call .source rfl _ _) ?_
  rw [Relation.source, sourceRows_ofTable bound split]
  rfl

variable (counts : 1 ≤ m.toInt) (whole : (records.length : Int) ≤ m.toInt)

include counts whole

/-- A page of a table is an array, so its rows have no name. -/
theorem sourceRows_page :
    Relation.sourceRows interpretation.evaluate (.page m (.ofTable table)) env
      = .ok (records.map (Row.single "")) := by
  have paged : interpretation.evaluate (.page m (.ofTable table)) env = .ok (.array records) := by
    refine evaluate_page counts (evaluateIn_ofTable bound split) rfl nofun ?_
    rwa [List.length_map]
  rw [Relation.sourceRows, paged]
  rfl

/-- A page of the rows of a table has them under its name. -/
theorem sourceRows_page_from :
    Relation.sourceRows interpretation.evaluate
        (.page m (.list [.symbol "$from", .ofTable table])) env
      = .ok (records.map (Row.single table)) := by
  refine Relation.sourceRows_of_rows (evaluate_page counts (evaluate_from bound split) rfl nofun ?_)
  rwa [List.length_map]

end Sources

/-- A condition that looks at no window and does not spell a table keeps the same records with the
name of the table and without it. -/
theorem keep_unname {condition : Expr} (windowless : condition.Windowless)
    (unqualified : condition.Unqualified table) (env : Environment) (records : List Value) :
    ((Relation.keep (Relation.holds interpretation.evaluate condition env)
        (records.map (Row.single ""))).map .rows).map Value.materialize
      = ((Relation.keep (Relation.holds interpretation.evaluate condition env)
        (records.map (Row.single table))).map .rows).map Value.materialize := by
  have alike : ∀ record, (Row.single "" record).unname table
      = (Row.single table record).unname table := by
    intro record
    simp [Row.single, Row.unname, Row.unnameTables]
  have tests : ∀ record,
      Relation.holds interpretation.evaluate condition env (Row.single "" record)
        = Relation.holds interpretation.evaluate condition env (Row.single table record) := by
    intro record
    rw [Relation.holds, Relation.holds, evaluate_unname windowless unqualified env (alike record)]
  simp only [Relation.keep_map, tests]
  cases Relation.keep (fun record => Relation.holds interpretation.evaluate condition env
      (Row.single table record)) records with
  | error e => rfl
  | ok kept =>
    simp only [Except.map, Value.materialize, List.map_map]
    rfl

/-- Expressions whose sources declare the same declare the same. -/
theorem environment_filtered {source other : Expr}
    (same : ∀ tokens, Environment.declareIn tokens source = Environment.declareIn tokens other)
    (context : Context) (condition : Expr) :
    environment context (.filtered condition source)
      = environment context (.filtered condition other) := by
  have declared : ∀ tokens source, Environment.declareIn tokens (.filtered condition source)
      = Environment.declareIn (Environment.declareIn tokens condition) source :=
    fun tokens _ =>
      Environment.declareIn_call (show Operator.filterRows ≠ .aliased by decide) tokens _
  rw [environment, environment, Environment.declareTables, Environment.declareTables, declared,
    declared, same]

/-- Behind a page, a stage or no name at all a source declares what it declares. -/
theorem declareIn_page (tokens : List String) (source : Expr) :
    Environment.declareIn tokens (.page m source) = Environment.declareIn tokens source :=
  Environment.declareIn_call (show Operator.limit ≠ .aliased by decide) tokens _

theorem declareIn_from (tokens : List String) (source : Expr) :
    Environment.declareIn tokens (.list [.symbol "$from", source])
      = Environment.declareIn tokens source :=
  Environment.declareIn_call (show Operator.source ≠ .aliased by decide) tokens _

theorem declareIn_unnamed (tokens : List String) (source : Expr) :
    Environment.declareIn tokens (.list [.symbol "$as", .symbol "", source])
      = Environment.declareIn tokens source := by
  rfl

/-- A condition behind a page that cuts nothing is tested on the records of the table under no name.
That is no matter if it looks at no window and does not spell the table, nor if the page is taken of
rows instead. -/
theorem where_of_page {context : Context} (condition : Expr)
    (bound : context.bound? tableToken table = some (.array records))
    (split : (environment context (.filtered condition (.ofTable table))).splitSymbol?
      (tableToken ++ table) = some (tableToken, table))
    (counts : 1 ≤ m.toInt) (whole : (records.length : Int) ≤ m.toInt) :
    evaluate (.filtered condition (.page m (.ofTable table))) context
        = evaluate (.filtered condition (.list [.symbol "$as", .symbol "", .ofTable table]))
          context ∧
      (condition.Windowless → condition.Unqualified table →
        evaluate (.filtered condition (.page m (.ofTable table))) context
          = evaluate (.filtered condition (.ofTable table)) context) ∧
      evaluate (.filtered condition (.page m (.list [.symbol "$from", .ofTable table]))) context
        = evaluate (.filtered condition (.ofTable table)) context := by
  -- all four are evaluated in one environment
  have paged : environment context (.filtered condition (.page m (.ofTable table)))
      = environment context (.filtered condition (.ofTable table)) :=
    environment_filtered (fun _ => declareIn_page ..) context condition
  have unnamed : environment context
        (.filtered condition (.list [.symbol "$as", .symbol "", .ofTable table]))
      = environment context (.filtered condition (.ofTable table)) :=
    environment_filtered (fun _ => declareIn_unnamed ..) context condition
  have staged : environment context
        (.filtered condition (.page m (.list [.symbol "$from", .ofTable table])))
      = environment context (.filtered condition (.ofTable table)) :=
    environment_filtered (fun _ => (declareIn_page ..).trans (declareIn_from ..)) context condition
  rw [evaluate, evaluate, evaluate, evaluate, paged, unnamed, staged,
    evaluateIn_filtered (sourceRows_page bound split counts whole),
    evaluateIn_filtered (sourceRows_unnamed bound split),
    evaluateIn_filtered (sourceRows_ofTable bound split),
    evaluateIn_filtered (sourceRows_page_from bound split counts whole)]
  exact ⟨rfl, fun windowless unqualified => keep_unname windowless unqualified _ records, rfl⟩

/-- A condition that asks for rows of another table, behind a page of one row. -/
theorem where_of_page_of_counted :
    evaluate (.filtered (.list [.symbol "_size",
          .filtered (.list [.symbol "=", .symbol "b:y", .literal (.integer 5)]) (.ofTable "b")])
        (.page 1 (.ofTable "a")))
      [("@", [("a", .array [.object [("x", .integer 1)]]),
        ("b", .array [.object [("y", .integer 0)], .object [("y", .integer 5)]])])]
      = .ok (.array [.object [("x", .integer 1)]]) := by
  have symbol : ∀ s, (Expr.symbol s).Windowless := fun s => Expr.Everywhere.symbol_iff.2 nofun
  have compared : (Expr.list [.symbol "=", .symbol "b:y", .literal (.integer 5)]).Windowless :=
    Expr.windowless_call .equal rfl (List.forall_mem_cons.2 ⟨symbol _,
      List.forall_mem_singleton.2 (Expr.Everywhere.literal_iff.2 nofun)⟩)
  have kept : (Expr.filtered (.list [.symbol "=", .symbol "b:y", .literal (.integer 5)])
      (.ofTable "b")).Windowless :=
    Expr.windowless_call .filterRows rfl (List.forall_mem_cons.2 ⟨compared,
      List.forall_mem_singleton.2 (symbol _)⟩)
  refine ((where_of_page (m := 1) _ rfl rfl (by decide) (by decide)).2.1
    (Expr.windowless_call .size rfl (List.forall_mem_singleton.2 kept)) ?_).trans rfl
  simp [Expr.Unqualified, Expr.filtered, Expr.ofTable, Expr.asName?, stripStart?, aliasToken,
    tableToken, Operator.name]

/-- Behind a page a condition on a field of the table keeps nothing. -/
theorem page_loses_name :
    Expr.Windowless (.list [.symbol "=", .symbol "T:x", .literal (.integer 1)]) ∧
      evaluate (.filtered (.list [.symbol "=", .symbol "T:x", .literal (.integer 1)])
          (.page 1 (.ofTable "T")))
        [("@", [("T", .array [.object [("x", .integer 1)]])])] = .ok (.array []) ∧
      evaluate (.filtered (.list [.symbol "=", .symbol "T:x", .literal (.integer 1)])
          (.ofTable "T"))
        [("@", [("T", .array [.object [("x", .integer 1)]])])]
        = .ok (.array [.object [("x", .integer 1)]]) := by
  exact ⟨Expr.windowless_call .equal rfl (List.forall_mem_cons.2
    ⟨Expr.Everywhere.symbol_iff.2 nofun, List.forall_mem_singleton.2
      (Expr.Everywhere.literal_iff.2 nofun)⟩), rfl, rfl⟩

end InMemory

end QueryForms
