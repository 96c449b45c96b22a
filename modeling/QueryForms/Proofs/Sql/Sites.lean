import QueryForms.Proofs.InMemory.Sites
import QueryForms.Sql.Interpretation

/-!
# Sites in statements

A statement has no rows, so all operators evaluate their operands in the environment that they are
given. Only a window call makes a window, for its function.
-/

namespace QueryForms

/-! ## What renders operands -/

namespace AgreeIn

variable {eval other : Evaluator} {env : Environment} (h : AgreeIn env.window eval other)

include h

theorem render : SqlClause.render eval env = SqlClause.render other env := by
  funext e
  rw [SqlClause.render, SqlClause.render, h.here]

theorem source : SqlClause.source eval env = SqlClause.source other env := by
  funext e
  rw [SqlClause.source, SqlClause.source, h.here]

theorem orderBy (specs : List OrderSpec) :
    SqlClause.orderBy eval env specs = SqlClause.orderBy other env specs := by
  have key : SqlClause.orderKey eval env = SqlClause.orderKey other env := by
    funext spec
    rw [SqlClause.orderKey, SqlClause.orderKey, h.render]
  rw [SqlClause.orderBy, SqlClause.orderBy, key]

theorem selectField : SqlClause.selectField eval env = SqlClause.selectField other env := by
  funext field
  rw [SqlClause.selectField, SqlClause.selectField, h.render]

theorem selectFields (fieldList : Expr) :
    SqlClause.selectFields eval env fieldList = SqlClause.selectFields other env fieldList := by
  rw [SqlClause.selectFields, SqlClause.selectFields, h.selectField]

theorem partitionClause (keys : List Expr) :
    SqlWindow.partitionClause eval env keys = SqlWindow.partitionClause other env keys := by
  rw [SqlWindow.partitionClause, SqlWindow.partitionClause, h.render]

theorem orderClause (specs : List OrderSpec) :
    SqlWindow.orderClause eval env specs = SqlWindow.orderClause other env specs := by
  rw [SqlWindow.orderClause, SqlWindow.orderClause, h.orderBy]

end AgreeIn

/-! ## Operators that hand their window on -/

theorem SqlScalar.handsOn {op : Operator} {h : Handler} (hh : handler op = some h) : h.HandsOn := by
  cases op <;> simp only [handler, Option.some.injEq, reduceCtorEq] at hh <;> subst hh
  case filter =>
    intro eval other operands env h
    simp only [filter, h.here]
  all_goals exact trivial

/-- Clauses and aggregates hand their window on. -/
theorem SqlClause.handsOn {op : Operator} {h : Handler} (hh : handler op = some h) : h.HandsOn := by
  cases op <;> simp only [handler, Option.some.injEq, reduceCtorEq] at hh <;> subst hh <;>
    intro eval other operands env h
  case source => simp only [fromTable, h.render]
  case aliased => simp only [aliased, h.render]
  case join | leftJoin => simp only [join, h.source, h.render]
  case filterRows | having => simp only [filterRows, h.source, h.render]
  case group => simp only [group, h.source, h.render]
  case order => simp only [order, h.source, h.orderBy]
  case limit => simp only [limit, h.here, h.source]
  case union => simp only [union, h.source]
  case select => simp only [select, h.selectFields, h.source]
  all_goals simp only [aggregate, h.selectField, h.render]

namespace SqlWindow

/-- Window functions hand their window on, but a window call does not. -/
theorem handsOn {op : Operator} {h : Handler} (calls : op ≠ .windowed)
    (hh : handler op = some h) : h.HandsOn := by
  cases op <;> simp only [handler, Option.some.injEq, reduceCtorEq] at hh <;> subst hh
  case windowed => exact absurd rfl calls
  all_goals
    intro eval other operands env h
    simp only [windowFunction, h.evaluateAll]

/-! ## Window calls -/

/-- A window call that evaluates its function by the window. -/
def callBy (inside : WindowState → Evaluator) (eval : Evaluator) (operands : List Expr)
    (env : Environment) : Result Value :=
  match operands with
  | [] => fault .overOperands
  | function :: rest => do
    let spec ← WindowSpec.parse rest.head?
    let call ← SqlClause.render (inside .compiling) (env.withWindow .compiling) function
    let partition ← partitionClause eval env spec.partition
    let order ← orderClause eval env spec.order
    let clauses := Fragment.join " " (partition ++ order ++ frameClause spec)
    return .fragment (((call.pushText " OVER (").append clauses).pushText ")")

end SqlWindow

namespace Sql

/-- In a statement the function of a window call stands in its window. -/
def sites : Sites interpretation where
  accepts
    | .compiling => true
    | _ => false
  moves evaluators
    | .windowed => some (SqlWindow.callBy fun window => evaluators (some window))
    | _ => none

theorem call_eq_callBy {eval : Evaluator} {evaluators : Site → Evaluator}
    (agree : ∀ e env, eval e env = evaluators (sites.ofEnvironment env) e env)
    (operands : List Expr) (env : Environment) :
    SqlWindow.call eval operands env = SqlWindow.callBy (fun window => evaluators (some window))
      (evaluators (sites.ofEnvironment env)) operands env := by
  have here := Sites.agreeIn agree env
  have function : SqlClause.render eval (env.withWindow .compiling)
      = SqlClause.render (evaluators (some .compiling)) (env.withWindow .compiling) :=
    (Sites.agreeIn agree (env.withWindow .compiling)).render
  have alike : SqlWindow.call eval operands env
      = SqlWindow.callBy (fun _ => eval) eval operands env := rfl
  rw [alike]
  simp only [SqlWindow.callBy, here.partitionClause, here.orderClause, function]

/-- A window function is written by its name. -/
theorem apply_windowFunction {op : Operator} (guarded : op.isWindowFunction = true) :
    ∃ name, ∀ eval operands env, interpretation.apply eval op operands env
      = SqlWindow.windowFunction op.name name eval operands env := by
  cases op <;> cases guarded
  all_goals exact ⟨_, fun _ _ _ => rfl⟩

/-- In its window a window function is not refused, unless one is inside an operand. -/
theorem windowFunction_ne_misuse {operands : List Expr} {eval : Evaluator} {error : WindowFault}
    (clean : ∀ e ∈ operands, ∀ inner, eval e inner ≠ .error (.windowMisuse error))
    (op name : String) (env : Environment) :
    SqlWindow.windowFunction op name eval operands (env.withWindow .compiling)
      ≠ .error (.windowMisuse error) := by
  have written : ∀ v : Value, v.toSql ≠ .error (.windowMisuse error) := by
    intro v
    cases v <;> nofun
  refine bind_ne_error (mapM_ne_error fun e he => clean e he _) fun values => ?_
  exact bind_ne_error (bind_ne_error (mapM_ne_error fun v _ => written v) nofun) nofun

theorem sites_lawful : sites.Lawful where
  refuses op eval operands env guarded outside := by
    obtain ⟨name, applied⟩ := apply_windowFunction guarded
    rw [applied, SqlWindow.windowFunction]
    split
    · next compiling =>
      rw [Sites.ofEnvironment, compiling] at outside
      cases outside
    · rfl
  admits op eval operands env window guarded accepted clean := by
    obtain ⟨name, applied⟩ := apply_windowFunction guarded
    cases window <;> cases accepted
    rw [applied]
    exact windowFunction_ne_misuse clean op.name name env
  still evaluators op guarded := by
    cases op <;> cases guarded <;> rfl
  handsOn evaluators op h stays hh := by
    have other : op ≠ .windowed := by
      rintro rfl
      cases stays
    have known : handler op = some h := hh
    simp only [handler, Option.orElse_eq_orElse, Option.orElse_eq_or,
      Option.or_eq_some_iff] at known
    rcases known with hh | ⟨-, hh | ⟨-, hh | ⟨-, hh⟩⟩⟩
    · exact PlainOperators.handsOn hh
    · exact SqlScalar.handsOn hh
    · exact SqlClause.handsOn hh
    · exact SqlWindow.handsOn other hh
  moved evaluators op apply eval operands env moves agree := by
    cases op <;> cases moves
    exact call_eq_callBy agree operands env

/-- Compiling goes by the site. -/
theorem evaluateIn_eq_evaluateAt (e : Expr) (env : Environment) :
    evaluateIn env e = sites.evaluateAt id e.depth (sites.ofEnvironment env) e env :=
  sites_lawful.evaluateLevels_eq e.depth e env

end Sql

/-- Both interpretations go by the site, which is none at first and is handed on unchanged: anywhere
in the function of a window call a window function is accepted, and anywhere else it is refused. -/
theorem windowFunctions_by_site (e : Expr) (context : Context) (style : PlaceholderStyle) :
    InMemory.evaluate e context = (InMemory.sites.evaluateAt id e.depth none e
        (InMemory.environment context e)).map Value.materialize ∧
      Sql.compile style e context = (Sql.sites.evaluateAt id e.depth none e
        ((Environment.ofContext context).declareTables e)).map (Sql.Compiled.ofValue style) ∧
      InMemory.sites.Decides ∧ Sql.sites.Decides :=
  ⟨congrArg (Except.map _) (InMemory.evaluateIn_eq_evaluateAt e _),
    congrArg (Except.map _) (Sql.evaluateIn_eq_evaluateAt e _),
    InMemory.sites_lawful.decides, Sql.sites_lawful.decides⟩

namespace Expr

/-- A window call of a sum of the number of the row and one. -/
def overSum : Expr :=
  .list [.symbol "$over",
    .list [.symbol "+", .list [.symbol "$row_number"], .literal (.integer 1)], .record []]

/-- A projection with that window call. -/
def selectOverSum : Expr :=
  .list [.symbol "$select", .list [.list [.symbol "$as", .symbol "x", overSum]],
    .quoted [.object [("a", .integer 1)]]]

end Expr

/-- In a sum that is the function of a window call a window function is accepted, where it is
refused if only the function itself stands at the site. -/
theorem windowFunction_of_sum_accepted :
    Sql.compile .dollar .overSum []
        = .ok (.query "(ROW_NUMBER() + $1) OVER ()" [.integer 1]) ∧
      Sql.sites.evaluateAt (fun _ => none) Expr.overSum.depth none .overSum
          ((Environment.ofContext []).declareTables .overSum) = .error Operator.rowNumber.misuse ∧
      InMemory.evaluate .selectOverSum [] = .ok (.array [.object [("x", .integer 2)]]) ∧
      InMemory.sites.evaluateAt (fun _ => none) Expr.selectOverSum.depth none .selectOverSum
          (InMemory.environment [] .selectOverSum) = .error Operator.rowNumber.misuse := by
  refine ⟨rfl, rfl, rfl, rfl⟩

end QueryForms
