import QueryForms.Proofs.InMemory.Relations
import QueryForms.Proofs.Sql.Agreement

/-!
# Levels of evaluation

Evaluation is defined by levels, as many as an expression is deep. `Interpretation.Local` says that
operators evaluate only their operands and parts of them, which both interpretations do. Then more
levels than there are change nothing (`Local.evaluateLevels_eq`), and evaluation is the function that
evaluates one level and leaves the rest to itself (`Local.evaluate_eq_step`).
-/

namespace QueryForms

/-! ## Depth -/

theorem Expr.depth_pos (e : Expr) : 0 < e.depth := by
  cases e <;> simp [depth]

theorem Expr.depth_le_depthOfList {items : List Expr} {e : Expr} (h : e ∈ items) :
    e.depth ≤ depthOfList items := by
  induction items with
  | nil => exact absurd h List.not_mem_nil
  | cons first rest ih =>
    rw [depthOfList]
    rcases List.mem_cons.1 h with rfl | h
    · exact Nat.le_max_left ..
    · exact Nat.le_trans (ih h) (Nat.le_max_right ..)

theorem Expr.depth_le_depthOfFields {fields : List (String × Expr)} {field : String × Expr}
    (h : field ∈ fields) : field.2.depth ≤ depthOfFields fields := by
  induction fields with
  | nil => exact absurd h List.not_mem_nil
  | cons first rest ih =>
    rw [depthOfFields]
    rcases List.mem_cons.1 h with rfl | h
    · exact Nat.le_max_left ..
    · exact Nat.le_trans (ih h) (Nat.le_max_right ..)

/-- What stands in an expression is less deep. -/
theorem Expr.depth_lt_of_mem_parts {e part : Expr} (h : part ∈ e.parts) : part.depth < e.depth := by
  cases e with
  | list items => exact Nat.lt_succ_of_le (depth_le_depthOfList h)
  | record fields =>
    obtain ⟨field, hf, rfl⟩ := List.mem_map.1 h
    exact Nat.lt_succ_of_le (depth_le_depthOfFields hf)
  | _ => exact absurd h List.not_mem_nil

/-- Nothing in an expression is deeper than it is. -/
theorem Expr.everywhere_depth_le {e : Expr} {d : Nat} (h : e.depth ≤ d) :
    e.Everywhere fun part => part.depth ≤ d :=
  ⟨h, fun part hp =>
    everywhere_depth_le (Nat.le_of_lt (Nat.lt_of_lt_of_le (depth_lt_of_mem_parts hp) h))⟩
termination_by e.depth
decreasing_by exact depth_lt_of_mem_parts hp

/-- What an expression inherits from its parts, all expressions have. -/
@[elab_as_elim]
theorem Expr.induction_parts {motive : Expr → Prop}
    (step : ∀ e, (∀ part ∈ e.parts, motive part) → motive e) (e : Expr) : motive e :=
  step e fun part _ => induction_parts step part
termination_by e.depth
decreasing_by exact depth_lt_of_mem_parts ‹_›

/-! ## Levels -/

/-- Expressions up to a depth, and all values. -/
def Universe.upTo (depth : Nat) : Universe where
  expr e := e.depth ≤ depth
  value _ := True
  plain _ _ := trivial
  literal v _ := .of_forall (fun _ => trivial) v
  quoted _ _ v _ := .of_forall (fun _ => trivial) v
  identifier e h := Nat.le_trans e.depth_pos h

namespace Interpretation

variable {i : Interpretation}

/-- One level of a call is what its operator gives. -/
theorem step_eq_apply {eval : Evaluator} {e : Expr} {op : Operator} (calls : e.operator? = some op)
    (env : Environment) : i.step eval e env = i.apply eval op e.operands env := by
  cases e with
  | list items =>
    cases items with
    | nil => cases calls
    | cons head operands =>
      obtain ⟨name, named, found⟩ := Option.bind_eq_some_iff.1 calls
      have asName : head.asName? = some name := named
      simp [step, call, asName, found, Expr.operands]
  | _ => cases calls

/-- Operators evaluate their operands and parts of them, and symbols nothing. -/
structure Local (i : Interpretation) : Prop where
  resolves : ∀ depth, (Accord.same (.upTo depth)).Resolves i
  agreesBy : ∀ depth op h, i.handler op = some h → (Accord.same (.upTo depth)).AgreesBy h

/-- One level is the same for evaluators that agree on expressions that are less deep. -/
theorem Local.step_congr (h : i.Local) {eval other : Evaluator} {e : Expr} (env : Environment)
    (same : ∀ part env, part.depth < e.depth → eval part env = other part env) :
    i.step eval e env = i.step other e env := by
  have good : env.Holds fun _ => True := .of_forall (fun _ => trivial) env
  have alike : (Accord.same (.upTo (e.depth - 1))).Matches eval other := by
    rintro part a _ hp ⟨rfl, -⟩
    have less : part.depth ≤ e.depth - 1 := hp.here
    have := e.depth_pos
    exact ⟨same part a (by omega), fun v _ => .of_forall (fun _ => trivial) v⟩
  have inside : ∀ part ∈ e.parts,
      part.Everywhere (Accord.same (.upTo (e.depth - 1))).expr := by
    intro part hp
    have := Expr.depth_lt_of_mem_parts hp
    exact Expr.everywhere_depth_le (by omega)
  cases e with
  | symbol s => rfl
  | _ =>
    exact Accord.step_eq (h.resolves _) alike (fun op _ _ => h.agreesBy _ op _)
      (fun _ eq => by cases eq) inside ⟨rfl, good⟩

/-- An expression has the same value at all levels that it reaches. -/
theorem Local.evaluateLevels_congr (h : i.Local) {levels more : Nat} {e : Expr}
    (env : Environment) (enough : e.depth ≤ levels) (still : e.depth ≤ more) :
    i.evaluateLevels levels e env = i.evaluateLevels more e env := by
  induction levels generalizing more e env with
  | zero => exact absurd e.depth_pos (by omega)
  | succ levels ih =>
    cases more with
    | zero => exact absurd e.depth_pos (by omega)
    | succ more => exact h.step_congr env fun part env less => ih env (by omega) (by omega)

/-- Levels below the last one change nothing. -/
theorem Local.evaluateLevels_eq (h : i.Local) {levels : Nat} {e : Expr} (env : Environment)
    (enough : e.depth ≤ levels) : i.evaluateLevels levels e env = i.evaluate e env :=
  h.evaluateLevels_congr env enough (Nat.le_refl _)

/-- Evaluation evaluates one level and leaves what is below to itself. -/
theorem Local.evaluate_eq_step (h : i.Local) (e : Expr) (env : Environment) :
    i.evaluate e env = i.step i.evaluate e env := by
  obtain ⟨levels, deep⟩ : ∃ levels, e.depth = levels + 1 :=
    ⟨e.depth - 1, by have := e.depth_pos; omega⟩
  rw [evaluate, deep, evaluateLevels]
  exact h.step_congr env fun part env less => h.evaluateLevels_eq env (by omega)

end Interpretation

/-- In memory operators evaluate only their operands and parts of them. -/
theorem InMemory.local_interpretation : interpretation.Local where
  resolves _ := resolves
  agreesBy _ op _ hh := (agreesBy (fun _ => trivial) (Accord.shows_same op) hh).1

/-- A call whose operator works on the operands themselves. -/
theorem InMemory.evaluate_call (op : Operator)
    {apply : Evaluator → List Expr → Environment → Result Value}
    (known : handler op = some (.onOperands apply)) (operands : List Expr) (env : Environment) :
    interpretation.evaluate (.list (.symbol op.name :: operands)) env
      = apply interpretation.evaluate operands env := by
  have calls : (Expr.list (.symbol op.name :: operands)).operator? = some op :=
    Operator.ofName?_name op
  have other : op ≠ .quote := by
    rintro rfl
    cases known
  rw [local_interpretation.evaluate_eq_step, Interpretation.step_eq_apply calls,
    Interpretation.apply, if_neg other]
  have handled : interpretation.handler op = some (.onOperands apply) := known
  rw [handled]
  rfl

/-- In statements operators evaluate only their operands and parts of them. -/
theorem Sql.local_interpretation : interpretation.Local where
  resolves _ := resolves
  agreesBy _ op _ hh := agreesBy (Accord.shows_same op) hh

end QueryForms
