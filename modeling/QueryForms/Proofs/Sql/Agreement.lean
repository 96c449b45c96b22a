import QueryForms.Proofs.Accord

/-!
# Compiling, run twice

In environments that belong together every operator of statements puts the same fragments together:
it evaluates its operands or parts of them, in the environment that it is given or in that of a
window call, and the rest is text. `Sql.agreesBy` gathers this for every operator. That what is
compiled is good is no part of it: `Invariant.Composes` says what that takes.
-/

namespace QueryForms

variable {A : Accord}

namespace Accord

/-- After a first step that is the same in both runs, the same second steps. -/
theorem bind_eq {α β : Type} {r : Result α} {P : α → Prop} {f g : α → Result β} (first : Yields r P)
    (second : ∀ a, P a → f a = g a) : (r >>= f) = r >>= g := by
  cases r with
  | error e => rfl
  | ok a => exact second a (first a rfl)

section Parts

variable {eval other : Evaluator} {a b : Environment} (same : A.Matches eval other)
  (related : A.related a b)

include same related

theorem render {e : Expr} (he : e.Everywhere A.expr) :
    SqlClause.render eval a e = SqlClause.render other b e := by
  rw [SqlClause.render, SqlClause.render, (same e a b he related).1]

theorem source {e : Expr} (he : e.Everywhere A.expr) :
    SqlClause.source eval a e = SqlClause.source other b e := by
  rw [SqlClause.source, SqlClause.source, (same e a b he related).1]

theorem renderAll {exprs : List Expr} (he : ∀ e ∈ exprs, e.Everywhere A.expr) :
    exprs.mapM (SqlClause.render eval a) = exprs.mapM (SqlClause.render other b) :=
  mapM_congr fun e hm => render same related (he e hm)

theorem orderBy {specs : List OrderSpec} (hs : ∀ spec ∈ specs, spec.expr.Everywhere A.expr) :
    SqlClause.orderBy eval a specs = SqlClause.orderBy other b specs := by
  have keys : specs.mapM (SqlClause.orderKey eval a) = specs.mapM (SqlClause.orderKey other b) :=
    mapM_congr fun spec hm => by
      rw [SqlClause.orderKey, SqlClause.orderKey, render same related (hs spec hm)]
  rw [SqlClause.orderBy, SqlClause.orderBy, keys]

theorem selectField {field : Expr} (he : field.Everywhere A.expr) :
    SqlClause.selectField eval a field = SqlClause.selectField other b field := by
  rw [SqlClause.selectField, SqlClause.selectField, render same related he]

theorem selectFields {fieldList : Expr} (he : fieldList.Everywhere A.expr) :
    SqlClause.selectFields eval a fieldList = SqlClause.selectFields other b fieldList := by
  have columns : fieldList.itemsOrNone.mapM (SqlClause.selectField eval a)
      = fieldList.itemsOrNone.mapM (SqlClause.selectField other b) :=
    mapM_congr fun field hf => selectField same related (he.itemsOrNone hf)
  rw [SqlClause.selectFields, SqlClause.selectFields, columns]

end Parts

/-! ## Clauses -/

theorem agreesBy_sqlFilter : A.AgreesBy (.onOperands SqlScalar.filter) := by
  intro eval other operands a b same he related
  rw [SqlScalar.filter.eq_def, SqlScalar.filter.eq_def]
  split
  · next field condition =>
    rw [(same condition a b (he condition (by simp)) related).1,
      (same field a b (he field (by simp)) related).1]
  · rfl

theorem agreesBy_fromTable : A.AgreesBy (.onOperands SqlClause.fromTable) := by
  intro eval other operands a b same he related
  rw [SqlClause.fromTable.eq_def, SqlClause.fromTable.eq_def]
  split
  · next table => rw [render same related (he table (by simp))]
  · rfl

theorem agreesBy_aliased : A.AgreesBy (.onOperands SqlClause.aliased) := by
  intro eval other operands a b same he related
  refine bind_eq (Relation.yields_clauseOperands he) fun pair hp => ?_
  simp only [render same related hp.2]

theorem agreesBy_join (keyword : String) : A.AgreesBy (.onOperands (SqlClause.join keyword)) := by
  intro eval other operands a b same he related
  rw [SqlClause.join.eq_def, SqlClause.join.eq_def]
  split
  · next right condition left =>
    rw [source same related (he left (by simp)), render same related (he right (by simp)),
      render same related (he condition (by simp))]
  · rfl

theorem agreesBy_filterRows (op keyword : String) :
    A.AgreesBy (.onOperands (SqlClause.filterRows op keyword)) := by
  intro eval other operands a b same he related
  refine bind_eq (Relation.yields_clauseOperands he) fun pair hp => ?_
  simp only [source same related hp.2, render same related hp.1]

theorem agreesBy_group : A.AgreesBy (.onOperands SqlClause.group) := by
  intro eval other operands a b same he related
  refine bind_eq (Relation.yields_clauseOperands he) fun pair hp => ?_
  simp only [source same related hp.2,
    renderAll same related fun key hk => hp.1.itemsOrNone hk]

theorem agreesBy_order : A.AgreesBy (.onOperands SqlClause.order) := by
  intro eval other operands a b same he related
  refine bind_eq (Relation.yields_clauseOperands he) fun pair hp => ?_
  refine bind_eq (OrderSpec.yields_parseList hp.1) fun specs hs => ?_
  simp only [source same related hp.2, orderBy same related hs]

theorem agreesBy_limit : A.AgreesBy (.onOperands SqlClause.limit) := by
  intro eval other operands a b same he related
  refine bind_eq (Relation.yields_clauseOperands he) fun pair hp => ?_
  simp only [(same pair.1 a b hp.1 related).1, source same related hp.2]

theorem agreesBy_union : A.AgreesBy (.onOperands SqlClause.union) := by
  intro eval other operands a b same he related
  have branches : operands.mapM (SqlClause.source eval a)
      = operands.mapM (SqlClause.source other b) :=
    mapM_congr fun e hm => source same related (he e hm)
  rw [SqlClause.union, SqlClause.union, branches]

theorem agreesBy_select : A.AgreesBy (.onOperands SqlClause.select) := by
  intro eval other operands a b same he related
  rw [SqlClause.select.eq_def, SqlClause.select.eq_def]
  split
  · next fieldList => rw [selectFields same related (he fieldList (by simp))]
  · next fieldList e =>
    rw [selectFields same related (he fieldList (by simp)), source same related (he e (by simp))]
  · rfl

theorem agreesBy_aggregate (name : String) :
    A.AgreesBy (.onOperands (SqlClause.aggregate name)) := by
  intro eval other operands a b same he related
  refine bind_eq (Aggregate.yields_oneOperand he) fun operand ho => ?_
  refine bind_eq (SqlClause.yields_conditional ho) fun ⟨field, condition⟩ hp => ?_
  dsimp only
  rw [selectField same related hp.1]
  refine bind_eq (.trivial _) fun f _ => ?_
  split
  · rfl
  · rw [render same related (hp.2 _ rfl)]

/-! ## Windows -/

theorem agreesBy_windowCall : A.AgreesBy (.onOperands SqlWindow.call) := by
  intro eval other operands a b same he related
  rw [SqlWindow.call.eq_def, SqlWindow.call.eq_def]
  split
  · rfl
  · next function rest =>
    have spec : ∀ e ∈ rest.head?, e.Everywhere A.expr :=
      fun e hm => he e (List.mem_cons_of_mem _ (List.mem_of_mem_head? hm))
    refine bind_eq (WindowSpec.yields_parse spec) fun w hw => ?_
    have called := render same (A.withWindow related (w := .compiling) rfl trivial)
      (he function (List.mem_cons_self ..))
    simp only [called, SqlWindow.partitionClause, renderAll same related hw.1,
      SqlWindow.orderClause, orderBy same related hw.2]

theorem agreesBy_windowFunction (seen : A.SameWindow) (op name : String) :
    A.AgreesBy (.onOperands (SqlWindow.windowFunction op name)) := by
  intro eval other operands a b same he related
  rw [SqlWindow.windowFunction, SqlWindow.windowFunction, (seen related).1,
    (same.evaluateAll related he).1]

end Accord

/-! ## The interpretation -/

namespace Sql

open Accord

/-- Every operator of statements does the same in environments that belong together. -/
theorem agreesBy {op : Operator} {h : Handler} (seen : A.Shows op) (hh : handler op = some h) :
    A.AgreesBy h := by
  simp only [handler, Option.orElse_eq_orElse, Option.orElse_eq_or] at hh
  rcases Option.or_eq_some_iff.1 hh with hh | ⟨-, hh⟩
  · exact agreesBy_plain hh
  · rcases Option.or_eq_some_iff.1 hh with hh | ⟨-, hh⟩
    · cases op <;> simp only [SqlScalar.handler, Option.some.injEq, reduceCtorEq] at hh <;> subst hh
      case filter => exact agreesBy_sqlFilter
      all_goals exact trivial
    · rcases Option.or_eq_some_iff.1 hh with hh | ⟨-, hh⟩
      · cases op <;> simp only [SqlClause.handler, Option.some.injEq, reduceCtorEq] at hh <;>
          subst hh
        case source => exact agreesBy_fromTable
        case aliased => exact agreesBy_aliased
        case join | leftJoin => exact agreesBy_join _
        case filterRows | having => exact agreesBy_filterRows _ _
        case group => exact agreesBy_group
        case order => exact agreesBy_order
        case limit => exact agreesBy_limit
        case union => exact agreesBy_union
        case select => exact agreesBy_select
        all_goals exact agreesBy_aggregate _
      · cases op <;> simp only [SqlWindow.handler, Option.some.injEq, reduceCtorEq] at hh <;>
          subst hh
        case windowed => exact agreesBy_windowCall
        all_goals exact agreesBy_windowFunction (seen rfl) _ _

/-- A symbol means the same in environments that belong together. -/
theorem resolves : A.Resolves interpretation := by
  intro a b s token name related here split
  have binding := A.binding related here split
  show resolve a token name = resolve b token name
  rw [resolve, resolve]
  split
  · rfl
  · split
    · next table =>
      rw [table] at binding
      simp only [Sql.table, binding]
    · rw [binding]

/-- One level of compiling matches if the levels below do, where what is compiled is good. -/
theorem matches_step
    (resolve : ∀ scope token name, A.invariant.env scope →
      Yields (resolve scope token name) A.Good)
    (keeps : ∀ op h, handler op = some h → A.invariant.KeepsBy op h) {eval other : Evaluator}
    (same : A.Matches eval other) :
    A.Matches (interpretation.step eval) (interpretation.step other) :=
  step resolves resolve (fun op h seen hh => ⟨agreesBy seen hh, keeps op h hh⟩) same

end Sql

end QueryForms
