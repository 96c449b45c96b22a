import QueryForms.Proofs.InMemory.Relations
import QueryForms.Proofs.Sql.Agreement
import QueryForms.Proofs.Sql.Placeholder

/-!
# The values of one interpretation never occur in the other

Relations exist in memory, columns and fragments in statements. `watched_separation`: of all the
values that evaluation meets on its way, whatever the expression and the subexpression, none in
memory contains a part of a statement, and none in a statement contains a relation, however deep
inside arrays, records, rows, groups and the parameters of fragments one looks.

What evaluation meets is observed by a watcher: `Interpretation.watched` hands it the value of each
subexpression and goes on with what it gives back. A watcher that passes all good values changes no
outcome, whatever it does with others, so no others are there.
-/

namespace QueryForms

/-! ## Depth -/

/-- The values inside a value, among them the parameters of a fragment. -/
def Value.contents : Value → List Value
  | .fragment f => f.params
  | v => v.parts

/-- A value has a property, and so have the values inside it at any depth. -/
inductive Value.Throughout (P : Value → Prop) : Value → Prop where
  | intro {v : Value} (here : P v) (inside : ∀ part ∈ v.contents, Value.Throughout P part) :
    Value.Throughout P v

theorem Value.Throughout.here {P : Value → Prop} {v : Value} (h : v.Throughout P) : P v := by
  cases h; assumption

/-- What has a property all the way down, and in the parameters of each fragment at any depth. -/
theorem Value.Everywhere.throughout {P Q : Value → Prop} {v : Value} (h : v.Everywhere Q)
    (here : ∀ v, Q v → P v)
    (params : ∀ f, Q (.fragment f) → ∀ param ∈ f.params, param.Throughout P) :
    v.Throughout P := by
  induction h with
  | @intro v good _ ih =>
    refine ⟨here v good, ?_⟩
    cases v with
    | fragment f => exact params f good
    | _ => exact ih

/-- Whether a value is a relation. -/
def Value.isRelation : Value → Bool
  | .rows _ => true
  | _ => false

/-! ## Watched evaluation -/

namespace Interpretation

/-- Evaluate some levels, and hand each value to a watcher. -/
def watchedLevels (i : Interpretation) (watch : Value → Result Value) :
    Nat → Expr → Environment → Result Value
  | 0, _, _ => .ok .null
  | levels + 1, e, env => i.step (i.watchedLevels watch levels) e env >>= watch

/-- Evaluate an expression, and hand the value of each subexpression to a watcher. -/
def watched (i : Interpretation) (watch : Value → Result Value) : Evaluator :=
  fun e env => i.watchedLevels watch e.depth e env

/-- The watcher that stops at certain values. -/
def refusing (bad : Value → Bool) (v : Value) : Result Value :=
  if bad v then .error (.unknownOperator "refused") else .ok v

theorem refusing_eq_ok {bad : Value → Bool} {v : Value} (h : bad v = false) :
    refusing bad v = .ok v := by
  simp [refusing, h]

end Interpretation

/-- A watcher that passes good values changes no outcome where only good values are met. -/
theorem Accord.matches_watched {A : Accord} {i : Interpretation} {watch : Value → Result Value}
    (passes : ∀ v, A.Good v → watch v = .ok v)
    (step : ∀ eval other, A.Matches eval other → A.Matches (i.step eval) (i.step other))
    (levels : Nat) : A.Matches (i.watchedLevels watch levels) (i.evaluateLevels levels) := by
  induction levels with
  | zero => exact fun _ _ _ _ _ => Concurs.ok_iff.2 Invariant.good_null
  | succ levels ih =>
    intro e a b he related
    obtain ⟨eq, good⟩ := step _ _ ih e a b he related
    have same : (i.step (i.watchedLevels watch levels) e a >>= watch)
        = i.step (i.watchedLevels watch levels) e a := by
      cases outcome : i.step (i.watchedLevels watch levels) e a with
      | error failure => rfl
      | ok v => exact passes v (good v outcome)
    rw [Interpretation.watchedLevels, Interpretation.evaluateLevels, same]
    exact ⟨eq, good⟩

/-! ## Plain data -/

/-- Expressions whose data is plain, and values that have a property which plain data has. -/
def Universe.ofPlain (P : Value → Prop) (plain : ∀ v, v.isPlain = true → P v) : Universe where
  expr e := ∀ v ∈ e.data, v.Plain
  value := P
  plain := plain
  literal v h := (h v (List.mem_singleton.2 rfl)).mono plain
  quoted _ h v hv := (h v hv).mono plain
  identifier _ _ := fun _ hv => absurd hv List.not_mem_nil

/-- In the environment of a context of plain data all is good. -/
theorem Environment.holds_ofContext {P : Value → Prop} (plain : ∀ v, v.isPlain = true → P v)
    {context : Context} (hc : context.Plain) (e : Expr) :
    ((Environment.ofContext context).declareTables e).Holds P :=
  ⟨hc.mono plain, (fun _ h => nomatch h), (fun _ h => nomatch h)⟩

/-! ## In memory -/

namespace InMemory

/-- Values without parts of statements. -/
def noSql : Universe :=
  .ofPlain (fun v => v.isSql = false) fun v plain => by cases v <;> first | rfl | cases plain

theorem throughout_of_good {v : Value} (h : (Accord.same noSql).Good v) :
    v.Throughout fun part => part.isSql = false :=
  Value.Everywhere.throughout h (fun _ h => h) fun _ h => nomatch h

end InMemory

/-! ## In statements -/

/-- Every way of composition keeps what all parameters have. -/
theorem Fragment.composes_params {R G : Value → Prop} (imp : ∀ v, G v → v.isSql = false → R v) :
    Composes (fun f => ∀ v ∈ f.params, R v) G where
  columnText _ := fun _ h => absurd h List.not_mem_nil
  timestamp _ := fun _ h => absurd h List.not_mem_nil
  asterisk := fun _ h => absurd h List.not_mem_nil
  frame _ _ := fun _ h => absurd h List.not_mem_nil
  empty := fun _ h => absurd h List.not_mem_nil
  param v h notSql := List.forall_mem_singleton.2 (imp v h notSql)
  asQuery _ hf := hf
  leading _ _ _ hf := hf
  trailing _ _ _ hf := hf
  middle _ _ _ _ hf hg := List.forall_mem_append.2 ⟨hf, hg⟩
  wrapped _ _ _ hf := hf
  attached _ _ _ _ hf hg := List.forall_mem_append.2 ⟨hf, hg⟩
  aliased _ _ hf := hf

namespace Sql

/-- Values without relations, also among the parameters of fragments. -/
def noRelations : Universe :=
  .ofPlain
    (fun v => v.isRelation = false ∧ Invariant.OnFragments
      (fun f => ∀ param ∈ f.params, param.Throughout fun part => part.isRelation = false) v)
    fun v plain => ⟨(by cases v <;> first | rfl | cases plain),
      Invariant.onFragments_of_isPlain v plain⟩

theorem throughout_of_good {v : Value} (h : (Accord.same noRelations).Good v) :
    v.Throughout fun part => part.isRelation = false :=
  Value.Everywhere.throughout h (fun _ h => h.1) fun f h => h.2 f rfl

/-- Statements are composed without relations. -/
theorem composes_noRelations : (Accord.same noRelations).invariant.Composes where
  toComposes := by
    have part : (Accord.same noRelations).invariant.Part
        = fun f => ∀ param ∈ f.params, param.Throughout fun part => part.isRelation = false :=
      funext fun f => propext
        ⟨fun h => h.2 f rfl, fun h => ⟨rfl, fun _ eq => Value.fragment.inj eq ▸ h⟩⟩
    rw [part]
    exact Fragment.composes_params fun _ h _ => throughout_of_good h
  column _ := ⟨rfl, fun _ eq => nomatch eq⟩

/-- The text of a table holds no parameter. -/
theorem good_table (scope : Environment) (name : String) :
    Yields (table scope name) (Accord.same noRelations).Good := by
  refine (yields_table scope name).mono fun v hv => ?_
  obtain ⟨s, rfl, -⟩ := hv
  refine Invariant.good_fragment_iff.2 ⟨rfl, fun f eq => ?_⟩
  rw [← Value.fragment.inj eq]
  exact fun _ h => absurd h List.not_mem_nil

/-- What is bound holds no relation. -/
theorem good_bound (scope : Environment) (token name : String) (v : Value)
    (hs : (Accord.same noRelations).invariant.env scope)
    (found : scope.binding? token name = some v) : (Accord.same noRelations).Good v := by
  obtain ⟨other, rfl, holds⟩ := hs
  exact holds.bindings.binding? found

theorem matches_step_noRelations {eval other : Evaluator}
    (same : (Accord.same noRelations).Matches eval other) :
    (Accord.same noRelations).Matches (interpretation.step eval) (interpretation.step other) :=
  matches_step (composes_noRelations.resolve (fun scope name _ => good_table scope name) good_bound)
    (fun _ _ hh => composes_noRelations.handler hh) same

end Sql

/-! ## Separation -/

/-- Watchers that pass values without parts of statements see all values in memory and change no
outcome, and those that pass values without relations see all values in statements and change none:
only such values are met. -/
theorem watched_separation {e : Expr} {context : Context} (he : e.Plain) (hc : context.Plain)
    {inMemory inSql : Value → Result Value}
    (passMemory : ∀ v, (v.Throughout fun part => part.isSql = false) → inMemory v = .ok v)
    (passSql : ∀ v, (v.Throughout fun part => part.isRelation = false) → inSql v = .ok v) :
    Concurs
        (InMemory.interpretation.watched inMemory e (InMemory.environment context e))
        (InMemory.evaluateIn (InMemory.environment context e) e)
        (fun v => v.Throughout fun part => part.isSql = false) ∧
      Concurs
        (Sql.interpretation.watched inSql e ((Environment.ofContext context).declareTables e))
        (Sql.evaluateIn ((Environment.ofContext context).declareTables e) e)
        (fun v => v.Throughout fun part => part.isRelation = false) := by
  constructor
  · have same := Accord.matches_watched (A := .same InMemory.noSql)
      (fun v hv => passMemory v (InMemory.throughout_of_good hv))
      (fun _ _ => InMemory.matches_step fun _ => rfl) e.depth
    have here := Environment.holds_ofContext InMemory.noSql.plain hc e
    exact (same e _ _ he ⟨rfl, here⟩).mono fun v => InMemory.throughout_of_good
  · have same := Accord.matches_watched (A := .same Sql.noRelations)
      (fun v hv => passSql v (Sql.throughout_of_good hv))
      (fun _ _ => Sql.matches_step_noRelations) e.depth
    have here := Environment.holds_ofContext Sql.noRelations.plain hc e
    exact (same e _ _ he ⟨rfl, here⟩).mono fun v => Sql.throughout_of_good

/-- A condition on a row that the caller binds: in memory a relation, in a statement a parameter with
a clause, and no value is refused. -/
theorem separation_of_bound_rows :
    InMemory.interpretation.watched (Interpretation.refusing Value.isSql)
        (.list [.symbol "$where", .list [.symbol ">", .symbol ":a", .literal (.integer 1)],
          .symbol "#t"])
        (InMemory.environment [("#", [("t", .array [.object [("a", .integer 2)]])])]
          (.list [.symbol "$where", .list [.symbol ">", .symbol ":a", .literal (.integer 1)],
            .symbol "#t"]))
        = .ok (.rows [Row.single "" (.object [("a", .integer 2)])]) ∧
      Sql.interpretation.watched (Interpretation.refusing Value.isRelation)
        (.list [.symbol "$where", .list [.symbol ">", .symbol ":a", .literal (.integer 1)],
          .symbol "#t"])
        ((Environment.ofContext
          [("#", [("t", .array [.object [("a", .integer 2)]])])]).declareTables
          (.list [.symbol "$where", .list [.symbol ">", .symbol ":a", .literal (.integer 1)],
            .symbol "#t"]))
        = .ok (.fragment ⟨[.placeholder, .text " WHERE \"a\" > ", .placeholder],
          [.array [.object [("a", .integer 2)]], .integer 1], false⟩) := by
  have number : ∀ n, (Value.integer n).Plain := fun n => .of_parts_nil rfl rfl
  have record : (Value.object [("a", .integer 2)]).Plain :=
    Value.Everywhere.object_iff.2 ⟨rfl, List.forall_mem_singleton.2 (number 2)⟩
  have rows : (Value.array [.object [("a", .integer 2)]]).Plain :=
    Value.Everywhere.array_iff.2 ⟨rfl, List.forall_mem_singleton.2 record⟩
  have expr : Expr.Plain (.list [.symbol "$where",
      .list [.symbol ">", .symbol ":a", .literal (.integer 1)], .symbol "#t"]) := by
    simpa [Expr.Plain, Expr.Holds, Expr.data, Value.Plain] using number 1
  have context : Context.Plain [("#", [("t", .array [.object [("a", .integer 2)]])])] := by
    simpa [Context.Plain, Context.Holds, Value.Plain] using rows
  obtain ⟨inMemory, inSql⟩ := watched_separation expr context
    (fun _ h => Interpretation.refusing_eq_ok h.here)
    (fun _ h => Interpretation.refusing_eq_ok h.here)
  exact ⟨inMemory.1, inSql.1⟩

end QueryForms
