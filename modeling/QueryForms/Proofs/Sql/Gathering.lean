import QueryForms.Proofs.ConstantFolding
import QueryForms.Proofs.Separation

/-!
# Parts of statements inside data

What a compilation gives as data, the parameters of a statement or a value that was computed, is
never itself a part of a statement, and holds no relation at any depth. Inside the data there may be
columns, but only of one origin: `_wait`, `_concat` and records gather values without looking at
them. `compile_hides_only_gathered`: an expression without these gives plain data.

The invariant says what there is before anything is gathered. A value is `Unmixed` if the values
inside it are no parts of statements and the parameters of a fragment are plain; where all values are
unmixed, those that are no parts of statements are plain.
-/

namespace QueryForms

/-- Whether an expression puts values of any kind together as data. -/
def Expr.gathers : Expr → Bool
  | .record _ => true
  | e => e.isCall .wait || e.isCall .concatLists

theorem Expr.gathers_of_operator? {e : Expr} {op : Operator} (h : e.operator? = some op)
    (gathering : op = .wait ∨ op = .concatLists) : e.gathers = true := by
  cases e with
  | record fields => rfl
  | _ => rcases gathering with rfl | rfl <;> simp [gathers, isCall, h]

/-! ## Unmixed values -/

theorem Value.isPlain_iff {v : Value} :
    v.isPlain = true ↔ v.isRelation = false ∧ v.isSql = false := by
  cases v <;> simp [isPlain, isRelation, isSql]

/-- A value keeps data and parts of statements apart: the values inside it are no parts of
statements, and the parameters of a fragment are plain. -/
structure Value.Unmixed (v : Value) : Prop where
  relation : v.isRelation = false
  parts : ∀ part ∈ v.parts, part.isSql = false
  params : ∀ f, v = .fragment f → ∀ param ∈ f.params, param.Plain

namespace Value.Unmixed

theorem column (c : ColumnRef) : (Value.column c).Everywhere Unmixed :=
  .of_parts_nil ⟨rfl, fun _ h => absurd h List.not_mem_nil, fun _ eq => nomatch eq⟩ rfl

theorem fragment_iff {f : Fragment} :
    (Value.fragment f).Everywhere Unmixed ↔ ∀ param ∈ f.params, param.Plain := by
  refine ⟨fun h => h.here.params f rfl, fun h => .of_parts_nil ⟨rfl, ?_, ?_⟩ rfl⟩
  · exact fun _ h => absurd h List.not_mem_nil
  · exact fun _ eq => Value.fragment.inj eq ▸ h

/-- Unmixed data is plain if it is no part of a statement. -/
theorem plain {v : Value} (h : v.Everywhere Unmixed) (noSql : v.isSql = false) : v.Plain := by
  induction h with
  | @intro v here _ ih =>
    have plain := isPlain_iff.2 ⟨here.relation, noSql⟩
    exact ⟨plain, fun part hp => ih part hp (here.parts part hp)⟩

/-- Plain data is unmixed. -/
theorem of_plain {v : Value} (h : v.Plain) : v.Everywhere Unmixed := by
  induction h with
  | @intro v here inside ih =>
    refine ⟨⟨(isPlain_iff.1 here).1, fun part hp => (isPlain_iff.1 (inside part hp).here).2, ?_⟩, ih⟩
    rintro f rfl
    cases here

theorem of_parts_nil {v : Value} (plain : v.isPlain = true) (none : v.parts = []) :
    v.Everywhere Unmixed :=
  of_plain (.of_parts_nil plain none)

theorem array_iff {items : List Value} :
    (Value.array items).Everywhere Unmixed ↔ ∀ v ∈ items, v.Plain := by
  refine ⟨fun h v hv => plain (h.inside hv) (h.here.parts v hv), fun h => of_plain ?_⟩
  exact Value.Everywhere.array_iff.2 ⟨rfl, h⟩

end Value.Unmixed

/-! ## Evaluation without gathering -/

namespace Sql

open Value

/-- Expressions that gather nothing, and unmixed values. -/
def ungathered : Regime where
  expr e := (∀ v ∈ e.data, v.Plain) ∧ e.gathers = false
  env scope := Context.Holds Unmixed scope.bindings
  Good v := v.Everywhere Unmixed

namespace ungathered

theorem speaks : ungathered.Speaks where
  null := Unmixed.of_parts_nil rfl rfl
  text _ := Unmixed.of_parts_nil rfl rfl
  nothing := Unmixed.of_parts_nil rfl rfl
  literal v h := Unmixed.of_plain (h.1 v (List.mem_singleton.2 rfl))
  quoted _ h := Unmixed.array_iff.2 h.1
  record _ _ h _ := nomatch h.2
  quotation _ h := Unmixed.of_plain
    (Invariant.good_toValue (I := Constants.plainData) (h.mono fun _ here => here.1))

theorem part_iff {f : Fragment} : ungathered.Part f ↔ ∀ param ∈ f.params, param.Plain :=
  Unmixed.fragment_iff

/-- Statements are composed of unmixed values. -/
theorem composes : ungathered.Composes where
  toComposes := by
    have part : ungathered.Part = fun f => ∀ param ∈ f.params, param.Plain :=
      funext fun f => propext part_iff
    rw [part]
    exact Fragment.composes_params fun v => Unmixed.plain
  column := Unmixed.column
  atom _ := Unmixed.of_parts_nil
  compiling _ h := h
  computes hf values hv noSql :=
    -- what is computed is computed from plain data
    have plain : ∀ v ∈ values, v.Plain := fun v hm => Unmixed.plain (hv v hm) (noSql v hm)
    Yields.mono (Scalar.keepsBy (I := Constants.plainData) hf values plain) fun _ =>
      Unmixed.of_plain

/-- What both interpretations share keeps values unmixed, unless it gathers. -/
theorem shared {op : Operator} {h : Handler} (hh : PlainOperators.handler op = some h)
    (called : ungathered.Calls op) : ungathered.KeepsBy op h := by
  have noGathering : ¬(op = .wait ∨ op = .concatLists) := by
    obtain ⟨e, he, calls⟩ := called
    exact fun gathering => nomatch he.2.symm.trans (Expr.gathers_of_operator? calls gathering)
  cases op <;> simp only [PlainOperators.handler, Option.some.injEq, reduceCtorEq] at hh <;> subst hh
  case wait | concatLists => exact absurd (by simp) noGathering
  case get =>
    intro values hv
    refine PlainOperators.yields_get hv (Unmixed.of_parts_nil rfl rfl) ?_ ?_
    · exact fun _ _ _ inside found => inside.lookupPath? found
    · exact fun _ _ list hm => list.inside hm
  case map =>
    intro values hv
    refine PlainOperators.yields_map hv (Unmixed.of_parts_nil rfl rfl) fun items path list => ?_
    refine Unmixed.array_iff.2 (List.forall_mem_map.2 fun item hi => ?_)
    have plain := Unmixed.array_iff.1 list item hi
    exact Invariant.good_getD (I := Constants.plainData) fun _ found => plain.lookupPath? found
  case unique =>
    intro values hv
    refine PlainOperators.yields_unique hv (Unmixed.of_parts_nil rfl rfl) fun _ _ list inside => ?_
    exact Unmixed.array_iff.2 fun v hm => Unmixed.array_iff.1 list v (inside v hm)
  case size =>
    exact fun values _ => (PlainOperators.yields_size values).mono fun _ h =>
      Unmixed.of_parts_nil h.1 h.2
  case date =>
    exact fun values _ => (PlainOperators.yields_date values).mono fun _ h =>
      Unmixed.of_parts_nil h.1 h.2
  case define =>
    exact PlainOperators.keepsBy_define fun _ _ token name _ _ _ _ holds hv =>
      holds.bind token name hv

/-- The text of a table holds no parameter. -/
theorem table (scope : Environment) (name : String) :
    Yields (Sql.table scope name) ungathered.Good := by
  refine (yields_table scope name).mono fun v hv => ?_
  obtain ⟨s, rfl, -⟩ := hv
  exact Unmixed.fragment_iff.2 fun _ h => absurd h List.not_mem_nil

/-- An expression that gathers nothing compiles to an unmixed value. -/
theorem evaluateIn {e : Expr} {scope : Environment} (he : e.Everywhere ungathered.expr)
    (hs : ungathered.env scope) : Yields (Sql.evaluateIn scope e) ungathered.Good :=
  composes.toBasis.evaluateIn speaks
    (fun _ _ hh called => composes.handler (fun plain => shared plain called) hh)
    (fun scope name _ => table scope name) (fun _ _ _ _ holds found => holds.binding? found) he hs

end ungathered

/-! ## The data of a compilation -/

/-- What a compilation gives as data: the parameters of a statement, or the value computed. -/
def Compiled.data : Compiled → List Value
  | .query _ params => params
  | .value v => [v]

/-- The data of an outcome are the parameters of a fragment, or the value that is no part of a
statement. -/
theorem Compiled.mem_data_ofValue {style : PlaceholderStyle} {v part : Value}
    (h : part ∈ (Compiled.ofValue style v).data) :
    (∃ f, v = .fragment f ∧ part ∈ f.params) ∨ v.isSql = false ∧ part = v := by
  cases v with
  | fragment f => exact .inl ⟨f, rfl, h⟩
  | column c => exact absurd h List.not_mem_nil
  | _ => exact .inr ⟨rfl, List.mem_singleton.1 h⟩

/-- The parameters of a fragment that an expression compiles to are no parts of statements. -/
theorem isSql_of_mem_params {e : Expr} {scope : Environment} {f : Fragment} (he : e.Plain)
    (hs : scope.bindings.Plain) (hf : evaluateIn scope e = .ok (.fragment f)) :
    ∀ v ∈ f.params, v.isSql = false := by
  have onPlain := Invariant.onFragments_of_isPlain (P := fun f => ∀ v ∈ f.params, v.isSql = false)
  have free : e.Everywhere (Invariant.ofFragments _ .free).expr :=
    Expr.Everywhere.mono he fun _ data => ⟨fun v hv => (data v hv).mono onPlain, trivial⟩
  refine Invariant.compiled .free (Fragment.composes_params fun _ _ noSql => noSql) ?_ free
    ⟨hs.mono onPlain, trivial⟩ hf
  exact fun _ _ _ _ _ _ h => absurd h List.not_mem_nil

/-- The data of a compilation are no parts of statements and hold no relation, and they are plain
all the way down unless the expression gathers values somewhere. -/
theorem compile_hides_only_gathered {style : PlaceholderStyle} {e : Expr} {context : Context}
    {outcome : Compiled} (he : e.Plain) (hc : context.Plain)
    (h : compile style e context = .ok outcome) :
    (∀ v ∈ outcome.data, v.isSql = false ∧ v.Throughout fun part => part.isRelation = false) ∧
      ((e.Everywhere fun part => part.gathers = false) → ∀ v ∈ outcome.data, v.Plain) := by
  obtain ⟨value, evaluated, rfl⟩ : ∃ value,
      evaluateIn ((Environment.ofContext context).declareTables e) e = .ok value ∧
        Compiled.ofValue style value = outcome := by
    rw [compile] at h
    cases found : evaluateIn ((Environment.ofContext context).declareTables e) e with
    | error failure => simp [found, Except.map] at h
    | ok value => exact ⟨value, rfl, by simpa [found, Except.map] using h⟩
  constructor
  · have here := Environment.holds_ofContext noRelations.plain hc e
    have good := composes_noRelations.evaluateIn (fun scope name _ => good_table scope name)
      good_bound he ⟨_, rfl, here⟩ value evaluated
    intro v hv
    rcases Compiled.mem_data_ofValue hv with ⟨f, rfl, inside⟩ | ⟨noSql, rfl⟩
    · exact ⟨isSql_of_mem_params he hc evaluated v inside, (good.here.2 f rfl) v inside⟩
    · exact ⟨noSql, throughout_of_good good⟩
  · intro gathers v hv
    have bound : ungathered.env ((Environment.ofContext context).declareTables e) :=
      fun names hn entry hm => Unmixed.of_plain (hc names hn entry hm)
    have good := ungathered.evaluateIn (he.and gathers) bound value evaluated
    rcases Compiled.mem_data_ofValue hv with ⟨f, rfl, inside⟩ | ⟨noSql, rfl⟩
    · exact ungathered.part_iff.1 good v inside
    · exact Unmixed.plain good noSql

/-- A list that the caller binds becomes a parameter. -/
theorem hides_nothing_of_bound_list :
    compile .dollar (.list [.symbol "$in", .symbol ":a", .symbol "#ids"])
        [("#", [("ids", .array [.integer 1, .integer 2])])]
        = .ok (.query "\"a\" = ANY($1)" [.array [.integer 1, .integer 2]]) ∧
      (∀ v ∈ [Value.array [.integer 1, .integer 2]],
        v.isSql = false ∧ v.Throughout fun part => part.isRelation = false) ∧
      ∀ v ∈ [Value.array [.integer 1, .integer 2]], v.Plain := by
  have number : ∀ n, (Value.integer n).Plain := fun n => .of_parts_nil rfl rfl
  have ids : (Value.array [.integer 1, .integer 2]).Plain :=
    Value.Everywhere.array_iff.2 ⟨rfl, by simpa using ⟨number 1, number 2⟩⟩
  have context : Context.Plain [("#", [("ids", .array [.integer 1, .integer 2])])] := by
    simpa [Context.Plain, Context.Holds, Value.Plain] using ids
  have expr : Expr.Plain (.list [.symbol "$in", .symbol ":a", .symbol "#ids"]) := by
    simp [Expr.Plain, Expr.Holds, Expr.data]
  have compiled : compile .dollar (.list [.symbol "$in", .symbol ":a", .symbol "#ids"])
      [("#", [("ids", .array [.integer 1, .integer 2])])]
      = .ok (.query "\"a\" = ANY($1)" [.array [.integer 1, .integer 2]]) := rfl
  obtain ⟨apart, plain⟩ := compile_hides_only_gathered expr context compiled
  exact ⟨compiled, apart, plain (by simp; decide)⟩

/-- A column that is gathered stands inside the value of a compilation, or inside a parameter. -/
theorem gathered_column_hidden :
    compile .dollar (.list [.symbol "_wait", .symbol ":a"]) []
        = .ok (.value (.array [.column ⟨none, "a"⟩])) ∧
      compile .dollar (.list [.symbol "=", .symbol ":a", .list [.symbol "_wait", .symbol ":b"]]) []
        = .ok (.query "\"a\" = $1" [.array [.column ⟨none, "b"⟩]]) :=
  ⟨rfl, rfl⟩

end Sql

end QueryForms
