import QueryForms.InMemory.Scalar
import QueryForms.Proofs.Everywhere
import QueryForms.Proofs.Yields

/-!
# What evaluation keeps

A `Regime` says which expressions and environments there are and which values are good.
`Regime.evaluateLevels`: an interpretation gives only good values once its symbols and its operators
do. An `Invariant` is a regime in which a value is good if all its parts are, down to the last one,
and plain data is good whatever it is, so values may be taken apart and put together at will.
-/

namespace QueryForms

/-- A call gives what its operator gives, and nothing where its head names none. -/
theorem Interpretation.yields_call {i : Interpretation} {eval : Evaluator} {head : Expr}
    {operands : List Expr} {scope : Environment} {P : Value → Prop}
    (named : ∀ op, (Expr.list (head :: operands)).operator? = some op →
      Yields (i.apply eval op operands scope) P) :
    Yields (i.call eval (head :: operands) scope) P := by
  cases hname : head.asName? with
  | none => simp [call, hname]
  | some name =>
    cases hop : Operator.ofName? name with
    | none => simp [call, hname, hop]
    | some op =>
      have calls : (Expr.list (head :: operands)).operator? = some op := by
        simp [Expr.operator?, Expr.head?, hname, hop]
      simp only [call, hname, hop]
      exact named op calls

/-- The fields of a record have what their expressions give. -/
theorem Interpretation.yields_evaluateFields {eval : Evaluator} {scope : Environment}
    {P : Value → Prop} {fields : List (String × Expr)}
    (h : ∀ field ∈ fields, Yields (eval field.2 scope) P) :
    Yields (evaluateFields eval scope fields) fun values => ∀ field ∈ values, P field.2 := by
  induction fields with
  | nil => simp [evaluateFields]
  | cons field rest ih =>
    obtain ⟨name, e⟩ := field
    obtain ⟨first, others⟩ := List.forall_mem_cons.1 h
    refine .bind first fun v hv => .bind (ih others) fun values hvs => ?_
    exact Yields.ok_iff.2 (List.forall_mem_cons.2 ⟨hv, hvs⟩)

/-- Which expressions and environments there are, and which values are good. -/
structure Regime where
  /-- The property of every part of an expression. -/
  expr : Expr → Prop
  /-- The property of an environment. -/
  env : Environment → Prop
  /-- The property of a value. -/
  Good : Value → Prop

namespace Regime

variable (R : Regime)

/-- An evaluator that gives only good values. -/
def Keeps (eval : Evaluator) : Prop :=
  ∀ (e : Expr) (scope : Environment), e.Everywhere R.expr → R.env scope →
    Yields (eval e scope) R.Good

/-- What an operator does with good values, or with its operands and a good evaluator. -/
def KeepsBy (op : Operator) : Handler → Prop
  | .onValues apply =>
    ∀ values : List Value, (∀ v ∈ values, R.Good v) → Yields (apply values) R.Good
  | .onOperands apply => ∀ (eval : Evaluator) (e : Expr) (scope : Environment), R.Keeps eval →
    e.Everywhere R.expr → e.operator? = some op → R.env scope →
    Yields (apply eval e.operands scope) R.Good

/-- An operator that some expression calls. -/
def Calls (op : Operator) : Prop :=
  ∃ e, R.expr e ∧ e.operator? = some op

/-- What expressions say without an operator is good. -/
structure Speaks : Prop where
  null : R.Good .null
  text : ∀ s, R.Good (.string s)
  nothing : R.Good (.array [])
  literal : ∀ v, R.expr (.literal v) → R.Good v
  quoted : ∀ items, R.expr (.quoted items) → R.Good (.array items)
  /-- A record of good values. -/
  record : ∀ fields values, R.expr (.record fields) →
    (∀ field ∈ values, R.Good (Prod.snd field)) → R.Good (.object values)
  /-- An expression taken as data. -/
  quotation : ∀ e : Expr, e.Everywhere R.expr → R.Good e.toValue

variable {R}

theorem evaluateAll {eval : Evaluator} (keeps : R.Keeps eval) {exprs : List Expr}
    {scope : Environment} (he : ∀ e ∈ exprs, e.Everywhere R.expr) (hs : R.env scope) :
    Yields (Interpretation.evaluateAll eval exprs scope) fun values => ∀ v ∈ values, R.Good v :=
  .mapM fun e hm => keeps e scope (he e hm) hs

theorem evaluateFields {eval : Evaluator} (keeps : R.Keeps eval) {scope : Environment}
    (hs : R.env scope) {fields : List (String × Expr)}
    (he : ∀ field ∈ fields, field.2.Everywhere R.expr) :
    Yields (Interpretation.evaluateFields eval scope fields)
      fun values => ∀ field ∈ values, R.Good field.2 :=
  Interpretation.yields_evaluateFields fun field hf => keeps field.2 scope (he field hf) hs

/-- A call is good if the evaluator of its operands is: a quotation is its operand as data, and any
other operator works on good values or on the operands themselves. -/
theorem apply (speaks : R.Speaks) {i : Interpretation} {eval : Evaluator} {op : Operator} {e : Expr}
    {scope : Environment} (handler : ∀ op h, i.handler op = some h → R.Calls op → R.KeepsBy op h)
    (keeps : R.Keeps eval) (he : e.Everywhere R.expr) (calls : e.operator? = some op)
    (hs : R.env scope) : Yields (i.apply eval op e.operands scope) R.Good := by
  have called : R.Calls op := ⟨e, he.here, calls⟩
  rw [Interpretation.apply]
  split
  · rw [Interpretation.quotation.eq_def]
    split
    · next operand only =>
      have inside := he.operands (only ▸ List.mem_singleton.2 rfl)
      exact Yields.ok_iff.2 (speaks.quotation operand inside)
    · exact .fault _
  · split
    · exact .error _
    · next f hf =>
      exact .bind (evaluateAll keeps (fun _ hm => he.operands hm) hs) (handler op _ hf called)
    · next f hf => exact handler op _ hf called eval e scope keeps he calls hs

/-- One level of evaluation is good if the levels below are. -/
theorem step (speaks : R.Speaks) {i : Interpretation} {eval : Evaluator}
    (resolve : ∀ scope token name, R.env scope → Yields (i.resolve scope token name) R.Good)
    (handler : ∀ op h, i.handler op = some h → R.Calls op → R.KeepsBy op h)
    (keeps : R.Keeps eval) :
    R.Keeps (i.step eval) := by
  intro e scope he hs
  cases e with
  | literal v => exact Yields.ok_iff.2 (speaks.literal v he.here)
  | quoted items => exact Yields.ok_iff.2 (speaks.quoted items he.here)
  | symbol s =>
    simp only [Interpretation.step, Interpretation.resolveSymbol]
    split
    · exact resolve scope _ _ hs
    · exact Yields.ok_iff.2 (speaks.text s)
  | record fields =>
    refine .map ((evaluateFields keeps hs fun field hf => ?_).mono fun values h =>
      speaks.record fields _ he.here (Entries.forall_ofList h))
    exact he.inside (List.mem_map_of_mem hf)
  | list items =>
    cases items with
    | nil => exact Yields.ok_iff.2 speaks.nothing
    | cons head operands =>
      exact Interpretation.yields_call fun op calls => apply speaks handler keeps he calls hs

/-- An interpretation whose symbols and operators give good values gives them at every depth. -/
theorem evaluateLevels (speaks : R.Speaks) {i : Interpretation}
    (resolve : ∀ scope token name, R.env scope → Yields (i.resolve scope token name) R.Good)
    (handler : ∀ op h, i.handler op = some h → R.Calls op → R.KeepsBy op h) (levels : Nat) :
    R.Keeps (i.evaluateLevels levels) := by
  induction levels with
  | zero => exact fun _ _ _ _ => Yields.ok_iff.2 speaks.null
  | succ levels ih => exact step speaks resolve handler ih

end Regime

/-! ## Invariants -/

/-- What an evaluation is to keep. -/
structure Invariant where
  /-- The property of every part of an expression. -/
  expr : Expr → Prop
  /-- The property of an environment. -/
  env : Environment → Prop
  /-- The property of every part of a value. -/
  value : Value → Prop
  /-- Data of its own has the property. -/
  plain : ∀ v, v.isPlain = true → value v
  /-- A literal in an expression is a good value. -/
  literal : ∀ v, expr (.literal v) → v.Everywhere value
  /-- Quoted data in an expression are good values. -/
  quoted : ∀ items, expr (.quoted items) → ∀ v ∈ items, v.Everywhere value
  /-- The function of a window call has a good environment. -/
  compiling : ∀ scope, env scope → env (scope.withWindow .compiling)
  /-- A definition leaves the environment of its body good. -/
  defined : ∀ (e : Expr) (scope : Environment) (token name : String) (v : Value),
    e.Everywhere expr → e.operator? = some .define →
    (e.operands.head?.bind Expr.asName?).bind scope.splitSymbol? = some (token, name) →
    env scope → v.Everywhere value →
    env { scope with bindings := Context.bind scope.bindings token name v }

namespace Invariant

variable (I : Invariant)

/-- A value that is good all the way down. -/
def Good (v : Value) : Prop :=
  v.Everywhere I.value

/-- The invariant as a regime. -/
abbrev regime : Regime :=
  ⟨I.expr, I.env, I.Good⟩

/-- An evaluator that gives only good values. -/
abbrev Keeps (eval : Evaluator) : Prop :=
  I.regime.Keeps eval

/-- What an operator does with good values, or with its operands and a good evaluator. -/
abbrev KeepsBy (op : Operator) (h : Handler) : Prop :=
  I.regime.KeepsBy op h

variable {I}

theorem good_of_parts_nil {v : Value} (plain : v.isPlain = true) (none : v.parts = []) : I.Good v :=
  .of_parts_nil (I.plain v plain) none

@[simp] theorem good_null : I.Good .null := good_of_parts_nil rfl rfl

@[simp] theorem good_boolean (b : Bool) : I.Good (.boolean b) := good_of_parts_nil rfl rfl

@[simp] theorem good_integer (n : Int64) : I.Good (.integer n) := good_of_parts_nil rfl rfl

@[simp] theorem good_float (x : Float) : I.Good (.float x) := good_of_parts_nil rfl rfl

@[simp] theorem good_string (s : String) : I.Good (.string s) := good_of_parts_nil rfl rfl

@[simp] theorem good_date (t : Instant) : I.Good (.date t) := good_of_parts_nil rfl rfl

theorem good_array_iff {items : List Value} : I.Good (.array items) ↔ ∀ v ∈ items, I.Good v :=
  Value.Everywhere.array_iff.trans (and_iff_right (I.plain _ rfl))

theorem good_object_iff {fields : List (String × Value)} :
    I.Good (.object fields) ↔ ∀ field ∈ fields, I.Good field.2 :=
  Value.Everywhere.object_iff.trans (and_iff_right (I.plain _ rfl))

/-- A value that is good if it is there at all, or null. -/
theorem good_getD {found : Option Value} (h : ∀ v, found = some v → I.Good v) :
    I.Good (found.getD .null) := by
  cases found with
  | none => exact good_null
  | some v => exact h v rfl

end Invariant

/-! ## Evaluation in an invariant -/

theorem Expr.toValues_eq_map (items : List Expr) : toValues items = items.map toValue := by
  induction items with
  | nil => rfl
  | cons e rest ih => rw [toValues, ih, List.map_cons]

theorem Expr.toFields_eq_map (fields : List (String × Expr)) :
    toFields fields = fields.map fun field => (field.1, field.2.toValue) := by
  induction fields with
  | nil => rfl
  | cons field rest ih => rw [toFields, ih, List.map_cons]

namespace Invariant

variable {I : Invariant}

/-- A good expression taken as data is good. -/
theorem good_toValue {e : Expr} (h : e.Everywhere I.expr) : I.Good e.toValue := by
  induction h with
  | @intro e here _ ih =>
    cases e with
    | literal v => exact I.literal v here
    | symbol s => exact good_string s
    | quoted items =>
      refine good_object_iff.2 fun field hf => ?_
      rw [List.mem_singleton.1 hf]
      exact good_array_iff.2 (I.quoted items here)
    | list items =>
      rw [Expr.toValue, Expr.toValues_eq_map]
      refine good_array_iff.2 fun v hv => ?_
      obtain ⟨e, he, rfl⟩ := List.mem_map.1 hv
      exact ih e he
    | record fields =>
      rw [Expr.toValue, Expr.toFields_eq_map]
      refine good_object_iff.2 fun field hf => ?_
      obtain ⟨⟨name, e⟩, he, rfl⟩ := List.mem_map.1 hf
      exact ih e (List.mem_map_of_mem (f := Prod.snd) he)

theorem speaks : I.regime.Speaks where
  null := good_null
  text := good_string
  nothing := good_array_iff.2 fun _ h => absurd h List.not_mem_nil
  literal := I.literal
  quoted items h := good_array_iff.2 (I.quoted items h)
  record _ _ _ h := good_object_iff.2 h
  quotation _ h := good_toValue h

theorem evaluateAll {eval : Evaluator} (keeps : I.Keeps eval) {exprs : List Expr}
    {scope : Environment} (he : ∀ e ∈ exprs, e.Everywhere I.expr) (hs : I.env scope) :
    Yields (Interpretation.evaluateAll eval exprs scope) fun values => ∀ v ∈ values, I.Good v :=
  Regime.evaluateAll keeps he hs

/-- An interpretation whose symbols and operators keep an invariant keeps it at every depth. -/
theorem evaluateLevels {i : Interpretation}
    (resolve : ∀ scope token name, I.env scope → Yields (i.resolve scope token name) I.Good)
    (handler : ∀ op h, i.handler op = some h → I.KeepsBy op h) (levels : Nat) :
    I.Keeps (i.evaluateLevels levels) :=
  Regime.evaluateLevels speaks resolve (fun op h hh _ => handler op h hh) levels

end Invariant

end QueryForms
