import QueryForms.Proofs.Computation
import QueryForms.Proofs.Concurrence
import QueryForms.Proofs.Mask
import QueryForms.Proofs.Scope
import QueryForms.Proofs.Sql.Compilation

/-!
# Two runs in accord

Two evaluators are run on one expression in two environments. An `Accord` says which environments
belong together and what the expressions and values are like that evaluation meets on the way. Two
evaluators match (`Accord.Matches`) if they have one outcome wherever environments belong together.
One level of evaluation matches if the levels below do (`Accord.step`), once every operator does the
same with evaluators that match: what an operator evaluates are its operands or parts of them, so
nothing is asked of the call itself. The rows of the two environments need not be the same, only the
same under a mask that no name in the expression can tell.

Where the environments are the same, `Accord.same` is the accord.
-/

namespace QueryForms

/-- Whether an operator looks at the window around it. -/
def Operator.looksAtWindow : Operator → Bool
  | .windowed => true
  | .rowNumber => true
  | .rank => true
  | .denseRank => true
  | .lag => true
  | .lead => true
  | _ => false

/-- The expressions and the values that evaluation meets. -/
structure Universe where
  /-- The property of every part of an expression. -/
  expr : Expr → Prop
  /-- The property of every part of a value. -/
  value : Value → Prop
  /-- Data of its own has the property. -/
  plain : ∀ v, v.isPlain = true → value v
  /-- A literal in an expression is a good value. -/
  literal : ∀ v, expr (.literal v) → v.Everywhere value
  /-- Quoted data in an expression are good values. -/
  quoted : ∀ items, expr (.quoted items) → ∀ v ∈ items, v.Everywhere value
  /-- The identifier of a row may stand wherever there is an expression: all fields are counted by
  it. -/
  identifier : ∀ e, expr e → expr (.symbol ":id")

/-- Environments that belong together. -/
structure Accord extends Universe where
  /-- What is not seen of the current rows. -/
  mask : Row.Mask := .clear
  /-- A table that a name begins with has the same record under the mask. -/
  tables : ∀ {e s table rest}, expr e → e.asName? = some s → s = aliasToken table ++ rest →
    table ≠ "" → ∀ row,
      Entries.get? (mask.hide row).tables table = Entries.get? row.tables table := by intros; rfl
  /-- The two environments belong together. -/
  related : Environment → Environment → Prop
  /-- All that is bound is good. -/
  bindings : ∀ {a b}, related a b → Context.Holds value a.bindings
  /-- The current row is the same under the mask, and all in it is good. -/
  row : ∀ {a b}, related a b →
    a.row.map mask.hide = b.row.map mask.hide ∧ ∀ row ∈ a.row, row.Holds value
  /-- Where a call looks at the window, the window is the same, and all in it is good. -/
  window : ∀ {a b e op}, related a b → expr e → e.operator? = some op → op.looksAtWindow = true →
    a.window = b.window ∧ ∀ w ∈ a.window, w.Holds value
  /-- A symbol is split alike. -/
  split : ∀ {a b e s}, related a b → expr e → e.asName? = some s →
    a.splitSymbol? s = b.splitSymbol? s
  /-- A symbol means the same. -/
  binding : ∀ {a b s token name}, related a b → expr (.symbol s) →
    a.splitSymbol? s = some (token, name) → a.binding? token name = b.binding? token name
  /-- The table whose fields a symbol stands for is declared in both or in neither. -/
  wildcard : ∀ {a b e s table}, related a b → expr e → e.asName? = some s →
    Relation.tableOfWildcard? s = some table →
    a.hasToken (aliasToken table) = b.hasToken (aliasToken table)
  /-- With good rows that are the same under the mask both belong together. -/
  surround : ∀ {a b row other}, related a b → mask.hide row = mask.hide other → row.Holds value →
    related (a.surround row) (b.surround other)
  /-- With good windows that are the same under the mask both belong together. -/
  withWindow : ∀ {a b v w}, related a b → mask.hideWindow v = mask.hideWindow w → v.Holds value →
    related (a.withWindow v) (b.withWindow w)
  /-- With one more name for a good value both belong together. -/
  defined : ∀ {a b : Environment} {e s token name v}, related a b → expr e → e.asName? = some s →
    a.splitSymbol? s = some (token, name) → v.Everywhere value →
    related { a with bindings := Context.bind a.bindings token name v }
      { b with bindings := Context.bind b.bindings token name v }

namespace Accord

/-- What evaluation keeps on one side. -/
def invariant (A : Accord) : Invariant where
  expr := A.expr
  env a := ∃ b, A.related a b
  value := A.value
  plain := A.plain
  literal := A.literal
  quoted := A.quoted
  compiling _ := fun ⟨_, h⟩ => ⟨_, A.withWindow h rfl trivial⟩
  defined e a token name v he _ target := by
    rintro ⟨b, h⟩ hv
    obtain ⟨s, named, split⟩ := Option.bind_eq_some_iff.1 target
    obtain ⟨target, first, named⟩ := Option.bind_eq_some_iff.1 named
    have here : A.expr target := (he.operands (List.mem_of_mem_head? first)).here
    exact ⟨_, A.defined h here named split hv⟩

variable (A : Accord)

/-- A value that is good all the way down. -/
abbrev Good (v : Value) : Prop :=
  A.invariant.Good v

/-- Two evaluators have the same outcome in environments that belong together, and a good one. -/
def Matches (eval other : Evaluator) : Prop :=
  ∀ (e : Expr) (a b : Environment), e.Everywhere A.expr → A.related a b →
    Concurs (eval e a) (other e b) A.Good

/-- What an operator does with its operands has the same outcome with evaluators that match, and a
good one. -/
def MatchesBy (apply : Evaluator → List Expr → Environment → Result Value) : Prop :=
  ∀ (eval other : Evaluator) (operands : List Expr) (a b : Environment), A.Matches eval other →
    (∀ e ∈ operands, e.Everywhere A.expr) → A.related a b →
    Concurs (apply eval operands a) (apply other operands b) A.Good

/-- An operator does the same with evaluators that match. -/
def AgreesBy : Handler → Prop
  | .onValues _ => True
  | .onOperands apply =>
    ∀ (eval other : Evaluator) (operands : List Expr) (a b : Environment), A.Matches eval other →
      (∀ e ∈ operands, e.Everywhere A.expr) → A.related a b →
      apply eval operands a = apply other operands b

/-- In environments that belong together the window is the same, and all in it is good. -/
def SameWindow : Prop :=
  ∀ {a b : Environment}, A.related a b → a.window = b.window ∧ ∀ w ∈ a.window, w.Holds A.value

/-- An operator that looks at the window sees the same one in environments that belong together. -/
def Shows (op : Operator) : Prop :=
  op.looksAtWindow = true → A.SameWindow

variable {A}

/-- The operator of a good call. -/
theorem shows_of_calls {e : Expr} {op : Operator} (he : A.expr e) (calls : e.operator? = some op) :
    A.Shows op :=
  fun looks _ _ related => A.window related he calls looks

theorem MatchesBy.agreesBy {apply : Evaluator → List Expr → Environment → Result Value}
    (h : A.MatchesBy apply) : A.AgreesBy (.onOperands apply) :=
  fun eval other operands a b same he related => (h eval other operands a b same he related).1

/-- Of evaluators that match the first gives good values. -/
theorem Matches.keeps {eval other : Evaluator} (h : A.Matches eval other) :
    A.invariant.Keeps eval :=
  fun e a he ⟨b, related⟩ => (h e a b he related).2

/-- Each environment on the first side belongs to itself. -/
def left (A : Accord) : Accord where
  toUniverse := A.toUniverse
  related a b := a = b ∧ ∃ c, A.related a c
  bindings := fun ⟨_, _, h⟩ => A.bindings h
  row := fun ⟨eq, _, h⟩ => ⟨eq ▸ rfl, (A.row h).2⟩
  window := fun ⟨eq, _, h⟩ he calls looks => ⟨eq ▸ rfl, (A.window h he calls looks).2⟩
  split h _ _ := h.1 ▸ rfl
  binding h _ _ := h.1 ▸ rfl
  wildcard h _ _ _ := h.1 ▸ rfl
  surround := fun ⟨eq, _, h⟩ same hr =>
    ⟨congrArg₂ Environment.surround eq same, _, A.surround h rfl hr⟩
  withWindow := fun ⟨eq, _, h⟩ same hw =>
    ⟨congrArg₂ Environment.withWindow eq (Row.Mask.hideWindow_clear_inj same), _,
      A.withWindow h rfl hw⟩
  defined := fun ⟨eq, _, h⟩ he named split hv => ⟨eq ▸ rfl, _, A.defined h he named split hv⟩

theorem Shows.left {op : Operator} (h : A.Shows op) : A.left.Shows op :=
  fun looks _ _ ⟨eq, _, related⟩ => ⟨eq ▸ rfl, (h looks related).2⟩

/-- What an operator gives is good if it is so whatever environments belong together. -/
theorem keepsBy_of_matchesBy {apply : Evaluator → List Expr → Environment → Result Value}
    (h : A.left.MatchesBy apply) (op : Operator) : A.invariant.KeepsBy op (.onOperands apply) := by
  intro eval e a keeps he _ hs
  have same : A.left.Matches eval eval :=
    fun e a b he related => related.1 ▸ .of_yields (keeps e a he related.2)
  exact (h eval eval e.operands a a same (fun _ hm => he.operands hm) ⟨rfl, hs⟩).2

section Steps

variable {eval other : Evaluator} {a b : Environment} (same : A.Matches eval other)
  (related : A.related a b)

include same related

theorem Matches.evaluateAll {exprs : List Expr} (he : ∀ e ∈ exprs, e.Everywhere A.expr) :
    Concurs (Interpretation.evaluateAll eval exprs a) (Interpretation.evaluateAll other exprs b)
      fun values => ∀ v ∈ values, A.Good v :=
  .mapM fun e hm => same e a b (he e hm) related

theorem Matches.evaluateFields {fields : List (String × Expr)}
    (he : ∀ field ∈ fields, field.2.Everywhere A.expr) :
    Interpretation.evaluateFields eval a fields
      = Interpretation.evaluateFields other b fields := by
  induction fields with
  | nil => rfl
  | cons field rest ih =>
    obtain ⟨name, e⟩ := field
    rw [Interpretation.evaluateFields, Interpretation.evaluateFields,
      (same e a b (he _ (List.mem_cons_self ..)) related).1,
      ih fun field hf => he field (List.mem_cons_of_mem _ hf)]

end Steps

/-! ## Operators that both interpretations share -/

theorem agreesBy_wait : A.AgreesBy (.onOperands PlainOperators.wait) := by
  intro eval other operands a b same he related
  rw [PlainOperators.wait, PlainOperators.wait, (same.evaluateAll related he).1]

/-- A definition binds a good value in both environments before its body. -/
theorem agreesBy_define : A.AgreesBy (.onOperands PlainOperators.define) := by
  intro eval other operands a b same he related
  rcases operands with _ | ⟨target, _ | ⟨bound, bodies⟩⟩
  · rfl
  · rfl
  · have here : A.expr target := (he target (List.mem_cons_self ..)).here
    simp only [PlainOperators.define]
    cases named : target.asName? with
    | none => rfl
    | some symbol =>
      simp only [← A.split related here named]
      cases split : a.splitSymbol? symbol with
      | none => rfl
      | some found =>
        obtain ⟨token, name⟩ := found
        refine (Concurs.bind (same bound a b (he bound (by simp)) related) (R := fun _ => True)
          fun v hv => ?_).1
        rcases bodies with _ | ⟨body, _ | ⟨more, rest⟩⟩
        · exact Concurs.pure_iff.2 trivial
        · -- the token is declared in both, as the symbol is split at it
          have first := Environment.hasToken_of_splitSymbol? split
          have second :=
            Environment.hasToken_of_splitSymbol? ((A.split related here named).symm.trans split)
          simp only [Environment.extend, first, second, if_true]
          exact (same body _ _ (he body (by simp)) (A.defined related here named split hv)).mono
            fun _ _ => trivial
        · exact .fault _

theorem agreesBy_filter : A.AgreesBy (.onOperands Scalar.filter) := by
  intro eval other operands a b same he related
  rw [Scalar.filter.eq_def, Scalar.filter.eq_def]
  split
  · next field condition =>
    rw [(same condition a b (he condition (by simp)) related).1,
      (same field a b (he field (by simp)) related).1]
  · rfl

/-- What both interpretations share agrees with itself. -/
theorem agreesBy_plain {op : Operator} {h : Handler} (hh : PlainOperators.handler op = some h) :
    A.AgreesBy h := by
  cases op <;> simp only [PlainOperators.handler, Option.some.injEq, reduceCtorEq] at hh <;>
    subst hh
  case wait => exact agreesBy_wait
  case define => exact agreesBy_define
  all_goals exact trivial

/-- What scalar operators do in memory agrees with itself. -/
theorem agreesBy_scalar {op : Operator} {h : Handler} (hh : Scalar.handler op = some h) :
    A.AgreesBy h := by
  cases op <;> simp only [Scalar.handler, Option.some.injEq, reduceCtorEq] at hh <;> subst hh
  case filter => exact agreesBy_filter
  all_goals exact trivial

/-! ## Levels -/

variable {i : Interpretation}

/-- A symbol means the same in both environments, and something good. -/
def Resolves (A : Accord) (i : Interpretation) : Prop :=
  ∀ {a b : Environment} {s token name}, A.related a b → A.expr (.symbol s) →
    a.splitSymbol? s = some (token, name) → i.resolve a token name = i.resolve b token name

/-- A call has one outcome if its operands have. -/
theorem apply_eq {op : Operator} (handler : ∀ h, i.handler op = some h → A.AgreesBy h)
    {eval other : Evaluator} (same : A.Matches eval other) {operands : List Expr}
    {a b : Environment} (he : ∀ e ∈ operands, e.Everywhere A.expr) (related : A.related a b) :
    i.apply eval op operands a = i.apply other op operands b := by
  rw [Interpretation.apply, Interpretation.apply]
  split
  · -- a quotation evaluates nothing
    rfl
  · split
    · rfl
    · rw [(same.evaluateAll related he).1]
    · next f hf => exact handler _ hf eval other operands a b same he related

/-- One level of evaluation has one outcome if the parts of the expression have. -/
theorem step_eq (resolves : A.Resolves i) {eval other : Evaluator} (same : A.Matches eval other)
    {e : Expr} {a b : Environment}
    (handler : ∀ op h, e.operator? = some op → i.handler op = some h → A.AgreesBy h)
    (symbol : ∀ s, e = .symbol s → A.expr e) (inside : ∀ part ∈ e.parts, part.Everywhere A.expr)
    (related : A.related a b) : i.step eval e a = i.step other e b := by
  cases e with
  | literal v => rfl
  | quoted items => rfl
  | symbol s =>
    have here := symbol s rfl
    simp only [Interpretation.step, Interpretation.resolveSymbol, ← A.split related here rfl]
    split
    · next token name found => exact resolves related here found
    · rfl
  | record fields =>
    rw [Interpretation.step, Interpretation.step, same.evaluateFields related]
    exact fun field hf => inside _ (List.mem_map_of_mem hf)
  | list items =>
    cases items with
    | nil => rfl
    | cons head operands =>
      have good : ∀ e ∈ operands, e.Everywhere A.expr :=
        fun e he => inside e (List.mem_cons_of_mem _ he)
      simp only [Interpretation.step, Interpretation.call]
      split
      · rfl
      · next name named =>
        split
        · rfl
        · next op found =>
          have calls : (Expr.list (head :: operands)).operator? = some op := by
            simp [Expr.operator?, Expr.head?, named, found]
          exact apply_eq (handler op · calls) same good related

/-- One level of evaluation matches if the levels below do. -/
theorem step (resolves : A.Resolves i)
    (resolve : ∀ scope token name, A.invariant.env scope →
      Yields (i.resolve scope token name) A.Good)
    (handler : ∀ op h, A.Shows op → i.handler op = some h →
      A.AgreesBy h ∧ A.invariant.KeepsBy op h)
    {eval other : Evaluator} (same : A.Matches eval other) :
    A.Matches (i.step eval) (i.step other) := by
  intro e a b he related
  refine ⟨step_eq resolves same
    (fun op h calls hh => (handler op h (shows_of_calls he.here calls) hh).1) (fun _ _ => he.here)
    (fun _ hp => he.inside hp) related, ?_⟩
  refine Regime.step Invariant.speaks resolve (fun op h hh ⟨call, good, calls⟩ => ?_) same.keeps e a
    he ⟨b, related⟩
  exact (handler op h (shows_of_calls good calls) hh).2

/-- Evaluation has one outcome if every level of it matches. -/
theorem matches_evaluateLevels
    (step : ∀ eval other, A.Matches eval other → A.Matches (i.step eval) (i.step other))
    (levels : Nat) : A.Matches (i.evaluateLevels levels) (i.evaluateLevels levels) := by
  induction levels with
  | zero => exact fun _ _ _ _ _ => Concurs.ok_iff.2 Invariant.good_null
  | succ levels ih => exact step _ _ ih

end Accord

/-! ## One environment -/

/-- All that is bound in an environment, and all in its rows, has a property. -/
structure Environment.Holds (P : Value → Prop) (env : Environment) : Prop where
  /-- What is bound. -/
  bindings : Context.Holds P env.bindings
  /-- The current row. -/
  row : ∀ row ∈ env.row, row.Holds P
  /-- The rows that window calls see. -/
  window : ∀ w ∈ env.window, w.Holds P

/-- What every value has, all in an environment has. -/
theorem Environment.Holds.of_forall {P : Value → Prop} (h : ∀ v, P v) (env : Environment) :
    env.Holds P where
  bindings _ _ entry _ := .of_forall h entry.2
  row row _ := .of_forall h row
  window w _ := .of_forall h w

/-- An environment belongs to itself if all in it is good. -/
def Accord.same (U : Universe) : Accord where
  toUniverse := U
  related a b := a = b ∧ a.Holds U.value
  bindings h := h.2.bindings
  row h := ⟨h.1 ▸ rfl, h.2.row⟩
  window h _ _ _ := ⟨h.1 ▸ rfl, h.2.window⟩
  split h _ _ := h.1 ▸ rfl
  binding h _ _ := h.1 ▸ rfl
  wildcard h _ _ _ := h.1 ▸ rfl
  surround h same hr := ⟨congrArg₂ Environment.surround h.1 same, h.2.bindings,
    fun _ hm => Option.mem_some.1 hm ▸ hr, h.2.window⟩
  withWindow h same hw :=
    ⟨congrArg₂ Environment.withWindow h.1 (Row.Mask.hideWindow_clear_inj same), h.2.bindings,
      h.2.row, fun _ hm => Option.mem_some.1 hm ▸ hw⟩
  defined h _ _ _ hv := ⟨h.1 ▸ rfl, h.2.bindings.bind _ _ hv, h.2.row, h.2.window⟩

theorem Accord.shows_same {U : Universe} (op : Operator) : (Accord.same U).Shows op :=
  fun _ _ _ h => ⟨h.1 ▸ rfl, h.2.window⟩

end QueryForms
