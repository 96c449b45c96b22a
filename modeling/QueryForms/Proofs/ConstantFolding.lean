import QueryForms.InMemory.Interpretation
import QueryForms.Proofs.Rows
import QueryForms.Proofs.Sql.Compilation

/-!
# Constant expressions mean the same in both interpretations

An expression that calls only operators on data, and whose symbols name nothing of a row or a table,
is a constant: where it compiles at all it compiles to a value, and to the one that it has in
memory; where it fails, both interpretations fail with the same error (`compile_constant`).

Each of the two agrees with a third interpretation, `Constants.interpretation`, that has the
operators on data and nothing else. That one gives only plain data (`Constants.keeps`), so what an
operator of statements is given there is never SQL, and it computes what the operator in memory
computes. Agreement is shown level by level: `Constants.agrees_step` says that one level agrees if
the levels below do.
-/

namespace QueryForms

/-! ## Constant expressions -/

/-- The operators on data. -/
def Operator.onData : List Operator :=
  [.quote, .equal, .notEqual, .greaterThan, .lessThan, .greaterEqual, .lessEqual, .like, .ilike,
    .inList, .contains, .isNull, .and, .or, .not, .add, .subtract, .multiply, .divide, .get, .map,
    .unique, .size, .concatLists, .wait, .define, .date, .extract, .concat, .filter]

/-- An expression calls only the given operators. What a call of `$quote` quotes is data, and calls
nothing. -/
inductive Expr.CallsOnly (allowed : List Operator) : Expr → Prop where
  | quotation {e : Expr} (quotes : e.operator? = some .quote) : CallsOnly allowed e
  | intro {e : Expr} (here : ∀ op, e.operator? = some op → op ∈ allowed)
    (inside : ∀ part ∈ e.parts, CallsOnly allowed part) : CallsOnly allowed e

namespace Expr.CallsOnly

variable {allowed : List Operator}

/-- An expression with nothing inside calls nothing. -/
theorem of_parts_nil {e : Expr} (noCall : e.operator? = none) (none : e.parts = []) :
    e.CallsOnly allowed :=
  .intro (fun _ h => nomatch noCall.symm.trans h) fun _ hp => absurd (none ▸ hp) List.not_mem_nil

/-- A call of an operator that is given. -/
theorem call (op : Operator) (here : op ∈ allowed) {operands : List Expr}
    (inside : ∀ e ∈ operands, e.CallsOnly allowed) :
    (Expr.list (.symbol op.name :: operands)).CallsOnly allowed := by
  have calls : (Expr.list (.symbol op.name :: operands)).operator? = some op := by
    simp [operator?, head?, asName?, Operator.ofName?_name]
  refine .intro (fun other h => ?_) (List.forall_mem_cons.2 ⟨of_parts_nil rfl rfl, inside⟩)
  rwa [← Option.some.inj (calls.symm.trans h)]

end Expr.CallsOnly

/-- A token of the current row, of the tables, or of one table or alias. -/
def NamesRows (token : String) : Prop :=
  token = rowToken ∨ token = tableToken ∨ (aliasOfToken? token).isSome

instance : DecidablePred NamesRows :=
  fun _ => inferInstanceAs (Decidable (_ ∨ _ ∨ _))

/-- An expression is no symbol that names something of a row or a table. -/
def Expr.Unbound (scope : Environment) (e : Expr) : Prop :=
  ∀ symbol token name, e = .symbol symbol → scope.splitSymbol? symbol = some (token, name) →
    ¬NamesRows token

theorem Expr.unbound_symbol_iff {scope : Environment} {symbol : String} :
    (Expr.symbol symbol).Unbound scope
      ↔ ∀ named ∈ scope.splitSymbol? symbol, ¬NamesRows named.1 :=
  ⟨fun h named hn => h symbol named.1 named.2 rfl hn,
    fun h _ token name eq hn => h (token, name) (Expr.symbol.inj eq ▸ hn)⟩

theorem Expr.unbound_list {scope : Environment} {items : List Expr} :
    (Expr.list items).Unbound scope :=
  fun _ _ _ eq => nomatch eq

theorem Expr.unbound_literal {scope : Environment} {v : Value} :
    (Expr.literal v).Unbound scope :=
  fun _ _ _ eq => nomatch eq

/-- An expression without rows, columns and tables. -/
structure Expr.Constant (scope : Environment) (e : Expr) : Prop where
  /-- It calls operators on data. -/
  calls : e.CallsOnly Operator.onData
  /-- No symbol in it names something of a row or a table. -/
  symbols : e.Everywhere (Expr.Unbound scope)
  /-- The data in it is plain. -/
  data : e.Plain

/-- What stands in a constant expression is constant, unless the expression quotes it. -/
theorem Expr.Constant.inside {scope : Environment} {e part : Expr} (h : e.Constant scope)
    (evaluates : e.operator? ≠ some .quote) (hp : part ∈ e.parts) : part.Constant scope where
  calls := by
    cases h.calls with
    | quotation quotes => exact absurd quotes evaluates
    | intro _ inside => exact inside part hp
  symbols := h.symbols.inside hp
  data := Everywhere.inside h.data hp

/-- An operator that a constant expression calls is one on data. -/
theorem Expr.Constant.onData {scope : Environment} {e : Expr} {op : Operator}
    (h : e.Constant scope) (calls : e.operator? = some op) : op ∈ Operator.onData := by
  cases h.calls with
  | quotation quotes =>
    obtain rfl : Operator.quote = op := Option.some.inj (quotes.symm.trans calls)
    exact List.mem_cons_self ..
  | intro here _ => exact here op calls

/-! ## The interpretation of constants -/

namespace Constants

/-- What each operator on data does. -/
def handler (op : Operator) : Option Handler :=
  PlainOperators.handler op <|> Scalar.handler op

/-- A name means what is bound to it. -/
def resolve (env : Environment) (token name : String) : Result Value :=
  .ok ((env.binding? token name).getD .null)

/-- The interpretation of constants. -/
def interpretation : Interpretation := ⟨handler, resolve⟩

/-- An operator on data is one that the interpretations share, or a scalar one. -/
theorem handler_cases {op : Operator} {h : Handler} (hh : handler op = some h) :
    PlainOperators.handler op = some h ∨
      PlainOperators.handler op = none ∧ Scalar.handler op = some h := by
  simp only [handler, Option.orElse_eq_orElse, Option.orElse_eq_or] at hh
  exact Option.or_eq_some_iff.1 hh

/-- Every operator on data but the quotation does something. -/
theorem handler_isSome {op : Operator} (h : op ∈ Operator.onData) (other : op ≠ .quote) :
    (handler op).isSome := by
  cases op <;> first | rfl | exact absurd rfl other | exact absurd h (by decide)

/-- Values are plain data if all that is written and bound is. -/
def plainData : Invariant where
  expr e := ∀ v ∈ e.data, v.Everywhere fun part => part.isPlain = true
  env scope := scope.bindings.Plain
  value v := v.isPlain = true
  plain _ h := h
  literal v h := h v (List.mem_singleton.2 rfl)
  quoted _ h := h
  compiling _ h := h
  defined _ _ token name _ _ _ _ hs hv := hs.bind token name hv

/-- Constants are plain data. -/
theorem keeps (levels : Nat) : plainData.Keeps (interpretation.evaluateLevels levels) := by
  refine plainData.evaluateLevels ?_ ?_ levels
  · intro scope token name hs
    exact Yields.ok_iff.2 (Invariant.good_getD fun v hv => hs.binding? hv)
  · intro op h hh
    exact (handler_cases hh).elim PlainOperators.keepsBy fun ⟨_, hh⟩ => Scalar.keepsBy hh

/-! ## Agreement -/

/-- A scope with the tokens of another in which only plain data is bound. -/
structure InScope (scope env : Environment) : Prop where
  /-- The tokens are the same. -/
  tokens : env.tokens = scope.tokens
  /-- What is bound is plain. -/
  bindings : env.bindings.Plain

/-- An evaluator gives constant expressions their values. -/
def Agrees (scope : Environment) (eval constant : Evaluator) : Prop :=
  ∀ (e : Expr) (env : Environment), e.Constant scope → InScope scope env →
    eval e env = constant e env

/-- An operator does on constants what another does. -/
def AgreesBy (scope : Environment) : Handler → Handler → Prop
  | .onValues f, .onValues g =>
    ∀ values : List Value, (∀ v ∈ values, plainData.Good v) → f values = g values
  | .onOperands f, .onOperands g =>
    ∀ (eval constant : Evaluator) (operands : List Expr) (env : Environment),
      Agrees scope eval constant → plainData.Keeps constant →
      (∀ e ∈ operands, e.Constant scope) → InScope scope env →
      f eval operands env = g constant operands env
  | _, _ => False

section Agreement

variable {scope env : Environment} {eval constant : Evaluator}

theorem Agrees.evaluateAll (agrees : Agrees scope eval constant) {operands : List Expr}
    (he : ∀ e ∈ operands, e.Constant scope) (hs : InScope scope env) :
    Interpretation.evaluateAll eval operands env
      = Interpretation.evaluateAll constant operands env :=
  mapM_congr fun e hm => agrees e env (he e hm) hs

theorem Agrees.evaluateFields (agrees : Agrees scope eval constant)
    {fields : List (String × Expr)} (he : ∀ field ∈ fields, field.2.Constant scope)
    (hs : InScope scope env) :
    Interpretation.evaluateFields eval env fields
      = Interpretation.evaluateFields constant env fields := by
  induction fields with
  | nil => rfl
  | cons field rest ih =>
    obtain ⟨name, e⟩ := field
    rw [Interpretation.evaluateFields, Interpretation.evaluateFields,
      agrees e env (he _ (List.mem_cons_self ..)) hs,
      ih fun field hf => he field (List.mem_cons_of_mem _ hf)]

theorem agreesBy_wait :
    AgreesBy scope (.onOperands PlainOperators.wait) (.onOperands PlainOperators.wait) := by
  intro eval constant operands env agrees _ he hs
  rw [PlainOperators.wait, PlainOperators.wait, agrees.evaluateAll he hs]

/-- The body of a definition is evaluated where what is bound is a constant, and so plain. -/
theorem agreesBy_define :
    AgreesBy scope (.onOperands PlainOperators.define) (.onOperands PlainOperators.define) := by
  intro eval constant operands env agrees keeps he hs
  rcases operands with _ | ⟨target, _ | ⟨bound, bodies⟩⟩
  · rfl
  · rfl
  · have hbound : bound.Constant scope := he bound (by simp)
    simp only [PlainOperators.define]
    rw [agrees bound env hbound hs]
    split
    · rfl
    · split
      · rfl
      · next symbol _ token name _ =>
        cases hv : constant bound env with
        | error e => rfl
        | ok v =>
          -- what is bound is plain, so the body stands in a scope of the same kind
          have good : plainData.Good v := keeps bound env hbound.data hs.bindings v hv
          rcases bodies with _ | ⟨body, _ | ⟨more, rest⟩⟩
          · rfl
          · have same : ∀ inner, env.extend token name v = .ok inner →
                eval body inner = constant body inner := by
              intro inner extended
              rw [Environment.extend] at extended
              split at extended
              · obtain rfl := Except.ok.inj extended
                have bound := hs.bindings.bind token name good
                exact agrees body _ (he body (by simp)) ⟨hs.tokens, bound⟩
              · cases extended
            show (env.extend token name v >>= eval body)
              = (env.extend token name v >>= constant body)
            cases extended : env.extend token name v with
            | error e => rfl
            | ok inner => exact same inner extended
          · rfl

theorem agreesBy_filter :
    AgreesBy scope (.onOperands Scalar.filter) (.onOperands Scalar.filter) := by
  intro eval constant operands env agrees _ he hs
  rw [Scalar.filter.eq_def, Scalar.filter.eq_def]
  split
  · next field condition =>
    rw [agrees condition env (he condition (by simp)) hs, agrees field env (he field (by simp)) hs]
  · rfl

/-- What an operator on data does, it does with every evaluator of constants. -/
theorem agreesBy_self {op : Operator} {h : Handler} (hh : handler op = some h) :
    AgreesBy scope h h := by
  rcases handler_cases hh with hh | ⟨-, hh⟩
  · cases op <;> simp only [PlainOperators.handler, Option.some.injEq, reduceCtorEq] at hh <;>
      subst hh
    case wait => exact agreesBy_wait
    case define => exact agreesBy_define
    all_goals exact fun _ _ => rfl
  · cases op <;> simp only [Scalar.handler, Option.some.injEq, reduceCtorEq] at hh <;> subst hh
    case filter => exact agreesBy_filter
    all_goals exact fun _ _ => rfl

/-! ## Levels -/

variable {i : Interpretation}

/-- A call of an operator on data is a constant if its operands are. -/
theorem agrees_apply
    (handles : ∀ op h, handler op = some h → ∃ k, i.handler op = some k ∧ AgreesBy scope k h)
    (agrees : Agrees scope eval constant) (keeps : plainData.Keeps constant) {op : Operator}
    {operands : List Expr} (onData : op ∈ Operator.onData)
    (he : op ≠ .quote → ∀ e ∈ operands, e.Constant scope) (hs : InScope scope env) :
    i.apply eval op operands env = interpretation.apply constant op operands env := by
  rw [Interpretation.apply, Interpretation.apply]
  split
  · -- a quotation evaluates nothing
    rfl
  · next other =>
    have good := he other
    obtain ⟨h, hh⟩ := Option.isSome_iff_exists.1 (handler_isSome onData other)
    obtain ⟨k, hk, same⟩ := handles op h hh
    have handled : interpretation.handler op = some h := hh
    rw [hk, handled]
    cases k with
    | onValues f =>
      cases h with
      | onValues g =>
        show (Interpretation.evaluateAll eval operands env >>= f)
          = (Interpretation.evaluateAll constant operands env >>= g)
        rw [agrees.evaluateAll good hs]
        have plain := Invariant.evaluateAll keeps (fun e hm => (good e hm).data) hs.bindings
        cases values : Interpretation.evaluateAll constant operands env with
        | error e => rfl
        | ok values' => exact same values' (plain values' values)
      | onOperands g => exact same.elim
    | onOperands f =>
      cases h with
      | onValues g => exact same.elim
      | onOperands g => exact same eval constant operands env agrees keeps good hs

/-- One level of evaluation gives constants their values if the levels below do. -/
theorem agrees_step
    (resolves : ∀ env token name, ¬NamesRows token → i.resolve env token name
      = resolve env token name)
    (handles : ∀ op h, handler op = some h → ∃ k, i.handler op = some k ∧ AgreesBy scope k h)
    (agrees : Agrees scope eval constant) (keeps : plainData.Keeps constant) :
    Agrees scope (i.step eval) (interpretation.step constant) := by
  intro e env he hs
  cases e with
  | literal v => rfl
  | quoted items => rfl
  | symbol s =>
    rw [Interpretation.step, Interpretation.step, Interpretation.resolveSymbol,
      Interpretation.resolveSymbol]
    split
    · next token name split =>
      rw [Environment.splitSymbol?_congr hs.tokens] at split
      exact resolves env token name (he.symbols.here s token name rfl split)
    · rfl
  | record fields =>
    rw [Interpretation.step, Interpretation.step]
    have inside : ∀ field ∈ fields, field.2.Constant scope :=
      fun field hf => he.inside (by simp [Expr.operator?, Expr.head?]) (List.mem_map_of_mem hf)
    rw [agrees.evaluateFields inside hs]
  | list items =>
    cases items with
    | nil => rfl
    | cons head operands =>
      rw [Interpretation.step, Interpretation.step, Interpretation.call, Interpretation.call]
      cases hname : head.asName? with
      | none => rfl
      | some name =>
        cases hop : Operator.ofName? name with
        | none => simp only [hop]
        | some op =>
          have calls : (Expr.list (head :: operands)).operator? = some op := by
            simp [Expr.operator?, Expr.head?, hname, hop]
          simp only [hop]
          refine agrees_apply handles agrees keeps (he.onData calls) (fun other e hm => ?_) hs
          refine he.inside (fun quotes => other ?_) (List.mem_cons_of_mem head hm)
          exact Option.some.inj (calls.symm.trans quotes)

/-- An interpretation of names and operators as of constants gives constants their values. -/
theorem agrees_evaluateLevels
    (resolves : ∀ env token name, ¬NamesRows token → i.resolve env token name
      = resolve env token name)
    (handles : ∀ op h, handler op = some h → ∃ k, i.handler op = some k ∧ AgreesBy scope k h)
    (levels : Nat) :
    Agrees scope (i.evaluateLevels levels) (interpretation.evaluateLevels levels) := by
  induction levels with
  | zero => exact fun _ _ _ _ => rfl
  | succ levels ih => exact agrees_step resolves handles ih (keeps levels)

end Agreement

/-! ## The two interpretations -/

variable {scope : Environment}

/-- Evaluation in memory gives constants their values. -/
theorem agrees_inMemory (levels : Nat) :
    Agrees scope (InMemory.interpretation.evaluateLevels levels)
      (interpretation.evaluateLevels levels) := by
  refine agrees_evaluateLevels ?_ ?_ levels
  · intro env token name other
    have notRow : token ≠ rowToken := fun row => other (.inl row)
    have noAlias : aliasOfToken? token = none :=
      Option.not_isSome_iff_eq_none.1 fun known => other (.inr (.inr known))
    show InMemory.resolve env token name = resolve env token name
    simp [InMemory.resolve, resolve, notRow, noAlias]
  · intro op h hh
    refine ⟨h, ?_, agreesBy_self hh⟩
    show InMemory.handler op = some h
    rcases handler_cases hh with plain | ⟨noPlain, scalar⟩
    · simp [InMemory.handler, plain]
    · simp [InMemory.handler, noPlain, scalar]

/-- Plain data is no part of a statement. -/
theorem isSql_of_good {v : Value} (hv : plainData.Good v) : v.isSql = false := by
  have plain := hv.here
  cases v with
  | column c => exact nomatch plain
  | fragment f => exact nomatch plain
  | _ => rfl

/-- On plain data an operator of statements is computed. -/
theorem orCompute_of_good {compute sql : List Value → Result Value} {values : List Value}
    (hv : ∀ v ∈ values, plainData.Good v) :
    SqlScalar.orCompute compute sql values = compute values := by
  have noSql : values.any Value.isSql = false :=
    List.any_eq_false.2 fun v hm => by rw [isSql_of_good (hv v hm)]; exact Bool.false_ne_true
  rw [SqlScalar.orCompute, noSql]
  rfl

/-- Statements check the part of a date themselves, and again as it is computed. -/
theorem extract_of_good {values : List Value} (hv : ∀ v ∈ values, plainData.Good v) :
    SqlScalar.extract values = Scalar.extract values := by
  rcases values with _ | ⟨named, _ | ⟨v, _ | ⟨more, rest⟩⟩⟩
  · rfl
  · rfl
  · have noSql : v.isSql = false := isSql_of_good (hv v (by simp))
    -- the first check of the part fails or changes nothing
    have twice : SqlScalar.extract [named, v]
        = (Scalar.datePart named >>= fun _ => Scalar.extract [named, v]) := by
      show (Scalar.datePart named >>= fun part => if v.isSql = true then _ else _) = _
      rw [noSql]
      rfl
    obtain ⟨ofPart, memory⟩ : ∃ ofPart, Scalar.extract [named, v]
        = (Scalar.datePart named >>= ofPart) := ⟨_, rfl⟩
    rw [twice, memory]
    cases Scalar.datePart named <;> rfl
  · rfl

/-- A condition that is a constant picks the field or null. -/
theorem agreesBy_sqlFilter :
    AgreesBy scope (.onOperands SqlScalar.filter) (.onOperands Scalar.filter) := by
  intro eval constant operands env agrees keeps he hs
  rcases operands with _ | ⟨field, _ | ⟨condition, _ | ⟨more, rest⟩⟩⟩
  · rfl
  · rfl
  · have hc : condition.Constant scope := he condition (by simp)
    simp only [SqlScalar.filter, Scalar.filter]
    rw [agrees condition env hc hs, agrees field env (he field (by simp)) hs]
    cases hv : constant condition env with
    | error e => rfl
    | ok v =>
      have noSql : v.isSql = false := isSql_of_good (keeps condition env hc.data hs.bindings v hv)
      show (if v.isSql then _ else _) = _
      rw [noSql]
      rfl
  · rfl

/-- The scalar operators of statements do on constants what they do in memory. -/
theorem agreesBy_sqlScalar {op : Operator} {h : Handler} (hh : Scalar.handler op = some h) :
    ∃ k, SqlScalar.handler op = some k ∧ AgreesBy scope k h := by
  cases op <;> simp only [Scalar.handler, Option.some.injEq, reduceCtorEq] at hh <;> subst hh
  case extract => exact ⟨_, rfl, fun _ hv => extract_of_good hv⟩
  case filter => exact ⟨_, rfl, agreesBy_sqlFilter⟩
  all_goals exact ⟨_, rfl, fun _ hv => orCompute_of_good hv⟩

/-- Compilation gives constants their values. -/
theorem agrees_sql (levels : Nat) :
    Agrees scope (Sql.interpretation.evaluateLevels levels)
      (interpretation.evaluateLevels levels) := by
  refine agrees_evaluateLevels ?_ ?_ levels
  · intro env token name other
    have notRow : token ≠ rowToken := fun row => other (.inl row)
    have notTable : token ≠ tableToken := fun table => other (.inr (.inl table))
    have noAlias : aliasOfToken? token = none :=
      Option.not_isSome_iff_eq_none.1 fun known => other (.inr (.inr known))
    show Sql.resolve env token name = resolve env token name
    simp [Sql.resolve, resolve, notRow, notTable, noAlias]
  · intro op h hh
    rcases handler_cases hh with plain | ⟨noPlain, scalar⟩
    · refine ⟨h, ?_, agreesBy_self hh⟩
      show Sql.handler op = some h
      simp [Sql.handler, plain]
    · obtain ⟨k, hk, same⟩ : ∃ k, SqlScalar.handler op = some k ∧ AgreesBy scope k h :=
        agreesBy_sqlScalar scalar
      refine ⟨k, ?_, same⟩
      show Sql.handler op = some k
      simp [Sql.handler, noPlain, hk]

end Constants

/-! ## Constants in a context -/

/-- Plain data holds no relation that would come back as an array. -/
theorem Value.materialize_of_plain {v : Value} (h : v.Plain) : v.materialize = v := by
  induction h with
  | @intro v here _ ih =>
    cases v with
    | array items =>
      have same : ∀ item ∈ items, item.materialize = item := ih
      rw [materialize, materializeList_eq_map, List.map_congr_left same, List.map_id']
    | object fields =>
      have same : ∀ field ∈ fields, (field.1, field.2.materialize) = field :=
        fun field hf => Prod.ext rfl (ih _ (List.mem_map_of_mem hf))
      rw [materialize, materializeFields_eq_map, List.map_congr_left same, List.map_id']
    | rows list => exact nomatch here
    | _ => rfl

/-- Plain data is no statement. -/
theorem Sql.Compiled.ofValue_of_plain {v : Value} (h : v.Plain) (style : PlaceholderStyle) :
    ofValue style v = .value v := by
  have here := h.here
  cases v <;> first | rfl | exact nomatch here

/-- A constant expression compiles to what it is in memory. -/
theorem Expr.Constant.compile_eq {e : Expr} {context : Context}
    (constant : e.Constant ((Environment.ofContext context).declareTables e)) (hc : context.Plain)
    (style : PlaceholderStyle) :
    Sql.compile style e context = (InMemory.evaluate e context).map Sql.Compiled.value := by
  have here : Constants.InScope ((Environment.ofContext context).declareTables e)
      ((Environment.ofContext context).declareTables e) := ⟨rfl, hc⟩
  have inMemory := Constants.agrees_inMemory e.depth e _ constant here
  have inSql := Constants.agrees_sql e.depth e _ constant here
  have plain := Constants.keeps e.depth e ((Environment.ofContext context).declareTables e)
    constant.data hc
  rw [Sql.compile, Sql.evaluateIn, Interpretation.evaluate, inSql, InMemory.evaluate,
    InMemory.evaluateIn, Interpretation.evaluate, InMemory.environment, inMemory]
  cases outcome : Constants.interpretation.evaluateLevels e.depth e
      ((Environment.ofContext context).declareTables e) with
  | error failure => rfl
  | ok v =>
    have good : v.Plain := plain v outcome
    show Except.ok (Sql.Compiled.ofValue style v) = .ok (.value v.materialize)
    rw [Sql.Compiled.ofValue_of_plain good, Value.materialize_of_plain good]

/-- A constant expression compiles to the value that it has in memory, and to nothing but that, or
it fails in both with the same error. -/
theorem compile_constant {e : Expr} {context : Context} (he : e.Plain) (hc : context.Plain)
    (calls : e.CallsOnly Operator.onData)
    (symbols : e.Everywhere
      (Expr.Unbound ((Environment.ofContext context).declareTables e)))
    (style : PlaceholderStyle) :
    Sql.compile style e context = (InMemory.evaluate e context).map Sql.Compiled.value :=
  Expr.Constant.compile_eq ⟨calls, symbols, he⟩ hc style

/-- A definition, a name that the caller binds, and a call that is no constant but is quoted. -/
theorem constant_of_definition :
    Sql.compile .dollar (.list [.symbol "_define", .symbol "#total",
        .list [.symbol "+", .literal (.integer 1), .literal (.integer 2)],
        .list [.symbol "$concat", .symbol "#user", .symbol "#total",
          .list [.symbol "$quote", .list [.symbol "$sum", .symbol "x"]]]])
      [("#", [("user", .string "Ann")])] = .ok (.value (.string "Ann3$sumx")) := by
  have number : ∀ n, (Value.integer n).Everywhere fun v => v.isPlain = true :=
    fun n => .of_parts_nil rfl rfl
  have text : (Value.string "Ann").Everywhere fun v => v.isPlain = true := .of_parts_nil rfl rfl
  have name : ∀ s, (Expr.symbol s).CallsOnly Operator.onData := fun s => .of_parts_nil rfl rfl
  have value : ∀ v, (Expr.literal v).CallsOnly Operator.onData := fun v => .of_parts_nil rfl rfl
  rw [compile_constant]
  · rfl
  · simp [Expr.Plain, Expr.Holds, Expr.data, number]
  · simpa [Context.Plain, Context.Holds] using text
  · refine .call .define (by decide) ?_
    simp only [List.forall_mem_cons, List.not_mem_nil, false_implies, implies_true, and_true]
    refine ⟨name _, .call .add (by decide) ?_, .call .concat (by decide) ?_⟩
    · simp [value]
    · simpa [name] using .quotation rfl
  · simp only [Expr.Everywhere.list_iff, Expr.Everywhere.symbol_iff, Expr.Everywhere.literal_iff,
      List.forall_mem_cons, List.not_mem_nil, false_implies, implies_true, and_true,
      Expr.unbound_symbol_iff, Expr.unbound_list, Expr.unbound_literal, true_and]
    decide +kernel

end QueryForms
