import QueryForms.Proofs.Declarations
import QueryForms.Proofs.InMemory.Resolution
import QueryForms.Proofs.UnusedTable

/-!
# Namespaces of a context

A context is read from a record of namespaces by binding each of their names in turn. So a namespace
that binds a name is declared, and so is a token for each table, but nothing is left of a namespace
without names (`namespace_without_names`): a symbol that begins with its key is its own text. For
the others a symbol that begins with the key is never that, wherever evaluation meets it, and a name
that is not bound in it is null (`namespaces_are_declared`).

Which symbols are their own text is observed by a watcher: `Interpretation.textWatched` hands it
each symbol that begins with no token and goes on with what it gives back.
-/

namespace QueryForms

/-! ## What a record of namespaces binds -/

namespace Context

/-- The names of a record of namespaces with their values, each after its namespace. -/
def listed (namespaces : Record) : List (String × String × Value) :=
  namespaces.flatMap fun entry => (Row.fieldsOf entry.2).map (Prod.mk entry.1)

/-- Bind names one after the other. -/
def bindEach (context : Context) (names : List (String × String × Value)) : Context :=
  names.foldl (fun context entry => context.bind entry.1 entry.2.1 entry.2.2) context

theorem bindEach_cons (context : Context) (entry : String × String × Value)
    (rest : List (String × String × Value)) : context.bindEach (entry :: rest)
      = (context.bind entry.1 entry.2.1 entry.2.2).bindEach rest :=
  rfl

/-- A name of a context stands under the token of its namespace. -/
def Names (context : Context) (token name : String) : Prop :=
  ∃ names, (token, names) ∈ context ∧ name ∈ Entries.keys names

theorem names_cons {entry : String × Record} {rest : Context} {token name : String} :
    Names (entry :: rest) token name
      ↔ (token = entry.1 ∧ name ∈ Entries.keys entry.2) ∨ Names rest token name := by
  simp only [Names, List.mem_cons, Prod.ext_iff, or_and_right, exists_or, and_assoc,
    exists_and_left, exists_eq_left]

/-- Binding a name adds it to its namespace. -/
theorem names_bind {context : Context} {token name : String} {v : Value} {other word : String} :
    (context.bind token name v).Names other word
      ↔ context.Names other word ∨ (other = token ∧ word = name) := by
  rw [bind]
  induction context with
  | nil => simp [Names, Entries.get?, Entries.set, Entries.keys]
  | cons entry rest ih =>
    obtain ⟨first, names⟩ := entry
    by_cases here : first = token
    · subst here
      simp only [Entries.get?, Entries.set, if_pos, Option.getD_some, names_cons,
        Entries.mem_keys_set, and_or_left, or_right_comm]
    · simp only [Entries.get?, Entries.set, if_neg here, names_cons, ih, or_assoc]

/-- The names of a context are those that were bound. -/
theorem names_bindEach {names : List (String × String × Value)} {context : Context}
    {token name : String} : (context.bindEach names).Names token name
      ↔ context.Names token name ∨ ∃ v, (token, name, v) ∈ names := by
  induction names generalizing context with
  | nil => simp [bindEach]
  | cons entry rest ih =>
    rw [bindEach_cons, ih, names_bind, or_assoc]
    simp only [List.mem_cons, Prod.ext_iff, exists_or, exists_and_left, exists_eq, and_true]

/-- The namespaces of a context are those in which a name was bound. -/
theorem mem_keys_bindEach {names : List (String × String × Value)} {context : Context}
    {token : String} : token ∈ Entries.keys (context.bindEach names)
      ↔ token ∈ Entries.keys context ∨ ∃ named, (token, named) ∈ names := by
  induction names generalizing context with
  | nil => simp [bindEach]
  | cons entry rest ih =>
    obtain ⟨first, named⟩ := entry
    rw [bindEach_cons, ih, bind, Entries.mem_keys_set, or_assoc]
    simp only [List.mem_cons, Prod.mk.injEq, exists_or, exists_and_left, exists_eq, and_true]

theorem mem_listed {namespaces : Record} {token name : String} {v : Value} :
    (token, name, v) ∈ listed namespaces
      ↔ ∃ fields, (token, .object fields) ∈ namespaces ∧ (name, v) ∈ fields := by
  simp only [listed, List.mem_flatMap, List.mem_map, Prod.mk.injEq]
  constructor
  · rintro ⟨⟨other, names⟩, inside, entry, among, rfl, rfl⟩
    cases names with
    | object fields => exact ⟨fields, inside, among⟩
    | _ => exact absurd among List.not_mem_nil
  · rintro ⟨fields, inside, among⟩
    exact ⟨_, inside, _, among, rfl, rfl⟩

/-- One more namespace of a record is bound after those before it. -/
theorem bindEach_listed_cons (context : Context) (token : String) (fields namespaces : Record) :
    context.bindEach (listed ((token, .object fields) :: namespaces))
      = (context.bindAll token fields).bindEach (listed namespaces) := by
  rw [listed, List.flatMap_cons, bindEach, List.foldl_append, List.foldl_map]
  rfl

/-- A context is read from a record by binding its names one after the other. -/
theorem ofValue_eq {v : Value} {context : Context} (accepted : ofValue v = .ok context) :
    ∃ namespaces, v = .object namespaces ∧ context = bindEach [] (listed namespaces) := by
  cases v with
  | object namespaces =>
    refine ⟨namespaces, rfl, ?_⟩
    rw [ofValue] at accepted
    -- the induction is on the namespaces still to come
    generalize [] = start at accepted ⊢
    induction namespaces generalizing start with
    | nil => exact (Except.ok.inj accepted).symm
    | cons entry rest ih =>
      obtain ⟨token, names⟩ := entry
      cases names with
      | object fields =>
        rw [bindEach_listed_cons]
        exact ih (bindAll start token fields) accepted
      | _ => cases accepted
  | _ => cases accepted

end Context

/-! ## What it declares -/

/-- The tokens that a record of namespaces declares. -/
inductive Declares (namespaces : Record) (token : String) : Prop where
  /-- The row, the tables and the caller's values have their tokens without any. -/
  | standing (stands : token ∈ [rowToken, tableToken, contextToken])
  /-- The key of a namespace that binds a name. -/
  | ofNamespace {fields : Record} (inside : (token, .object fields) ∈ namespaces)
    (names : fields ≠ [])
  /-- A table. -/
  | ofTable {fields : Record} {name : String} (inside : (tableToken, .object fields) ∈ namespaces)
    (named : name ∈ Entries.keys fields) (own : token = aliasToken name)

namespace Environment

/-- A context declares the tokens of its namespaces and those of its tables. -/
theorem mem_tokens_ofContext {context : Context} {token : String} :
    token ∈ (ofContext context).tokens
      ↔ token ∈ [rowToken, tableToken, contextToken] ∨ token ∈ Entries.keys context ∨
        ∃ name, context.Names tableToken name ∧ token = aliasToken name := by
  rw [tokens_ofContext]
  generalize [rowToken, tableToken, contextToken] = tokens
  induction context generalizing tokens with
  | nil => simp [Context.Names, Entries.keys]
  | cons entry rest ih =>
    rw [List.foldl_cons, ih, mem_declareNamespace]
    simp only [Context.names_cons, Entries.keys_cons, List.mem_cons, or_and_right, exists_or,
      or_assoc, or_left_comm]

/-- What a record of namespaces declares is what is declared in the environment of its context. -/
theorem mem_tokens_iff_declares {namespaces : Record} {token : String} :
    token ∈ (ofContext (Context.bindEach [] (Context.listed namespaces))).tokens
      ↔ Declares namespaces token := by
  rw [mem_tokens_ofContext, Context.mem_keys_bindEach]
  simp only [Context.names_bindEach, Prod.exists, Context.mem_listed]
  constructor
  · rintro (stands | (none | ⟨name, v, fields, inside, named⟩) | ⟨name, bound, rfl⟩)
    · exact .standing stands
    · exact absurd none List.not_mem_nil
    · exact .ofNamespace inside (List.ne_nil_of_mem named)
    · rcases bound with none | ⟨v, fields, inside, named⟩
      · exact absurd none (by simp [Context.Names])
      · exact .ofTable inside (List.mem_map_of_mem named) rfl
  · rintro (stands | ⟨inside, names⟩ | ⟨inside, named, rfl⟩)
    · exact .inl stands
    · obtain ⟨⟨name, v⟩, among⟩ := List.exists_mem_of_ne_nil _ names
      exact .inr (.inl (.inr ⟨name, v, _, inside, among⟩))
    · obtain ⟨⟨name, v⟩, among, rfl⟩ := List.mem_map.1 named
      exact .inr (.inr ⟨name, .inr ⟨v, _, inside, among⟩, rfl⟩)

end Environment

/-! ## Symbols that are their own text -/

namespace Interpretation

/-- Evaluate, but hand a symbol that begins with no token to a watcher. -/
def watchText (watch : String → Result Value) (eval : Evaluator) : Evaluator := fun e env =>
  match e with
  | .symbol s => if (env.splitSymbol? s).isNone then watch s else eval e env
  | _ => eval e env

/-- Evaluate some levels, and hand each symbol that begins with no token to a watcher. -/
def textWatchedLevels (i : Interpretation) (watch : String → Result Value) : Nat → Evaluator
  | 0 => fun _ _ => .ok .null
  | levels + 1 => watchText watch (i.step (i.textWatchedLevels watch levels))

/-- Evaluate an expression, and hand each symbol that begins with no token to a watcher. -/
def textWatched (i : Interpretation) (watch : String → Result Value) : Evaluator :=
  fun e env => i.textWatchedLevels watch e.depth e env

/-- A watcher that passes a symbol changes nothing. -/
theorem watchText_step {i : Interpretation} {watch : String → Result Value} {eval : Evaluator}
    {e : Expr} {env : Environment}
    (passes : ∀ s, e = .symbol s → env.splitSymbol? s = none → watch s = .ok (.string s)) :
    watchText watch (i.step eval) e env = i.step eval e env := by
  cases e with
  | symbol s =>
    rw [watchText]
    split
    · next bare =>
      have unsplit := Option.isNone_iff_eq_none.1 bare
      rw [passes s rfl unsplit, step, resolveSymbol, unsplit]
    · rfl
  | _ => rfl

end Interpretation

/-- A watcher that passes the symbols that begin with no token where evaluation goes changes no
outcome. -/
theorem Accord.matches_textWatched {A : Accord} {i : Interpretation}
    {watch : String → Result Value}
    (passes : ∀ {a b s}, A.related a b → a.splitSymbol? s = none → watch s = .ok (.string s))
    (step : ∀ eval other, A.Matches eval other → A.Matches (i.step eval) (i.step other))
    (levels : Nat) : A.Matches (i.textWatchedLevels watch levels) (i.evaluateLevels levels) := by
  induction levels with
  | zero => exact fun _ _ _ _ _ => Concurs.ok_iff.2 Invariant.good_null
  | succ levels ih =>
    intro e a b he related
    rw [Interpretation.textWatchedLevels, Interpretation.evaluateLevels,
      Interpretation.watchText_step fun s _ => passes related]
    exact step _ _ ih e a b he related

/-- Environments that declare some tokens, for any expression. -/
def Accord.declaring (tokens : List String) : Accord where
  toUniverse := Accord.alike.toUniverse
  related a b := a = b ∧ ∀ token ∈ tokens, token ∈ a.tokens
  bindings {a _} _ := (Environment.Holds.of_forall (fun _ => trivial) a).bindings
  row {a _} h := ⟨h.1 ▸ rfl, (Environment.Holds.of_forall (fun _ => trivial) a).row⟩
  window {a _ _ _} h _ _ _ := ⟨h.1 ▸ rfl, (Environment.Holds.of_forall (fun _ => trivial) a).window⟩
  split h _ _ := h.1 ▸ rfl
  binding h _ _ := h.1 ▸ rfl
  wildcard h _ _ _ := h.1 ▸ rfl
  surround h same _ := ⟨congrArg₂ Environment.surround h.1 same, h.2⟩
  withWindow h same _ :=
    ⟨congrArg₂ Environment.withWindow h.1 (Row.Mask.hideWindow_clear_inj same), h.2⟩
  defined h _ _ _ _ := ⟨h.1 ▸ rfl, h.2⟩

namespace InMemory

/-- A watcher that passes the symbols that begin with none of some tokens changes no outcome where
these are declared: such symbols alone are their own text. -/
theorem textWatched_eq_evaluateIn {tokens : List String} {watch : String → Result Value}
    {env : Environment} (declared : ∀ token ∈ tokens, token ∈ env.tokens)
    (passes : ∀ s, (∀ token ∈ tokens, stripStart? token s = none) → watch s = .ok (.string s))
    (e : Expr) : interpretation.textWatched watch e env = evaluateIn env e := by
  have everywhere : e.Everywhere (Accord.declaring tokens).expr :=
    (Expr.everywhere_depth_le (Nat.le_refl _)).mono fun _ _ => trivial
  refine (Accord.matches_textWatched (A := .declaring tokens) ?_
    (fun _ _ => matches_step fun _ => trivial) e.depth e env env everywhere ⟨rfl, declared⟩).1
  intro a _ s related unsplit
  have longest := a.isLongest_splitSymbol? s
  rw [unsplit] at longest
  exact passes s fun token inside => longest token (related.2 token inside)

end InMemory

/-! ## Symbols that begin with a key -/

/-- A symbol that begins with a declared token is split, at that token or at a longer one. -/
theorem Environment.exists_splitSymbol? {scope : Environment} {token : String}
    (declared : token ∈ scope.tokens) (rest : String) :
    ∃ longest name, scope.splitSymbol? (token ++ rest) = some (longest, name) ∧
      token.toList.length ≤ longest.toList.length := by
  have begins : stripStart? token (token ++ rest) = some rest := stripStart?_eq_some_iff.2 rfl
  have longest := scope.isLongest_splitSymbol? (token ++ rest)
  cases split : scope.splitSymbol? (token ++ rest) with
  | none =>
    rw [split] at longest
    exact nomatch (longest token declared).symm.trans begins
  | some found =>
    rw [split] at longest
    exact ⟨found.1, found.2, rfl, longest.2.2 token declared rest begins⟩

namespace InMemory

variable {scope : Environment} {token name : String}

/-- The current row, if there is one, has nothing under a name after a token. -/
def RowLacks (scope : Environment) (token name : String) : Prop :=
  ∀ row ∈ scope.row,
    if token = rowToken then row.lookup name = .null
    else ∀ table, token = aliasToken table → row.lookupQualified table name = .null

/-- What is read in the current row is null if it is null in every row. -/
theorem getD_row_eq_null {row : Option Row} {read : Row → Value}
    (lacks : ∀ r ∈ row, read r = .null) : (row.map read).getD .null = .null := by
  cases row with
  | none => rfl
  | some r => exact lacks r rfl

/-- A name that is neither bound nor in the row is null. -/
theorem resolve_of_missing (unbound : scope.binding? token name = none)
    (lacks : RowLacks scope token name) : resolve scope token name = .ok .null := by
  by_cases own : token = rowToken
  · subst own
    rw [resolve_rowToken (getD_row_eq_null fun row here => by simpa using lacks row here), unbound]
    rfl
  · by_cases qualified : ∃ table, token = aliasToken table
    · obtain ⟨table, rfl⟩ := qualified
      have named : table ≠ "" := fun empty => own (empty ▸ rfl)
      rw [resolve_of_alias named, getD_row_eq_null fun row here => ?_]
      have nothing := lacks row here
      rw [if_neg own] at nothing
      exact nothing table rfl
    · rw [resolve_of_no_alias (not_exists.1 qualified), unbound]
      rfl

/-- Of the namespaces that a context is read from those that bind a name are declared, and nothing
else but the standing tokens and the tables. A symbol that begins with what they declare is never
its own text where evaluation goes, and is null where its name is neither bound nor in the row. -/
theorem namespaces_are_declared {v : Value} {context : Context}
    (accepted : Context.ofValue v = .ok context) :
    ∃ namespaces, v = .object namespaces ∧
      (∀ token, token ∈ (Environment.ofContext context).tokens ↔ Declares namespaces token) ∧
      (∀ (watch : String → Result Value) (e : Expr),
        (∀ s, (∀ token, Declares namespaces token → stripStart? token s = none) →
          watch s = .ok (.string s)) →
        interpretation.textWatched watch e (environment context e)
          = evaluateIn (environment context e) e) ∧
      ∀ (scope : Environment) (token rest : String),
        (∀ declared ∈ (Environment.ofContext context).tokens, declared ∈ scope.tokens) →
        Declares namespaces token →
        ∃ longest name, scope.splitSymbol? (token ++ rest) = some (longest, name) ∧
          token.toList.length ≤ longest.toList.length ∧
          (scope.binding? longest name = none → RowLacks scope longest name →
            evaluateIn scope (.symbol (token ++ rest)) = .ok .null) := by
  obtain ⟨namespaces, rfl, rfl⟩ := Context.ofValue_eq accepted
  refine ⟨namespaces, rfl, fun _ => Environment.mem_tokens_iff_declares, ?_, ?_⟩
  · intro watch e passes
    refine textWatched_eq_evaluateIn
      (fun token declared => (Environment.mem_declareIn _ e).2 (.inl declared)) (fun s begins => ?_) e
    exact passes s fun token declares =>
      begins token (Environment.mem_tokens_iff_declares.2 declares)
  · intro scope token rest keeps declares
    obtain ⟨longest, name, split, length⟩ := Environment.exists_splitSymbol?
      (keeps token (Environment.mem_tokens_iff_declares.2 declares)) rest
    refine ⟨longest, name, split, length, fun unbound lacks => ?_⟩
    rw [evaluateIn_symbol scope split, resolve_of_missing unbound lacks]

/-- A namespace with one name: the watcher stops at symbols that begin with its key, and sees none;
another name of it is null. -/
theorem namespaces_are_declared_of_one_name :
    "x~" ∈ (Environment.ofContext [("x~", [("a", .integer 1)])]).tokens ∧
      interpretation.textWatched
          (fun s => if (stripStart? "x~" s).isSome then .error (.unknownOperator s)
            else .ok (.string s))
          (.list [.symbol "=", .symbol "x~b", .symbol "b"])
          (environment [("x~", [("a", .integer 1)])]
            (.list [.symbol "=", .symbol "x~b", .symbol "b"]))
        = .ok (.boolean false) ∧
      evaluateIn (environment [("x~", [("a", .integer 1)])] (.symbol "x~b")) (.symbol "x~b")
        = .ok .null := by
  have accepted : Context.ofValue (.object [("x~", .object [("a", .integer 1)])])
      = .ok [("x~", [("a", .integer 1)])] := rfl
  obtain ⟨namespaces, same, tokens, watched, missing⟩ := namespaces_are_declared accepted
  cases same
  have declares : Declares [("x~", .object [("a", .integer 1)])] "x~" :=
    .ofNamespace (List.mem_singleton.2 rfl) (List.cons_ne_nil _ _)
  refine ⟨(tokens _).2 declares, ?_, ?_⟩
  · refine (watched _ _ fun s begins => ?_).trans rfl
    rw [begins _ declares]
    rfl
  · obtain ⟨longest, name, split, -, null⟩ := missing
      (environment [("x~", [("a", .integer 1)])] (.symbol "x~b")) "x~" "b" (fun _ h => h) declares
    cases (show _ = some ("x~", "b") from rfl).symm.trans split
    exact null rfl (fun _ h => nomatch h)

/-- A namespace without names leaves nothing in the context, and a symbol that begins with its key
is its own text. -/
theorem namespace_without_names :
    Context.ofValue (.object [("x~", .object [])]) = .ok [] ∧
      "x~" ∉ (Environment.ofContext []).tokens ∧
      evaluate (.symbol "x~a") [] = .ok (.string "x~a") :=
  ⟨rfl, by decide, rfl⟩

end InMemory

end QueryForms
