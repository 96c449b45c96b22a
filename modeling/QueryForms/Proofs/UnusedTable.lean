import QueryForms.Proofs.InMemory.Relations
import QueryForms.Proofs.Sql.Agreement

/-!
# Tables that no name begins with

A table in a context is a name to read and a token to split symbols at. Where no name in an
expression begins with either, both interpretations give the same outcome with the table and without
it (`outcomes_of_ignored_table`). Environments that differ in the table alone are in accord: a symbol
is split alike, since it does not begin with the token, and what it means is bound alike, since
nothing it begins with is the table's name.
-/

namespace QueryForms

variable {table : String}

/-- Whether a name begins neither as the table does nor with its token. The token of the row is
always there, so it may be the table's. -/
def Overlooks (table s : String) : Prop :=
  stripStart? (tableToken ++ table) s = none ∧
    (stripStart? (aliasToken table) s = none ∨ aliasToken table = rowToken)

/-- No name in an expression begins with a table, written after its token `@` or before a colon. A
name is a symbol, or a text that a caller puts in the place of one. -/
def Expr.Ignores (table : String) (e : Expr) : Prop :=
  e.Everywhere fun part => ∀ s, part.asName? = some s →
    stripStart? (tableToken ++ table) s = none ∧ stripStart? (aliasToken table) s = none

/-- All fields are counted by a name that overlooks every table. -/
theorem overlooks_identifier (table : String) : Overlooks table ":id" := by
  refine ⟨stripStart?_eq_none_iff.2 fun rest eq => ?_, ?_⟩
  · have first := congrArg (·.toList.head?) eq
    simp [tableToken] at first
  · by_cases row : aliasToken table = rowToken
    · exact .inr row
    · refine .inl (stripStart?_eq_none_iff.2 fun rest eq => row ?_)
      -- the only colon stands at the start, so nothing stands before it in the token
      have text : [':', 'i', 'd'] = table.toList ++ ':' :: rest.toList := by
        simpa [aliasToken] using congrArg String.toList eq
      rcases List.append_eq_cons_iff.1 text.symm with ⟨empty, -⟩ | ⟨tail, -, later⟩
      · rw [aliasToken, rowToken, String.toList_eq_nil_iff.1 empty, String.empty_append]
      · have inside : ':' ∈ ['i', 'd'] := later ▸ List.mem_append_right _ (List.mem_cons_self ..)
        exact absurd inside (by decide)

/-! ## Tokens -/

/-- Declared tokens that are the same but for that of a table. -/
structure TokensBut (table : String) (tokens others : List String) : Prop where
  /-- The token of the row is there. -/
  row : rowToken ∈ tokens ∧ rowToken ∈ others
  /-- Any other token is in both or in neither. -/
  same : ∀ token, token ≠ aliasToken table → (token ∈ tokens ↔ token ∈ others)

namespace TokensBut

open Environment

variable {tokens others : List String} (h : TokensBut table tokens others)

include h

theorem addToken (token : String) :
    TokensBut table (addToken tokens token) (Environment.addToken others token) where
  row := ⟨mem_addToken.2 (.inl h.row.1), mem_addToken.2 (.inl h.row.2)⟩
  same other hne := by rw [mem_addToken, mem_addToken, h.same other hne]

/-- The token of the table, or one that is there on the other side, may be added on one side
alone. -/
theorem addLeft {token : String} (ht : token = aliasToken table ∨ token ∈ others) :
    TokensBut table (Environment.addToken tokens token) others where
  row := ⟨mem_addToken.2 (.inl h.row.1), h.row.2⟩
  same other hne := by
    rw [mem_addToken, h.same other hne]
    refine or_iff_left_of_imp ?_
    rintro rfl
    exact ht.resolve_left hne

theorem addAll (names : List String) :
    TokensBut table
      (names.foldl (fun tokens name => Environment.addToken tokens (aliasToken name)) tokens)
      (names.foldl (fun tokens name => Environment.addToken tokens (aliasToken name)) others) := by
  induction names generalizing tokens others with
  | nil => exact h
  | cons name rest ih => exact ih (h.addToken _)

theorem declareName (name : String) :
    TokensBut table (declareName tokens name) (Environment.declareName others name) := by
  rw [Environment.declareName, Environment.declareName]
  split
  · exact h
  · exact h.addToken _

end TokensBut

mutual

/-- An expression declares the same on both sides. -/
theorem TokensBut.declareIn {tokens others : List String} (h : TokensBut table tokens others) :
    ∀ e, TokensBut table (Environment.declareIn tokens e) (Environment.declareIn others e)
  | .literal _ => h
  | .quoted _ => h
  | .symbol s => by
    rw [Environment.declareIn, Environment.declareIn]
    split
    · exact h.declareName _
    · exact h
  | .list items => by
    rw [Environment.declareIn, Environment.declareIn]
    refine TokensBut.declareInList ?_ items
    split
    · split
      · exact h.declareName _
      · exact h
    · exact h
  | .record fields => TokensBut.declareInFields h fields

theorem TokensBut.declareInList {tokens others : List String}
    (h : TokensBut table tokens others) : ∀ items, TokensBut table
      (Environment.declareInList tokens items) (Environment.declareInList others items)
  | [] => h
  | e :: rest => TokensBut.declareInList (TokensBut.declareIn h e) rest

theorem TokensBut.declareInFields {tokens others : List String}
    (h : TokensBut table tokens others) : ∀ fields, TokensBut table
      (Environment.declareInFields tokens fields) (Environment.declareInFields others fields)
  | [] => h
  | (_, e) :: rest => TokensBut.declareInFields (TokensBut.declareIn h e) rest

end

/-! ## Environments -/

/-- Environments that are the same but for a table. -/
structure Environment.AlikeBut (table : String) (a b : Environment) : Prop where
  /-- The tokens are the same but for the table's. -/
  tokens : TokensBut table a.tokens b.tokens
  /-- What is bound is the same but for the table. -/
  bound : ∀ token name, (token = tableToken → name ≠ table) →
    a.bindings.bound? token name = b.bindings.bound? token name
  /-- The current row is the same. -/
  row : a.row = b.row
  /-- The window is the same. -/
  window : a.window = b.window

namespace Environment.AlikeBut

variable {a b : Environment} {s : String} (h : AlikeBut table a b)

include h

/-- A name that overlooks the table is split alike. -/
theorem split (overlooks : Overlooks table s) : a.splitSymbol? s = b.splitSymbol? s := by
  refine splitSymbol?_congr_mem fun token rest begins => ?_
  by_cases other : token = aliasToken table
  · subst other
    rcases overlooks.2 with fails | row
    · exact nomatch fails.symm.trans begins
    · rw [row]
      exact iff_of_true h.tokens.row.1 h.tokens.row.2
  · exact h.tokens.same token other

/-- A name that overlooks the table means the same. -/
theorem binding (overlooks : Overlooks table s) {token name : String}
    (split : a.splitSymbol? s = some (token, name)) :
    a.binding? token name = b.binding? token name := by
  refine binding?_congr fun first rest whole => h.bound token first ?_
  rintro rfl rfl
  refine stripStart?_eq_none_iff.1 overlooks.1 rest ?_
  rw [eq_append_of_splitSymbol? split, whole, String.append_assoc]

/-- The table whose fields a name stands for is declared in both or in neither. -/
theorem wildcard (overlooks : Overlooks table s) {other : String}
    (stands : Relation.tableOfWildcard? s = some other) :
    a.hasToken (aliasToken other) = b.hasToken (aliasToken other) := by
  have begins := Relation.eq_of_tableOfWildcard? stands
  have same : aliasToken other ∈ a.tokens ↔ aliasToken other ∈ b.tokens := by
    by_cases here : aliasToken other = aliasToken table
    · rcases overlooks.2 with fails | row
      · exact absurd (here ▸ begins) (stripStart?_eq_none_iff.1 fails "*")
      · rw [here, row]
        exact iff_of_true h.tokens.row.1 h.tokens.row.2
    · exact h.tokens.same _ here
  rw [Bool.eq_iff_iff, hasToken, hasToken, List.contains_iff_mem, List.contains_iff_mem, same]

/-- After a definition in both the environments still differ in the table alone. -/
theorem define (token name : String) (v : Value) :
    AlikeBut table { a with bindings := Context.bind a.bindings token name v }
      { b with bindings := Context.bind b.bindings token name v } where
  tokens := h.tokens
  bound other word away := by
    rw [Context.bound?_bind, Context.bound?_bind, h.bound other word away]
  row := h.row
  window := h.window

end Environment.AlikeBut

/-- Environments that differ in a table, for expressions whose names overlook it. -/
def Accord.but (table : String) : Accord where
  expr e := ∀ s, e.asName? = some s → Overlooks table s
  value _ := True
  plain _ _ := trivial
  literal v _ := .of_forall (fun _ => trivial) v
  quoted _ _ v _ := .of_forall (fun _ => trivial) v
  identifier _ _ _ named := Option.some.inj named ▸ overlooks_identifier table
  related := Environment.AlikeBut table
  bindings {a _} _ := (Environment.Holds.of_forall (fun _ => trivial) a).bindings
  row {a _} h := ⟨congrArg _ h.row, (Environment.Holds.of_forall (fun _ => trivial) a).row⟩
  window {a _ _ _} h _ _ _ := ⟨h.window, (Environment.Holds.of_forall (fun _ => trivial) a).window⟩
  split h overlooks named := h.split (overlooks _ named)
  binding h overlooks split := h.binding (overlooks _ rfl) split
  wildcard h overlooks named stands := h.wildcard (overlooks _ named) stands
  surround h same _ := { h with row := congrArg some same }
  withWindow h same _ := { h with window := congrArg some (Row.Mask.hideWindow_clear_inj same) }
  defined h _ _ _ _ := h.define _ _ _

/-! ## Contexts -/

namespace Environment

/-- Add the token of a namespace, and those of its tables. -/
def declareNamespace (tokens : List String) (entry : String × Record) : List String :=
  if entry.1 = tableToken then
    (Entries.keys entry.2).foldl (fun tokens name => addToken tokens (aliasToken name))
      (addToken tokens entry.1)
  else addToken tokens entry.1

theorem tokens_ofContext (context : Context) : (ofContext context).tokens
    = context.foldl declareNamespace [rowToken, tableToken, contextToken] :=
  rfl

theorem mem_foldl_addToken {tokens names : List String} {token : String} :
    token ∈ names.foldl (fun tokens name => addToken tokens (aliasToken name)) tokens
      ↔ token ∈ tokens ∨ ∃ name ∈ names, token = aliasToken name := by
  induction names generalizing tokens with
  | nil => simp
  | cons name rest ih => simp [ih, mem_addToken, or_assoc]

/-- A namespace adds its own token, and that of the tables those of its names. -/
theorem mem_declareNamespace {tokens : List String} {entry : String × Record} {token : String} :
    token ∈ declareNamespace tokens entry
      ↔ token ∈ tokens ∨ token = entry.1 ∨
        ∃ name, (tableToken = entry.1 ∧ name ∈ Entries.keys entry.2) ∧ token = aliasToken name := by
  rw [declareNamespace]
  split
  · next table =>
    simp only [mem_foldl_addToken, mem_addToken, or_assoc, table, true_and]
  · next other =>
    simp only [mem_addToken, Ne.symm other, false_and, exists_false, or_false]

end Environment

namespace TokensBut

open Environment

variable {tokens others : List String} (h : TokensBut table tokens others)

include h

theorem declareNamespace (entry : String × Record) :
    TokensBut table (declareNamespace tokens entry)
      (Environment.declareNamespace others entry) := by
  rw [Environment.declareNamespace, Environment.declareNamespace]
  split
  · exact (h.addToken _).addAll _
  · exact h.addToken _

theorem foldl (context : Context) :
    TokensBut table (context.foldl Environment.declareNamespace tokens)
      (context.foldl Environment.declareNamespace others) := by
  induction context generalizing tokens others with
  | nil => exact h
  | cons entry rest ih => exact ih (h.declareNamespace entry)

/-- Names of tables to which the table is added. -/
theorem addAll_set (names : Record) (v : Value) :
    TokensBut table
      ((Entries.keys (Entries.set names table v)).foldl
        (fun tokens name => Environment.addToken tokens (aliasToken name)) tokens)
      ((Entries.keys names).foldl
        (fun tokens name => Environment.addToken tokens (aliasToken name)) others) := by
  rw [Entries.keys_set]
  split
  · exact h.addAll _
  · rw [List.foldl_append]
    exact (h.addAll _).addLeft (.inl rfl)

/-- One more table among the namespaces is one more token. -/
theorem foldl_set (standing : tableToken ∈ others) (context : Context) (v : Value) :
    TokensBut table
      ((context.bind tableToken table v).foldl Environment.declareNamespace tokens)
      (context.foldl Environment.declareNamespace others) := by
  rw [Context.bind]
  induction context generalizing tokens others with
  | nil =>
    -- the namespace of the tables is new, its token is not
    have added := (h.addLeft (.inr standing)).addLeft (.inl rfl)
    simpa [Entries.set, Entries.keys, Environment.declareNamespace] using added
  | cons entry rest ih =>
    obtain ⟨token, names⟩ := entry
    by_cases here : token = tableToken
    · subst here
      simp only [Entries.get?, if_pos, Option.getD_some, Entries.set, List.foldl_cons]
      refine foldl ?_ rest
      simp only [Environment.declareNamespace, if_pos]
      exact (h.addToken _).addAll_set names v
    · simp only [Entries.get?, if_neg here, Entries.set, List.foldl_cons]
      exact ih (h.declareNamespace _) (mem_declareNamespace.2 (.inl standing))

end TokensBut

/-- In a context with one more table an expression is evaluated in an environment that differs in the
table alone. -/
theorem alikeBut_ofContext (context : Context) (table : String) (v : Value) (e : Expr) :
    Environment.AlikeBut table
      ((Environment.ofContext (context.bind tableToken table v)).declareTables e)
      ((Environment.ofContext context).declareTables e) where
  tokens := by
    have standing : TokensBut table [rowToken, tableToken, contextToken]
        [rowToken, tableToken, contextToken] :=
      ⟨⟨List.mem_cons_self .., List.mem_cons_self ..⟩, fun _ _ => Iff.rfl⟩
    have declared := standing.foldl_set (by simp) context v
    rw [← Environment.tokens_ofContext, ← Environment.tokens_ofContext] at declared
    exact declared.declareIn e
  bound token name away := by
    refine (Context.bound?_bind context tableToken table v token name).trans (if_neg ?_)
    exact fun ⟨here, same⟩ => away here same
  row := rfl
  window := rfl

/-! ## Both interpretations -/

/-- In an expression that is read from data the symbols are all there is to look at. -/
theorem Expr.ignores_ofValue {v : Value}
    (h : (ofValue v).Everywhere fun part => ∀ s, part = .symbol s →
      stripStart? (tableToken ++ table) s = none ∧ stripStart? (aliasToken table) s = none) :
    (ofValue v).Ignores table :=
  (h.and (names_ofValue v)).mono fun _ ⟨symbols, names⟩ s named => symbols s (names s named)

/-- The names that an expression has overlook a table that it ignores. -/
theorem Expr.Ignores.overlooks {e : Expr} (h : e.Ignores table) :
    e.Everywhere (Accord.but table).expr :=
  Everywhere.mono h fun _ ignores s named =>
    ⟨(ignores s named).1, .inl (ignores s named).2⟩

theorem Accord.good_but (v : Value) : (Accord.but table).Good v :=
  .of_forall (fun _ => trivial) v

theorem Sql.matches_step_but {eval other : Evaluator} (same : (Accord.but table).Matches eval other) :
    (Accord.but table).Matches (interpretation.step eval) (interpretation.step other) := by
  refine matches_step (fun _ _ _ _ v _ => Accord.good_but v) (fun op h _ => ?_) same
  cases h with
  | onValues apply => exact fun _ _ v _ => Accord.good_but v
  | onOperands apply => exact fun _ _ _ _ _ _ _ v _ => Accord.good_but v

/-- A table that the names in an expression overlook makes no difference. -/
theorem outcomes_eq_of_overlooks {e : Expr} (overlooks : e.Everywhere (Accord.but table).expr)
    (context : Context) (v : Value) :
    InMemory.evaluate e (context.bind tableToken table v) = InMemory.evaluate e context ∧
      ∀ style, Sql.compile style e (context.bind tableToken table v)
        = Sql.compile style e context := by
  have alike := alikeBut_ofContext context table v e
  have inMemory := Accord.matches_evaluateLevels (A := .but table)
    (fun _ _ => InMemory.matches_step fun _ => trivial) e.depth e _ _ overlooks alike
  have inSql := Accord.matches_evaluateLevels (A := .but table)
    (fun _ _ => Sql.matches_step_but) e.depth e _ _ overlooks alike
  refine ⟨?_, fun style => ?_⟩
  · exact congrArg (·.map Value.materialize) inMemory.1
  · exact congrArg (·.map (Sql.Compiled.ofValue style)) inSql.1

/-- A table that no name in an expression begins with does not matter: with it in the context and
without it, or with another one of its name, both interpretations give the same value or the same
error. -/
theorem outcomes_of_ignored_table {e : Expr} (h : e.Ignores table) (context : Context) (v : Value) :
    InMemory.evaluate e (context.bind tableToken table v) = InMemory.evaluate e context ∧
      ∀ style, Sql.compile style e (context.bind tableToken table v)
        = Sql.compile style e context :=
  outcomes_eq_of_overlooks h.overlooks context v

/-- Without its table a field of another one is found all the same, though its alias begins alike. -/
theorem outcomes_of_longer_alias :
    Expr.Ignores "item" (.list [.symbol "$select", .list [.symbol "it:name"], .symbol "@it"]) ∧
      InMemory.evaluate (.list [.symbol "$select", .list [.symbol "it:name"], .symbol "@it"])
          [("@", [("it", .array [.object [("name", .string "a")]]), ("item", .null)])]
        = InMemory.evaluate (.list [.symbol "$select", .list [.symbol "it:name"], .symbol "@it"])
          [("@", [("it", .array [.object [("name", .string "a")]])])] ∧
      ∀ style, Sql.compile style
          (.list [.symbol "$select", .list [.symbol "it:name"], .symbol "@it"])
          [("@", [("it", .array [.object [("name", .string "a")]]), ("item", .null)])]
        = Sql.compile style (.list [.symbol "$select", .list [.symbol "it:name"], .symbol "@it"])
          [("@", [("it", .array [.object [("name", .string "a")]])])] := by
  have ignores : Expr.Ignores "item"
      (.list [.symbol "$select", .list [.symbol "it:name"], .symbol "@it"]) := by
    simp [Expr.Ignores, Expr.asName?, stripStart?, tableToken, aliasToken]
  exact ⟨ignores, outcomes_of_ignored_table ignores
    [("@", [("it", .array [.object [("name", .string "a")]])])] .null⟩

end QueryForms
