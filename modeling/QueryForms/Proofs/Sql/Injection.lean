import QueryForms.Proofs.Sql.Outside

/-!
# No data becomes SQL

`Sql.compile_safe`: names of columns, aliases and tables reach a statement only in quotes, every
value only as a placeholder or a timestamp, and the rest are words and marks of the compiler,
however the parts meet. A table that is bound to a text in quotes of its own stands in the statement
as it is; the theorem asks that there be none, in the context or by a definition.
-/

namespace QueryForms

/-- An expression binds a name in the namespace of a token. -/
def Expr.Rebinds (scope : Environment) (token : String) (e : Expr) : Prop :=
  e.operator? = some .define ∧
    ∃ name, (e.operands.head?.bind asName?).bind scope.splitSymbol? = some (token, name)

/-- No text that a context binds among the tables begins with a quote. -/
def Context.TablesUnquoted (context : Context) : Prop :=
  ∀ names, Entries.get? context tableToken = some names →
    ∀ entry ∈ names, entry.2.Everywhere fun v => ∀ s, v = .string s → s.toList.head? ≠ some '"'

theorem Context.TablesUnquoted.bind {context : Context} (h : context.TablesUnquoted)
    {token : String} (other : token ≠ tableToken) (name : String) (v : Value) :
    (context.bind token name v).TablesUnquoted := by
  intro names found
  rw [Context.bind, Entries.get?_set_of_ne _ _ other] at found
  exact h names found

namespace Sql

/-- No table is bound anew. -/
def tableTerms (scope : Environment) : Terms where
  part e := ¬e.Rebinds scope tableToken
  scope env := env.tokens = scope.tokens ∧ env.bindings.TablesUnquoted
  compiling _ h := h
  defined e env token name v he calls target hs := by
    refine ⟨hs.1, hs.2.bind (fun table => he ⟨calls, name, ?_⟩) name v⟩
    rw [← table, ← Environment.splitSymbol?_congr hs.1]
    exact target

/-- The text of a table is its name in quotes. -/
theorem tableText_quoted {scope env : Environment} {name s : String}
    (hs : (tableTerms scope).scope env) (h : TableText env name s) :
    ∃ known, s = quoteIdent known := by
  rcases h with known | ⟨bound, quote⟩
  · exact known
  · exact absurd quote ((Environment.everywhere_of_binding? hs.2 bound).here s rfl)

/-- What the text of every fragment has that composition keeps, a statement has. -/
theorem statement_of_textComposes {Q : List Char → Prop} (ways : TextComposes Q)
    (quoted : ∀ name, Q (quoteIdent name).toList) {style : PlaceholderStyle} {e : Expr}
    {context : Context} {statement : String} {params : List Value} (he : e.Plain)
    (fixed : e.Everywhere fun part =>
      ¬part.Rebinds ((Environment.ofContext context).declareTables e) tableToken)
    (hc : context.Plain) (ht : context.TablesUnquoted)
    (h : compile style e context = .ok (.query statement params)) : Q statement.toList := by
  rw [compile] at h
  cases found : evaluateIn ((Environment.ofContext context).declareTables e) e with
  | error failure => rw [found] at h; cases h
  | ok v =>
    rw [found] at h
    cases v with
    | fragment f =>
      cases h
      refine Invariant.compiled (tableTerms ((Environment.ofContext context).declareTables e))
        (ways.composes _) ?_ ?_ ⟨hc.mono Invariant.onFragments_of_isPlain, rfl, ht⟩ found style 1
      · intro env name s hs text style n
        obtain ⟨known, rfl⟩ := tableText_quoted hs.2 text
        rw [Fragment.chars_ofText]
        exact quoted known
      · exact (he.mono Invariant.onFragments_of_isPlain).and fixed
    | column c =>
      cases h
      exact ways.columnText c
    | _ => cases h

/-- Where no table is bound to a text in quotes of its own, a statement is made of phrases, its
parentheses balance outside of quoted names, and no comment opens there. -/
theorem compile_safe {style : PlaceholderStyle} {e : Expr} {context : Context} {statement : String}
    {params : List Value} (he : e.Plain)
    (fixed : e.Everywhere fun part =>
      ¬part.Rebinds ((Environment.ofContext context).declareTables e) tableToken)
    (hc : context.Plain) (ht : context.TablesUnquoted)
    (h : compile style e context = .ok (.query statement params)) :
    Phrases (tokensOf statement.toList) ∧ Closed statement.toList ∧
      openAfter 0 (outside false statement.toList) = some 0 ∧
      ¬['-', '-'] <:+: outside false statement.toList ∧
      ¬['/', '*'] <:+: outside false statement.toList := by
  have lexical : Lexical statement.toList :=
    statement_of_textComposes textComposes_lexical lexical_quoteIdent he fixed hc ht h
  have sober : Sober 0 statement.toList :=
    statement_of_textComposes textComposes_sober sober_quoteIdent he fixed hc ht h
  exact ⟨lexical.phrases, lexical.closed, sober.tidy.parentheses, sober.tidy.dashes,
    sober.tidy.stars⟩

/-- A table and a column whose names try to end their quotations. -/
theorem safe_of_hostile_names :
    Phrases (tokensOf "SELECT \"a\"\"); --\" FROM \"users\"\" /*\" WHERE \"age\" > $1".toList) := by
  have compiled : compile .dollar (.list [.symbol "$select", .list [.symbol ":a\"); --"],
      .list [.symbol "$where", .list [.symbol ">", .symbol ":age", .literal (.integer 18)],
        .list [.symbol "$from", .symbol "@people"]]])
      [("@", [("people", .string "users\" /*")])]
      = .ok (.query "SELECT \"a\"\"); --\" FROM \"users\"\" /*\" WHERE \"age\" > $1"
        [.integer 18]) := rfl
  have number : (Value.integer 18).Everywhere fun v => v.isPlain = true := .of_parts_nil rfl rfl
  have text : ∀ {P : Value → Prop}, P (.string "users\" /*") →
      (Value.string "users\" /*").Everywhere P := fun h => .of_parts_nil h rfl
  refine (compile_safe ?_ ?_ ?_ ?_ compiled).1
  · simpa [Expr.Plain, Expr.Holds, Expr.data] using number
  · refine Expr.Everywhere.mono (Q := fun part => part.operator? ≠ some .define) ?_
      fun _ other h => other h.1
    simp only [Expr.Everywhere.list_iff, Expr.Everywhere.symbol_iff, Expr.Everywhere.literal_iff,
      List.forall_mem_cons, List.not_mem_nil, false_implies, implies_true, and_true]
    decide
  · simpa [Context.Plain, Context.Holds] using text (P := fun v => v.isPlain = true) rfl
  · intro names found
    obtain rfl : [("people", Value.string "users\" /*")] = names := Option.some.inj found
    simpa using text (P := fun v => ∀ s, v = .string s → s.toList.head? ≠ some '"')
      fun s eq => Value.string.inj eq ▸ (by decide)

end Sql

end QueryForms
