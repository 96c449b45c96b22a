import QueryForms.Proofs.InMemory.Namespaces

/-!
# Symbols and the tokens they begin with

Tokens may begin alike: a caller may bind `a` and `ab:c` beside a table `ab`, whose token is `ab:`.
In each environment that a context and some expressions lead to (`Environment.Reached`) the tokens
are those of the context and those that one of the expressions introduces, at any depth
(`Environment.mem_tokens_of_reached`). A symbol is split at the longest of them that it begins with,
whatever their order. Declaring an expression once more adds nothing, and with more tokens a symbol
is split at the same token or at a longer one (`Environment.symbols_split_at_longest`).
-/

namespace QueryForms

namespace Environment

variable {tokens : List String} {token : String} {e : Expr}

/-! ## Tokens that are there -/

theorem addToken_of_mem (there : token ∈ tokens) : addToken tokens token = tokens :=
  if_pos (List.contains_iff_mem.2 there)

theorem declareOwn_of_mem (there : ∀ token, e.Introduces token → token ∈ tokens) :
    declareOwn tokens e = tokens := by
  rw [declareOwn]
  split
  · next table named =>
    rw [declareName]
    split
    · rfl
    · next nonempty => exact addToken_of_mem (there _ (.own named nonempty rfl))
  · rfl

/-- An expression whose tokens are all there declares nothing new. -/
theorem declareIn_of_mem (there : ∀ token, e.Introduces token → token ∈ tokens) :
    declareIn tokens e = tokens := by
  induction e using Expr.induction_parts with
  | step e ih =>
    rw [declareIn_eq, declareOwn_of_mem there]
    exact declareInList_eq fun part among =>
      ih part among fun token within => there token (.inside among within)

/-- Declaring an expression once more adds nothing. -/
theorem declareTables_declareTables (env : Environment) (e : Expr) :
    (env.declareTables e).declareTables e = env.declareTables e := by
  rw [declareTables, declareTables,
    declareIn_of_mem fun token introduces => mem_declareIn_iff.2 (.inr introduces)]

/-! ## Environments of a context -/

/-- The environments of a context: its own, and those in which expressions are declared as well. -/
inductive Reached (context : Context) : List Expr → Environment → Prop where
  /-- The environment of the context. -/
  | ofContext : Reached context [] (ofContext context)
  /-- One more expression is declared. -/
  | declareTables {expressions : List Expr} {env : Environment}
    (before : Reached context expressions env) (e : Expr) :
    Reached context (e :: expressions) (env.declareTables e)

variable {context : Context} {expressions : List Expr} {env : Environment}

/-- The tokens are those of the context and those that its expressions introduce. -/
theorem mem_tokens_of_reached (reached : Reached context expressions env) :
    token ∈ env.tokens ↔ token ∈ (ofContext context).tokens ∨
      ∃ e ∈ expressions, e.Introduces token := by
  induction reached with
  | ofContext => simp
  | declareTables _ e ih =>
    rw [declareTables, mem_declareIn_iff, ih, or_assoc]
    refine or_congr_right ?_
    rw [or_comm]
    simp only [List.mem_cons, exists_eq_or_imp]

/-! ## The longest token -/

/-- A symbol is split at a token that it begins with if no longer one begins it. -/
theorem splitSymbol?_eq_some_iff {symbol rest : String} :
    env.splitSymbol? symbol = some (token, rest) ↔
      token ∈ env.tokens ∧ symbol = token ++ rest ∧
        ∀ other ∈ env.tokens, ∀ tail, symbol = other ++ tail →
          other.toList.length ≤ token.toList.length := by
  have longest := isLongest_splitSymbol? env symbol
  constructor
  · intro split
    rw [split] at longest
    simpa only [IsLongest, stripStart?_eq_some_iff] using longest
  · intro specified
    have other : IsLongest symbol env.tokens (some (token, rest)) := by
      simpa only [IsLongest, stripStart?_eq_some_iff] using specified
    exact longest.congr other fun _ _ _ => Iff.rfl

/-- A symbol is not split if it begins with no token. -/
theorem splitSymbol?_eq_none_iff {symbol : String} :
    env.splitSymbol? symbol = none ↔ ∀ token ∈ env.tokens, ∀ rest, symbol ≠ token ++ rest := by
  have longest := isLongest_splitSymbol? env symbol
  constructor
  · intro unsplit
    rw [unsplit] at longest
    simpa only [IsLongest, stripStart?_eq_none_iff] using longest
  · intro specified
    have other : IsLongest symbol env.tokens none := by
      simpa only [IsLongest, stripStart?_eq_none_iff] using specified
    exact longest.congr other fun _ _ _ => Iff.rfl

/-- Where more tokens are declared a symbol is split at the same token or at a longer one. -/
theorem exists_longer_of_subset {more : Environment} (kept : env.tokens ⊆ more.tokens)
    {symbol rest : String} (split : env.splitSymbol? symbol = some (token, rest)) :
    ∃ longer tail, more.splitSymbol? symbol = some (longer, tail) ∧
      token.toList.length ≤ longer.toList.length := by
  obtain ⟨declared, rfl, -⟩ := splitSymbol?_eq_some_iff.1 split
  exact exists_splitSymbol? (kept declared) rest

/-- The tokens of an environment are those of its context and of the expressions declared in it. A
symbol is split at the longest token that it begins with, and not at all if it begins with none; the
order of the tokens does not matter. Declaring an expression once more changes nothing, and where
one more is declared a symbol is split at the same token or at a longer one. -/
theorem symbols_split_at_longest (reached : Reached context expressions env) (symbol : String) :
    (∀ token, token ∈ env.tokens ↔
      token ∈ [rowToken, tableToken, contextToken] ∨ token ∈ Entries.keys context ∨
        (∃ table, context.Names tableToken table ∧ token = aliasToken table) ∨
        ∃ e ∈ expressions, e.Introduces token) ∧
      (∀ token rest, env.splitSymbol? symbol = some (token, rest) ↔
        token ∈ env.tokens ∧ symbol = token ++ rest ∧
          ∀ other ∈ env.tokens, ∀ tail, symbol = other ++ tail →
            other.toList.length ≤ token.toList.length) ∧
      (env.splitSymbol? symbol = none ↔
        ∀ token ∈ env.tokens, ∀ rest, symbol ≠ token ++ rest) ∧
      (∀ tokens, tokens.Perm env.tokens →
        { env with tokens := tokens }.splitSymbol? symbol = env.splitSymbol? symbol) ∧
      ∀ e, (env.declareTables e).declareTables e = env.declareTables e ∧
        ∀ token rest, env.splitSymbol? symbol = some (token, rest) →
          ∃ longer tail, (env.declareTables e).splitSymbol? symbol = some (longer, tail) ∧
            token.toList.length ≤ longer.toList.length := by
  refine ⟨fun token => ?_, fun _ _ => splitSymbol?_eq_some_iff, splitSymbol?_eq_none_iff,
    fun tokens same => splitSymbol?_congr_mem fun _ _ _ => same.mem_iff, fun e => ?_⟩
  · rw [mem_tokens_of_reached reached, mem_tokens_ofContext]
    simp only [or_assoc]
  · exact ⟨declareTables_declareTables env e, fun token rest split =>
      exists_longer_of_subset (fun _ declared => mem_declareIn_iff.2 (.inl declared)) split⟩

/-- Tokens that begin alike: the alias `ab` that an expression gives to a table comes between the
caller's `a` and `ab:c`, and in reverse the tokens split a symbol as they did. -/
theorem symbols_split_at_longest_of_alike :
    ∃ env, Reached [("@", [("b", .null)]), ("a", [("k", .null)]), ("ab:c", [("k", .null)])]
        [.list [.symbol "$as", .symbol "ab", .symbol "@b"]] env ∧
      "ab:" ∈ env.tokens ∧ env.splitSymbol? "ab:x" = some ("ab:", "x") ∧
      env.splitSymbol? "ab:cd" = some ("ab:c", "d") ∧
      { env with tokens := env.tokens.reverse }.splitSymbol? "ab:cd" = some ("ab:c", "d") ∧
      ∃ longer tail, (env.declareTables (.symbol "@ab:cd")).splitSymbol? "ab:cd"
          = some (longer, tail) ∧ 4 ≤ longer.toList.length := by
  have reached : Reached
      [("@", [("b", .null)]), ("a", [("k", .null)]), ("ab:c", [("k", .null)])]
      [.list [.symbol "$as", .symbol "ab", .symbol "@b"]] _ := .declareTables .ofContext _
  obtain ⟨tokens, -, -, order, again⟩ := symbols_split_at_longest reached "ab:cd"
  refine ⟨_, reached, (tokens _).2 ?_, rfl, rfl, (order _ (List.reverse_perm _)).trans rfl,
    (again _).2 "ab:c" "d" rfl⟩
  exact .inr (.inr (.inr ⟨_, List.mem_singleton.2 rfl, .own rfl (by decide) rfl⟩))

end Environment

end QueryForms
