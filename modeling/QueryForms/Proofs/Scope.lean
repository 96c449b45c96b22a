import Mathlib.Data.List.TakeDrop
import Mathlib.Data.List.TakeWhile
import QueryForms.Environment

/-!
# What names mean in a scope

A symbol is split at the longest token that it begins with, so of the tokens only their set counts
(`Environment.splitSymbol?_congr_mem`), and of what is bound only the entries under the names that
a path can begin with (`Environment.binding?_congr`).
-/

namespace QueryForms

/-! ## Texts that begin with a text -/

theorem stripStart?_eq_some_iff {start text rest : String} :
    stripStart? start text = some rest ↔ text = start ++ rest := by
  rw [stripStart?]
  split
  · next begins =>
    obtain ⟨tail, eq⟩ := List.isPrefixOf_iff_prefix.1 begins
    rw [← eq, List.drop_left, Option.some.injEq]
    constructor
    · rintro rfl
      rw [← String.toList_inj, String.toList_append, String.toList_ofList, eq]
    · rintro rfl
      rw [String.toList_append, List.append_cancel_left_eq] at eq
      rw [eq, String.ofList_toList]
  · next other =>
    refine iff_of_false nofun fun eq => other (List.isPrefixOf_iff_prefix.2 ?_)
    rw [eq, String.toList_append]
    exact List.prefix_append ..

theorem stripStart?_eq_none_iff {start text : String} :
    stripStart? start text = none ↔ ∀ rest, text ≠ start ++ rest := by
  rw [Option.eq_none_iff_forall_ne_some]
  exact forall_congr' fun rest => not_congr stripStart?_eq_some_iff

theorem aliasToken_inj {table other : String} (same : aliasToken table = aliasToken other) :
    table = other :=
  (String.append_left_inj ":").1 same

/-- The alias of a token is what stands before its colon. -/
theorem aliasOfToken?_eq_some_iff {token table : String} :
    aliasOfToken? token = some table ↔ token = aliasToken table := by
  rw [aliasOfToken?]
  split
  · next rest reversed =>
    have whole : token = aliasToken (String.ofList rest.reverse) := by
      rw [← String.toList_inj, ← List.reverse_inj, reversed]
      simp [aliasToken]
    rw [Option.some.injEq]
    constructor
    · rintro rfl
      exact whole
    · rintro rfl
      simpa [aliasToken] using whole.symm
  · next other =>
    refine iff_of_false nofun ?_
    rintro rfl
    exact other table.toList.reverse (by simp [aliasToken])

/-! ## The longest token -/

namespace Environment

/-- The longest of some tokens that a symbol begins with, and what remains. -/
def IsLongest (symbol : String) (tokens : List String) : Option (String × String) → Prop
  | none => ∀ token ∈ tokens, stripStart? token symbol = none
  | some (token, rest) => token ∈ tokens ∧ stripStart? token symbol = some rest ∧
    ∀ other ∈ tokens, ∀ tail, stripStart? other symbol = some tail →
      other.toList.length ≤ token.toList.length

/-- Looking at one more token leaves the longest one. -/
theorem IsLongest.step {symbol : String} {seen : List String} {best : Option (String × String)}
    (h : IsLongest symbol seen best) (token : String) :
    IsLongest symbol (seen ++ [token]) (longerToken symbol best token) := by
  rw [longerToken.eq_def]
  split
  · next fails =>
    cases best with
    | none => exact List.forall_mem_append.2 ⟨h, List.forall_mem_singleton.2 fails⟩
    | some found =>
      obtain ⟨among, begins, longest⟩ := h
      refine ⟨List.mem_append_left _ among, begins, List.forall_mem_append.2 ⟨longest, ?_⟩⟩
      exact List.forall_mem_singleton.2 fun tail eq => nomatch fails.symm.trans eq
  · next rest begins =>
    have here : token ∈ seen ++ [token] := List.mem_append_right _ (List.mem_singleton.2 rfl)
    cases best with
    | none =>
      refine ⟨here, begins, List.forall_mem_append.2 ⟨fun other ho tail eq => ?_, ?_⟩⟩
      · exact nomatch (h other ho).symm.trans eq
      · exact List.forall_mem_singleton.2 fun _ _ => Nat.le_refl _
    | some found =>
      obtain ⟨among, first, longest⟩ := h
      dsimp only
      split
      · next longer =>
        refine ⟨here, begins, List.forall_mem_append.2 ⟨fun other ho tail eq => ?_, ?_⟩⟩
        · exact Nat.le_trans (longest other ho tail eq) longer
        · exact List.forall_mem_singleton.2 fun _ _ => Nat.le_refl _
      · next shorter =>
        refine ⟨List.mem_append_left _ among, first, List.forall_mem_append.2 ⟨longest, ?_⟩⟩
        exact List.forall_mem_singleton.2 fun _ _ => Nat.le_of_not_le shorter

/-- A symbol is split at the longest token. -/
theorem isLongest_splitSymbol? (scope : Environment) (symbol : String) :
    IsLongest symbol scope.tokens (scope.splitSymbol? symbol) := by
  -- the induction is on the tokens still to come
  have run : ∀ (tokens seen : List String) (best : Option (String × String)),
      IsLongest symbol seen best →
        IsLongest symbol (seen ++ tokens) (tokens.foldl (longerToken symbol) best) := by
    intro tokens
    induction tokens with
    | nil => exact fun seen best h => (List.append_nil seen).symm ▸ h
    | cons token rest ih =>
      intro seen best h
      have next := ih _ _ (h.step token)
      rwa [List.append_assoc, List.singleton_append] at next
  exact run scope.tokens [] none fun _ h => absurd h List.not_mem_nil

/-- The longest token is the same among tokens of which a symbol begins with the same ones. -/
theorem IsLongest.congr {symbol : String} {tokens others : List String}
    {best other : Option (String × String)} (h : IsLongest symbol tokens best)
    (ho : IsLongest symbol others other)
    (same : ∀ token rest, stripStart? token symbol = some rest →
      (token ∈ tokens ↔ token ∈ others)) : best = other := by
  cases best with
  | none =>
    cases other with
    | none => rfl
    | some found =>
      obtain ⟨among, begins, -⟩ := ho
      exact nomatch (h _ ((same _ _ begins).2 among)).symm.trans begins
  | some first =>
    obtain ⟨token, rest⟩ := first
    obtain ⟨among, begins, longest⟩ := h
    cases other with
    | none => exact nomatch (ho _ ((same _ _ begins).1 among)).symm.trans begins
    | some second =>
      obtain ⟨token', rest'⟩ := second
      obtain ⟨among', begins', longest'⟩ := ho
      -- two starts of one text are as long as each other
      have length : token.toList.length = token'.toList.length :=
        Nat.le_antisymm (longest' _ ((same _ _ begins).1 among) _ begins)
          (longest _ ((same _ _ begins').2 among') _ begins')
      have text : token.toList ++ rest.toList = token'.toList ++ rest'.toList := by
        rw [← String.toList_append, ← String.toList_append, ← stripStart?_eq_some_iff.1 begins,
          stripStart?_eq_some_iff.1 begins']
      obtain ⟨tokens, rests⟩ := List.append_inj text length
      rw [String.toList_inj] at tokens rests
      rw [tokens, rests]

/-- A symbol is split alike where it begins with the same tokens. -/
theorem splitSymbol?_congr_mem {a b : Environment} {symbol : String}
    (same : ∀ token rest, stripStart? token symbol = some rest →
      (token ∈ a.tokens ↔ token ∈ b.tokens)) : a.splitSymbol? symbol = b.splitSymbol? symbol :=
  (isLongest_splitSymbol? a symbol).congr (isLongest_splitSymbol? b symbol) same

/-- A symbol is its token and the name after it. -/
theorem eq_append_of_splitSymbol? {scope : Environment} {symbol token name : String}
    (h : scope.splitSymbol? symbol = some (token, name)) : symbol = token ++ name := by
  have longest := isLongest_splitSymbol? scope symbol
  rw [h] at longest
  exact stripStart?_eq_some_iff.1 longest.2.1

/-- The token that a symbol is split at is declared. -/
theorem hasToken_of_splitSymbol? {scope : Environment} {symbol token name : String}
    (h : scope.splitSymbol? symbol = some (token, name)) : scope.hasToken token = true := by
  have longest := isLongest_splitSymbol? scope symbol
  rw [h] at longest
  exact List.contains_iff_mem.2 longest.1

theorem mem_addToken {tokens : List String} {token other : String} :
    other ∈ addToken tokens token ↔ other ∈ tokens ∨ other = token := by
  rw [addToken]
  split
  · next there =>
    refine (or_iff_left_of_imp ?_).symm
    rintro rfl
    exact List.contains_iff_mem.1 there
  · rw [List.mem_append, List.mem_singleton]

/-- Expressions that each declare nothing new declare nothing new together. -/
theorem declareInList_eq {tokens : List String} {items : List Expr}
    (same : ∀ e ∈ items, declareIn tokens e = tokens) : declareInList tokens items = tokens := by
  induction items with
  | nil => rfl
  | cons first rest ih =>
    rw [declareInList, same first (List.mem_cons_self ..)]
    exact ih fun e he => same e (List.mem_cons_of_mem _ he)

/-- A call that introduces no alias declares what its operands do. -/
theorem declareIn_call {op : Operator} (other : op ≠ .aliased) (tokens : List String)
    (operands : List Expr) :
    declareIn tokens (.list (.symbol op.name :: operands)) = declareInList tokens operands := by
  have noAlias : (Expr.list (.symbol op.name :: operands)).isCall .aliased = false := by
    simp [Expr.isCall, Expr.operator?, Expr.head?, Expr.asName?, Operator.ofName?_name, other]
  have noTable : stripStart? tableToken op.name = none := by
    cases op <;> decide
  rw [declareIn, noAlias]
  simp only [Bool.false_eq_true, if_false, declareInList]
  rw [declareIn, noTable]

end Environment

/-! ## What is bound -/

/-- What is bound to a name as it stands. -/
def Context.bound? (context : Context) (token name : String) : Option Value :=
  (Entries.get? context token).bind fun names => Entries.get? names name

/-- Binding a name changes that name only. -/
theorem Context.bound?_bind (context : Context) (token name : String) (v : Value)
    (other word : String) :
    (context.bind token name v).bound? other word
      = if other = token ∧ word = name then some v else context.bound? other word := by
  by_cases here : other = token
  · subst here
    rw [bound?, bind, Entries.get?_set_self, Option.bind_some]
    by_cases same : word = name
    · subst same
      rw [Entries.get?_set_self, if_pos ⟨rfl, rfl⟩]
    · rw [Entries.get?_set_of_ne _ _ (Ne.symm same), if_neg fun h => same h.2, bound?]
      cases Entries.get? context other <;> rfl
  · rw [bound?, bind, Entries.get?_set_of_ne _ _ (Ne.symm here), if_neg fun h => here h.1, bound?]

namespace Environment

/-- A name cut at its first dot begins with what stands before the dot. -/
theorem eq_append_of_splitDot? {name first rest : String}
    (h : splitDot? name = some (first, rest)) : ∃ tail, name = first ++ tail := by
  rw [splitDot?] at h
  split at h
  · next before after cut =>
    obtain ⟨rfl, -⟩ := Prod.mk.inj (Option.some.inj h)
    refine ⟨String.ofList ('.' :: after), String.toList_inj.1 ?_⟩
    have whole := List.takeWhile_append_dropWhile (p := (· != '.')) (l := name.toList)
    rw [List.span_eq_takeWhile_dropWhile] at cut
    obtain ⟨hb, ha⟩ := Prod.mk.inj cut
    rw [String.toList_append, String.toList_ofList, String.toList_ofList, ← hb, ← ha, whole]
  · cases h

/-- A name means what is bound to it, or else what stands at its path. -/
theorem binding?_eq (scope : Environment) (token name : String) :
    scope.binding? token name
      = (scope.bindings.bound? token name).or ((splitDot? name).bind fun path =>
        (scope.bindings.bound? token path.1).bind fun v => v.lookupPath? path.2) := by
  simp only [binding?, Context.bound?, Option.bind_eq_bind]
  cases Entries.get? scope.bindings token with
  | none => simp
  | some names =>
    simp only [Option.bind_some]
    cases Entries.get? names name with
    | none => simp
    | some v => simp

/-- A name means the same where the same is bound to it and to what its path begins with. -/
theorem binding?_congr {a b : Environment} {token name : String}
    (same : ∀ first rest, name = first ++ rest →
      a.bindings.bound? token first = b.bindings.bound? token first) :
    a.binding? token name = b.binding? token name := by
  rw [binding?_eq, binding?_eq, same name "" (String.append_empty).symm]
  cases path : splitDot? name with
  | none => rfl
  | some parts =>
    obtain ⟨tail, whole⟩ := eq_append_of_splitDot? path
    rw [Option.bind_some, Option.bind_some, same _ _ whole]

end Environment

/-! ## Names without a dot -/

/-- A text without the mark is not cut. -/
theorem Value.splitAll_of_not_mem {mark : Char} {cs : List Char} (flat : mark ∉ cs) :
    splitAll mark cs = [cs] := by
  induction cs with
  | nil => rfl
  | cons c cs ih =>
    rw [List.mem_cons, not_or] at flat
    rw [splitAll, if_neg (Ne.symm flat.1), ih flat.2]

/-- The path of a name without a dot is one step. -/
theorem Value.lookupPath?_of_flat {name : String} (flat : '.' ∉ name.toList) (v : Value) :
    v.lookupPath? name = v.step? name.toList := by
  have one : v.walk? (splitAll '.' name.toList) = v.step? name.toList := by
    rw [splitAll_of_not_mem flat, walk?]
    exact Option.bind_fun_some _
  cases v with
  | object fields =>
    simp only [lookupPath?, one, step?, String.ofList_toList]
    cases Entries.get? fields name <;> rfl
  | _ => exact one

/-- A name without a dot means what is bound to it. -/
theorem Environment.binding?_of_flat {name : String} (flat : '.' ∉ name.toList)
    (scope : Environment) (token : String) :
    scope.binding? token name = scope.bindings.bound? token name := by
  have uncut : splitDot? name = none := by
    rw [splitDot?, List.span_eq_takeWhile_dropWhile]
    have rest : name.toList.dropWhile (· != '.') = [] := by
      rw [List.dropWhile_eq_nil_iff]
      intro c inside
      simpa using fun same : c = '.' => flat (same ▸ inside)
    rw [rest]
  rw [binding?_eq, uncut, Option.bind_none, Option.or_none]

end QueryForms
