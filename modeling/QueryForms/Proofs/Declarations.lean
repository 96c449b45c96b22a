import QueryForms.Proofs.Levels

/-!
# The order of declarations

An expression declares the tokens of the tables that it names and of the aliases that it introduces,
one after the other: its own and then those of its parts (`Environment.declareIn_eq`), so all that
stand in it at any depth (`Environment.mem_declareIn_iff`). What it declares does not depend on what
is declared before (`Environment.mem_declareIn`), and the order is never seen: a symbol is split at
the longest token that it begins with. So environments in which the same tokens are declared and
that agree in all else evaluate alike (`InMemory.evaluateIn_congr`).
-/

namespace QueryForms

/-! ## What an expression introduces -/

namespace Expr

/-- The table that an expression itself names: a symbol after the token of the tables, a call of
`$as` as its first operand. -/
def namedTable? (e : Expr) : Option String :=
  match e with
  | .symbol s => stripStart? tableToken s
  | .list items => if e.isCall .aliased then (items[1]?).bind asName? else none
  | _ => none

/-- A token is that of a table which an expression names, itself or further inside. -/
inductive Introduces (token : String) : Expr → Prop where
  /-- The expression names the table. -/
  | own {e : Expr} {table : String} (named : e.namedTable? = some table) (nonempty : table ≠ "")
    (same : token = aliasToken table) : Introduces token e
  /-- A part introduces the token. -/
  | inside {e part : Expr} (among : part ∈ e.parts) (within : Introduces token part) :
    Introduces token e

end Expr

/-! ## What is declared -/

namespace Environment

variable {tokens : List String} {token : String} {e : Expr}

/-- Add the token of the table that an expression itself names. -/
def declareOwn (tokens : List String) (e : Expr) : List String :=
  match e.namedTable? with
  | some table => declareName tokens table
  | none => tokens

/-- The fields of a record declare what their expressions do. -/
theorem declareInFields_eq (tokens : List String) (fields : List (String × Expr)) :
    declareInFields tokens fields = declareInList tokens (fields.map Prod.snd) := by
  induction fields generalizing tokens with
  | nil => rfl
  | cons field rest ih => rw [declareInFields, ih, List.map_cons, declareInList]

/-- Every expression declares the table that it names, and then what its parts do. -/
theorem declareIn_eq (tokens : List String) (e : Expr) :
    declareIn tokens e = declareInList (declareOwn tokens e) e.parts := by
  cases e with
  | list items =>
    rw [declareIn, declareOwn, Expr.namedTable?, Expr.parts]
    split
    · rfl
    · rfl
  | record fields => exact declareInFields_eq tokens fields
  | _ => rfl

theorem mem_declareName_iff {table : String} :
    token ∈ declareName tokens table
      ↔ token ∈ tokens ∨ (table ≠ "" ∧ token = aliasToken table) := by
  rw [declareName]
  split
  · next empty => simp [empty]
  · next named => rw [mem_addToken, and_iff_right named]

theorem mem_declareOwn :
    token ∈ declareOwn tokens e ↔ token ∈ tokens ∨
      ∃ table, e.namedTable? = some table ∧ table ≠ "" ∧ token = aliasToken table := by
  rw [declareOwn]
  split
  · next table named => simp [mem_declareName_iff, named]
  · next none => simp [none]

/-- Expressions that each declare what they introduce do so together. -/
theorem mem_declareInList {items : List Expr} (each : ∀ e ∈ items, ∀ tokens,
    token ∈ declareIn tokens e ↔ token ∈ tokens ∨ e.Introduces token) :
    token ∈ declareInList tokens items ↔ token ∈ tokens ∨ ∃ e ∈ items, e.Introduces token := by
  induction items generalizing tokens with
  | nil => simp [declareInList]
  | cons e rest ih =>
    obtain ⟨first, others⟩ := List.forall_mem_cons.1 each
    simp only [declareInList, ih others, first, or_assoc, List.mem_cons, exists_eq_or_imp]

/-- An expression declares the tokens that it introduces. -/
theorem mem_declareIn_iff :
    token ∈ declareIn tokens e ↔ token ∈ tokens ∨ e.Introduces token := by
  induction e using Expr.induction_parts generalizing tokens with
  | step e ih =>
    rw [declareIn_eq, mem_declareInList fun part among _ => ih part among, mem_declareOwn, or_assoc]
    refine or_congr_right ⟨?_, ?_⟩
    · rintro (⟨table, named, nonempty, same⟩ | ⟨part, among, within⟩)
      · exact .own named nonempty same
      · exact .inside among within
    · rintro (⟨named, nonempty, same⟩ | ⟨among, within⟩)
      · exact .inl ⟨_, named, nonempty, same⟩
      · exact .inr ⟨_, among, within⟩

theorem mem_declareIn_nil : token ∈ declareIn [] e ↔ e.Introduces token := by
  rw [mem_declareIn_iff, or_iff_right List.not_mem_nil]

/-- An expression declares the same whatever is declared before. -/
theorem mem_declareIn (tokens : List String) {token : String} (e : Expr) :
    token ∈ declareIn tokens e ↔ token ∈ tokens ∨ token ∈ declareIn [] e := by
  rw [mem_declareIn_iff, mem_declareIn_nil]

/-- Expressions declare what each of them does. -/
theorem mem_declareInList_iff {tokens : List String} {token : String} {items : List Expr} :
    token ∈ declareInList tokens items ↔ token ∈ tokens ∨ ∃ e ∈ items, token ∈ declareIn [] e := by
  simp only [mem_declareIn_nil]
  exact mem_declareInList fun _ _ _ => mem_declareIn_iff

/-! ## Environments that are alike -/

/-- Environments in which the same tokens are declared, and that agree in all else. -/
structure Alike (a b : Environment) : Prop where
  /-- The declared tokens are the same, in some order. -/
  tokens : ∀ token, token ∈ a.tokens ↔ token ∈ b.tokens
  /-- What is bound is the same. -/
  bindings : a.bindings = b.bindings
  /-- The current row is the same. -/
  row : a.row = b.row
  /-- The window is the same. -/
  window : a.window = b.window

namespace Alike

variable {a b : Environment} (h : Alike a b)

include h

theorem split (symbol : String) : a.splitSymbol? symbol = b.splitSymbol? symbol :=
  splitSymbol?_congr_mem fun token _ _ => h.tokens token

theorem binding (token name : String) : a.binding? token name = b.binding? token name := by
  rw [binding?, binding?, h.bindings]

theorem symm : Alike b a where
  tokens token := (h.tokens token).symm
  bindings := h.bindings.symm
  row := h.row.symm
  window := h.window.symm

theorem hasToken (token : String) : a.hasToken token = b.hasToken token := by
  rw [Bool.eq_iff_iff, Environment.hasToken, Environment.hasToken, List.contains_iff_mem,
    List.contains_iff_mem, h.tokens]

end Alike

/-- Expressions that declare the same leave an environment alike. -/
theorem alike_declareTables (env : Environment) {e other : Expr}
    (same : ∀ token, token ∈ declareIn [] e ↔ token ∈ declareIn [] other) :
    Alike (env.declareTables e) (env.declareTables other) where
  tokens token := by
    show token ∈ declareIn env.tokens e ↔ token ∈ declareIn env.tokens other
    rw [mem_declareIn _ e, mem_declareIn _ other, same token]
  bindings := rfl
  row := rfl
  window := rfl

end Environment

/-- Environments that are alike, for any expression. -/
def Accord.alike : Accord where
  expr _ := True
  value _ := True
  plain _ _ := trivial
  literal v _ := .of_forall (fun _ => trivial) v
  quoted _ _ v _ := .of_forall (fun _ => trivial) v
  identifier _ _ := trivial
  related := Environment.Alike
  bindings _ _ _ entry _ := .of_forall (fun _ => trivial) entry.2
  row {a _} h := ⟨congrArg _ h.row, (Environment.Holds.of_forall (fun _ => trivial) a).row⟩
  window {a _ _ _} h _ _ _ := ⟨h.window, (Environment.Holds.of_forall (fun _ => trivial) a).window⟩
  split h _ _ := h.split _
  binding h _ _ := h.binding _ _
  wildcard h _ _ _ := h.hasToken _
  surround h same _ := { h with row := congrArg some same }
  withWindow h same _ := { h with window := congrArg some (Row.Mask.hideWindow_clear_inj same) }
  defined h _ _ _ _ := { h with bindings := congrArg (Context.bind · _ _ _) h.bindings }

/-- In environments that are alike an expression has one outcome. -/
theorem InMemory.evaluateIn_congr {a b : Environment} (alike : a.Alike b) (e : Expr) :
    evaluateIn a e = evaluateIn b e :=
  (Accord.matches_evaluateLevels (A := .alike) (fun _ _ => matches_step fun _ => trivial)
    e.depth e a b ((Expr.everywhere_depth_le (Nat.le_refl _)).mono fun _ _ => trivial) alike).1

end QueryForms
