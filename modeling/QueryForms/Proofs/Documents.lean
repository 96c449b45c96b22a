import QueryForms.Proofs.InMemory.Namespaces
import QueryForms.Proofs.Quotation
import QueryForms.Proofs.Sql.Injection

/-!
# Expressions and contexts in documents

What is read from documents is plain, an expression (`Expr.plain_ofJson`) as well as a context
(`Context.plain_of_ofJson`), and only its symbols are names. So for a statement of an expression in a
document to hold no data but in quotes (`Sql.lexical_of_document`), for a constant in a document to
compile to its value (`compile_of_document`) and for a table to make no difference to an expression in a
document (`outcomes_of_document`) it takes nothing but what the expression says.
-/

namespace QueryForms

/-- The expression that a document spells. -/
def Expr.ofJson (j : Json) : Expr :=
  .ofValue (.ofJson j)

theorem Expr.plain_ofJson (j : Json) : (ofJson j).Plain :=
  holds_ofValue (Value.plain_ofJson j)

namespace Context

/-- What a context binds one after the other is all that it binds. -/
theorem Holds.bindEach {P : Value → Prop} {context : Context} (h : Context.Holds P context)
    {names : List (String × String × Value)} (inside : ∀ named ∈ names, named.2.2.Everywhere P) :
    Context.Holds P (context.bindEach names) := by
  induction names generalizing context with
  | nil => exact h
  | cons named rest ih =>
    obtain ⟨here, inside⟩ := List.forall_mem_cons.1 inside
    exact ih (h.bind _ _ here) inside

/-- A context that is read from plain data binds plain data. -/
theorem plain_of_ofValue {v : Value} (plain : v.Plain) {context : Context}
    (accepted : ofValue v = .ok context) : context.Plain := by
  obtain ⟨namespaces, rfl, rfl⟩ := ofValue_eq accepted
  refine Holds.bindEach (fun _ none => absurd none List.not_mem_nil) fun ⟨token, name, v⟩ named => ?_
  obtain ⟨fields, listed, among⟩ := mem_listed.1 named
  have fields : (Value.object fields).Plain := plain.inside (List.mem_map_of_mem listed)
  exact fields.inside (List.mem_map_of_mem among)

theorem plain_of_ofJson {j : Json} {context : Context} (accepted : ofValue (.ofJson j) = .ok context) :
    context.Plain :=
  plain_of_ofValue (Value.plain_ofJson j) accepted

end Context

section

variable {j names : Json} {context : Context} (accepted : Context.ofValue (.ofJson names) = .ok context)

include accepted

/-- A statement of an expression in a document, in a context from another one, is made of phrases, and
its parentheses balance and no comment opens outside of quoted names. -/
theorem Sql.lexical_of_document {style : PlaceholderStyle} {statement : String} {params : List Value}
    (fixed : (Expr.ofJson j).Everywhere fun part =>
      ¬part.Rebinds ((Environment.ofContext context).declareTables (.ofJson j)) tableToken)
    (ht : context.TablesUnquoted)
    (h : compile style (.ofJson j) context = .ok (.query statement params)) :
    Lexical statement.toList ∧ Sober 0 statement.toList :=
  have plain := Expr.plain_ofJson j
  have bound := Context.plain_of_ofJson accepted
  ⟨statement_of_textComposes textComposes_lexical lexical_quoteIdent plain fixed bound ht h,
    statement_of_textComposes textComposes_sober sober_quoteIdent plain fixed bound ht h⟩

/-- An expression in a document that calls operators on data alone and names neither rows nor tables
compiles to the value that it has in memory. -/
theorem compile_of_document (calls : (Expr.ofJson j).CallsOnly Operator.onData)
    (symbols : (Expr.ofJson j).Everywhere
      (Expr.Unbound ((Environment.ofContext context).declareTables (.ofJson j))))
    (style : PlaceholderStyle) :
    Sql.compile style (.ofJson j) context
      = (InMemory.evaluate (.ofJson j) context).map Sql.Compiled.value :=
  Expr.Constant.compile_eq ⟨calls, symbols, Expr.plain_ofJson j⟩ (Context.plain_of_ofJson accepted)
    style

end

/-- A table makes no difference to an expression in a document if no symbol in it begins with the
table. -/
theorem outcomes_of_document {table : String} {j : Json}
    (symbols : (Expr.ofJson j).Everywhere fun part => ∀ s, part = .symbol s →
      stripStart? (tableToken ++ table) s = none ∧ stripStart? (aliasToken table) s = none)
    (context : Context) (v : Value) :
    InMemory.evaluate (.ofJson j) (context.bind tableToken table v)
        = InMemory.evaluate (.ofJson j) context ∧
      ∀ style, Sql.compile style (.ofJson j) (context.bind tableToken table v)
        = Sql.compile style (.ofJson j) context :=
  outcomes_eq_of_overlooks (Expr.ignores_ofValue symbols).overlooks context v

end QueryForms
