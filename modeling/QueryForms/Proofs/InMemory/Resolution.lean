import QueryForms.Proofs.Entries
import QueryForms.Proofs.Levels

/-!
# What symbols mean in memory

A symbol is split at its token, and the token says where its name is looked up: in the current row,
in one table of it, or in what is bound. So another current row changes more than the names after
`:`. A field of a table that only the row around had is null in the new scope
(`surround_inherits`), a field that is null in the row gives way to what is bound under its name
(`row_shadows`), and what is bound under the token of a table is never read (`define_reads_back`).
-/

namespace QueryForms

/-! ## Rows -/

namespace Row

/-- A row has something of its own under a field of a table: a record, or a key of the group. -/
def Binds (row : Row) (table field : String) : Prop :=
  table ∈ Entries.keys row.tables ∨ (row.groupKey? (aliasToken table ++ field)).isSome = true

/-- A field of a table that a row does not bind is null. -/
theorem lookupQualified_of_not_binds {row : Row} {table field : String}
    (free : ¬ row.Binds table field) : row.lookupQualified table field = .null := by
  obtain ⟨unbound, noKey⟩ := not_or.1 free
  have key : row.groupKey? (table ++ ":" ++ field) = none := Option.not_isSome_iff_eq_none.1 noKey
  have record : Entries.get? row.tables table = none :=
    Option.not_isSome_iff_eq_none.1 (mt Entries.isSome_get?_iff.1 unbound)
  rw [lookupQualified, key, record]
  rfl

/-- What a row has under the name of a field: the key of its group, or else what the first record
that has the field has there. -/
inductive Reads (row : Row) (field : String) (v : Value) : Prop where
  /-- A key of the group. -/
  | key (found : row.groupKey? field = some v)
  /-- A field of the first record that has it. -/
  | record {before after : List (String × Value)} {table : String × Value}
    (noKey : row.groupKey? field = none) (tables : row.tables = before ++ table :: after)
    (first : ∀ earlier ∈ before, earlier.2.step? field.toList = none)
    (found : table.2.step? field.toList = some v)

variable {row : Row} {field : String} {v : Value}

/-- A field is looked up by its name, unless the name goes on after a dot. -/
theorem Reads.lookup_eq (flat : '.' ∉ field.toList) (h : row.Reads field v) :
    row.lookup field = v := by
  cases h with
  | key found => rw [lookup, found]
  | record noKey tables first found =>
    have reads : row.tables.findSome? (fun table => table.2.lookupPath? field) = some v := by
      simp only [Value.lookupPath?_of_flat flat]
      rw [tables, List.findSome?_append, List.findSome?_eq_none_iff.2 first, List.findSome?_cons,
        found]
      rfl
    rw [lookup, noKey, reads]
    rfl

/-- A field of some record of a row is one that the row reads. -/
theorem exists_reads
    (contained : ∃ table ∈ row.tables, ∃ fields, table.2 = .object fields ∧
      field ∈ Entries.keys fields) : ∃ v, row.Reads field v := by
  cases key : row.groupKey? field with
  | some v => exact ⟨v, .key key⟩
  | none =>
    obtain ⟨table, inside, fields, same, named⟩ := contained
    have has : (row.tables.findSome? fun table => table.2.step? field.toList).isSome = true := by
      refine List.findSome?_isSome_iff.2 ⟨table, inside, ?_⟩
      rw [same, Value.step?, String.ofList_toList]
      exact Entries.isSome_get?_iff.2 named
    obtain ⟨v, found⟩ := Option.isSome_iff_exists.1 has
    obtain ⟨before, table, after, tables, reads, first⟩ := List.findSome?_eq_some_iff.1 found
    exact ⟨v, .record key tables first reads⟩

end Row

/-! ## Symbols -/

namespace InMemory

variable {env : Environment} {row : Row} {symbol token name : String}

/-- A symbol with a token means what its name does in the namespace of the token. -/
theorem evaluateIn_symbol (env : Environment)
    (split : env.splitSymbol? symbol = some (token, name)) :
    evaluateIn env (.symbol symbol) = resolve env token name := by
  show interpretation.resolveSymbol env symbol = _
  rw [Interpretation.resolveSymbol, split]
  rfl

/-- A field of a table is looked up in the current row. -/
theorem resolve_of_alias {table : String} (named : table ≠ "") (field : String) :
    resolve env (aliasToken table) field
      = .ok ((env.row.map fun row => row.lookupQualified table field).getD .null) := by
  have other : aliasToken table ≠ rowToken := fun same => named (aliasToken_inj same)
  rw [resolve, if_neg other, aliasOfToken?_eq_some_iff.2 rfl]

/-- A name of a namespace that is neither the row's nor a table's is what is bound to it. -/
theorem resolve_of_no_alias (other : ∀ table, token ≠ aliasToken table) (name : String) :
    resolve env token name = .ok ((env.binding? token name).getD .null) := by
  have none : aliasOfToken? token = none :=
    Option.eq_none_iff_forall_ne_some.2 fun table found =>
      other table (aliasOfToken?_eq_some_iff.1 found)
  have notRow : token ≠ rowToken := other ""
  rw [resolve, if_neg notRow, none]

/-- A name after the token of the row is what the row has there, or what is bound to it where that
is null. -/
theorem resolve_rowToken {v : Value} (read : (env.row.map (Row.lookup · name)).getD .null = v) :
    resolve env rowToken name
      = .ok (if v.isNull then (env.binding? rowToken name).getD .null else v) := by
  rw [resolve, if_pos rfl, read]
  cases v <;> rfl

/-! ## Scopes of rows -/

/-- A field of a table that a row does not bind is null in its scope. -/
theorem evaluateIn_surround_of_alias {table field : String} (named : table ≠ "")
    (split : env.splitSymbol? symbol = some (aliasToken table, field))
    (free : ¬ row.Binds table field) :
    evaluateIn (env.surround row) (.symbol symbol) = .ok .null := by
  rw [evaluateIn_symbol (env.surround row) split, resolve_of_alias named]
  exact congrArg Except.ok (row.lookupQualified_of_not_binds free)

/-- A symbol of any other namespace means in the scope of a row what it means around it. -/
theorem evaluateIn_surround_of_no_alias
    (other : ∀ table field, env.splitSymbol? symbol ≠ some (aliasToken table, field)) (row : Row) :
    evaluateIn (env.surround row) (.symbol symbol) = evaluateIn env (.symbol symbol) := by
  cases split : env.splitSymbol? symbol with
  | none =>
    have inside : (env.surround row).splitSymbol? symbol = none := split
    show interpretation.resolveSymbol _ symbol = interpretation.resolveSymbol env symbol
    rw [Interpretation.resolveSymbol, Interpretation.resolveSymbol, inside, split]
  | some found =>
    obtain ⟨token, field⟩ := found
    have noTable : ∀ table, token ≠ aliasToken table := by
      rintro table rfl
      exact other table field split
    rw [evaluateIn_symbol (env.surround row) split, evaluateIn_symbol env split,
      resolve_of_no_alias noTable, resolve_of_no_alias noTable]
    rfl

/-- In the scope of a row a symbol of which the row binds nothing means what it means around it, but
for the fields of the tables of the row around: they are null. -/
theorem surround_inherits (other : ∀ field, env.splitSymbol? symbol ≠ some (rowToken, field))
    (free : ∀ table field, env.splitSymbol? symbol = some (aliasToken table, field) →
      ¬ row.Binds table field) :
    (evaluateIn (env.surround row) (.symbol symbol) = evaluateIn env (.symbol symbol)
      ↔ ∀ table field, env.splitSymbol? symbol = some (aliasToken table, field) →
        ∀ outer ∈ env.row, outer.lookupQualified table field = .null) ∧
    ∀ table field, env.splitSymbol? symbol = some (aliasToken table, field) →
      evaluateIn (env.surround row) (.symbol symbol) = .ok .null := by
  have named : ∀ table field, env.splitSymbol? symbol = some (aliasToken table, field) →
      table ≠ "" := by
    rintro table field split rfl
    exact other field split
  have inner : ∀ table field, env.splitSymbol? symbol = some (aliasToken table, field) →
      evaluateIn (env.surround row) (.symbol symbol) = .ok .null := fun table field split =>
    evaluateIn_surround_of_alias (named table field split) split (free table field split)
  -- around the row a field of a table is what the outer row has there
  have around : ∀ table field, env.splitSymbol? symbol = some (aliasToken table, field) →
      evaluateIn env (.symbol symbol)
        = .ok ((env.row.map fun outer => outer.lookupQualified table field).getD .null) :=
    fun table field split =>
      (evaluateIn_symbol env split).trans (resolve_of_alias (named table field split) field)
  refine ⟨⟨fun same table field split outer here => ?_, fun hidden => ?_⟩, inner⟩
  · rw [inner table field split, around table field split, Option.mem_def.1 here] at same
    exact (Except.ok.inj same).symm
  · by_cases owned : ∃ table field, env.splitSymbol? symbol = some (aliasToken table, field)
    · obtain ⟨table, field, split⟩ := owned
      rw [inner table field split, around table field split]
      cases here : env.row with
      | none => rfl
      | some outer => exact congrArg Except.ok (hidden table field split outer here).symm
    · exact evaluateIn_surround_of_no_alias (fun table field split => owned ⟨table, field, split⟩)
        row

/-- Beside a row of one table a caller's name is found, a field of the row around is not. -/
theorem caller_found_in_scope :
    ∃ env : Environment, env.row = some (.single "a" (.object [("v", .integer 1)])) ∧
      evaluateIn env (.symbol "#me") = .ok (.integer 7) ∧
      evaluateIn (env.surround (.single "b" (.object [("w", .integer 2)]))) (.symbol "#me")
        = .ok (.integer 7) ∧
      evaluateIn (env.surround (.single "b" (.object [("w", .integer 2)]))) (.symbol "a:v")
        = .ok .null := by
  let env := (Environment.ofContext [("@", [("a", .array []), ("b", .array [])]),
    ("#", [("me", .integer 7)])]).surround (.single "a" (.object [("v", .integer 1)]))
  have caller : env.splitSymbol? "#me" = some (contextToken, "me") := rfl
  have field : env.splitSymbol? "a:v" = some (aliasToken "a", "v") := rfl
  have noTable : ∀ table field, env.splitSymbol? "#me" ≠ some (aliasToken table, field) := by
    intro table field same
    obtain ⟨token, -⟩ := Prod.mk.inj (Option.some.inj (caller.symm.trans same))
    exact absurd (aliasOfToken?_eq_some_iff.2 token) (by simp [aliasOfToken?, contextToken])
  refine ⟨env, rfl, rfl, ((surround_inherits ?_ ?_).1.2 ?_).trans rfl,
    (surround_inherits ?_ ?_).2 "a" "v" field⟩
  · exact fun name same =>
      absurd (Prod.mk.inj (Option.some.inj (caller.symm.trans same))).1 (by decide)
  · exact fun table name same => absurd same (noTable table name)
  · exact fun table name same => absurd same (noTable table name)
  · exact fun name same =>
      absurd (Prod.mk.inj (Option.some.inj (field.symm.trans same))).1 (by decide)
  · intro table name same
    obtain ⟨token, rfl⟩ := Prod.mk.inj (Option.some.inj (field.symm.trans same))
    obtain rfl := aliasToken_inj token
    exact not_or.2 (by decide)

/-- A field of the row around is null in the scope of a row of another table. -/
theorem outer_field_lost :
    (∃ (env : Environment) (row : Row), ¬ row.Binds "a" "v" ∧
      evaluateIn env (.symbol "a:v") = .ok (.integer 1) ∧
      evaluateIn (env.surround row) (.symbol "a:v") = .ok .null) ∧
    evaluate (.list [.symbol "$select", .list [.list [.symbol "$as", .symbol "x",
        .list [.symbol "$select", .list [.symbol "a:v"], .list [.symbol "$from", .symbol "@b"]]]],
        .list [.symbol "$from", .symbol "@a"]])
      [("@", [("a", .array [.object [("v", .integer 1)]]),
        ("b", .array [.object [("w", .integer 2)]])])]
      = .ok (.array [.object [("x", .array [.object [("v", .null)]])]]) := by
  exact ⟨⟨(Environment.ofContext [("@", [("a", .null)])]).surround
    (.single "a" (.object [("v", .integer 1)])), .single "b" (.object [("w", .integer 2)]),
    not_or.2 (by decide), rfl, rfl⟩, rfl⟩

/-- A field that some record of a row has is read in the scope of the row, but where it is null:
then it is what is bound under its name. -/
theorem row_shadows {field : String} (flat : '.' ∉ field.toList)
    (split : env.splitSymbol? (rowToken ++ field) = some (rowToken, field))
    (contained : ∃ table ∈ row.tables, ∃ fields, table.2 = .object fields ∧
      field ∈ Entries.keys fields) :
    ∃ v, (∀ other, row.Reads field other ↔ other = v) ∧
      (v ≠ .null → evaluateIn (env.surround row) (.symbol (rowToken ++ field)) = .ok v) ∧
      (v = .null → evaluateIn (env.surround row) (.symbol (rowToken ++ field))
        = .ok ((env.bindings.bound? rowToken field).getD .null)) := by
  obtain ⟨v, read⟩ := Row.exists_reads contained
  have found : row.lookup field = v := read.lookup_eq flat
  have value := (evaluateIn_symbol (env.surround row) split).trans (resolve_rowToken found)
  refine ⟨v, fun other => ⟨fun here => (here.lookup_eq flat).symm.trans found, ?_⟩, ?_, ?_⟩
  · rintro rfl
    exact read
  · intro present
    rw [value]
    cases v with
    | null => exact absurd rfl present
    | _ => rfl
  · rintro rfl
    rw [value, Environment.binding?_of_flat flat]
    rfl

/-- A field of two records, and one of the context. -/
theorem first_record_shadows :
    ∃ v, (∀ other, (Row.mk [("a", .object [("f", .integer 1)]), ("b", .object [("f", .integer 2)])]
        none none).Reads "f" other ↔ other = v) ∧
      evaluateIn ((Environment.ofContext [(":", [("f", .integer 5)])]).surround
        (Row.mk [("a", .object [("f", .integer 1)]), ("b", .object [("f", .integer 2)])] none none))
        (.symbol ":f") = .ok v ∧ v = .integer 1 := by
  have split : (Environment.ofContext [(":", [("f", .integer 5)])]).splitSymbol? (rowToken ++ "f")
      = some (rowToken, "f") := rfl
  have contained : ∃ table ∈ (Row.mk [("a", .object [("f", .integer 1)]),
      ("b", .object [("f", .integer 2)])] none none).tables, ∃ fields, table.2 = .object fields ∧
        "f" ∈ Entries.keys fields :=
    ⟨_, List.mem_cons_self .., _, rfl, by decide⟩
  obtain ⟨v, unique, present, -⟩ := row_shadows (by decide) split contained
  obtain rfl : v = .integer 1 :=
    ((unique (.integer 1)).1 (.record rfl (List.nil_append _).symm (by simp) rfl)).symm
  exact ⟨_, unique, present nofun, rfl⟩

/-- A field that is null is what is bound under its name. -/
theorem null_field_bound :
    evaluate (.list [.symbol "$select", .list [.symbol ":f"], .quoted [.object [("f", .null)]]])
      [(":", [("f", .integer 5)])] = .ok (.array [.object [("f", .integer 5)]]) := by
  rfl

/-! ## Definitions -/

/-- A definition evaluates its body where the name is bound. -/
theorem evaluateIn_define {bound : Expr} {v : Value}
    (split : env.splitSymbol? symbol = some (token, name)) (value : evaluateIn env bound = .ok v)
    (body : Expr) :
    evaluateIn env (.list [.symbol "_define", .symbol symbol, bound, body])
      = evaluateIn { env with bindings := env.bindings.bind token name v } body := by
  have first : interpretation.evaluate bound env = .ok v := value
  have extended :
      env.extend token name v = .ok { env with bindings := env.bindings.bind token name v } := by
    rw [Environment.extend, if_pos (Environment.hasToken_of_splitSymbol? split)]
  refine Eq.trans (evaluate_call .define rfl _ _) ?_
  simp only [PlainOperators.define, Expr.asName?, split, first]
  show (env.extend token name v >>= interpretation.evaluate body) = _
  rw [extended]
  rfl

/-- The body of a definition reads what is bound, except under the token of a table, where it reads
nothing. -/
theorem define_reads_back {context : Context} {e bound : Expr} {v : Value}
    (split : (environment context e).splitSymbol? symbol = some (token, name))
    (value : evaluateIn (environment context e) bound = .ok v) :
    ((∀ table, token = aliasToken table → table = "") →
      evaluateIn (environment context e)
        (.list [.symbol "_define", .symbol symbol, bound, .symbol symbol]) = .ok v) ∧
    (∀ table, table ≠ "" → token = aliasToken table →
      evaluateIn (environment context e)
        (.list [.symbol "_define", .symbol symbol, bound, .symbol symbol]) = .ok .null) := by
  -- in the body the symbol is split as before
  rw [evaluateIn_define split value, evaluateIn_symbol { environment context e with
    bindings := (environment context e).bindings.bind token name v } split]
  have found : Environment.binding? { environment context e with
      bindings := (environment context e).bindings.bind token name v } token name = some v := by
    rw [Environment.binding?_eq, Context.bound?_bind, if_pos ⟨rfl, rfl⟩, Option.some_or]
  constructor
  · intro noTable
    by_cases here : token = rowToken
    · subst here
      rw [resolve_rowToken rfl, found]
      rfl
    · rw [resolve_of_no_alias fun table same => here ?_, found]
      · rfl
      · rw [same, noTable table same]
        rfl
  · rintro table named rfl
    rw [resolve_of_alias named]
    rfl

/-- A dotted name under the caller's token, and a name under a table's. -/
theorem define_reads_back_of_caller :
    evaluateIn (environment [] (.symbol "@a"))
        (.list [.symbol "_define", .symbol "#me.id", .literal (.integer 5), .symbol "#me.id"])
        = .ok (.integer 5) ∧
      evaluateIn (environment [] (.symbol "@a"))
        (.list [.symbol "_define", .symbol "a:x", .literal (.integer 5), .symbol "a:x"])
        = .ok .null := by
  have caller : (environment [] (.symbol "@a")).splitSymbol? "#me.id"
      = some (contextToken, "me.id") := rfl
  have ofTable : (environment [] (.symbol "@a")).splitSymbol? "a:x"
      = some (aliasToken "a", "x") := rfl
  refine ⟨(define_reads_back caller rfl).1 ?_,
    (define_reads_back ofTable rfl).2 "a" (by decide) rfl⟩
  intro table same
  exact absurd (aliasOfToken?_eq_some_iff.2 same) (by simp [aliasOfToken?, contextToken])

/-- A name defined under the token of a table is not read. -/
theorem define_of_table_lost :
    evaluate (.list [.symbol "_define", .symbol "a:x", .literal (.integer 5), .symbol "a:x"])
      [("@", [("a", .array [])])] = .ok .null := by
  rfl

end InMemory

end QueryForms
