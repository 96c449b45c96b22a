import QueryForms.Proofs.ConstantFolding
import QueryForms.Proofs.InMemory.Flattening

/-!
# Places of data and of sources

Where a relation becomes part of data, as a field of a record or a key of a group, flattening does not
reach it. `Expr.Fits` says of an expression that this cannot happen in it: the stages of a query stand
as sources of other stages and of projections, or give the result, but no value is kept of them.

What a place of an expression allows is plain data, and at a source also a relation whose rows hold
plain data only (`Place.Allows`). Of either there comes back plain data.
-/

namespace QueryForms

/-! ## Places -/

/-- What is asked of an expression at its place. -/
inductive Place where
  /-- It gives data. -/
  | data
  /-- It gives a source: data or a relation. -/
  | source

/-- What a field of a projection evaluates: what an alias call names, or the field itself. -/
def Expr.fieldValue (field : Expr) : Expr :=
  if field.isCall .aliased then (field.operands[1]?).getD field else field

namespace Operator

/-- Whether an operator is a stage of a query, which may give a relation. -/
def isStage : Operator → Bool
  | source | aliased | join | leftJoin | filterRows | group | having | order | limit | union => true
  | _ => false

/-- The operands of a call that are sources. -/
def sources (op : Operator) (operands : List Expr) : List Expr :=
  match op with
  | source | union => operands
  | join | leftJoin => operands.eraseIdx 1
  | aliased | filterRows | group | having | order | limit | select => operands.tail
  | _ => []

/-- What a call keeps the values of: the fields of a projection, the keys of a group, the operands of
an operator on values. Of conditions, orders, pages and offsets no value is kept. -/
def kept (op : Operator) (operands : List Expr) : List Expr :=
  match op with
  | select => operands.head?.elim [] fun fields => fields.itemsOrNone.map Expr.fieldValue
  | group => operands.head?.elim [] Expr.itemsOrNone
  | quote | size | count => []
  | windowed | filter => operands.take 1
  | define => (operands.take 2).drop 1
  | lag | lead => operands.eraseIdx 1
  | op => if op.isStage then [] else operands

/-- The operands of a call that give its own value: the body of a definition. -/
def bodies (op : Operator) (operands : List Expr) : List Expr :=
  match op with
  | define => operands.drop 2
  | _ => []

end Operator

/-- Whether an expression has its stages only at places of sources, and its data is plain. -/
inductive Expr.Fits : Place → Expr → Prop where
  /-- What calls no operator: a symbol, data, or a record of data. -/
  | uncalled {p : Place} {e : Expr} (calls : e.operator? = none) (data : ∀ v ∈ e.data, v.Plain)
    (inside : ∀ part ∈ e.parts, Expr.Fits .data part) : Expr.Fits p e
  /-- What is quoted is not evaluated. -/
  | quotation {p : Place} {e : Expr} (calls : e.operator? = some .quote)
    (plain : ∀ operand ∈ e.operands, operand.Plain) : Expr.Fits p e
  /-- A call at a place that allows it, of operands at the right places. -/
  | call {p : Place} {e : Expr} {op : Operator} (calls : e.operator? = some op) (other : op ≠ .quote)
    (stage : op.isStage = true → p = .source)
    (sources : ∀ operand ∈ op.sources e.operands, Expr.Fits .source operand)
    (kept : ∀ operand ∈ op.kept e.operands, Expr.Fits .data operand)
    (bodies : ∀ operand ∈ op.bodies e.operands, Expr.Fits p operand) : Expr.Fits p e

namespace Expr.Fits

variable {p : Place}

theorem symbol (p : Place) (s : String) : (Expr.symbol s).Fits p :=
  .uncalled rfl (fun _ hm => absurd hm List.not_mem_nil) fun _ hm => absurd hm List.not_mem_nil

/-- A call under the name of its operator. -/
theorem named (op : Operator) {operands : List Expr} (other : op ≠ .quote)
    (stage : op.isStage = true → p = .source)
    (sources : ∀ operand ∈ op.sources operands, operand.Fits .source)
    (kept : ∀ operand ∈ op.kept operands, operand.Fits .data)
    (bodies : ∀ operand ∈ op.bodies operands, operand.Fits p) :
    (Expr.list (.symbol op.name :: operands)).Fits p :=
  .call (op.ofName?_name : (Expr.list (.symbol op.name :: operands)).operator? = some op) other stage
    sources kept bodies

end Expr.Fits

/-! ## Rows of plain data -/

/-- A row of plain data, and with members of plain data. -/
inductive Row.Clear : Row → Prop where
  | intro {row : Row} (data : Row.Holds (fun v => v.isPlain = true) { row with items := none })
    (members : ∀ items ∈ row.items, ∀ member ∈ items, Row.Clear member) : Row.Clear row

namespace Row.Clear

open Invariant

variable {row other : Row}

theorem data (h : row.Clear) : Row.Holds Constants.plainData.value { row with items := none } := by
  cases h; assumption

/-- The rows that an aggregate combines. -/
theorem members (h : row.Clear) : ∀ member ∈ row.members, member.Clear := by
  rw [Row.members]
  cases inside : row.items with
  | none => exact List.forall_mem_singleton.2 h
  | some items =>
    cases h with
    | intro _ members => exact members items inside

theorem of_tables {tables : List (String × Value)} (h : ∀ table ∈ tables, table.2.Plain) :
    (Row.mk tables none none).Clear :=
  ⟨.of_tables (I := Constants.plainData) h, fun _ hm => nomatch hm⟩

theorem empty : Row.empty.Clear :=
  of_tables fun _ hm => absurd hm List.not_mem_nil

theorem single {v : Value} (h : v.Plain) (table : String) : (Row.single table v).Clear :=
  of_tables (List.forall_mem_singleton.2 h)

/-- The row in which aliases are bound to null. -/
theorem missing (aliases : List String) : (Relation.missingRow aliases).Clear :=
  of_tables (Holds.missing (I := Constants.plainData) aliases).tables

theorem merge (h : row.Clear) (ho : other.Clear) : (row.merge other).Clear :=
  of_tables (Entries.forall_setAll h.data.tables ho.data.tables)

theorem withItems (h : row.Clear) {list : List Row} (hl : ∀ member ∈ list, member.Clear) :
    Row.Clear { row with items := some list } :=
  ⟨h.data, fun _ hm => Option.mem_some.1 hm ▸ hl⟩

theorem ofGroup {keys : Record} (hk : ∀ key ∈ keys, key.2.Plain) {list : List Row}
    (hl : ∀ member ∈ list, member.Clear) : (Row.ofGroup keys list).Clear := by
  refine ⟨holds_iff.2 ⟨?_, hk, fun _ hm => nomatch hm⟩, fun _ hm => Option.mem_some.1 hm ▸ hl⟩
  cases list with
  | nil => exact fun _ hm => absurd hm List.not_mem_nil
  | cons first rest => exact (hl first (List.mem_cons_self ..)).data.tables

theorem flatten (h : row.Clear) : ∀ field ∈ row.flatten, field.2.Plain :=
  h.data.flatten

theorem renameRow (h : row.Clear) (table : String) : (Relation.renameRow table row).Clear := by
  rw [Relation.renameRow.eq_def]
  split
  · next name record only _ =>
    exact single (h.data.tables (name, record) (by simp [only])) table
  · exact single (Value.Everywhere.object_iff.2 ⟨rfl, h.flatten⟩) table

end Row.Clear

/-- All rows that a window call can see are clear. -/
def WindowState.Clear : WindowState → Prop
  | .source rows _ => ∀ row ∈ rows, row.Clear
  | .frame f => ∀ member ∈ f.partition, member.2.Clear
  | .compiling => True

/-- Everything that a symbol may mean is plain data. -/
structure Environment.Clear (env : Environment) : Prop where
  bindings : Context.Plain env.bindings
  row : ∀ row ∈ env.row, row.Clear
  window : ∀ w ∈ env.window, w.Clear

namespace Environment.Clear

variable {env : Environment}

/-- In the environment of a context of plain data there is no row yet. -/
theorem ofContext {context : Context} (plain : context.Plain) (e : Expr) :
    ((Environment.ofContext context).declareTables e).Clear :=
  ⟨plain, fun row hm => absurd hm (Option.not_mem_none row),
    fun w hm => absurd hm (Option.not_mem_none w)⟩

theorem surround (h : env.Clear) {row : Row} (hr : row.Clear) : (env.surround row).Clear :=
  ⟨h.bindings, fun _ hm => Option.mem_some.1 hm ▸ hr, h.window⟩

theorem withWindow (h : env.Clear) {w : WindowState} (hw : w.Clear) : (env.withWindow w).Clear :=
  ⟨h.bindings, h.row, fun _ hm => Option.mem_some.1 hm ▸ hw⟩

theorem bind (h : env.Clear) (token name : String) {v : Value} (hv : v.Plain) :
    Environment.Clear { env with bindings := Context.bind env.bindings token name v } :=
  ⟨h.bindings.bind token name hv, h.row, h.window⟩

end Environment.Clear

/-! ## Values at places -/

/-- The values that a place allows: plain data, and at a source a relation of clear rows. -/
def Place.Allows (p : Place) (v : Value) : Prop :=
  v.Plain ∨ p = .source ∧ ∃ rows, v = .rows rows ∧ ∀ row ∈ rows, row.Clear

theorem Place.allows_data {v : Value} : Place.data.Allows v ↔ v.Plain :=
  ⟨fun h => h.resolve_right (fun other => nomatch other.1), Or.inl⟩

theorem Place.allows_rows {rows : List Row} (h : ∀ row ∈ rows, row.Clear) :
    Place.source.Allows (.rows rows) :=
  .inr ⟨rfl, rows, rfl, h⟩

/-- The rows of a source are clear. -/
theorem Place.Allows.toRows? {v : Value} (h : Place.source.Allows v) {table : String}
    {rows : List Row} (found : v.toRows? table = some rows) : ∀ row ∈ rows, row.Clear := by
  obtain plain | ⟨-, list, rfl, clear⟩ := h
  · cases v <;> simp only [Value.toRows?, Option.some.injEq, reduceCtorEq] at found <;> subst found
    case rows list => cases plain.here
    case null => exact fun _ hm => absurd hm List.not_mem_nil
    case array items =>
      exact List.forall_mem_map.2 fun item hi => .single (plain.inside hi) table
  · cases found
    exact clear

/-- What a source gives comes back as plain data. -/
theorem Place.Allows.plain_materialize {v : Value} (h : Place.source.Allows v) :
    v.materialize.Plain := by
  obtain plain | ⟨-, rows, rfl, clear⟩ := h
  · rwa [Value.materialize_of_plain plain]
  · refine Value.Everywhere.array_iff.2 ⟨rfl, List.forall_mem_map.2 fun row hr => ?_⟩
    exact Value.Everywhere.object_iff.2 ⟨rfl, (clear row hr).flatten⟩

end QueryForms
