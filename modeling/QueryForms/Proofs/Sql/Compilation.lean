import QueryForms.Proofs.Sql.Composition

/-!
# What compiling keeps

`Composes.evaluateIn` closes the circle: an invariant that allows every way of composition, and that
holds of the tables and of what is bound, holds of whatever an expression compiles to.
`Invariant.ofFragments` makes such an invariant out of a property of fragments alone, beside what an
expression may say and what may be bound where it stands.
-/

namespace QueryForms

/-! ## What is written and what is bound -/

/-- The values that an expression gives as they are. -/
def Expr.data : Expr → List Value
  | .literal v => [v]
  | .quoted items => items
  | _ => []

/-- All data in an expression has a property. -/
def Expr.Holds (P : Value → Prop) (e : Expr) : Prop :=
  e.Everywhere fun part => ∀ v ∈ part.data, v.Everywhere P

/-- All data that a context binds has a property. -/
def Context.Holds (P : Value → Prop) (context : Context) : Prop :=
  ∀ names ∈ context, ∀ entry ∈ names.2, entry.2.Everywhere P

/-- All data in an expression is plain, as in one that is read from plain data. -/
def Expr.Plain (e : Expr) : Prop :=
  e.Holds fun v => v.isPlain = true

/-- All data that a context binds is plain. -/
def Context.Plain (context : Context) : Prop :=
  context.Holds fun v => v.isPlain = true

namespace Context.Holds

variable {P : Value → Prop} {context : Context}

theorem mono {R : Value → Prop} (h : Context.Holds P context) (imp : ∀ v, P v → R v) :
    Context.Holds R context :=
  fun names hn entry he => (h names hn entry he).mono imp

/-- What is bound under a token stays good when a good value is bound. -/
theorem bind (h : Context.Holds P context) (token name : String) {v : Value}
    (hv : v.Everywhere P) : Context.Holds P (context.bind token name v) := by
  intro names hn entry he
  rcases Entries.mem_set hn with hn | hn
  · exact h names hn entry he
  · rw [hn] at he
    rcases Entries.mem_set he with he | he
    · cases found : Entries.get? context token with
      | none => simp [found] at he
      | some old => exact h _ (Entries.mem_of_get? found) entry (by simpa [found] using he)
    · exact he ▸ hv

end Context.Holds

theorem Expr.Holds.mono {P R : Value → Prop} {e : Expr} (h : e.Holds P) (imp : ∀ v, P v → R v) :
    e.Holds R :=
  Everywhere.mono h fun _ data v hv => (data v hv).mono imp

theorem Expr.ofValues_eq_map (values : List Value) : ofValues values = values.map ofValue := by
  induction values with
  | nil => rfl
  | cons v rest ih => rw [ofValues, ih, List.map_cons]

theorem Expr.ofFields_eq_map (fields : List (String × Value)) :
    ofFields fields = fields.map fun field => (field.1, ofValue field.2) := by
  induction fields with
  | nil => rfl
  | cons field rest ih => rw [ofFields, ih, List.map_cons]

/-- What every part of an expression that is read from data has: its symbols, calls and records, and
its quoted data and literals if they are in the data. No literal is a text. -/
theorem Expr.everywhere_ofValue {P : Value → Prop} {Q : Expr → Prop} (symbol : ∀ s, Q (.symbol s))
    (list : ∀ items, Q (.list items)) (record : ∀ fields, Q (.record fields))
    (quoted : ∀ items, (∀ v ∈ items, v.Everywhere P) → Q (.quoted items))
    (literal : ∀ v, v.Everywhere P → (∀ s, v ≠ .string s) → Q (.literal v)) {v : Value}
    (h : v.Everywhere P) : (ofValue v).Everywhere Q := by
  induction h with
  | @intro v here inside ih =>
    have all : ∀ items : List Value, (∀ item ∈ items, (ofValue item).Everywhere Q) →
        (Expr.list (ofValues items)).Everywhere Q := by
      intro items hi
      rw [ofValues_eq_map]
      exact Everywhere.list_iff.2 ⟨list _, List.forall_mem_map.2 hi⟩
    have other : (∀ s, v ≠ .string s) → (Expr.literal v).Everywhere Q :=
      fun noText => Everywhere.literal_iff.2 (literal v ⟨here, inside⟩ noText)
    cases v with
    | string s => exact Everywhere.symbol_iff.2 (symbol s)
    | array items => exact all items ih
    | object fields =>
      have fields : (Expr.record (ofFields fields)).Everywhere Q := by
        rw [ofFields_eq_map]
        refine Everywhere.record_iff.2 ⟨record _, List.forall_mem_map.2 fun field hf => ?_⟩
        exact ih _ (List.mem_map_of_mem hf)
      rw [ofValue.eq_def]
      split
      · next eq => cases eq
      · next eq => cases eq
      · next name items eq =>
        obtain rfl := Value.object.inj eq
        split
        · refine Everywhere.quoted_iff.2 (quoted items fun item hi => ?_)
          exact (inside _ (List.mem_singleton.2 rfl)).inside hi
        · rwa [ofFields, ofFields, ofValue] at fields
      · next eq => exact Value.object.inj eq ▸ fields
      · exact other nofun
    | _ => exact other nofun

/-- An expression that is read from data holds only what the data holds. -/
theorem Expr.holds_ofValue {P : Value → Prop} {v : Value} (h : v.Everywhere P) :
    (ofValue v).Holds P :=
  everywhere_ofValue (fun _ _ hw => absurd hw List.not_mem_nil)
    (fun _ _ hw => absurd hw List.not_mem_nil) (fun _ _ hw => absurd hw List.not_mem_nil)
    (fun _ inside => inside) (fun _ here _ _ hw => List.mem_singleton.1 hw ▸ here) h

/-- In an expression that is read from data only symbols are names. -/
theorem Expr.names_ofValue (v : Value) :
    (ofValue v).Everywhere fun part => ∀ s, part.asName? = some s → part = .symbol s := by
  have everything : v.Everywhere fun _ => True := .of_forall (fun _ => trivial) v
  refine everywhere_ofValue (fun name s named => ?_) (fun _ _ named => nomatch named)
    (fun _ _ named => nomatch named) (fun _ _ _ named => nomatch named)
    (fun w _ noText s named => ?_) everything
  · rw [Option.some.inj named]
  · cases w with
    | string s => exact absurd rfl (noText s)
    | _ => cases named

/-- What splits a symbol are the tokens. -/
theorem Environment.splitSymbol?_congr {a b : Environment} (h : a.tokens = b.tokens) :
    a.splitSymbol? = b.splitSymbol? := by
  funext symbol
  rw [splitSymbol?, splitSymbol?, h]

/-- What a name means is bound, or stands inside what is bound. -/
theorem Environment.everywhere_of_binding? {P : Value → Prop} {scope : Environment}
    {token name : String} {v : Value}
    (h : ∀ names, Entries.get? scope.bindings token = some names →
      ∀ entry ∈ names, entry.2.Everywhere P)
    (hv : scope.binding? token name = some v) : v.Everywhere P := by
  obtain ⟨names, found, hv⟩ := Option.bind_eq_some_iff.1 hv
  have inside : ∀ {key value}, Entries.get? names key = some value → value.Everywhere P :=
    fun hk => h names found _ (Entries.mem_of_get? hk)
  split at hv
  · next value whole => exact Option.some.inj hv ▸ inside whole
  · obtain ⟨⟨first, rest⟩, -, hv⟩ := Option.bind_eq_some_iff.1 hv
    obtain ⟨value, hf, hv⟩ := Option.bind_eq_some_iff.1 hv
    exact (inside hf).lookupPath? hv

/-- Everything that is bound has the property that the context has. -/
theorem Context.Holds.binding? {P : Value → Prop} {scope : Environment} {token name : String}
    {v : Value} (h : Context.Holds P scope.bindings) (hv : scope.binding? token name = some v) :
    v.Everywhere P :=
  Environment.everywhere_of_binding? (fun _ found => h _ (Entries.mem_of_get? found)) hv

/-! ## Compiling -/

/-- The text of a table: an identifier, or a bound text that is one already. -/
def Sql.TableText (scope : Environment) (name s : String) : Prop :=
  (∃ known, s = quoteIdent known) ∨
    scope.binding? tableToken name = some (.string s) ∧ s.toList.head? = some '"'

theorem Sql.yields_table (scope : Environment) (name : String) :
    Yields (Sql.table scope name) fun v => ∃ s, v = .fragment (.ofText s) ∧
      Sql.TableText scope name s := by
  simp only [Sql.table]
  split
  · exact Yields.ok_iff.2 ⟨_, rfl, .inl ⟨name, rfl⟩⟩
  · exact Yields.ok_iff.2 ⟨_, rfl, .inl ⟨name, rfl⟩⟩
  · next s bound =>
    refine Yields.ok_iff.2 ⟨_, rfl, ?_⟩
    split
    · next verbatim => exact .inr ⟨bound, verbatim⟩
    · exact .inl ⟨s, rfl⟩
  · exact .fault _

namespace Regime

variable {R : Regime}

/-- Symbols mean good values if tables and bound names do. -/
theorem Basis.resolve (B : R.Basis)
    (table : ∀ scope name, R.env scope → Yields (Sql.table scope name) R.Good)
    (bound : ∀ scope token name v, R.env scope → scope.binding? token name = some v → R.Good v)
    (scope : Environment) (token name : String) (hs : R.env scope) :
    Yields (Sql.resolve scope token name) R.Good := by
  have column : ∀ c : ColumnRef, Yields (.ok (.column c)) R.Good :=
    fun c => Yields.ok_iff.2 (B.column c)
  rw [Sql.resolve]
  split
  · exact column _
  · split
    · exact table scope name hs
    · split
      · exact column _
      · refine Yields.ok_iff.2 ?_
        cases found : scope.binding? token name with
        | none => exact B.atom .null rfl rfl
        | some v => exact bound scope token name v hs found

/-- An expression compiles to a good value if the operators that it calls give good values. -/
theorem Basis.evaluateIn (B : R.Basis) (speaks : R.Speaks)
    (handler : ∀ op h, Sql.handler op = some h → R.Calls op → R.KeepsBy op h)
    (table : ∀ scope name, R.env scope → Yields (Sql.table scope name) R.Good)
    (bound : ∀ scope token name v, R.env scope → scope.binding? token name = some v → R.Good v)
    {e : Expr} {scope : Environment} (he : e.Everywhere R.expr) (hs : R.env scope) :
    Yields (Sql.evaluateIn scope e) R.Good :=
  evaluateLevels (i := Sql.interpretation) speaks (B.resolve table bound) handler e.depth e scope he
    hs

end Regime

namespace Invariant

variable {I : Invariant}

/-- Symbols mean good values if tables and bound names do. -/
theorem Composes.resolve (C : I.Composes)
    (table : ∀ scope name, I.env scope → Yields (Sql.table scope name) I.Good)
    (bound : ∀ scope token name v, I.env scope → scope.binding? token name = some v → I.Good v)
    (scope : Environment) (token name : String) (hs : I.env scope) :
    Yields (Sql.resolve scope token name) I.Good :=
  C.regime.toBasis.resolve table bound scope token name hs

/-- An expression compiles to a good value. -/
theorem Composes.evaluateIn (C : I.Composes)
    (table : ∀ scope name, I.env scope → Yields (Sql.table scope name) I.Good)
    (bound : ∀ scope token name v, I.env scope → scope.binding? token name = some v → I.Good v)
    {e : Expr} {scope : Environment} (he : e.Everywhere I.expr) (hs : I.env scope) :
    Yields (Sql.evaluateIn scope e) I.Good :=
  C.regime.toBasis.evaluateIn speaks (fun _ _ hh _ => C.handler hh) table bound he hs

/-! ## Properties of fragments -/

/-- A value that has the property if it is a fragment. -/
def OnFragments (P : Fragment → Prop) (v : Value) : Prop :=
  ∀ f, v = .fragment f → P f

end Invariant

/-- What an expression may say and what may be bound where it stands, beside its data. -/
structure Terms where
  /-- What a part of an expression may say. -/
  part : Expr → Prop
  /-- What an environment may be. -/
  scope : Environment → Prop
  /-- A window call changes nothing. -/
  compiling : ∀ env, scope env → scope (env.withWindow .compiling)
  /-- A definition that may be said leaves the environment as it may be. -/
  defined : ∀ (e : Expr) (env : Environment) (token name : String) (v : Value),
    part e → e.operator? = some .define →
    (e.operands.head?.bind Expr.asName?).bind env.splitSymbol? = some (token, name) →
    scope env → scope { env with bindings := Context.bind env.bindings token name v }

/-- Terms that allow everything. -/
def Terms.free : Terms :=
  ⟨fun _ => True, fun _ => True, fun _ _ => trivial, fun _ _ _ _ _ _ _ _ _ => trivial⟩

/-- The same terms for fewer expressions. -/
def Terms.restrict (terms : Terms) (allowed : Expr → Prop) : Terms where
  part e := terms.part e ∧ allowed e
  scope := terms.scope
  compiling := terms.compiling
  defined e env token name v h := terms.defined e env token name v h.1

namespace Invariant

/-- The invariant of a property of fragments. -/
def ofFragments (P : Fragment → Prop) (terms : Terms) : Invariant where
  expr e := (∀ v ∈ e.data, v.Everywhere (OnFragments P)) ∧ terms.part e
  env scope := Context.Holds (OnFragments P) scope.bindings ∧ terms.scope scope
  value := OnFragments P
  plain v hv f eq := by subst eq; cases hv
  literal v h := h.1 v (List.mem_singleton.2 rfl)
  quoted items h := h.1
  compiling scope h := ⟨h.1, terms.compiling scope h.2⟩
  defined e scope token name v he calls target hs hv :=
    ⟨hs.1.bind token name hv, terms.defined e scope token name v he.here.2 calls target hs.2⟩

variable {P : Fragment → Prop} {terms : Terms}

/-- Plain data is no fragment. -/
theorem onFragments_of_isPlain (v : Value) (plain : v.isPlain = true) : OnFragments P v :=
  fun f eq => by subst eq; cases plain

theorem part_ofFragments : (ofFragments P terms).Part = P :=
  funext fun f => propext ⟨fun h => h f rfl, fun h _ eq => Value.fragment.inj eq ▸ h⟩

theorem composes_ofFragments (h : Fragment.Composes P (ofFragments P terms).Good) :
    (ofFragments P terms).Composes where
  toComposes := by
    rw [part_ofFragments]
    exact h
  column _ _ eq := nomatch eq

/-- A table is good if its text has the property. -/
theorem yields_good_table {env : Environment} {name : String}
    (table : ∀ s, Sql.TableText env name s → P (.ofText s)) :
    Yields (Sql.table env name) (ofFragments P terms).Good := by
  refine (Sql.yields_table env name).mono fun v hv => ?_
  obtain ⟨s, rfl, text⟩ := hv
  exact good_fragment_iff.2 (part_ofFragments ▸ table s text)

/-- A fragment that an expression compiles to has the property, if the text of a table has it. -/
theorem compiled (terms : Terms) (C : Fragment.Composes P (ofFragments P terms).Good)
    (table : ∀ scope name s, (ofFragments P terms).env scope → Sql.TableText scope name s →
      P (.ofText s))
    {e : Expr} {scope : Environment} (he : e.Everywhere (ofFragments P terms).expr)
    (hs : (ofFragments P terms).env scope) {f : Fragment}
    (hf : Sql.evaluateIn scope e = .ok (.fragment f)) : P f := by
  have good := (composes_ofFragments C).evaluateIn
    (fun scope name hs => yields_good_table fun s => table scope name s hs)
    (fun scope token name v hs hv => hs.1.binding? hv) he hs
  exact good_fragment_iff.1 (good _ hf) f rfl

end Invariant

end QueryForms
