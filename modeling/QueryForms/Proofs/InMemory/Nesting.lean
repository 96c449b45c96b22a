import QueryForms.Proofs.InMemory.Places
import QueryForms.Proofs.InMemory.Projection

/-!
# Relations that stand only as sources

Every operator gives what the place of its call allows, if its operands are right for their places
(`settlesBy_handler`, from one lemma for each operator or kind of operators). So does evaluation, by
induction on the levels of the expression (`settles_evaluateLevels`). If the stages of a query stand
only as sources, the result is therefore plain data; whether or not they do, it holds a relation
exactly if a row that is flattened does (`evaluate_relationFree`).
-/

namespace QueryForms

/-- What a handler does with operands. -/
def Handler.run : Handler → Evaluator → List Expr → Environment → Result Value
  | .onValues f => fun eval operands env => Interpretation.evaluateAll eval operands env >>= f
  | .onOperands apply => apply

namespace InMemory

/-- An evaluator that gives an expression what its place allows. -/
def Settles (eval : Evaluator) : Prop :=
  ∀ (p : Place) (e : Expr) (env : Environment), e.Fits p → env.Clear → Yields (eval e env) p.Allows

/-- Operands that are right for a call at a place. -/
structure Takes (op : Operator) (p : Place) (operands : List Expr) : Prop where
  stage : op.isStage = true → p = .source
  sources : ∀ operand ∈ op.sources operands, operand.Fits .source
  kept : ∀ operand ∈ op.kept operands, operand.Fits .data
  bodies : ∀ operand ∈ op.bodies operands, operand.Fits p

/-- What an operator does with the right operands gives what the place of the call allows. -/
def SettlesBy (op : Operator)
    (apply : Evaluator → List Expr → Environment → Result Value) : Prop :=
  ∀ (eval : Evaluator) (p : Place) (operands : List Expr) (env : Environment), Settles eval →
    Takes op p operands → env.Clear → Yields (apply eval operands env) p.Allows

section

variable {eval : Evaluator} {env : Environment} (settles : Settles eval) (clear : env.Clear)

include settles clear

theorem yields_data {e : Expr} (fits : e.Fits .data) : Yields (eval e env) Value.Plain :=
  (settles .data e env fits clear).mono fun _ => Place.allows_data.1

theorem yields_evaluateAll {exprs : List Expr} (fits : ∀ e ∈ exprs, e.Fits .data) :
    Yields (Interpretation.evaluateAll eval exprs env) fun values => ∀ v ∈ values, v.Plain :=
  .mapM fun e he => yields_data settles clear (fits e he)

theorem yields_sourceRows {e : Expr} (fits : e.Fits .source) :
    Yields (Relation.sourceRows eval e env) fun rows => ∀ row ∈ rows, row.Clear := by
  refine .bind (settles .source e env fits clear) fun v allowed => ?_
  split
  · next rows found => exact Yields.pure_iff.2 (allowed.toRows? found)
  · exact .fault _

end

/-! ## Stages -/

theorem settlesBy_source : SettlesBy .source Relation.source := by
  intro eval p operands env settles takes clear
  obtain rfl := takes.stage rfl
  rw [Relation.source.eq_def]
  split
  · next table =>
    have fits : table.Fits .source := takes.sources table (List.mem_singleton.2 rfl)
    exact .map ((yields_sourceRows settles clear fits).mono fun _ => Place.allows_rows)
  · exact .fault _

/-- A clause has two operands, the second of which is its source. -/
theorem yields_clauseOperands {op : Operator} {p : Place} {operands : List Expr}
    (clause : ∀ operands, op.sources operands = operands.tail) (takes : Takes op p operands)
    (name : String) :
    Yields (Relation.clauseOperands name operands)
      fun pair => operands = [pair.1, pair.2] ∧ pair.2.Fits .source := by
  rw [Relation.clauseOperands.eq_def]
  split
  · next first e =>
    have last : e ∈ op.sources [first, e] := (clause [first, e]).symm ▸ List.mem_singleton.2 rfl
    exact Yields.ok_iff.2 ⟨rfl, takes.sources e last⟩
  · exact .fault _

theorem settlesBy_aliased : SettlesBy .aliased Relation.aliased := by
  intro eval p operands env settles takes clear
  obtain rfl := takes.stage rfl
  refine .bind (yields_clauseOperands (fun _ => rfl) takes _) fun ⟨named, e⟩ ⟨_, fits⟩ => ?_
  refine .bind (.trivial _) fun name _ => ?_
  refine .bind (settles .source e env fits clear) fun v allowed => Yields.pure_iff.2 ?_
  obtain plain | ⟨-, rows, rfl, clear⟩ := allowed
  · cases v with
    | array items =>
      exact Place.allows_rows
        (List.forall_mem_map.2 fun item hi => .single (plain.inside hi) name)
    | rows list => cases plain.here
    | _ => exact .inl plain
  · exact Place.allows_rows (List.forall_mem_map.2 fun row hr => (clear row hr).renameRow name)

/-- The items that a test keeps are among those there were. -/
theorem yields_kept {α : Type} {P : α → Prop} {test : α → Result Bool} {list : List α}
    (h : ∀ item ∈ list, P item) :
    Yields (Relation.keep test list) fun kept => ∀ item ∈ kept, P item :=
  (Relation.yields_keep test list).mono fun _ sublist item hm => h item (sublist.subset hm)

theorem settlesBy_join {op : Operator} (joins : op = .join ∨ op = .leftJoin) (outer : Bool) :
    SettlesBy op (Relation.join outer) := by
  intro eval p operands env settles takes clear
  obtain rfl : p = .source := takes.stage (by rcases joins with rfl | rfl <;> rfl)
  rw [Relation.join.eq_def]
  split
  · next right condition left =>
    have both : ∀ e ∈ [right, left], e.Fits .source := by
      rcases joins with rfl | rfl <;> exact takes.sources
    obtain ⟨ofRight, ofLeft⟩ := List.forall_mem_cons.1 both
    have ofLeft := List.forall_mem_singleton.1 ofLeft
    refine .bind (yields_sourceRows settles clear ofLeft) fun lefts hl => ?_
    refine .bind (yields_sourceRows settles clear ofRight) fun rights hr => ?_
    refine .bind (P := fun joined => ∀ part ∈ joined, ∀ row ∈ part, row.Clear)
      (.mapM fun row hm => ?_) fun joined hj => ?_
    · have merged : ∀ pair ∈ rights.map row.merge, pair.Clear :=
        List.forall_mem_map.2 fun partner inside => (hl row hm).merge (hr partner inside)
      refine .bind (yields_kept merged) fun matched hmatch => Yields.pure_iff.2 ?_
      split
      · exact List.forall_mem_singleton.2 ((hl row hm).merge (.missing _))
      · exact hmatch
    · refine Yields.pure_iff.2 (Place.allows_rows fun row hm => ?_)
      obtain ⟨part, hp, hm⟩ := List.mem_flatten.1 hm
      exact hj part hp row hm
  · exact .fault _

theorem settlesBy_filterRows {op : Operator} (filters : op = .filterRows ∨ op = .having)
    (name : String) : SettlesBy op (Relation.filterRows name) := by
  intro eval p operands env settles takes clear
  obtain rfl : p = .source := takes.stage (by rcases filters with rfl | rfl <;> rfl)
  have clause : ∀ operands, op.sources operands = operands.tail := by
    rcases filters with rfl | rfl <;> exact fun _ => rfl
  refine .bind (yields_clauseOperands clause takes name) fun ⟨condition, e⟩ ⟨_, fits⟩ => ?_
  refine .bind (yields_sourceRows settles clear fits) fun rows hr => ?_
  exact .bind (yields_kept hr) fun kept hk => Yields.pure_iff.2 (Place.allows_rows hk)

theorem settlesBy_group : SettlesBy .group Relation.group := by
  intro eval p operands env settles takes clear
  obtain rfl := takes.stage rfl
  refine .bind (yields_clauseOperands (fun _ => rfl) takes _) fun ⟨keyList, e⟩ ⟨both, fits⟩ => ?_
  obtain rfl := both
  refine .bind (yields_sourceRows settles clear fits) fun rows hr => ?_
  refine .bind
    (P := fun keyed : List Relation.Keyed => ∀ k ∈ keyed, (∀ v ∈ k.keys, v.Plain) ∧ k.row.Clear)
    (.mapM fun row hm => ?_) fun keyed hk => ?_
  · refine .bind (yields_evaluateAll settles (clear.surround (hr row hm)) takes.kept) ?_
    exact fun values plain => Yields.pure_iff.2 ⟨plain, hr row hm⟩
  · refine Yields.pure_iff.2 (Place.allows_rows (List.forall_mem_map.2 fun members gathered => ?_))
    obtain ⟨id, -, rfl⟩ := List.mem_map.1 gathered
    have inside : ∀ k ∈ keyed.filter fun k => k.id == id, (∀ v ∈ k.keys, v.Plain) ∧ k.row.Clear :=
      fun k h => hk k (List.mem_filter.1 h).1
    have keys := Relation.good_groupKeys (I := Constants.plainData)
      (keyList.itemsOrNone.map (Relation.groupKeyName env)) fun k h => (inside k h).1
    exact .ofGroup keys (List.forall_mem_map.2 fun k h => (inside k h).2)

theorem settlesBy_order : SettlesBy .order Relation.order := by
  intro eval p operands env settles takes clear
  obtain rfl := takes.stage rfl
  refine .bind (yields_clauseOperands (fun _ => rfl) takes _) fun ⟨specList, e⟩ ⟨_, fits⟩ => ?_
  refine .bind (.trivial _) fun specs _ => ?_
  refine .bind (yields_sourceRows settles clear fits) fun rows hr => ?_
  refine .bind (P := fun keyed => ∀ k ∈ keyed, k.2.Clear) (.mapM fun row hm => ?_)
    fun keyed hk => ?_
  · exact .bind (.trivial _) fun _ _ => Yields.pure_iff.2 (hr row hm)
  · refine Yields.pure_iff.2 (Place.allows_rows (List.forall_mem_map.2 fun k h => ?_))
    exact hk k (mem_of_mem_sortByKeys h)

theorem settlesBy_limit : SettlesBy .limit Relation.limit := by
  intro eval p operands env settles takes clear
  obtain rfl := takes.stage rfl
  refine .bind (yields_clauseOperands (fun _ => rfl) takes _) fun ⟨spec, e⟩ ⟨_, fits⟩ => ?_
  refine .bind (.trivial _) fun _ _ => .bind (.trivial _) fun page _ => ?_
  refine .bind (settles .source e env fits clear) fun v allowed => ?_
  split
  · next items =>
    obtain plain | ⟨-, _, other, -⟩ := allowed
    · refine Yields.pure_iff.2 (.inl (Value.Everywhere.array_iff.2 ⟨rfl, fun item hi => ?_⟩))
      exact plain.inside (Accord.mem_of_mem_page hi)
    · cases other
  · split
    · next rows found =>
      have inside := allowed.toRows? found
      refine Yields.pure_iff.2 (Place.allows_rows fun row hm => ?_)
      exact inside row (Accord.mem_of_mem_page hm)
    · exact .fault _

/-- Branches that are all arrays or null are plain data. -/
theorem plain_of_arrayItems? {values : List Value} (allowed : ∀ v ∈ values, Place.source.Allows v)
    {items : List Value} (found : Relation.arrayItems? values = some items) :
    ∀ v ∈ values, v.Plain := by
  induction values generalizing items with
  | nil => exact fun _ hm => absurd hm List.not_mem_nil
  | cons v rest ih =>
    obtain ⟨here, others⟩ := List.forall_mem_cons.1 allowed
    refine List.forall_mem_cons.2 ⟨?_, ?_⟩
    · obtain plain | ⟨-, rows, rfl, -⟩ := here
      · exact plain
      · cases found
    · cases v with
      | array first =>
        obtain ⟨more, found, -⟩ := Option.map_eq_some_iff.1 found
        exact ih others found
      | null => exact ih others found
      | _ => cases found

theorem settlesBy_union : SettlesBy .union Relation.union := by
  intro eval p operands env settles takes clear
  obtain rfl := takes.stage rfl
  have branches : Yields (Interpretation.evaluateAll eval operands env)
      fun values => ∀ v ∈ values, Place.source.Allows v :=
    .mapM fun e he => settles .source e env (takes.sources e he) clear
  refine .bind branches fun values allowed => ?_
  split
  · next items found =>
    refine Yields.pure_iff.2 (.inl (Value.Everywhere.array_iff.2 ⟨rfl, ?_⟩))
    have plain := plain_of_arrayItems? allowed found
    exact Relation.good_arrayItems? (I := Constants.plainData) plain found
  · refine .bind (P := fun lists => ∀ list ∈ lists, ∀ row ∈ list, row.Clear)
      (.mapM fun branch hm => ?_)
      fun lists hl => Yields.pure_iff.2 (Place.allows_rows fun row hm => ?_)
    · rw [Relation.branchRows]
      split
      · next rows found => exact Yields.ok_iff.2 ((allowed _ (List.of_mem_zip hm).1).toRows? found)
      · exact .fault _
    · obtain ⟨list, hi, hm⟩ := List.mem_flatten.1 hm
      exact hl list hi row hm

/-! ## Projection -/

section

variable {eval : Evaluator} {env : Environment} (clear : env.Clear)

include clear

/-- The fields that a wildcard stands for. -/
theorem yields_wildcard {symbol : String} {fields : Result Record}
    (found : Relation.wildcard? env symbol = some fields) :
    Yields fields fun record => ∀ field ∈ record, field.2.Plain := by
  have tables : ∀ row ∈ env.row, ∀ table ∈ row.tables, Constants.plainData.Good table.2 :=
    fun row hr => (clear.row row hr).data.tables
  rw [Relation.wildcard?] at found
  split at found
  · cases found
    exact Yields.ok_iff.2 (Relation.good_firstRecord tables)
  · obtain ⟨table, -, rfl⟩ := Option.map_eq_some_iff.1 found
    split
    · exact Yields.ok_iff.2 (Relation.good_qualifiedRecord tables table)
    · exact .error _

variable (settles : Settles eval)

include settles

theorem yields_project {field : Expr} (fits : field.fieldValue.Fits .data) :
    Yields (Relation.project eval env field) fun record => ∀ field ∈ record, field.2.Plain := by
  have one : ∀ name : String, Yields (eval field.fieldValue env >>= fun v => pure [(name, v)])
      fun record : Record => ∀ field ∈ record, field.2.Plain := fun name =>
    .bind (yields_data settles clear fits) fun v hv =>
      Yields.pure_iff.2 (List.forall_mem_singleton.2 hv)
  rw [Relation.project]
  rw [Expr.fieldValue] at one
  split
  · next named =>
    refine .bind (.itself (Relation.clauseOperands "$as" field.operands)) fun pair both => ?_
    rw [if_pos named, Relation.clauseOperands_eq_ok both] at one
    exact .bind (.trivial _) fun name _ => one name
  · next other =>
    rw [if_neg other] at one
    split
    · next fields found =>
      obtain ⟨symbol, -, found⟩ := Option.bind_eq_some_iff.1 found
      exact yields_wildcard clear found
    · exact one _

theorem yields_projectAll {fields : List Expr}
    (fits : ∀ field ∈ fields, field.fieldValue.Fits .data) :
    Yields (Relation.projectAll eval fields env) Value.Plain := by
  refine .bind (.mapM fun field hf => yields_project clear settles (fits field hf))
    fun added ha => ?_
  refine Yields.pure_iff.2 (Value.Everywhere.object_iff.2 ⟨rfl, ?_⟩)
  refine List.foldlRecOn (motive := fun out : Record => ∀ field ∈ out, field.2.Plain) added _ ?_
    fun _ out record hm => Entries.forall_setAll out (ha record hm)
  split
  · cases here : env.row with
    | none => exact fun _ hm => absurd hm List.not_mem_nil
    | some row => exact (clear.row row here).flatten
  · exact fun _ hm => absurd hm List.not_mem_nil

end

theorem clear_selectedRows (fields : List Expr) {rows : List Row}
    (clear : ∀ row ∈ rows, row.Clear) :
    ∀ row ∈ Relation.selectedRows fields rows, row.Clear := by
  rw [Relation.selectedRows]
  split
  · exact List.forall_mem_singleton.2 (.ofGroup (fun _ hm => absurd hm List.not_mem_nil) clear)
  · exact clear

/-- A record for each row that a projection shows. -/
theorem yields_projected {eval : Evaluator} {env : Environment} (settles : Settles eval)
    (clear : env.Clear) {fields : List Expr}
    (fits : ∀ field ∈ fields.map Expr.fieldValue, field.Fits .data) {rows : List Row}
    (inside : ∀ row ∈ rows, row.Clear) (windowed : Bool) (p : Place) :
    Yields
      ((Windowed.indexed (Relation.selectedRows fields rows)).mapM (fun indexed =>
        Relation.projectAll eval fields
          (Relation.rowScope env (Relation.selectedRows fields rows) windowed indexed)) >>=
            fun records => pure (Value.array records)) p.Allows := by
  have shown := clear_selectedRows fields inside
  refine .bind (.mapM fun indexed hi => yields_projectAll ?_ settles (List.forall_mem_map.1 fits))
    fun records plain => Yields.pure_iff.2 (.inl (Value.Everywhere.array_iff.2 ⟨rfl, plain⟩))
  have here := clear.surround (shown _ (Windowed.mem_of_mem_indexed hi))
  rw [Relation.rowScope]
  cases windowed with
  | true => exact here.withWindow shown
  | false => exact here

theorem settlesBy_select : SettlesBy .select Relation.select := by
  intro eval p operands env settles takes clear
  rw [Relation.select.eq_def]
  dsimp only
  split
  · next fieldList =>
    have current : (env.row.getD Row.empty).Clear := by
      cases here : env.row with
      | none => exact .empty
      | some row => exact clear.row row here
    exact yields_projected settles clear takes.kept (List.forall_mem_singleton.2 current) _ p
  · next fieldList e =>
    have fits : e.Fits .source := takes.sources e (List.mem_singleton.2 rfl)
    refine .bind (yields_sourceRows settles clear fits) fun rows hr => ?_
    exact yields_projected settles clear takes.kept hr _ p
  · exact .fault _

/-! ## Aggregates -/

theorem yields_memberValues {eval : Evaluator} {env : Environment} (settles : Settles eval)
    (clear : env.Clear) {field : Expr} (fits : field.Fits .data) :
    Yields (Aggregate.memberValues eval field env) fun values => ∀ v ∈ values, v.Plain := by
  have members : ∀ member ∈ Aggregate.members env, member.Clear := by
    rw [Aggregate.members]
    cases here : env.row with
    | none => exact fun _ hm => absurd hm List.not_mem_nil
    | some row => exact (clear.row row here).members
  refine .bind (.mapM fun member hm => yields_data settles (clear.surround (members member hm)) fits)
    fun values plain => ?_
  exact Yields.pure_iff.2 fun v hm => plain v (List.mem_filter.1 hm).1

/-- The one operand of an aggregate. -/
theorem oneOperand_eq_ok {op : String} {operands : List Expr} {operand : Expr}
    (h : Aggregate.oneOperand op operands = .ok operand) : operands = [operand] := by
  rw [Aggregate.oneOperand.eq_def] at h
  split at h
  · cases h
    rfl
  · cases h

theorem settlesBy_count : SettlesBy .count Aggregate.count := by
  intro eval p operands env settles takes clear
  refine .bind (.trivial _) fun field _ => .bind (.trivial _) fun values _ => ?_
  exact Yields.pure_iff.2 (.inl (.of_parts_nil rfl rfl))

/-- An aggregate that combines plain values of its operand to a plain value. -/
theorem settlesBy_aggregate {op : Operator} (keeps : ∀ operands, op.kept operands = operands)
    (name : String) {combine : List Value → Result Value}
    (plain : ∀ values : List Value, (∀ v ∈ values, v.Plain) → Yields (combine values) Value.Plain) :
    SettlesBy op (fun eval operands env => do
      let values ← Aggregate.memberValues eval (← Aggregate.oneOperand name operands) env
      combine values) := by
  intro eval p operands env settles takes clear
  refine .bind (.itself (Aggregate.oneOperand name operands)) fun operand one => ?_
  cases oneOperand_eq_ok one
  have fits : operand.Fits .data :=
    takes.kept operand ((keeps [operand]).symm ▸ List.mem_singleton.2 rfl)
  refine .bind (yields_memberValues settles clear fits) fun values hv => ?_
  exact (plain values hv).mono fun _ => Or.inl

theorem settlesBy_sum : SettlesBy .sum Aggregate.sum :=
  settlesBy_aggregate (fun _ => rfl) "$sum" fun values hv => by
    split
    · exact Yields.pure_iff.2 (.of_parts_nil rfl rfl)
    · exact yields_reduce (I := Constants.plainData) .add hv

theorem settlesBy_avg : SettlesBy .avg Aggregate.avg :=
  settlesBy_aggregate (fun _ => rfl) "$avg" fun values hv => by
    split
    · exact Yields.pure_iff.2 (.of_parts_nil rfl rfl)
    · refine .bind (.trivial _) fun total _ => ?_
      exact yields_applyArithmetic (I := Constants.plainData) _ _ _

theorem settlesBy_extreme {op : Operator} (keeps : ∀ operands, op.kept operands = operands)
    (name : String) (accepted : Ordering → Bool) : SettlesBy op (Aggregate.extreme name accepted) :=
  settlesBy_aggregate keeps name fun values hv => by
    split
    · exact Yields.pure_iff.2 (.of_parts_nil rfl rfl)
    · next first rest =>
      refine .foldlM (fun best v hbest hm => ?_) (hv first (List.mem_cons_self ..))
      refine .bind (.trivial _) fun order _ => Yields.pure_iff.2 ?_
      split
      · exact hv v (List.mem_cons_of_mem _ hm)
      · exact hbest

/-! ## Windows -/

theorem yields_ownFrame {env : Environment} (clear : env.Clear) (op : String) :
    Yields (Windowed.ownFrame op env) fun f => ∀ member ∈ f.partition, member.2.Clear := by
  rw [Windowed.ownFrame]
  split
  · next f here => exact Yields.ok_iff.2 (clear.window (.frame f) here)
  · exact .error _

/-- The members of a partition are rows of the projection. -/
theorem yields_partitionOf (eval : Evaluator) (spec : WindowSpec) (env : Environment)
    (rows : List Row) (index : Nat) :
    Yields (Windowed.partitionOf eval spec env rows index)
      fun members => ∀ member ∈ members, member.2.2 ∈ rows := by
  refine .bind (.trivial _) fun names _ => .mapM fun member hm => ?_
  refine .bind (.trivial _) fun keys _ => Yields.pure_iff.2 ?_
  exact Windowed.mem_of_mem_indexed (List.of_mem_zip (List.mem_filter.1 hm).1).2

theorem settlesBy_call : SettlesBy .windowed Windowed.call := by
  intro eval p operands env settles takes clear
  rw [Windowed.call.eq_def]
  split
  · exact .fault _
  · next function rest =>
    refine .bind (.trivial _) fun w _ => ?_
    split
    · next rows index here =>
      have inside : ∀ row ∈ rows, row.Clear := clear.window (.source rows index) here
      refine .bind (yields_partitionOf eval w env rows index) fun members hm => ?_
      refine .bind (Windowed.yields_frameOf (P := (· ∈ rows)) w index hm) fun f hf => ?_
      have framed : ∀ member ∈ f.partition, member.2.Clear :=
        fun member h => inside _ (hf member h)
      have current : ((rows[index]?).getD Row.empty).Clear := by
        cases found : rows[index]? with
        | none => exact .empty
        | some row => exact inside row (List.mem_of_getElem? found)
      have scope := (clear.surround (current.withItems (Frame.forall_rows framed))).withWindow
        (w := .frame f) framed
      have fits : function.Fits .data := takes.kept function (List.mem_singleton.2 rfl)
      exact (yields_data settles scope fits).mono fun _ => Or.inl
    · exact .error _

theorem settlesBy_ranking (op : Operator) (name : String) (number : Frame → Nat) :
    SettlesBy op (Windowed.ranking name number) := fun _ _ _ _ _ _ _ =>
  .bind (.trivial _) fun _ _ => Yields.pure_iff.2 (.inl (.of_parts_nil rfl rfl))

theorem settlesBy_shifted {op : Operator} (shifts : op = .lag ∨ op = .lead) (name : String)
    (target : Nat → Nat → Option Nat) : SettlesBy op (Windowed.shifted name target) := by
  intro eval p operands env settles takes clear
  have kept : ∀ operand ∈ operands.eraseIdx 1, operand.Fits .data := by
    rcases shifts with rfl | rfl <;> exact takes.kept
  refine .bind (yields_ownFrame clear name) fun f framed => ?_
  split
  · exact .fault _
  · next field rest =>
    obtain ⟨ofField, later⟩ := List.forall_mem_cons.1 kept
    refine .bind (.trivial _) fun offset _ => ?_
    split
    · next keys row found =>
      obtain ⟨position, -, found⟩ := Option.bind_eq_some_iff.1 found
      have scope := clear.surround (framed _ (List.mem_of_getElem? found))
      exact (yields_data settles scope ofField).mono fun _ => Or.inl
    · split
      · next other found =>
        have fits : other.Fits .data := by
          cases rest with
          | nil => cases found
          | cons _ rest => exact later other (List.mem_of_getElem? found)
        exact (yields_data settles clear fits).mono fun _ => Or.inl
      · exact Yields.pure_iff.2 (.inl (.of_parts_nil rfl rfl))

/-! ## Shared and scalar operators -/

theorem settlesBy_wait : SettlesBy .wait PlainOperators.wait := by
  intro eval p operands env settles takes clear
  refine .map ((yields_evaluateAll settles clear takes.kept).mono fun values plain => ?_)
  exact .inl (Value.Everywhere.array_iff.2 ⟨rfl, plain⟩)

theorem settlesBy_filter : SettlesBy .filter Scalar.filter := by
  intro eval p operands env settles takes clear
  rw [Scalar.filter.eq_def]
  split
  · next field condition =>
    have fits : field.Fits .data := takes.kept field (List.mem_singleton.2 rfl)
    refine .bind (.trivial _) fun v _ => ?_
    split
    · exact (yields_data settles clear fits).mono fun _ => Or.inl
    · exact Yields.pure_iff.2 (.inl (.of_parts_nil rfl rfl))
  · exact .fault _

theorem settlesBy_define : SettlesBy .define PlainOperators.define := by
  intro eval p operands env settles takes clear
  rw [PlainOperators.define.eq_def]
  split
  · next target bound bodies =>
    have ofBound : bound.Fits .data := takes.kept bound (List.mem_singleton.2 rfl)
    split
    · exact .fault _
    · split
      · exact .error _
      · next token name _ =>
        refine .bind (yields_data settles clear ofBound) fun v plain => ?_
        split
        · exact Yields.pure_iff.2 (.inl plain)
        · next body =>
          have ofBody : body.Fits p := takes.bodies body (List.mem_singleton.2 rfl)
          rw [Environment.extend]
          split
          · exact settles p body _ ofBody (clear.bind token name plain)
          · exact .error _
        · exact .fault _
  · exact .fault _

/-- An operator on values keeps plain data plain. -/
theorem settlesBy_values {op : Operator} (keeps : ∀ operands, op.kept operands = operands)
    {f : List Value → Result Value} (plain : Constants.plainData.KeepsBy op (.onValues f)) :
    SettlesBy op (Handler.onValues f).run := by
  intro eval p operands env settles takes clear
  have fits : ∀ operand ∈ operands, operand.Fits .data := keeps operands ▸ takes.kept
  refine .bind (yields_evaluateAll settles clear fits) fun values hv => ?_
  exact (plain values hv).mono fun _ => Or.inl

theorem settlesBy_size : SettlesBy .size (Handler.onValues PlainOperators.size).run := by
  intro eval p operands env settles takes clear
  refine .bind (.trivial _) fun values _ => (PlainOperators.yields_size values).mono fun v h => ?_
  exact .inl (.of_parts_nil h.1 h.2)

/-! ## The interpretation -/

/-- Every operator gives what its place allows. -/
theorem settlesBy_handler {op : Operator} {h : Handler} (hh : handler op = some h) :
    SettlesBy op h.run := by
  simp only [handler, Option.orElse_eq_orElse, Option.orElse_eq_or] at hh
  rcases Option.or_eq_some_iff.1 hh with hh | ⟨-, hh⟩
  · cases op <;> simp only [PlainOperators.handler, Option.some.injEq, reduceCtorEq] at hh <;>
      subst hh
    case size => exact settlesBy_size
    case wait => exact settlesBy_wait
    case define => exact settlesBy_define
    all_goals exact settlesBy_values (fun _ => rfl) (PlainOperators.keepsBy rfl)
  rcases Option.or_eq_some_iff.1 hh with hh | ⟨-, hh⟩
  · cases op <;> simp only [Scalar.handler, Option.some.injEq, reduceCtorEq] at hh <;> subst hh
    case filter => exact settlesBy_filter
    all_goals exact settlesBy_values (fun _ => rfl) (Scalar.keepsBy rfl)
  rcases Option.or_eq_some_iff.1 hh with hh | ⟨-, hh⟩
  · cases op <;> simp only [Relation.handler, Option.some.injEq, reduceCtorEq] at hh <;> subst hh
    case source => exact settlesBy_source
    case aliased => exact settlesBy_aliased
    case join => exact settlesBy_join (.inl rfl) false
    case leftJoin => exact settlesBy_join (.inr rfl) true
    case filterRows => exact settlesBy_filterRows (.inl rfl) _
    case having => exact settlesBy_filterRows (.inr rfl) _
    case group => exact settlesBy_group
    case order => exact settlesBy_order
    case limit => exact settlesBy_limit
    case union => exact settlesBy_union
    case select => exact settlesBy_select
  rcases Option.or_eq_some_iff.1 hh with hh | ⟨-, hh⟩
  · cases op <;> simp only [Aggregate.handler, Option.some.injEq, reduceCtorEq] at hh <;> subst hh
    case count => exact settlesBy_count
    case sum => exact settlesBy_sum
    case avg => exact settlesBy_avg
    case min | max => exact settlesBy_extreme (fun _ => rfl) _ _
  · cases op <;> simp only [Windowed.handler, Option.some.injEq, reduceCtorEq] at hh <;> subst hh
    case windowed => exact settlesBy_call
    case lag => exact settlesBy_shifted (.inl rfl) _ _
    case lead => exact settlesBy_shifted (.inr rfl) _ _
    all_goals exact settlesBy_ranking _ _ _

section

variable {eval : Evaluator} {env : Environment} (settles : Settles eval) (clear : env.Clear)

include clear

/-- What a name means is plain data. -/
theorem yields_resolve_plain (token name : String) :
    Yields (resolve env token name) Value.Plain := by
  refine yields_resolve_of (.of_parts_nil rfl rfl) (fun v hv => clear.bindings.binding? hv) ?_ ?_
  · exact fun row hr => (clear.row row hr).data.lookup
  · exact fun row hr => (clear.row row hr).data.lookupQualified

include settles

theorem yields_apply {op : Operator} {p : Place} {e : Expr} (calls : e.operator? = some op)
    (fits : e.Fits p) : Yields (interpretation.apply eval op e.operands env) p.Allows := by
  rw [Interpretation.apply]
  cases fits with
  | uncalled none _ _ => cases calls.symm.trans none
  | quotation quotes plain =>
    obtain rfl := Option.some.inj (calls.symm.trans quotes)
    rw [if_pos rfl, Interpretation.quotation.eq_def]
    split
    · next operand only =>
      have inside : operand.Plain := plain operand (only ▸ List.mem_singleton.2 rfl)
      exact Yields.ok_iff.2 (.inl (Invariant.good_toValue (I := Constants.plainData) inside))
    · exact .fault _
  | call same other stage sources kept bodies =>
    obtain rfl := Option.some.inj (calls.symm.trans same)
    have takes : Takes op p e.operands := ⟨stage, sources, kept, bodies⟩
    rw [if_neg other]
    split
    · exact .error _
    · next f hf => exact settlesBy_handler hf eval p e.operands env settles takes clear
    · next apply hf => exact settlesBy_handler hf eval p e.operands env settles takes clear

end

/-- One level of evaluation gives what places allow if the levels below do. -/
theorem settles_step {eval : Evaluator} (settles : Settles eval) :
    Settles (interpretation.step eval) := by
  intro p e env fits clear
  have apart : e.operator? = none →
      (∀ v ∈ e.data, v.Plain) ∧ ∀ part ∈ e.parts, part.Fits .data := fun none => by
    cases fits with
    | uncalled _ data inside => exact ⟨data, inside⟩
    | quotation calls _ => cases none.symm.trans calls
    | call calls _ _ _ _ _ => cases none.symm.trans calls
  cases e with
  | literal v => exact Yields.ok_iff.2 (.inl ((apart rfl).1 v (List.mem_singleton.2 rfl)))
  | quoted items =>
    exact Yields.ok_iff.2 (.inl (Value.Everywhere.array_iff.2 ⟨rfl, (apart rfl).1⟩))
  | symbol s =>
    simp only [Interpretation.step, Interpretation.resolveSymbol]
    split
    · exact (yields_resolve_plain clear _ _).mono fun _ => Or.inl
    · exact Yields.ok_iff.2 (.inl (.of_parts_nil rfl rfl))
  | record fields =>
    have inside := List.forall_mem_map.1 (apart rfl).2
    have values := Interpretation.yields_evaluateFields (P := Value.Plain) fun field hf =>
      yields_data settles clear (inside field hf)
    exact .map (values.mono fun _ plain =>
      .inl (Value.Everywhere.object_iff.2 ⟨rfl, Entries.forall_ofList plain⟩))
  | list items =>
    cases items with
    | nil => exact Yields.ok_iff.2 (.inl (.of_parts_nil rfl rfl))
    | cons head operands =>
      exact Interpretation.yields_call fun op calls => yields_apply settles clear calls fits

/-- Evaluation gives what places allow, at every depth. -/
theorem settles_evaluateLevels (levels : Nat) : Settles (interpretation.evaluateLevels levels) := by
  induction levels with
  | zero => exact fun _ _ _ _ _ => Yields.ok_iff.2 (.inl (.of_parts_nil rfl rfl))
  | succ levels ih => exact settles_step ih

/-- What an expression gives in a context holds no relation if and only if no row of its relations,
flattened, has a field with one. It is plain data if the context is, and the stages of the expression
stand only as sources. -/
theorem evaluate_relationFree {e : Expr} {context : Context} {v : Value}
    (evaluated : evaluate e context = .ok v) :
    (∃ w, evaluateIn (environment context e) e = .ok w ∧
      (v.RelationFree ↔ ∀ row ∈ w.outerRows, ∀ field ∈ row.flatten, field.2.RelationFree)) ∧
    (context.Plain → e.Fits .source → v.Plain) := by
  cases outcome : evaluateIn (environment context e) e with
  | error failure =>
    rw [evaluate, outcome] at evaluated
    cases evaluated
  | ok w =>
    rw [evaluate, outcome] at evaluated
    cases evaluated
    refine ⟨⟨w, rfl, w.relationFree_materialize_iff⟩, fun plain fits => ?_⟩
    have clear : (environment context e).Clear := .ofContext plain e
    exact (settles_evaluateLevels e.depth .source e _ fits clear w outcome).plain_materialize

/-- A relation made of a projection of groups comes back as plain data. -/
theorem plain_of_counted_groups :
    ∃ v, evaluate (.list [.symbol "$from", .list [.symbol "$select",
        .list [.symbol ":a", .list [.symbol "$as", .symbol "n", .list [.symbol "$count",
          .symbol ":a"]]],
        .list [.symbol "$group", .list [.symbol ":a"], .symbol "@t"]]])
        [("@", [("t", .array [.object [("a", .integer 1)]])])] = .ok v ∧ v.Plain := by
  have count : (Expr.list [.symbol "$count", .symbol ":a"]).Fits .data :=
    .named .count nofun nofun nofun nofun nofun
  have grouped : (Expr.list [.symbol "$group", .list [.symbol ":a"], .symbol "@t"]).Fits .source :=
    .named .group nofun (fun _ => rfl)
      (List.forall_mem_singleton.2 (.symbol .source "@t"))
      (List.forall_mem_singleton.2 (.symbol .data ":a")) nofun
  have selected : (Expr.list [.symbol "$select",
      .list [.symbol ":a", .list [.symbol "$as", .symbol "n", .list [.symbol "$count",
        .symbol ":a"]]],
      .list [.symbol "$group", .list [.symbol ":a"], .symbol "@t"]]).Fits .source :=
    .named .select nofun (fun _ => rfl) (List.forall_mem_singleton.2 grouped)
      (List.forall_mem_cons.2 ⟨.symbol .data ":a", List.forall_mem_singleton.2 count⟩) nofun
  have fits : (Expr.list [.symbol "$from", .list [.symbol "$select",
      .list [.symbol ":a", .list [.symbol "$as", .symbol "n", .list [.symbol "$count",
        .symbol ":a"]]],
      .list [.symbol "$group", .list [.symbol ":a"], .symbol "@t"]]]).Fits .source :=
    .named .source nofun (fun _ => rfl) (List.forall_mem_singleton.2 selected) nofun
      nofun
  have number : (Value.integer 1).Plain := .of_parts_nil rfl rfl
  have row : (Value.object [("a", .integer 1)]).Plain :=
    Value.Everywhere.object_iff.2 ⟨rfl, List.forall_mem_singleton.2 number⟩
  have table : (Value.array [.object [("a", .integer 1)]]).Plain :=
    Value.Everywhere.array_iff.2 ⟨rfl, List.forall_mem_singleton.2 row⟩
  have context : Context.Plain [("@", [("t", .array [.object [("a", .integer 1)]])])] :=
    List.forall_mem_singleton.2 (List.forall_mem_singleton.2 table)
  exact ⟨_, rfl, (evaluate_relationFree rfl).2 context fits⟩

/-- A relation in a field of another one comes back as a relation. -/
theorem nested_relation :
    ∃ v, evaluate (.list [.symbol "$from", .list [.symbol "$select",
        .list [.list [.symbol "$as", .symbol "x", .list [.symbol "$from",
          .quoted [.object [("a", .integer 1)]]]]]]]) []
        = .ok (.array [.object [("x", v)]]) ∧ v.isRelation = true :=
  ⟨.rows [Row.single "" (.object [("a", .integer 1)])], rfl, rfl⟩

end InMemory

end QueryForms
