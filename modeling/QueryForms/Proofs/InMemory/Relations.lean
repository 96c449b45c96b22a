import QueryForms.InMemory.Interpretation
import QueryForms.Proofs.Accord

/-!
# Relations in memory, run twice

Two runs in environments that belong together: every stage of a query takes the same rows and gives
the same rows, aggregates combine the same members, windows are the same, and all rows hold only good
values. `InMemory.agreesBy` and `InMemory.keepsBy` gather this for every operator; an accord is asked
only to allow relations.
-/

namespace QueryForms

open Invariant

variable {A : Accord}

/-- The items on which a test holds are items of the list. -/
theorem Concurs.keep {α : Type} {f g : α → Result Bool} {list : List α}
    (h : ∀ x ∈ list, Concurs (f x) (g x) fun _ => True) :
    Concurs (Relation.keep f list) (Relation.keep g list) fun kept => ∀ x ∈ kept, x ∈ list := by
  induction list with
  | nil => exact ok_iff.2 fun _ hm => hm
  | cons first rest ih =>
    refine .bind (h first (List.mem_cons_self ..)) fun holds _ => ?_
    refine .bind (ih fun x hm => h x (List.mem_cons_of_mem _ hm)) fun others inside => ?_
    refine pure_iff.2 fun x hm => ?_
    have later : x ∈ others → x ∈ first :: rest := fun hm => List.mem_cons_of_mem _ (inside x hm)
    split at hm
    · rcases List.mem_cons.1 hm with rfl | hm
      · exact List.mem_cons_self ..
      · exact later hm
    · exact later hm

/-- An item with its index is an item of the list. -/
theorem Windowed.mem_of_mem_indexed {rows : List Row} {indexed : Nat × Row}
    (h : indexed ∈ Windowed.indexed rows) : indexed.2 ∈ rows :=
  (List.of_mem_zip h).2

/-- The partition of a frame are the members that it is made of. -/
theorem Windowed.yields_frameOf {P : Row → Prop} (spec : WindowSpec) (index : Nat)
    {members : List (List Value × Nat × Row)} (hm : ∀ member ∈ members, P member.2.2) :
    Yields (frameOf spec index members) fun f => ∀ member ∈ f.partition, P member.2 := by
  simp only [frameOf]
  split
  · exact .error _
  · refine Yields.ok_iff.2 (List.forall_mem_map.2 fun member h => ?_)
    exact hm member (mem_of_mem_sortByKeys h)

namespace Accord

/-- A row that holds only good values. -/
abbrev GoodRow (A : Accord) (row : Row) : Prop :=
  row.Holds A.invariant.value

/-- Rows that hold only good values. -/
abbrev GoodRows (A : Accord) (list : List Row) : Prop :=
  ∀ row ∈ list, A.GoodRow row

/-! ## Sources and conditions -/

section Sources

variable {eval other : Evaluator} {a b : Environment} (same : A.Matches eval other)
  (related : A.related a b)

include same related

theorem sourceRows {e : Expr} (he : e.Everywhere A.expr) :
    Concurs (Relation.sourceRows eval e a) (Relation.sourceRows other e b) A.GoodRows := by
  refine .bind (same e a b he related) fun v hv => ?_
  split
  · next list found => exact Concurs.pure_iff.2 (Relation.holds_toRows? hv found)
  · exact .fault _

theorem onRow {e : Expr} {row : Row} (he : e.Everywhere A.expr) (hr : A.GoodRow row) :
    Concurs (eval e (a.surround row)) (other e (b.surround row)) A.Good :=
  same e _ _ he (A.surround related rfl hr)

theorem allOnRow {exprs : List Expr} {row : Row} (he : ∀ e ∈ exprs, e.Everywhere A.expr)
    (hr : A.GoodRow row) :
    Concurs (Interpretation.evaluateAll eval exprs (a.surround row))
      (Interpretation.evaluateAll other exprs (b.surround row)) fun values =>
        ∀ v ∈ values, A.Good v :=
  same.evaluateAll (A.surround related rfl hr) he

theorem holds {condition : Expr} {row : Row} (he : condition.Everywhere A.expr)
    (hr : A.GoodRow row) :
    Concurs (Relation.holds eval condition a row) (Relation.holds other condition b row)
      fun _ => True := by
  rw [Relation.holds, Relation.holds]
  split
  · exact Concurs.ok_iff.2 trivial
  · exact .map ((onRow same related he hr).mono fun _ _ => trivial)

/-- The rows on which a condition holds. -/
theorem filtered {condition : Expr} {list : List Row} (he : condition.Everywhere A.expr)
    (hl : A.GoodRows list) :
    Concurs (Relation.keep (Relation.holds eval condition a) list)
      (Relation.keep (Relation.holds other condition b) list) A.GoodRows :=
  (Concurs.keep fun row hr => holds same related he (hl row hr)).mono
    fun _ inside row hr => hl row (inside row hr)

end Sources

section Stages

variable (rows : ∀ list, A.value (.rows list))

include rows

/-- A relation of good rows. -/
theorem concurs_rows {list : List Row} (hl : A.GoodRows list) :
    Concurs (pure (Value.rows list)) (pure (Value.rows list)) A.Good :=
  Concurs.pure_iff.2 ((good_rows_iff rows).2 hl)

theorem matchesBy_source : A.MatchesBy Relation.source := by
  intro eval other operands a b same he related
  rw [Relation.source.eq_def, Relation.source.eq_def]
  split
  · refine .map ((sourceRows same related (he _ (by simp))).mono fun list hl => ?_)
    exact (good_rows_iff rows).2 hl
  · exact .fault _

theorem matchesBy_aliased : A.MatchesBy Relation.aliased := by
  intro eval other operands a b same he related
  refine .bind (.of_yields (Relation.yields_clauseOperands he)) fun pair hp => ?_
  refine .bind (.of_yields (.trivial _)) fun name _ => ?_
  refine .bind (same pair.2 a b hp.2 related) fun v hv => ?_
  exact Concurs.pure_iff.2 (Relation.good_rename rows name hv)

theorem matchesBy_join (outer : Bool) : A.MatchesBy (Relation.join outer) := by
  intro eval other operands a b same he related
  rw [Relation.join.eq_def, Relation.join.eq_def]
  split
  · next rightSource condition leftSource =>
    refine .bind (sourceRows same related (he leftSource (by simp))) fun left hl => ?_
    refine .bind (sourceRows same related (he rightSource (by simp))) fun right hr => ?_
    refine .bind (P := fun joined => ∀ part ∈ joined, A.GoodRows part) (.mapM fun row hm => ?_)
      fun joined hj => ?_
    · have merged : A.GoodRows (right.map row.merge) := by
        intro pair hp
        obtain ⟨partner, inside, rfl⟩ := List.mem_map.1 hp
        exact (hl row hm).merge (hr partner inside)
      refine .bind (filtered same related (he condition (by simp)) merged) fun matched hmatch => ?_
      refine Concurs.pure_iff.2 ?_
      split
      · exact List.forall_mem_singleton.2 ((hl row hm).merge (.missing _))
      · exact hmatch
    · refine concurs_rows rows fun row hm => ?_
      obtain ⟨part, hp, hm⟩ := List.mem_flatten.1 hm
      exact hj part hp row hm
  · exact .fault _

theorem matchesBy_filterRows (op : String) : A.MatchesBy (Relation.filterRows op) := by
  intro eval other operands a b same he related
  refine .bind (.of_yields (Relation.yields_clauseOperands he)) fun pair hp => ?_
  refine .bind (sourceRows same related hp.2) fun list hl => ?_
  exact .bind (filtered same related hp.1 hl) fun kept hk => concurs_rows rows hk

omit rows

/-- A group key has the same name. -/
theorem outputName {a b : Environment} (related : A.related a b) {e : Expr}
    (he : e.Everywhere A.expr) : Relation.outputName a e = Relation.outputName b e := by
  cases e with
  | symbol s =>
    have split := A.split related he.here (rfl : (Expr.symbol s).asName? = some s)
    simp only [Relation.outputName, split]
  | _ => rfl

theorem groupKeyName {a b : Environment} (related : A.related a b) {e : Expr}
    (he : e.Everywhere A.expr) : Relation.groupKeyName a e = Relation.groupKeyName b e := by
  have split : e.asName?.bind a.splitSymbol? = e.asName?.bind b.splitSymbol? := by
    cases named : e.asName? with
    | none => rfl
    | some s => exact A.split related he.here named
  rw [Relation.groupKeyName, Relation.groupKeyName, split, outputName related he]

include rows

/-- The row of a group holds the keys of its first member, and its members. -/
theorem goodRow_groupRow (names : List String) {members : List Relation.Keyed}
    (hm : ∀ k ∈ members, (∀ v ∈ k.keys, A.Good v) ∧ A.GoodRow k.row) :
    A.GoodRow (Relation.groupRow names members) :=
  .ofGroup (Relation.good_groupKeys names fun k h => (hm k h).1)
    ((good_rows_iff rows).2 (List.forall_mem_map.2 fun k h => (hm k h).2))

theorem matchesBy_group : A.MatchesBy Relation.group := by
  intro eval other operands a b same he related
  refine .bind (.of_yields (Relation.yields_clauseOperands he)) fun pair hp => ?_
  have keys : ∀ key ∈ pair.1.itemsOrNone, key.Everywhere A.expr :=
    fun key hk => hp.1.itemsOrNone hk
  have names : pair.1.itemsOrNone.map (Relation.groupKeyName a)
      = pair.1.itemsOrNone.map (Relation.groupKeyName b) :=
    List.map_congr_left fun key hk => groupKeyName related (keys key hk)
  refine .bind (sourceRows same related hp.2) fun list hl => ?_
  refine .bind
    (P := fun keyed : List Relation.Keyed => ∀ k ∈ keyed, (∀ v ∈ k.keys, A.Good v) ∧ A.GoodRow k.row)
    (.mapM fun row hm => ?_) fun keyed hk => ?_
  · refine .bind (allOnRow same related keys (hl row hm)) fun values hv => ?_
    exact Concurs.pure_iff.2 ⟨hv, hl row hm⟩
  · rw [names]
    refine concurs_rows rows fun row hm => ?_
    obtain ⟨members, gathered, rfl⟩ := List.mem_map.1 hm
    obtain ⟨id, -, rfl⟩ := List.mem_map.1 gathered
    exact goodRow_groupRow rows _ fun k h => hk k (List.mem_filter.1 h).1

theorem matchesBy_order : A.MatchesBy Relation.order := by
  intro eval other operands a b same he related
  refine .bind (.of_yields (Relation.yields_clauseOperands he)) fun pair hp => ?_
  refine .bind (.of_yields (OrderSpec.yields_parseList hp.1)) fun specs hs => ?_
  have keys : ∀ e ∈ specs.map OrderSpec.expr, e.Everywhere A.expr := List.forall_mem_map.2 hs
  refine .bind (sourceRows same related hp.2) fun list hl => ?_
  refine .bind (P := fun keyed => ∀ k ∈ keyed, A.GoodRow k.2) (.mapM fun row hm => ?_)
    fun keyed hk => ?_
  · exact .bind (allOnRow same related keys (hl row hm)) fun _ _ => Concurs.pure_iff.2 (hl row hm)
  · refine concurs_rows rows fun row hm => ?_
    obtain ⟨k, h, rfl⟩ := List.mem_map.1 hm
    exact hk k (mem_of_mem_sortByKeys h)

omit rows in
/-- What is on a page is in the list. -/
theorem mem_of_mem_page {α : Type} {page : Pagination} {list : List α} {x : α}
    (h : x ∈ page.apply list) : x ∈ list := by
  rw [Pagination.apply] at h
  split at h
  · exact List.mem_of_mem_drop (List.mem_of_mem_take h)
  · exact List.mem_of_mem_drop h

theorem matchesBy_limit : A.MatchesBy Relation.limit := by
  intro eval other operands a b same he related
  refine .bind (.of_yields (Relation.yields_clauseOperands he)) fun pair hp => ?_
  refine .bind (same pair.1 a b hp.1 related) fun spec _ => ?_
  refine .bind (.of_yields (.trivial _)) fun page _ => ?_
  refine .bind (same pair.2 a b hp.2 related) fun v hv => ?_
  split
  · refine Concurs.pure_iff.2 (good_array_iff.2 fun item hi => ?_)
    exact good_array_iff.1 hv item (mem_of_mem_page hi)
  · split
    · next list found =>
      have hl := Relation.holds_toRows? hv found
      exact concurs_rows rows fun row hm => hl row (mem_of_mem_page hm)
    · exact .fault _

theorem matchesBy_union : A.MatchesBy Relation.union := by
  intro eval other operands a b same he related
  refine .bind (same.evaluateAll related he) fun branches hb => ?_
  split
  · next items found =>
    exact Concurs.pure_iff.2 (good_array_iff.2 (Relation.good_arrayItems? hb found))
  · refine .bind (P := fun lists => ∀ list ∈ lists, A.GoodRows list) (.of_yields (.mapM ?_))
      fun lists hl => concurs_rows rows fun row hm => ?_
    · intro branch hm
      rw [Relation.branchRows]
      split
      · next list found =>
        exact Yields.ok_iff.2 (Relation.holds_toRows? (hb _ (List.of_mem_zip hm).1) found)
      · exact .fault _
    · obtain ⟨list, hi, hm⟩ := List.mem_flatten.1 hm
      exact hl list hi row hm

end Stages

/-! ## Projection -/

section Projection

variable {a b : Environment} (related : A.related a b)

include related

theorem firstRecord : Relation.firstRecord a = Relation.firstRecord b ∧
    ∀ field ∈ Relation.firstRecord a, A.Good field.2 := by
  obtain ⟨row, good⟩ := A.row related
  refine ⟨Row.Mask.firstRecord_congr row, ?_⟩
  exact Relation.good_firstRecord fun here hr => (good here hr : A.GoodRow here).tables

theorem qualifiedRecord {table : String}
    (stays : ∀ row, Entries.get? (A.mask.hide row).tables table = Entries.get? row.tables table) :
    Relation.qualifiedRecord a table = Relation.qualifiedRecord b table ∧
      ∀ field ∈ Relation.qualifiedRecord a table, A.Good field.2 := by
  obtain ⟨row, good⟩ := A.row related
  refine ⟨Row.Mask.qualifiedRecord_congr row stays, ?_⟩
  exact Relation.good_qualifiedRecord (fun here hr => (good here hr : A.GoodRow here).tables) table

/-- The fields that a wildcard stands for. -/
theorem wildcardFields {e : Expr} (he : e.Everywhere A.expr) :
    e.asName?.bind (Relation.wildcard? a) = e.asName?.bind (Relation.wildcard? b) ∧
      ∀ fields ∈ e.asName?.bind (Relation.wildcard? a),
        Yields fields fun record => ∀ field ∈ record, A.Good field.2 := by
  cases named : e.asName? with
  | none => exact ⟨rfl, fun _ hf => nomatch hf⟩
  | some s =>
    simp only [Option.bind_some, Relation.wildcard?, (firstRecord related).1]
    split
    · refine ⟨rfl, fun fields hf => Option.mem_some.1 hf ▸ Yields.ok_iff.2 ?_⟩
      exact (firstRecord related).1 ▸ (firstRecord related).2
    · next one =>
      cases found : Relation.tableOfWildcard? s with
      | none => exact ⟨rfl, fun _ hf => nomatch hf⟩
      | some table =>
        have declared := A.wildcard related he.here named found
        have begins := Relation.eq_of_tableOfWildcard? found
        -- an asterisk after the token of the row stands for the first table
        have filled : table ≠ "" := by
          rintro rfl
          exact one (.inr begins)
        have record := qualifiedRecord related (A.tables he.here named begins filled)
        simp only [Option.map_some, declared, record.1, true_and]
        refine fun fields hf => Option.mem_some.1 hf ▸ ?_
        split
        · exact Yields.ok_iff.2 (record.1 ▸ record.2)
        · exact .error _

variable {eval other : Evaluator} (same : A.Matches eval other)

include same

theorem project {field : Expr} (he : field.Everywhere A.expr) :
    Concurs (Relation.project eval a field) (Relation.project other b field)
      fun record => ∀ field ∈ record, A.Good field.2 := by
  have one : ∀ {name : String} {e : Expr}, e.Everywhere A.expr →
      Concurs (eval e a >>= fun v => pure [(name, v)]) (other e b >>= fun v => pure [(name, v)])
        fun record : Record => ∀ field ∈ record, A.Good field.2 := fun he =>
    .bind (same _ a b he related) fun v hv => Concurs.pure_iff.2 (List.forall_mem_singleton.2 hv)
  rw [Relation.project, Relation.project]
  split
  · refine .bind (.of_yields (Relation.yields_clauseOperands fun e hm => he.operands hm)) ?_
    exact fun pair hp => .bind (.of_yields (.trivial _)) fun name _ => one hp.2
  · obtain ⟨alike, good⟩ := wildcardFields related he
    rw [← alike]
    split
    · next fields found => exact .of_yields (good fields found)
    · rw [outputName related he]
      exact one he

theorem projectAll {fields : List Expr} (he : ∀ e ∈ fields, e.Everywhere A.expr) :
    Concurs (Relation.projectAll eval fields a) (Relation.projectAll other fields b) A.Good := by
  obtain ⟨row, good⟩ := A.row related
  refine .bind (.mapM fun field hf => project related same (he field hf)) fun added ha => ?_
  rw [← Row.Mask.map_congr row A.mask.flatten_hide]
  refine Concurs.pure_iff.2 (good_object_iff.2 ?_)
  refine List.foldlRecOn (motive := fun out : Record => ∀ field ∈ out, A.Good field.2) added _ ?_
    fun _ out record hm => Entries.forall_setAll out (ha record hm)
  split
  · cases here : a.row with
    | none => exact fun _ hm => absurd hm List.not_mem_nil
    | some current =>
      have holds : A.GoodRow current := good current here
      exact holds.flatten
  · exact fun _ hm => absurd hm List.not_mem_nil

omit same

/-- The rows around a row of a projection are the same under the mask. -/
theorem rowScope {list others : List Row}
    (alike : list.map A.mask.hide = others.map A.mask.hide) (hl : A.GoodRows list) (windowed : Bool)
    {indexed other : Nat × Row} (hi : indexed ∈ Windowed.indexed list)
    (here : Prod.map id A.mask.hide indexed = Prod.map id A.mask.hide other) :
    A.related (Relation.rowScope a list windowed indexed)
      (Relation.rowScope b others windowed other) := by
  obtain ⟨index, row⟩ := Prod.mk.inj here
  have scope := A.surround related row (hl _ (Windowed.mem_of_mem_indexed hi))
  rw [Relation.rowScope, Relation.rowScope]
  cases windowed with
  | true => exact A.withWindow scope (congrArg₂ WindowState.source alike index) hl
  | false => exact scope

end Projection

section Stages

variable (rows : ∀ list, A.value (.rows list))

include rows

theorem goodRows_selectedRows (fields : List Expr) {list : List Row} (hl : A.GoodRows list) :
    A.GoodRows (Relation.selectedRows fields list) := by
  rw [Relation.selectedRows]
  split
  · refine List.forall_mem_singleton.2 (.ofGroup (fun _ hm => absurd hm List.not_mem_nil) ?_)
    exact (good_rows_iff rows).2 hl
  · exact hl

/-- A record for each row that a projection shows. -/
theorem projected {eval other : Evaluator} {a b : Environment} (same : A.Matches eval other)
    (related : A.related a b) {fields : List Expr} (he : ∀ e ∈ fields, e.Everywhere A.expr)
    {list others : List Row} (alike : list.map A.mask.hide = others.map A.mask.hide)
    (hl : A.GoodRows list) (windowed : Bool) :
    Concurs
      ((Windowed.indexed (Relation.selectedRows fields list)).mapM (fun indexed =>
        Relation.projectAll eval fields
          (Relation.rowScope a (Relation.selectedRows fields list) windowed indexed)) >>=
            fun records => pure (Value.array records))
      ((Windowed.indexed (Relation.selectedRows fields others)).mapM (fun indexed =>
        Relation.projectAll other fields
          (Relation.rowScope b (Relation.selectedRows fields others) windowed indexed)) >>=
            fun records => pure (Value.array records)) A.Good := by
  have good := goodRows_selectedRows rows fields hl
  have shown : (Relation.selectedRows fields list).map A.mask.hide
      = (Relation.selectedRows fields others).map A.mask.hide := by
    rw [← A.mask.selectedRows_hide, ← A.mask.selectedRows_hide, alike]
  have indexed := congrArg Windowed.indexed shown
  rw [A.mask.indexed_hide, A.mask.indexed_hide] at indexed
  refine .bind (.mapM_of_map_eq indexed fun member hm other here => ?_) fun records hr =>
    Concurs.pure_iff.2 (good_array_iff.2 hr)
  exact projectAll (rowScope related shown good _ hm here) same he

theorem matchesBy_select : A.MatchesBy Relation.select := by
  intro eval other operands a b same he related
  obtain ⟨row, good⟩ := A.row related
  have current : A.GoodRow (a.row.getD Row.empty) := by
    cases here : a.row with
    | none => exact .empty
    | some current => exact good current here
  -- without a source the current row is shown, or one that binds nothing
  have alike : [a.row.getD Row.empty].map A.mask.hide = [b.row.getD Row.empty].map A.mask.hide := by
    have hidden : ∀ o : Option Row,
        A.mask.hide (o.getD Row.empty) = (o.map A.mask.hide).getD (A.mask.hide Row.empty) := by
      rintro (_ | _) <;> rfl
    rw [List.map_singleton, List.map_singleton, hidden, hidden, row]
  rw [Relation.select.eq_def, Relation.select.eq_def]
  dsimp only
  split
  · next fieldList =>
    have fields : ∀ e ∈ fieldList.itemsOrNone, e.Everywhere A.expr :=
      fun e hm => (he fieldList (by simp)).itemsOrNone hm
    exact projected rows same related fields alike (List.forall_mem_singleton.2 current) _
  · next fieldList source =>
    have fields : ∀ e ∈ fieldList.itemsOrNone, e.Everywhere A.expr :=
      fun e hm => (he fieldList (by simp)).itemsOrNone hm
    refine .bind (sourceRows same related (he source (by simp))) fun list hl => ?_
    exact projected rows same related fields rfl hl _
  · exact .fault _

/-- The stages of a query give the same relations. -/
theorem matchesBy_relation {op : Operator} {h : Handler} (hh : Relation.handler op = some h) :
    ∃ apply, h = .onOperands apply ∧ A.MatchesBy apply := by
  cases op <;> simp only [Relation.handler, Option.some.injEq, reduceCtorEq] at hh <;> subst hh <;>
    refine ⟨_, rfl, ?_⟩
  case source => exact matchesBy_source rows
  case aliased => exact matchesBy_aliased rows
  case join | leftJoin => exact matchesBy_join rows _
  case filterRows | having => exact matchesBy_filterRows rows _
  case group => exact matchesBy_group rows
  case order => exact matchesBy_order rows
  case limit => exact matchesBy_limit rows
  case union => exact matchesBy_union rows
  case select => exact matchesBy_select rows

end Stages

/-! ## Aggregates -/

section Aggregates

variable {eval other : Evaluator} {a b : Environment} (same : A.Matches eval other)
  (related : A.related a b)

include same related

theorem memberValues {field : Expr} (he : field.Everywhere A.expr) :
    Concurs (Aggregate.memberValues eval field a) (Aggregate.memberValues other field b)
      fun values => ∀ v ∈ values, A.Good v := by
  obtain ⟨row, good⟩ := A.row related
  have alike : (Aggregate.members a).map A.mask.hide = (Aggregate.members b).map A.mask.hide := by
    have hidden : ∀ env : Environment, (Aggregate.members env).map A.mask.hide
        = ((env.row.map A.mask.hide).map Row.members).getD [] := by
      intro env
      rw [Aggregate.members]
      cases env.row with
      | none => rfl
      | some current => exact (A.mask.members current).symm
    rw [hidden, hidden, row]
  have members : A.GoodRows (Aggregate.members a) := by
    rw [Aggregate.members]
    cases here : a.row with
    | none => exact fun _ hm => absurd hm List.not_mem_nil
    | some current =>
      have holds : A.GoodRow current := good current here
      exact holds.members
  rw [Aggregate.memberValues, Aggregate.memberValues]
  refine .bind (.mapM_of_map_eq alike fun member hm other here =>
    same field _ _ he (A.surround related here (members member hm))) fun values hv => ?_
  exact Concurs.pure_iff.2 fun v hm => hv v (List.mem_filter.1 hm).1

end Aggregates

theorem matchesBy_count : A.MatchesBy Aggregate.count := by
  intro eval other operands a b same he related
  refine .bind (.of_yields (Aggregate.yields_oneOperand he)) fun field hf => ?_
  have counted : (if field.asName? = some "*" then .symbol ":id" else field : Expr).Everywhere
      A.expr := by
    split
    · exact Expr.Everywhere.symbol_iff.2 (A.identifier field hf.here)
    · exact hf
  exact .bind (memberValues same related counted) fun values _ => Concurs.pure_iff.2 (good_integer _)

theorem matchesBy_sum : A.MatchesBy Aggregate.sum := by
  intro eval other operands a b same he related
  refine .bind (.of_yields (Aggregate.yields_oneOperand he)) fun field hf => ?_
  refine .bind (memberValues same related hf) fun values hv => .of_yields ?_
  split
  · simp
  · exact yields_reduce .add hv

theorem matchesBy_avg : A.MatchesBy Aggregate.avg := by
  intro eval other operands a b same he related
  refine .bind (.of_yields (Aggregate.yields_oneOperand he)) fun field hf => ?_
  refine .bind (memberValues same related hf) fun values hv => .of_yields ?_
  split
  · simp
  · exact .bind (.trivial _) fun total _ => yields_applyArithmetic _ _ _

theorem matchesBy_extreme (op : String) (accepted : Ordering → Bool) :
    A.MatchesBy (Aggregate.extreme op accepted) := by
  intro eval other operands a b same he related
  refine .bind (.of_yields (Aggregate.yields_oneOperand he)) fun field hf => ?_
  refine .bind (memberValues same related hf) fun values hv => .of_yields ?_
  split
  · simp
  · next first rest =>
    refine .foldlM (fun best v hbest hm => ?_) (hv first (List.mem_cons_self ..))
    refine .bind (.trivial _) fun order _ => Yields.pure_iff.2 ?_
    split
    · exact hv v (List.mem_cons_of_mem _ hm)
    · exact hbest

/-- Aggregates combine the same values. -/
theorem matchesBy_aggregate {op : Operator} {h : Handler} (hh : Aggregate.handler op = some h) :
    ∃ apply, h = .onOperands apply ∧ A.MatchesBy apply := by
  cases op <;> simp only [Aggregate.handler, Option.some.injEq, reduceCtorEq] at hh <;> subst hh <;>
    refine ⟨_, rfl, ?_⟩
  case count => exact matchesBy_count
  case sum => exact matchesBy_sum
  case avg => exact matchesBy_avg
  all_goals exact matchesBy_extreme _ _

/-! ## Windows -/

section Windows

variable {a b : Environment} (related : A.related a b)

include related

/-- The frame that a function of a window call reads. -/
theorem ownFrame (same : A.SameWindow) (op : String) :
    Concurs (Windowed.ownFrame op a) (Windowed.ownFrame op b)
      fun f => ∀ member ∈ f.partition, A.GoodRow member.2 := by
  obtain ⟨window, good⟩ := same related
  rw [Windowed.ownFrame, Windowed.ownFrame, window]
  split
  · next f here => exact Concurs.ok_iff.2 (good (.frame f) (window.trans here))
  · exact .error _

variable {eval other : Evaluator} (same : A.Matches eval other)

include same

theorem partitionOf {spec : WindowSpec} (hp : ∀ e ∈ spec.partition, e.Everywhere A.expr)
    (ho : ∀ key ∈ spec.order, key.expr.Everywhere A.expr) {list : List Row} (hl : A.GoodRows list)
    (index : Nat) :
    Concurs (Windowed.partitionOf eval spec a list index)
      (Windowed.partitionOf other spec b list index)
        fun members => ∀ member ∈ members, A.GoodRow member.2.2 := by
  have keys : ∀ e ∈ spec.order.map OrderSpec.expr, e.Everywhere A.expr := List.forall_mem_map.2 ho
  refine .bind (P := fun _ => True) ?_ fun names _ => .mapM fun member hm => ?_
  · refine (Concurs.mapM (R := fun _ => True) fun row hr => ?_).mono fun _ _ => trivial
    exact .bind (allOnRow same related hp (hl row hr)) fun _ _ => Concurs.pure_iff.2 trivial
  · have indexed := (List.of_mem_zip (List.mem_filter.1 hm).1).2
    have good : A.GoodRow member.2.2 := hl _ (Windowed.mem_of_mem_indexed indexed)
    exact .bind (allOnRow same related keys good) fun _ _ => Concurs.pure_iff.2 good

end Windows

theorem matchesBy_call (rows : ∀ list, A.value (.rows list)) (seen : A.SameWindow) :
    A.MatchesBy Windowed.call := by
  intro eval other operands a b same he related
  obtain ⟨window, good⟩ := seen related
  rw [Windowed.call.eq_def, Windowed.call.eq_def]
  split
  · exact .fault _
  · next function rest =>
    have spec : ∀ e ∈ rest.head?, e.Everywhere A.expr :=
      fun e hm => he e (List.mem_cons_of_mem _ (List.mem_of_mem_head? hm))
    refine .bind (.of_yields (WindowSpec.yields_parse spec)) fun w hw => ?_
    rw [window]
    split
    · next list index here =>
      have hl : A.GoodRows list := good (.source list index) (window.trans here)
      refine .bind (partitionOf related same hw.1 hw.2 hl index) fun members hm => ?_
      refine .bind (.of_yields (Windowed.yields_frameOf (P := A.GoodRow) w index hm)) fun f hf => ?_
      have current : A.GoodRow ((list[index]?).getD Row.empty) := by
        cases found : list[index]? with
        | none => exact .empty
        | some row => exact hl row (List.mem_of_getElem? found)
      have framed := current.withItems ((good_rows_iff rows).2 (Frame.forall_rows hf))
      exact same function _ _ (he function (List.mem_cons_self ..))
        (A.withWindow (A.surround related rfl framed) rfl hf)
    · exact .error _

theorem matchesBy_ranking (seen : A.SameWindow) (op : String) (number : Frame → Nat) :
    A.MatchesBy (Windowed.ranking op number) := by
  intro eval other operands a b same he related
  exact .bind (ownFrame related seen op) fun f _ => Concurs.pure_iff.2 (good_integer _)

theorem matchesBy_shifted (seen : A.SameWindow) (op : String)
    (target : Nat → Nat → Option Nat) : A.MatchesBy (Windowed.shifted op target) := by
  intro eval other operands a b same he related
  refine .bind (ownFrame related seen op) fun f hf => ?_
  split
  · exact .fault _
  · next field rest =>
    have later : ∀ e ∈ rest, e.Everywhere A.expr := fun e hm => he e (List.mem_cons_of_mem _ hm)
    refine .bind (P := fun _ => True) ?_ fun offset _ => ?_
    · rw [Windowed.shiftOffset.eq_def, Windowed.shiftOffset.eq_def]
      split
      · exact Concurs.ok_iff.2 trivial
      · next e found =>
        refine .bind (same e a b (later e (List.mem_of_mem_head? found)) related) fun v _ => ?_
        exact .of_yields (.trivial _)
    · split
      · next keys row found =>
        obtain ⟨position, -, found⟩ := Option.bind_eq_some_iff.1 found
        exact onRow same related (he field (List.mem_cons_self ..))
          (hf _ (List.mem_of_getElem? found))
      · split
        · next e found => exact same e a b (later e (List.mem_of_getElem? found)) related
        · exact Concurs.pure_iff.2 good_null

/-- Window calls see the same windows. -/
theorem matchesBy_window (rows : ∀ list, A.value (.rows list)) {op : Operator} {h : Handler}
    (seen : A.Shows op) (hh : Windowed.handler op = some h) :
    ∃ apply, h = .onOperands apply ∧ A.MatchesBy apply := by
  cases op <;> simp only [Windowed.handler, Option.some.injEq, reduceCtorEq] at hh <;> subst hh <;>
    refine ⟨_, rfl, ?_⟩
  case windowed => exact matchesBy_call rows (seen rfl)
  case lag | lead => exact matchesBy_shifted (seen rfl) _ _
  all_goals exact matchesBy_ranking (seen rfl) _ _

end Accord

/-! ## The interpretation -/

namespace InMemory

open Accord

/-- A symbol means the same in environments that belong together. -/
theorem resolves : A.Resolves interpretation := by
  intro a b s token name related here split
  obtain ⟨row, -⟩ := A.row related
  show resolve a token name = resolve b token name
  simp only [resolve, A.binding related here split]
  rw [Row.Mask.map_congr row fun row => A.mask.lookup_hide row name]
  split
  · rfl
  · next other =>
    split
    · next table owned =>
      -- the symbol begins with the token of the table, which is not that of the row
      obtain rfl := aliasOfToken?_eq_some_iff.1 owned
      have begins := Environment.eq_append_of_splitSymbol? split
      have filled : table ≠ "" := by
        rintro rfl
        exact other rfl
      rw [Row.Mask.map_congr row fun row =>
        A.mask.lookupQualified_hide row (A.tables here rfl begins filled row) name]
    · rfl

/-- What a name means is bound or in the current row. -/
theorem yields_resolve_of {G : Value → Prop} {scope : Environment} {token name : String}
    (null : G .null) (bound : ∀ v, scope.binding? token name = some v → G v)
    (field : ∀ row ∈ scope.row, ∀ name, G (row.lookup name))
    (qualified : ∀ row ∈ scope.row, ∀ table name, G (row.lookupQualified table name)) :
    Yields (resolve scope token name) G := by
  have standing : G ((scope.binding? token name).getD .null) := by
    cases found : scope.binding? token name with
    | none => exact null
    | some v => exact bound v found
  have current : ∀ read : Row → Value, (∀ row ∈ scope.row, G (read row)) →
      G ((scope.row.map read).getD .null) := by
    intro read good
    cases here : scope.row with
    | none => exact null
    | some row => exact good row here
  simp only [resolve]
  split
  · split
    · exact Yields.ok_iff.2 standing
    · exact Yields.ok_iff.2 (current _ fun row hr => field row hr name)
  · split
    · next table _ => exact Yields.ok_iff.2 (current _ fun row hr => qualified row hr table name)
    · exact Yields.ok_iff.2 standing

theorem yields_resolve (scope : Environment) (token name : String)
    (hs : A.invariant.env scope) : Yields (resolve scope token name) A.Good := by
  obtain ⟨b, related⟩ := hs
  have current : ∀ row ∈ scope.row, A.GoodRow row := (A.row related).2
  exact yields_resolve_of good_null (fun v hv => (A.bindings related).binding? hv)
    (fun row hr => (current row hr).lookup) fun row hr => (current row hr).lookupQualified

/-- Every operator does the same in environments that belong together, and gives good values. -/
theorem agreesBy (rows : ∀ list, A.value (.rows list)) {op : Operator} {h : Handler}
    (seen : A.Shows op) (hh : handler op = some h) : A.AgreesBy h ∧ A.invariant.KeepsBy op h := by
  have onOperands : (∀ {B : Accord}, (∀ list, B.value (.rows list)) → B.Shows op →
      ∃ apply, h = .onOperands apply ∧ B.MatchesBy apply) →
        A.AgreesBy h ∧ A.invariant.KeepsBy op h := by
    intro same
    obtain ⟨apply, rfl, agrees⟩ := same rows seen
    obtain ⟨_, eq, keeps⟩ := same (B := A.left) rows seen.left
    exact ⟨agrees.agreesBy, keepsBy_of_matchesBy (Handler.onOperands.inj eq ▸ keeps) op⟩
  simp only [handler, Option.orElse_eq_orElse, Option.orElse_eq_or] at hh
  rcases Option.or_eq_some_iff.1 hh with hh | ⟨-, hh⟩
  · exact ⟨agreesBy_plain hh, PlainOperators.keepsBy hh⟩
  · rcases Option.or_eq_some_iff.1 hh with hh | ⟨-, hh⟩
    · exact ⟨agreesBy_scalar hh, Scalar.keepsBy hh⟩
    · rcases Option.or_eq_some_iff.1 hh with hh | ⟨-, hh⟩
      · exact onOperands fun rows _ => matchesBy_relation rows hh
      · rcases Option.or_eq_some_iff.1 hh with hh | ⟨-, hh⟩
        · exact onOperands fun _ _ => matchesBy_aggregate hh
        · exact onOperands fun rows seen => matchesBy_window rows seen hh

/-- One level of evaluation in memory matches if the levels below do. -/
theorem matches_step (rows : ∀ list, A.value (.rows list)) {eval other : Evaluator}
    (same : A.Matches eval other) :
    A.Matches (interpretation.step eval) (interpretation.step other) :=
  step resolves yields_resolve (fun _ _ => agreesBy rows) same

end InMemory

end QueryForms
