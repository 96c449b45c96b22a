import QueryForms.Proofs.Levels
import QueryForms.Proofs.Sql.Clauses
import QueryForms.Proofs.Sql.Injection

/-!
# Stages of a query

A stage appends its clause to whatever its source is, so a statement has its clauses in the order in
which the stages are nested, and this need not be the order of SQL. `compile_stages`: the statement of
nested stages is grammatical exactly if the stages are ordered, each after those of its source, with
complete queries on the right of joins and nothing selected twice.

The clauses of a nesting are read off its shape alone. What stands in a stage beside its source, as a
condition or a key, calls no stage and shows no clause of its own, wherever it stands
(`yields_render`), so only the nesting counts.
-/

namespace QueryForms

/-- No stage of a query is called in an expression. -/
def Expr.Stageless (e : Expr) : Prop :=
  e.Everywhere fun part => ∀ op ∈ part.operator?, op ∉ Operator.stages

theorem Expr.stageless_symbol (s : String) : (symbol s).Stageless :=
  Everywhere.symbol_iff.2 fun _ h => nomatch h

theorem Expr.stageless_literal (v : Value) : (literal v).Stageless :=
  Everywhere.literal_iff.2 fun _ h => nomatch h

theorem Expr.stageless_list_iff {items : List Expr} : (list items).Stageless ↔
    (∀ op ∈ (list items).operator?, op ∉ Operator.stages) ∧ ∀ e ∈ items, e.Stageless :=
  Everywhere.list_iff

namespace Sql

/-! ## Nestings -/

/-- A nesting of stages. -/
inductive Stages where
  /-- The rows of a table. -/
  | table
  /-- A stage that adds clauses to its source. -/
  | stage (added : List Clause) (source : Stages)
  /-- A join of two nestings. -/
  | join (left right : Stages)
  /-- A projection. -/
  | select (source : Stages)

namespace Stages

/-- The clauses that stand outside of all parentheses. The right side of a join stands in parentheses
if it selects. -/
def clauses : Stages → List Clause
  | table => [.source]
  | stage added source => source.clauses ++ added
  | join left right =>
    left.clauses ++ .join :: (if .select ∈ right.clauses then [] else right.clauses)
  | select source => .select :: source.clauses

/-- A query is complete when it selects. -/
def IsComplete (q : Stages) : Prop :=
  .select ∈ q.clauses

instance : DecidablePred IsComplete :=
  fun q => inferInstanceAs (Decidable (.select ∈ q.clauses))

/-- The clauses of each parenthesis. -/
def inside : Stages → List (List Clause)
  | table => []
  | stage _ source => source.inside
  | join left right =>
    left.inside ++ right.inside ++ (if right.IsComplete then [right.clauses] else [])
  | select source => source.inside

/-- Each stage adds clauses that come after those of its source, only complete queries are joined, and
nothing is selected that selects already. -/
def Ordered : Stages → Prop
  | table => True
  | stage added source =>
    source.Ordered ∧ Clause.InOrder added ∧ ∀ a ∈ source.clauses, ∀ b ∈ added, a.Before b
  | join left right =>
    left.Ordered ∧ right.Ordered ∧ right.IsComplete ∧ ∀ a ∈ left.clauses, a.Before .join
  | select source => source.Ordered ∧ ¬source.IsComplete

theorem source_mem_clauses (q : Stages) : .source ∈ q.clauses := by
  induction q with
  | table => exact List.mem_singleton.2 rfl
  | stage added source ih => exact List.mem_append_left _ ih
  | join left right ihl _ => exact List.mem_append_left _ ihl
  | select source ih => exact List.mem_cons_of_mem _ ih

theorem before_of_select_iff {clauses : List Clause} :
    (∀ c ∈ clauses, Clause.Before .select c) ↔ .select ∉ clauses := by
  have first : ∀ c, Clause.Before .select c ↔ c ≠ .select := by
    intro c
    cases c <;> decide
  simp only [first]
  exact ⟨fun h hc => h _ hc rfl, fun h c hc eq => h (eq ▸ hc)⟩

/-- Stages are ordered if their clauses are, in every parenthesis and outside of all. -/
theorem ordered_iff (q : Stages) :
    q.Ordered ↔ Clause.InOrder q.clauses ∧ ∀ level ∈ q.inside, Clause.InOrder level := by
  induction q with
  | table => simp [Ordered, clauses, inside, Clause.InOrder]
  | stage added source ih =>
    simp only [Ordered, clauses, inside, ih, Clause.InOrder, List.pairwise_append]
    tauto
  | join left right ihl ihr =>
    by_cases complete : right.IsComplete
    · have selects : .select ∈ right.clauses := complete
      simp only [Ordered, clauses, inside, ihl, ihr, Clause.InOrder, List.pairwise_append,
        List.forall_mem_append, List.forall_mem_singleton, complete, selects, if_true,
        List.pairwise_singleton, true_and]
      tauto
    · -- the tables of both sides stand in one parenthesis
      have selects : .select ∉ right.clauses := complete
      simp only [Ordered, complete, clauses, selects, if_false, false_and, and_false, false_iff,
        not_and]
      intro order
      have later := (List.pairwise_append.1 order).2.1
      have before := List.rel_of_pairwise_cons later right.source_mem_clauses
      exact absurd before (by decide)
  | select source ih =>
    simp only [Ordered, clauses, inside, ih, Clause.InOrder, List.pairwise_cons,
      before_of_select_iff, IsComplete]
    tauto

instance : DecidablePred Ordered :=
  fun q => decidable_of_iff _ q.ordered_iff.symm

example : (select (stage [.limit] (stage [.order] (stage [.having] (stage [.group]
    (stage [.filter] (join table (select table)))))))).Ordered := by decide

end Stages

/-- The clauses of a page. -/
def pageClauses (page : Pagination) : List Clause :=
  (page.limit.map fun _ => Clause.limit).toList ++ (page.offset.map fun _ => Clause.offset).toList

/-- The clauses that a stage adds to its source: none if it asks for nothing. -/
def addedClauses (scope : Environment) (first : Expr) : Operator → List Clause
  | .filterRows => if first.isEmpty then [] else [.filter]
  | .group => if first.isEmpty then [] else [.group]
  | .having => if first.isEmpty then [] else [.having]
  | .order => if first.isEmpty then [] else [.order]
  | .limit =>
    match evaluateIn scope first >>= Pagination.ofValue with
    | .ok page => pageClauses page
    | .error _ => []
  | _ => []

/-- An expression nests stages over tables. -/
inductive Nests (scope : Environment) : Expr → Stages → Prop where
  /-- A table as the source of all. -/
  | table {e table : Expr} (calls : e.operator? = some .source) (operands : e.operands = [table])
    (part : table.Stageless) : Nests scope e .table
  /-- A stage with what it asks for and its source. -/
  | stage {e first source : Expr} {op : Operator} {q : Stages}
    (known : op ∈ [.filterRows, .group, .having, .order, .limit]) (calls : e.operator? = some op)
    (operands : e.operands = [first, source]) (part : first.Stageless)
    (inner : Nests scope source q) : Nests scope e (.stage (addedClauses scope first op) q)
  /-- A join with a table. -/
  | join {e right condition left : Expr} {op : Operator} {q : Stages}
    (known : op ∈ [.join, .leftJoin]) (calls : e.operator? = some op)
    (operands : e.operands = [right, condition, left]) (part : right.Stageless)
    (on : condition.Stageless) (inner : Nests scope left q) : Nests scope e (.stage [.join] q)
  /-- A join with a nesting. -/
  | joinStages {e right condition left : Expr} {op : Operator} {q r : Stages}
    (known : op ∈ [.join, .leftJoin]) (calls : e.operator? = some op)
    (operands : e.operands = [right, condition, left]) (side : Nests scope right r)
    (on : condition.Stageless) (inner : Nests scope left q) : Nests scope e (.join q r)
  /-- A projection of a source. -/
  | select {e fields source : Expr} {q : Stages} (calls : e.operator? = some .select)
    (operands : e.operands = [fields, source]) (part : fields.Stageless)
    (inner : Nests scope source q) : Nests scope e (.select q)

/-! ## What stands in a stage -/

/-- Evaluation of a call of an operator that looks at its operands itself. -/
theorem evaluateIn_eq {e : Expr} {op : Operator}
    {f : Evaluator → List Expr → Environment → Result Value} (calls : e.operator? = some op)
    (hh : Sql.handler op = some (.onOperands f)) (other : op ≠ .quote) (scope : Environment) :
    evaluateIn scope e = f interpretation.evaluate e.operands scope := by
  have known : interpretation.handler op = some (.onOperands f) := hh
  rw [evaluateIn, local_interpretation.evaluate_eq_step, Interpretation.step_eq_apply calls,
    Interpretation.apply, if_neg other, known]

section Parts

variable (scope : Environment)

/-- Scalars where no table is bound anew. -/
def scalarTerms : Terms :=
  (tableTerms scope).restrict fun e => ∀ op ∈ e.operator?, op ∉ Operator.stages

/-- Values of scalars: fragments that show no clause. -/
def quietly : Invariant :=
  .ofFragments Fragment.Quiet (scalarTerms scope)

variable {scope}

theorem part_quietly : (quietly scope).regime.Part = Fragment.Quiet :=
  Invariant.part_regime.trans Invariant.part_ofFragments

theorem composesScalars_quietly : (quietly scope).regime.ComposesScalars where
  toComposesScalars := by
    rw [part_quietly]
    exact Fragment.quiet_composesScalars _
  toBasis := Invariant.basis fun _ _ eq => nomatch eq

/-- Scalars give values that show no clause. -/
theorem keeps_quietly : (quietly scope).Keeps interpretation.evaluate := by
  intro e env he hs
  refine composesScalars_quietly.toBasis.evaluateIn Invariant.speaks ?_ ?_ ?_ he hs
  · rintro op h hh ⟨call, allowed, calls⟩
    exact composesScalars_quietly.handler PlainOperators.keepsBy (allowed.2.2 op calls) hh
  · intro env name hs
    refine Invariant.yields_good_table fun s text => ?_
    obtain ⟨known, rfl⟩ := tableText_quoted hs.2 text
    refine .ofText (lexical_quoteIdent known) ?_
    rw [tokensOf_quoteIdent]
    exact List.forall_mem_singleton.2 ⟨rfl, rfl⟩
  · exact fun env token name v hs found => hs.1.binding? found

end Parts

/-- What may be said and bound around the parts of a nesting. -/
structure Sound (scope : Environment) (e : Expr) : Prop where
  plain : e.Plain
  fixed : e.Everywhere fun part => ¬part.Rebinds scope tableToken

namespace Sound

variable {scope : Environment} {e : Expr}

theorem operand (h : Sound scope e) {operands : List Expr} (eq : e.operands = operands)
    {part : Expr} (hp : part ∈ operands) : Sound scope part :=
  ⟨Expr.Everywhere.operands h.plain (eq ▸ hp), h.fixed.operands (eq ▸ hp)⟩

/-- A scalar in a nesting gives values that show no clause. -/
theorem quietly (h : Sound scope e) (part : e.Stageless) :
    e.Everywhere (Sql.quietly scope).expr :=
  (h.plain.mono Invariant.onFragments_of_isPlain).and (h.fixed.and part)

end Sound

/-! ## What nestings show -/

/-- A fragment is a query of nested stages. -/
structure Stages.Shown (q : Stages) (f : Fragment) : Prop where
  complete : f.isQuery = true ↔ q.IsComplete
  shows : f.Shows q.clauses (∀ level ∈ q.inside, Clause.InOrder level)

namespace Stages.Shown

variable {q r : Stages} {f g : Fragment}

theorem stage_nil (h : q.Shown f) : (stage [] q).Shown f := by
  have same : (stage [] q).clauses = q.clauses := List.append_nil _
  exact ⟨by rw [IsComplete, same]; exact h.complete, by rw [same]; exact h.shows⟩

theorem of_stage_nil (h : (stage [] q).Shown f) : q.Shown f := by
  have same : (stage [] q).clauses = q.clauses := List.append_nil _
  exact ⟨by rw [IsComplete, ← same]; exact h.complete, by rw [← same]; exact h.shows⟩

theorem stage_append {a b : List Clause} (h : (stage b (stage a q)).Shown f) :
    (stage (a ++ b) q).Shown f := by
  have same : (stage (a ++ b) q).clauses = (stage b (stage a q)).clauses :=
    (List.append_assoc ..).symm
  exact ⟨by rw [IsComplete, same]; exact h.complete, by rw [same]; exact h.shows⟩

/-- A fragment goes on with a text and another fragment. -/
theorem extend (h : q.Shown f) {d : List Clause} (hg : g.Shows d True) {s : String}
    (hs : s ∈ middleTexts) {added : List Clause} (w : clausesOf s ++ d = added)
    (other : .select ∉ added) : (stage added q).Shown ((f.pushText s).append g) where
  complete := by
    have kept : ((f.pushText s).append g).isQuery = f.isQuery := rfl
    simpa [kept, IsComplete, clauses, other] using h.complete
  shows := by
    have shown := (h.shows.middle hg hs rfl).congr (and_true _).to_iff
    rwa [List.append_assoc, w] at shown

/-- A condition after a join adds no clause. -/
theorem on (h : q.Shown f) (hg : g.Quiet) : q.Shown ((f.pushText " ON ").append g) :=
  (h.extend hg (by decide) (by decide) (by decide)).of_stage_nil

theorem always (h : q.Shown f) : q.Shown ((f.pushText " ON ").pushText "TRUE") := by
  rw [Fragment.pushText_pushText]
  exact ⟨h.complete, h.shows.trailing (by decide)⟩

/-- A count goes after its keyword, if there is one. -/
theorem count (h : q.Shown f) {keyword : String} (hk : keyword ∈ middleTexts) {clause : Clause}
    (w : clausesOf keyword = [clause]) (other : clause ≠ .select) (n : Option Nat) :
    (stage (n.map fun _ => clause).toList q).Shown (SqlClause.pushCount f keyword n) := by
  cases n with
  | none => exact h.stage_nil
  | some n =>
    exact h.extend (.ofParam (.integer (Int64.ofNat n))) hk (by rw [w]; rfl)
      (by simpa using other.symm)

/-- On the right of a join a complete query stands in parentheses, and any other as it is. -/
theorem join (h : q.Shown f) (hg : r.Shown g) {s : String} (hs : s ∈ middleTexts)
    (w : clausesOf s = [.join]) {side : Fragment} (toSql : (Value.fragment g).toSql = .ok side) :
    (Stages.join q r).Shown ((f.pushText s).append side) := by
  have kept : ((f.pushText s).append side).isQuery = f.isQuery := rfl
  have right : side = if g.isQuery then g.wrapped "(" ")" else g := (Except.ok.inj toSql).symm
  by_cases complete : r.IsComplete
  · have selects : .select ∈ r.clauses := complete
    obtain rfl : side = g.wrapped "(" ")" := by rw [right, if_pos (hg.complete.2 complete)]
    refine ⟨by simpa [kept, IsComplete, clauses, selects] using h.complete, ?_⟩
    have shown := h.shows.middle (hg.shows.wrapped (by decide) opens_parenthesis) hs w
    simpa [clauses, inside, complete, selects, or_imp, forall_and, and_assoc] using shown
  · have selects : .select ∉ r.clauses := complete
    obtain rfl : side = g := by rw [right, if_neg (mt hg.complete.1 complete)]
    refine ⟨by simpa [kept, IsComplete, clauses, selects] using h.complete, ?_⟩
    have shown := h.shows.middle hg.shows hs w
    simpa [clauses, inside, complete, selects, or_imp, forall_and] using shown

/-- A projection of a source. -/
theorem select (h : q.Shown f) (hg : g.Shows [.select] True) :
    (Stages.select q).Shown ((g.pushText " ").append f).asQuery where
  complete := by simp [Fragment.asQuery, IsComplete, clauses]
  shows := by
    have shown := (hg.middle h.shows (s := " ") (by decide) rfl).congr (true_and _).to_iff
    exact ⟨shown.lexical, shown.adds⟩

end Stages.Shown

/-- A value is a query of nested stages. -/
def Stages.Gives (q : Stages) (v : Value) : Prop :=
  ∃ f, v = .fragment f ∧ q.Shown f

section Stages

variable {scope : Environment} (hs : (quietly scope).env scope)

include hs

theorem yields_render {e : Expr} (he : e.Everywhere (quietly scope).expr) :
    Yields (SqlClause.render interpretation.evaluate scope e) Fragment.Quiet :=
  part_quietly ▸ composesScalars_quietly.render keeps_quietly hs he

omit hs in
theorem yields_source {e : Expr} {q : Stages} (given : Yields (evaluateIn scope e) q.Gives) :
    Yields (SqlClause.source interpretation.evaluate scope e) q.Shown := by
  refine .bind given ?_
  rintro _ ⟨f, rfl, shown⟩
  exact Yields.ok_iff.2 shown

omit hs in
/-- A clause has what it asks for and its source. -/
theorem yields_clause {first source : Expr} {op : String} {R : Value → Prop}
    {f : Expr × Expr → Result Value} (h : Yields (f (first, source)) R) :
    Yields (Relation.clauseOperands op [first, source] >>= f) R :=
  h

theorem yields_filterRows {first source : Expr} {q : Stages} {op keyword : String} {clause : Clause}
    (part : first.Everywhere (quietly scope).expr) (given : Yields (evaluateIn scope source) q.Gives)
    (hk : keyword ∈ middleTexts) (w : clausesOf keyword = [clause]) (other : clause ≠ .select) :
    Yields (SqlClause.filterRows op keyword interpretation.evaluate [first, source] scope)
      (Stages.stage (if first.isEmpty then [] else [clause]) q).Gives := by
  refine yields_clause (.bind (yields_source given) fun rows hr => ?_)
  split
  · exact Yields.pure_iff.2 ⟨rows, rfl, hr.stage_nil⟩
  · refine .bind (yields_render hs part) fun c hc => Yields.pure_iff.2 ⟨_, rfl, ?_⟩
    exact hr.extend hc hk (by rw [w]; rfl) (by simpa using other.symm)

theorem yields_group {first source : Expr} {q : Stages}
    (part : first.Everywhere (quietly scope).expr)
    (given : Yields (evaluateIn scope source) q.Gives) :
    Yields (SqlClause.group interpretation.evaluate [first, source] scope)
      (Stages.stage (if first.isEmpty then [] else [.group]) q).Gives := by
  refine yields_clause (.bind (yields_source given) fun rows hr => ?_)
  have keys : Yields (first.itemsOrNone.mapM (SqlClause.render interpretation.evaluate scope))
      fun parts => ∀ f ∈ parts, f.Quiet :=
    .mapM fun key hk => yields_render hs (part.itemsOrNone hk)
  refine .bind (keys.and (.length_mapM _ _)) fun parts ⟨quiet, length⟩ => ?_
  have empty : parts = [] ↔ first.isEmpty = true := by
    rw [← Expr.itemsOrNone_eq_nil_iff, ← List.length_eq_zero_iff, length, List.length_eq_zero_iff]
  split
  · rw [if_pos (empty.1 rfl)]
    exact Yields.pure_iff.2 ⟨rows, rfl, hr.stage_nil⟩
  · next some =>
    rw [if_neg (mt empty.2 some)]
    refine Yields.pure_iff.2 ⟨_, rfl, ?_⟩
    exact hr.extend (.joinQuiet (by decide) (by decide) quiet) (by decide) (by decide) (by decide)

theorem yields_order {first source : Expr} {q : Stages}
    (part : first.Everywhere (quietly scope).expr)
    (given : Yields (evaluateIn scope source) q.Gives) :
    Yields (SqlClause.order interpretation.evaluate [first, source] scope)
      (Stages.stage (if first.isEmpty then [] else [.order]) q).Gives := by
  refine yields_clause (.bind ((OrderSpec.yields_parseList part).and
    (OrderSpec.yields_parseList_nil first)) fun specs ⟨inside, empty⟩ => ?_)
  refine .bind (yields_source given) fun rows hr => ?_
  split
  · next none =>
    rw [if_pos (empty.1 (List.isEmpty_iff.1 none))]
    exact Yields.pure_iff.2 ⟨rows, rfl, hr.stage_nil⟩
  · next some =>
    rw [if_neg (mt empty.2 (mt List.isEmpty_iff.2 some))]
    have ordered : Yields (SqlClause.orderBy interpretation.evaluate scope specs)
        fun g => g.Shows [.order] True := by
      refine (composesScalars_quietly.orderBy keeps_quietly hs inside).mono ?_
      rintro _ ⟨keys, quiet, rfl⟩
      exact (Fragment.Shows.joinQuiet (s := ", ") (by decide) (by decide)
        (part_quietly ▸ quiet)).leading (by decide)
          (by decide : clausesOf "ORDER BY " = [.order])
    refine .bind ordered fun g hg => Yields.pure_iff.2 ⟨_, rfl, ?_⟩
    exact hr.extend hg (by decide) (by decide) (by decide)

omit hs in
theorem yields_limit {first source : Expr} {q : Stages}
    (given : Yields (evaluateIn scope source) q.Gives) :
    Yields (SqlClause.limit interpretation.evaluate [first, source] scope)
      (Stages.stage (addedClauses scope first .limit) q).Gives := by
  refine yields_clause (.bind (.itself _) fun v evaluated => .bind (.itself _) fun page paged => ?_)
  have spec : evaluateIn scope first = .ok v := evaluated
  have added : addedClauses scope first .limit = pageClauses page := by
    rw [addedClauses, spec]
    show (match Pagination.ofValue v with | .ok page => _ | .error _ => _) = _
    rw [paged]
  rw [added]
  refine .bind (yields_source given) fun rows hr => Yields.pure_iff.2 ⟨_, rfl, ?_⟩
  exact ((hr.count (by decide) (by decide) (by decide) page.limit).count (by decide) (by decide)
    (by decide) page.offset).stage_append

/-! ### Joins and projections -/

omit hs in
/-- A join has two sides and a condition. -/
theorem yields_join {right condition left : Expr} {keyword : String} {q r : Stages}
    (on : Yields (SqlClause.render interpretation.evaluate scope condition) Fragment.Quiet)
    (given : Yields (evaluateIn scope left) q.Gives)
    (side : Yields (SqlClause.render interpretation.evaluate scope right) fun g =>
      ∀ f, q.Shown f → r.Shown ((f.pushText (" " ++ keyword ++ " ")).append g)) :
    Yields (SqlClause.join keyword interpretation.evaluate [right, condition, left] scope)
      r.Gives := by
  refine .bind (yields_source given) fun f hf => .bind side fun g joined => ?_
  dsimp only
  split
  · exact Yields.pure_iff.2 ⟨_, rfl, (joined f hf).always⟩
  · exact .bind on fun c hc => Yields.pure_iff.2 ⟨_, rfl, (joined f hf).on hc⟩

theorem yields_selectFields {fields : Expr} (part : fields.Everywhere (quietly scope).expr) :
    Yields (SqlClause.selectFields interpretation.evaluate scope fields)
      fun g => g.Shows [.select] True := by
  have columns : Yields (fields.itemsOrNone.mapM
      (SqlClause.selectField interpretation.evaluate scope)) fun parts => ∀ f ∈ parts, f.Quiet :=
    .mapM fun field hf => part_quietly ▸
      composesScalars_quietly.selectField keeps_quietly hs (part.itemsOrNone hf)
  refine .bind columns fun parts quiet => Yields.pure_iff.2 ?_
  have listed : ∀ f ∈ if parts.isEmpty then [Fragment.ofText "*"] else parts, f.Quiet := by
    intro f hf
    split at hf
    · exact List.mem_singleton.1 hf ▸ (Fragment.quiet_composesScalars fun _ => True).asterisk
    · exact quiet f hf
  exact (Fragment.Shows.joinQuiet (s := ", ") (by decide) (by decide) listed).leading
    (by decide) (by decide : clausesOf "SELECT " = [.select])

/-- What nested stages compile to shows the clauses of the nesting. -/
theorem Nests.yields {e : Expr} {q : Stages} (nests : Nests scope e q) (sound : Sound scope e) :
    Yields (evaluateIn scope e) q.Gives := by
  induction nests with
  | table calls operands part =>
    rw [evaluateIn_eq calls rfl (by decide), operands]
    have quiet := (sound.operand operands (List.mem_cons_self ..)).quietly part
    refine .bind (yields_render hs quiet) fun f hf => Yields.pure_iff.2 ⟨_, rfl, ?_, ?_⟩
    · exact ⟨fun h => (nomatch h), fun h => absurd h (by decide)⟩
    · have shown := hf.leading (by decide) (by decide : clausesOf "FROM " = [.source])
      exact shown.congr (by simp [Stages.inside])
  | @stage e first source op q known calls operands part inner ih =>
    have quiet := (sound.operand operands (by simp)).quietly part
    have given := ih (sound.operand operands (by simp))
    simp only [List.mem_cons, List.not_mem_nil, or_false] at known
    rcases known with rfl | rfl | rfl | rfl | rfl <;>
      rw [evaluateIn_eq calls rfl (by decide), operands]
    · exact yields_filterRows hs quiet given (by decide) (by decide) (by decide)
    · exact yields_group hs quiet given
    · exact yields_filterRows hs quiet given (by decide) (by decide) (by decide)
    · exact yields_order hs quiet given
    · exact yields_limit given
  | @join e right condition left op q known calls operands part on inner ih =>
    have given := ih (sound.operand operands (by simp))
    have side := yields_render hs ((sound.operand operands (by simp)).quietly part)
    have condition := yields_render hs ((sound.operand operands (by simp)).quietly on)
    simp only [List.mem_cons, List.not_mem_nil, or_false] at known
    rcases known with rfl | rfl <;> rw [evaluateIn_eq calls rfl (by decide), operands] <;>
      exact yields_join condition given (side.mono fun g hg f hf =>
        hf.extend hg (by decide) (by decide) (by decide))
  | @joinStages e right condition left op q r known calls operands side on inner ihs ih =>
    have given := ih (sound.operand operands (by simp))
    have condition := yields_render hs ((sound.operand operands (by simp)).quietly on)
    have other := ihs (sound.operand operands (by simp))
    have joined : ∀ {s : String}, s ∈ middleTexts → clausesOf s = [.join] →
        Yields (SqlClause.render interpretation.evaluate scope right) fun g =>
          ∀ f, q.Shown f → (Stages.join q r).Shown ((f.pushText s).append g) := by
      intro s hs w
      refine .bind other ?_
      rintro _ ⟨g, rfl, shown⟩ side toSql f hf
      exact hf.join shown hs w toSql
    simp only [List.mem_cons, List.not_mem_nil, or_false] at known
    rcases known with rfl | rfl <;> rw [evaluateIn_eq calls rfl (by decide), operands] <;>
      exact yields_join condition given (joined (by decide) (by decide))
  | @select e fields source q calls operands part inner ih =>
    rw [evaluateIn_eq calls rfl (by decide), operands]
    have quiet := (sound.operand operands (by simp)).quietly part
    have given := ih (sound.operand operands (by simp))
    refine .bind (yields_selectFields hs quiet) fun g hg => ?_
    refine .bind (yields_source given) fun f hf => Yields.pure_iff.2 ⟨_, rfl, hf.select hg⟩

end Stages

/-- Nested stages over tables compile to a statement if they compile at all, and it is grammatical
exactly if each stage comes where its clauses follow those of its source, only complete queries are
joined, and nothing is selected that selects already. -/
theorem compile_stages {style : PlaceholderStyle} {e : Expr} {context : Context} {q : Stages}
    {outcome : Compiled} (he : e.Plain)
    (fixed : e.Everywhere fun part =>
      ¬part.Rebinds ((Environment.ofContext context).declareTables e) tableToken)
    (hc : context.Plain) (ht : context.TablesUnquoted)
    (nests : Nests ((Environment.ofContext context).declareTables e) e q)
    (compiled : compile style e context = .ok outcome) :
    ∃ statement params, outcome = .query statement params ∧ (Grammatical statement ↔ q.Ordered) := by
  have hs : (quietly ((Environment.ofContext context).declareTables e)).env
      ((Environment.ofContext context).declareTables e) :=
    ⟨hc.mono Invariant.onFragments_of_isPlain, rfl, ht⟩
  rw [compile] at compiled
  cases evaluated : evaluateIn ((Environment.ofContext context).declareTables e) e with
  | error failure => rw [evaluated] at compiled; cases compiled
  | ok v =>
    rw [evaluated] at compiled
    obtain ⟨f, rfl, shown⟩ := nests.yields hs ⟨he, fixed⟩ v evaluated
    refine ⟨f.statement style, f.params, (Except.ok.inj compiled).symm, ?_⟩
    have whole := shown.shows.adds style 1 [] [] []
    rw [List.append_nil, List.nil_append] at whole
    have last : Orders [] q.clauses [] ↔ Clause.InOrder q.clauses := List.forall_mem_singleton
    rw [last, and_comm, ← q.ordered_iff] at whole
    exact whole

/-- A condition on a join with a projection, which stands in parentheses. -/
theorem stages_of_joined_projection :
    compile .dollar (.list [.symbol "$where",
        .list [.symbol ">", .symbol ":a", .literal (.integer 1)], .list [.symbol "$join",
          .list [.symbol "$select", .list [.symbol ":b"], .list [.symbol "$from", .symbol "@U"]],
          .literal .null, .list [.symbol "$from", .symbol "@T"]]]) []
        = .ok (.query "FROM \"T\" JOIN (SELECT \"b\" FROM \"U\") ON TRUE WHERE \"a\" > $1"
          [.integer 1]) ∧
      (Grammatical "FROM \"T\" JOIN (SELECT \"b\" FROM \"U\") ON TRUE WHERE \"a\" > $1" ↔
        (Stages.stage [.filter] (.join .table (.select .table))).Ordered) := by
  obtain ⟨e, same⟩ : ∃ e, e = Expr.list [.symbol "$where",
      .list [.symbol ">", .symbol ":a", .literal (.integer 1)], .list [.symbol "$join",
        .list [.symbol "$select", .list [.symbol ":b"], .list [.symbol "$from", .symbol "@U"]],
        .literal .null, .list [.symbol "$from", .symbol "@T"]]] := ⟨_, rfl⟩
  have compiled : compile .dollar e [] = .ok (.query
      "FROM \"T\" JOIN (SELECT \"b\" FROM \"U\") ON TRUE WHERE \"a\" > $1" [.integer 1]) := by
    rw [same]
    rfl
  have plain : e.Plain := by
    have atom : ∀ v : Value, v.isPlain = true → v.parts = [] → v.Plain :=
      fun _ plain none => .of_parts_nil plain none
    simpa [same, Expr.Plain, Expr.Holds, Expr.data] using ⟨atom _ rfl rfl, atom _ rfl rfl⟩
  have fixed : e.Everywhere fun part => part.operator? ≠ some .define := by
    simp only [same, Expr.Everywhere.list_iff, Expr.Everywhere.symbol_iff,
      Expr.Everywhere.literal_iff, List.forall_mem_cons, List.not_mem_nil, false_implies,
      implies_true, and_true]
    decide
  have condition : (Expr.list [.symbol ">", .symbol ":a", .literal (.integer 1)]).Stageless :=
    Expr.stageless_list_iff.2
      ⟨by decide, by simp [Expr.stageless_symbol, Expr.stageless_literal]⟩
  have fields : (Expr.list [.symbol ":b"]).Stageless :=
    Expr.stageless_list_iff.2 ⟨by decide, by simp [Expr.stageless_symbol]⟩
  have table : ∀ scope name, Nests scope (.list [.symbol "$from", .symbol name]) .table :=
    fun _ name => .table rfl rfl (Expr.stageless_symbol name)
  have nests : ∀ scope, Nests scope e (.stage [.filter] (.join .table (.select .table))) := by
    intro scope
    rw [same]
    exact .stage (List.mem_cons_self ..) rfl rfl condition
      (.joinStages (List.mem_cons_self ..) rfl rfl (.select rfl rfl fields (table scope "@U"))
        (Expr.stageless_literal _) (table scope "@T"))
  obtain ⟨statement, params, written, grammatical⟩ :=
    compile_stages plain (fixed.mono fun _ other h => other h.1)
      (fun _ hn => absurd hn List.not_mem_nil) (fun _ found => by cases found) (nests _) compiled
  obtain ⟨rfl, rfl⟩ := Compiled.query.inj written
  exact ⟨same ▸ compiled, grammatical⟩

/-- A projection of a projection selects twice in one place, and a condition on filtered rows stands
behind their condition. -/
theorem repeated_stages_ungrammatical :
    (compile .dollar (.list [.symbol "$select", .list [.symbol ":b"],
        .list [.symbol "$select", .list [.symbol ":a"], .list [.symbol "$from", .symbol "@T"]]]) []
        = .ok (.query "SELECT \"b\" SELECT \"a\" FROM \"T\"" []) ∧
      ¬Grammatical "SELECT \"b\" SELECT \"a\" FROM \"T\"") ∧
    compile .dollar (.list [.symbol "$where",
        .list [.symbol ">", .symbol ":b", .literal (.integer 2)],
        .list [.symbol "$where", .list [.symbol ">", .symbol ":a", .literal (.integer 1)],
          .list [.symbol "$from", .symbol "@T"]]]) []
        = .ok (.query "FROM \"T\" WHERE \"a\" > $1 WHERE \"b\" > $2" [.integer 1, .integer 2]) ∧
      ¬Grammatical "FROM \"T\" WHERE \"a\" > $1 WHERE \"b\" > $2" :=
  ⟨⟨rfl, by decide⟩, rfl, by decide⟩

end Sql

end QueryForms
