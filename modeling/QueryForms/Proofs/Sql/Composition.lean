import QueryForms.Sql.Interpretation
import QueryForms.Proofs.Computation
import QueryForms.Proofs.Operands

/-!
# How statements are put together

The compiler builds statements from few kinds of parts, and it knows only the ways of putting parts
together that `Fragment.Composes` lists; of these, scalars, aggregates and windows need only the ways
of `Fragment.ComposesScalars`, which have no clause of a query among them.
`Regime.Composes.handler` goes once through all operators of the compiler: what allows these ways
holds of every fragment that compiling gives, however deep the expression.
`Regime.ComposesScalars.handler` does so for the operators that are no clauses. What is to be shown
of statements in general is then shown of the ways alone.
-/

namespace QueryForms

/-! ## The texts between parts -/

/-- What stands before a part. -/
def leadingTexts : List String :=
  ["", "FROM ", "NOT ", "PARTITION BY ", "ORDER BY ", "SELECT ", "CASE WHEN "]

/-- What stands after a part. -/
def trailingTexts : List String :=
  [" IS NULL", " END", " ASC", " DESC", " ON TRUE"]

/-- What stands between two parts. -/
def middleTexts : List String :=
  [" ", ", ", " = ", " <> ", " > ", " < ", " >= ", " <= ", " LIKE ", " ILIKE ", " @> ", " IN ",
    " AND ", " OR ", " + ", " - ", " * ", " / ", " THEN ", " JOIN ", " LEFT JOIN ", " ON ",
    " WHERE ", " HAVING ", " GROUP BY ", " LIMIT ", " OFFSET ", " UNION ALL "]

/-- What opens a parenthesis around a part. -/
def openingTexts : List String :=
  ["(", "(-", "CONCAT(", "EXTRACT(EPOCH FROM ", "EXTRACT(DAY FROM ", "EXTRACT(MONTH FROM ",
    "EXTRACT(YEAR FROM ", "COUNT(", "SUM(", "AVG(", "MIN(", "MAX(", "ROW_NUMBER(", "RANK(",
    "DENSE_RANK(", "LAG(", "LEAD("]

/-- What stands after a part and opens a parenthesis around another. -/
def attachingTexts : List String :=
  [" = ANY(", " FILTER (WHERE ", " OVER ("]

/-- What stands before a part of a scalar. -/
def scalarLeadingTexts : List String :=
  ["", "NOT ", "CASE WHEN "]

/-- What stands after a part of a scalar. -/
def scalarTrailingTexts : List String :=
  [" IS NULL", " END", " ASC", " DESC"]

/-- What stands between two parts of a scalar. -/
def scalarMiddleTexts : List String :=
  [", ", " = ", " <> ", " > ", " < ", " >= ", " <= ", " LIKE ", " ILIKE ", " @> ", " IN ", " AND ",
    " OR ", " + ", " - ", " * ", " / ", " THEN "]

/-- What stands after a part of a scalar and opens a parenthesis around another. -/
def scalarAttachingTexts : List String :=
  [" = ANY(", " FILTER (WHERE "]

/-- The words of a window frame. -/
def frameText (start stop : Bound) : String :=
  "ROWS BETWEEN " ++ start.toSql .first ++ " AND " ++ stop.toSql .last

/-- Text goes after the first piece, unless that is the last one. -/
theorem Piece.pushText_cons {rest : List Piece} (h : rest ≠ []) (piece : Piece) (s : String) :
    pushText (piece :: rest) s = piece :: pushText rest s := by
  cases rest with
  | nil => exact absurd rfl h
  | cons next rest => cases piece <;> rfl

theorem Piece.pushText_ne_nil {pieces : List Piece} (h : pieces ≠ []) (s : String) :
    pushText pieces s ≠ [] := by
  cases pieces with
  | nil => exact absurd rfl h
  | cons piece rest => cases piece <;> cases rest <;> simp [pushText]

/-- Two texts one after the other are one text. -/
theorem Piece.pushText_pushText (pieces : List Piece) (a b : String) :
    pushText (pushText pieces a) b = pushText pieces (a ++ b) := by
  induction pieces with
  | nil => by_cases h : a = "" <;> simp [pushText, h]
  | cons piece rest ih =>
    by_cases last : rest = []
    · cases piece <;> simp_all [pushText, String.append_assoc]
    · rw [pushText_cons last, pushText_cons (pushText_ne_nil last a), ih, pushText_cons last]

theorem Fragment.pushText_pushText (f : Fragment) (a b : String) :
    (f.pushText a).pushText b = f.pushText (a ++ b) := by
  simp only [pushText, Piece.pushText_pushText]

theorem Piece.pushText_empty (pieces : List Piece) : pushText pieces "" = pieces := by
  induction pieces with
  | nil => rfl
  | cons piece rest ih =>
    by_cases last : rest = []
    · cases piece <;> simp [last, pushText]
    · rw [pushText_cons last, ih]

theorem Piece.append_push (pieces added : List Piece) (piece : Piece) :
    append pieces (push added piece) = push (append pieces added) piece := by
  -- a text joins the last text of what is added, so only the last added piece is looked at
  induction added generalizing pieces with
  | nil =>
    cases piece with
    | text s =>
      by_cases h : s = ""
      · simp [h, append, push, pushText, pushText_empty]
      · simp [h, append, push, pushText]
    | placeholder => rfl
  | cons first rest ih =>
    cases first with
    | text t =>
      cases piece with
      | text s =>
        by_cases last : rest = []
        · simp [last, append, push, pushText, pushText_pushText]
        · have apart : push (.text t :: rest) (.text s) = .text t :: push rest (.text s) :=
            pushText_cons last _ s
          rw [apart]
          exact ih _
      | placeholder => exact ih _
    | placeholder =>
      have apart : push (.placeholder :: rest) piece = .placeholder :: push rest piece := by
        cases piece <;> rfl
      rw [apart]
      exact ih _

/-- Pieces may be appended one list after the other, or the lists first to each other. -/
theorem Piece.append_assoc (a b c : List Piece) :
    append (append a b) c = append a (append b c) := by
  induction c generalizing b with
  | nil => rfl
  | cons piece rest ih =>
    have step : ∀ pieces, append pieces (piece :: rest) = append (push pieces piece) rest :=
      fun _ => rfl
    rw [step, step, ← ih, append_push]

/-- A text before a fragment in parentheses joins the parenthesis. -/
theorem Fragment.wrapped_append (opening s closing : String) (f : Fragment) :
    ((ofText s).append f).wrapped opening closing = f.wrapped (opening ++ s) closing := by
  have joined : Piece.append (Piece.pushText [] opening) (Piece.pushText [] s)
      = Piece.pushText [] (opening ++ s) := by
    rw [← Piece.pushText_pushText]
    exact Piece.append_push _ [] (.text s)
  simp only [wrapped, ofText, append, pushText, ← Piece.append_assoc, joined, List.nil_append]

/-! ## The ways of composition -/

/-- Keys of an order. -/
def Fragment.orderedBy (keys : List Fragment) : Fragment :=
  (ofText "ORDER BY ").append (join ", " keys)

/-- A function over a window, which may have a partition, an order and a frame. -/
def Fragment.windowed (f : Fragment) (partition order : Option (List Fragment))
    (frame : Option (Bound × Bound)) : Fragment :=
  let clauses :=
    (partition.map fun keys => (ofText "PARTITION BY ").append (join ", " keys)).toList
      ++ (order.map orderedBy).toList
      ++ (frame.map fun bounds => ofText (frameText bounds.1 bounds.2)).toList
  ((f.pushText " OVER (").append (join " " clauses)).pushText ")"

/-- A property of fragments allows every way in which a scalar is put together. -/
structure Fragment.ComposesScalars (P : Fragment → Prop) (param : Value → Prop) : Prop where
  columnText : ∀ c : ColumnRef, P (.ofText c.text)
  timestamp : ∀ t : Instant, P (.ofText (timestampText t))
  asterisk : P (.ofText "*")
  empty : P .empty
  param : ∀ v, param v → v.isSql = false → P (.ofParam v)
  leading : ∀ s ∈ scalarLeadingTexts, ∀ f, P f → P ((Fragment.ofText s).append f)
  trailing : ∀ s ∈ scalarTrailingTexts, ∀ f, P f → P (f.pushText s)
  middle : ∀ s ∈ scalarMiddleTexts, ∀ f g, P f → P g → P ((f.pushText s).append g)
  wrapped : ∀ s ∈ openingTexts, ∀ f, P f → P (f.wrapped s ")")
  attached : ∀ s ∈ scalarAttachingTexts, ∀ f g, P f → P g →
    P (((f.pushText s).append g).pushText ")")
  windowed : ∀ f partition order frame, P f → (∀ keys, partition = some keys → ∀ g ∈ keys, P g) →
    (∀ keys, order = some keys → ∀ g ∈ keys, P g) → P (f.windowed partition order frame)
  aliased : ∀ f name, P f → P ((f.pushText " AS ").pushText (quoteIdent name))

/-- A property of fragments allows every way in which the compiler puts fragments together. -/
structure Fragment.Composes (P : Fragment → Prop) (param : Value → Prop) : Prop where
  columnText : ∀ c : ColumnRef, P (.ofText c.text)
  timestamp : ∀ t : Instant, P (.ofText (timestampText t))
  asterisk : P (.ofText "*")
  frame : ∀ start stop : Bound, P (.ofText (frameText start stop))
  empty : P .empty
  param : ∀ v, param v → v.isSql = false → P (.ofParam v)
  asQuery : ∀ f, P f → P f.asQuery
  leading : ∀ s ∈ leadingTexts, ∀ f, P f → P ((Fragment.ofText s).append f)
  trailing : ∀ s ∈ trailingTexts, ∀ f, P f → P (f.pushText s)
  middle : ∀ s ∈ middleTexts, ∀ f g, P f → P g → P ((f.pushText s).append g)
  wrapped : ∀ s ∈ openingTexts, ∀ f, P f → P (f.wrapped s ")")
  attached : ∀ s ∈ attachingTexts, ∀ f g, P f → P g →
    P (((f.pushText s).append g).pushText ")")
  aliased : ∀ f name, P f → P ((f.pushText " AS ").pushText (quoteIdent name))

/-- Parts with a separator between them, where the separator may stand between two parts. -/
theorem Fragment.join_of {P : Fragment → Prop} {separator : String} (empty : P .empty)
    (first : ∀ f, P f → P (Fragment.empty.append f))
    (middle : ∀ f g, P f → P g → P ((f.pushText separator).append g)) {parts : List Fragment}
    (hp : ∀ f ∈ parts, P f) : P (join separator parts) := by
  cases parts with
  | nil => exact empty
  | cons start rest =>
    rw [join, appendAll]
    refine List.foldlRecOn rest _ (first start (hp start (List.mem_cons_self ..))) fun f hf g hg => ?_
    exact middle f g hf (hp g (List.mem_cons_of_mem _ hg))

namespace Fragment.Composes

variable {P : Fragment → Prop} {param : Value → Prop} (h : Composes P param)

include h

theorem join {separator : String} (hs : separator ∈ middleTexts) {parts : List Fragment}
    (hp : ∀ f ∈ parts, P f) : P (Fragment.join separator parts) :=
  join_of h.empty (h.leading "" (by decide)) (h.middle separator hs) hp

theorem orderedBy {keys : List Fragment} (hk : ∀ f ∈ keys, P f) : P (Fragment.orderedBy keys) :=
  h.leading _ (by decide) _ (h.join (by decide) hk)

/-- What allows every way allows the ways of scalars. -/
theorem scalars : ComposesScalars P param where
  columnText := h.columnText
  timestamp := h.timestamp
  asterisk := h.asterisk
  empty := h.empty
  param := h.param
  leading s hs :=
    have known : scalarLeadingTexts ⊆ leadingTexts := by decide
    h.leading s (known hs)
  trailing s hs :=
    have known : scalarTrailingTexts ⊆ trailingTexts := by decide
    h.trailing s (known hs)
  middle s hs :=
    have known : scalarMiddleTexts ⊆ middleTexts := by decide
    h.middle s (known hs)
  wrapped := h.wrapped
  attached s hs :=
    have known : scalarAttachingTexts ⊆ attachingTexts := by decide
    h.attached s (known hs)
  windowed f partition order frame hf hp ho := by
    refine h.attached " OVER (" (by decide) f _ hf (h.join (by decide) fun g hg => ?_)
    simp only [List.mem_append, Option.mem_toList, Option.map_eq_some_iff] at hg
    rcases hg with (⟨keys, found, rfl⟩ | ⟨keys, found, rfl⟩) | ⟨bounds, -, rfl⟩
    · exact h.leading _ (by decide) _ (h.join (by decide) (hp keys found))
    · exact h.orderedBy (ho keys found)
    · exact h.frame _ _
  aliased := h.aliased

end Fragment.Composes

/-- The stages of a query: operators that give a clause of their own. -/
def Operator.stages : List Operator :=
  [.source, .join, .leftJoin, .filterRows, .group, .having, .order, .limit, .union, .select]

namespace Regime

/-- A fragment that is good. -/
def Part (R : Regime) (f : Fragment) : Prop :=
  R.Good (.fragment f)

/-- What does not become part of a statement is good. -/
structure Basis (R : Regime) : Prop where
  column : ∀ c : ColumnRef, R.Good (.column c)
  /-- Data with nothing inside is good wherever it comes from. -/
  atom : ∀ v, v.isPlain = true → v.parts = [] → R.Good v
  compiling : ∀ scope, R.env scope → R.env (scope.withWindow .compiling)
  /-- What is computed from good data is good. -/
  computes : ∀ {op : Operator} {f : List Value → Result Value},
    Scalar.handler op = some (.onValues f) → ∀ values, (∀ v ∈ values, R.Good v) →
    (∀ v ∈ values, v.isSql = false) → Yields (f values) R.Good

/-- The regime allows every way in which a scalar is put together. -/
structure ComposesScalars (R : Regime) : Prop extends
  Fragment.ComposesScalars R.Part R.Good, R.Basis

/-- The regime allows every way of composition. -/
structure Composes (R : Regime) : Prop extends Fragment.Composes R.Part R.Good, R.Basis

variable {R : Regime}

/-- A good fragment is a good value. -/
theorem yields_fragment {f : Fragment} (h : R.Part f) : Yields (pure (Value.fragment f)) R.Good :=
  Yields.pure_iff.2 h

namespace ComposesScalars

variable (C : R.ComposesScalars)

include C

/-- Parts with a separator between them. -/
theorem join {separator : String} (hs : separator ∈ scalarMiddleTexts) {parts : List Fragment}
    (hp : ∀ f ∈ parts, R.Part f) : R.Part (Fragment.join separator parts) :=
  Fragment.join_of C.empty (C.leading "" (by decide)) (C.middle separator hs) hp

/-- A good value stands in a statement as a good part. -/
theorem toSql {v : Value} (hv : R.Good v) : Yields v.toSql R.Part := by
  cases v with
  | column c => exact Yields.ok_iff.2 (C.columnText c)
  | date t => exact Yields.ok_iff.2 (C.timestamp t)
  | rows list => exact .fault _
  | fragment f =>
    refine Yields.ok_iff.2 ?_
    split
    · exact C.wrapped "(" (by decide) f hv
    · exact hv
  | _ => exact Yields.ok_iff.2 (C.param _ hv rfl)

theorem toSource {v : Value} (hv : R.Good v) : Yields v.toSource R.Part := by
  cases v with
  | fragment f => exact Yields.ok_iff.2 hv
  | _ => exact C.toSql hv

theorem parts {values : List Value} (hv : ∀ v ∈ values, R.Good v) :
    Yields (SqlScalar.parts values) fun parts => ∀ f ∈ parts, R.Part f :=
  .mapM fun v h => C.toSql (hv v h)

/-! ## Scalar operators -/

theorem infixSql {op : String} {left right : Value} (hop : " " ++ op ++ " " ∈ scalarMiddleTexts)
    (hl : R.Good left) (hr : R.Good right) : Yields (SqlScalar.infixSql op left right) R.Part :=
  .bind (C.toSql hl) fun f hf => .bind (C.toSql hr) fun g hg =>
    Yields.pure_iff.2 (C.middle _ hop f g hf hg)

omit C in
/-- The operands of a comparison are compared with each other. -/
theorem mem_comparedPairs {values : List Value} {pair : Value × Value}
    (h : pair ∈ SqlScalar.comparedPairs values) : pair.1 ∈ values ∧ pair.2 ∈ values := by
  simp only [SqlScalar.comparedPairs] at h
  split at h
  · split at h
    · next first rest columns =>
      obtain ⟨other, ho, rfl⟩ := List.mem_map.1 h
      have inside : ∀ v ∈ first :: rest, v ∈ values :=
        fun v hv => (List.mem_filter.1 (columns ▸ hv)).1
      exact ⟨inside first (List.mem_cons_self ..), inside other (List.mem_cons_of_mem _ ho)⟩
    · exact absurd h List.not_mem_nil
  · obtain ⟨column, hc, h⟩ := List.mem_flatMap.1 h
    obtain ⟨v, hv, rfl⟩ := List.mem_map.1 h
    exact ⟨(List.mem_filter.1 hc).1, (List.mem_filter.1 hv).1⟩

omit C in
theorem sign_mem_scalarMiddleTexts (c : SqlScalar.Comparison) :
    " " ++ c.sign ++ " " ∈ scalarMiddleTexts := by
  cases c <;> decide

theorem comparison (c : SqlScalar.Comparison) {values : List Value}
    (hv : ∀ v ∈ values, R.Good v) : Yields (SqlScalar.comparison c values) R.Good := by
  rw [SqlScalar.comparison]
  split
  · exact .fault _
  · refine .bind (P := fun clauses => ∀ f ∈ clauses, R.Part f) (.mapM fun pair hp => ?_)
      fun clauses h => yields_fragment (C.join (by decide) h)
    have inside := mem_comparedPairs hp
    exact C.infixSql (sign_mem_scalarMiddleTexts _) (hv _ inside.1) (hv _ inside.2)

theorem between {op : String} (hop : " " ++ op ++ " " ∈ scalarMiddleTexts) {values : List Value}
    (hv : ∀ v ∈ values, R.Good v) : Yields (SqlScalar.between op values) R.Good :=
  .bind (PlainOperators.twoOperands hv) fun _ h =>
    .bind (C.infixSql hop h.1 h.2) fun _ hf => yields_fragment hf

theorem inList {values : List Value} (hv : ∀ v ∈ values, R.Good v) :
    Yields (SqlScalar.inList values) R.Good := by
  refine .bind (PlainOperators.twoOperands hv) fun ⟨v, list⟩ ⟨hv, hl⟩ => ?_
  refine .bind (C.toSql hv) fun head hh => ?_
  cases list with
  | fragment f =>
    have part : R.Part f := hl
    dsimp only
    split
    · exact yields_fragment (C.middle _ (by decide) _ _ hh (C.wrapped _ (by decide) f part))
    · exact yields_fragment (C.attached _ (by decide) _ _ hh part)
  | _ => exact .bind (C.toSql hl) fun g hg => yields_fragment (C.attached _ (by decide) _ _ hh hg)

theorem isNull {values : List Value} (hv : ∀ v ∈ values, R.Good v) :
    Yields (SqlScalar.isNull values) R.Good := by
  refine .bind (C.parts hv) fun parts hp => yields_fragment (C.join (by decide) fun f hf => ?_)
  obtain ⟨g, hg, rfl⟩ := List.mem_map.1 hf
  exact C.trailing _ (by decide) g (hp g hg)

theorem connective {op : String} (hop : " " ++ op ++ " " ∈ scalarMiddleTexts) {values : List Value}
    (hv : ∀ v ∈ values, R.Good v) : Yields (SqlScalar.connective op values) R.Good := by
  refine .bind (C.parts hv) fun parts hp => yields_fragment (C.join hop fun f hf => ?_)
  obtain ⟨g, hg, rfl⟩ := List.mem_map.1 hf
  exact C.wrapped _ (by decide) g (hp g hg)

theorem not {values : List Value} (hv : ∀ v ∈ values, R.Good v) :
    Yields (SqlScalar.not values) R.Good := by
  rw [SqlScalar.not.eq_def]
  split
  · refine .bind (C.toSql (hv _ (List.mem_cons_self ..))) fun f hf => yields_fragment ?_
    exact C.leading _ (by decide) _ (C.wrapped _ (by decide) f hf)
  · exact .fault _

theorem arithmetic (op : ArithmeticOp) {values : List Value} (hv : ∀ v ∈ values, R.Good v) :
    Yields (SqlScalar.arithmetic op values) R.Good := by
  refine .bind (C.parts hv) fun parts hp => yields_fragment ?_
  split
  · next only =>
    have part : R.Part only := hp _ (List.mem_singleton.2 rfl)
    split
    · -- the sign joins the parenthesis, so no part begins with a minus
      rw [Fragment.wrapped_append]
      exact C.wrapped "(-" (by decide) _ part
    · exact C.wrapped _ (by decide) _ part
  · exact C.wrapped _ (by decide) _ (C.join (by cases op <;> decide) hp)

theorem functionCall {name : String} (hn : name ++ "(" ∈ openingTexts) {values : List Value}
    (hv : ∀ v ∈ values, R.Good v) : Yields (SqlScalar.functionCall name values) R.Part :=
  .bind (C.parts hv) fun _ hp => Yields.pure_iff.2 (C.wrapped _ hn _ (C.join (by decide) hp))

theorem concat {values : List Value} (hv : ∀ v ∈ values, R.Good v) :
    Yields (SqlScalar.concat values) R.Good :=
  .bind (C.functionCall (by decide) hv) fun _ hf => yields_fragment hf

omit C in
theorem partName_mem_openingTexts (part : Scalar.DatePart) :
    "EXTRACT(" ++ SqlScalar.partName part ++ " FROM " ∈ openingTexts := by
  cases part <;> decide

theorem extract {values : List Value} (hv : ∀ v ∈ values, R.Good v) :
    Yields (SqlScalar.extract values) R.Good := by
  refine .bind (PlainOperators.twoOperands hv) fun ⟨named, v⟩ ⟨_, hv⟩ => ?_
  refine .bind (.trivial _) fun part _ => ?_
  split
  · refine .bind (C.toSql hv) fun f hf => yields_fragment ?_
    exact C.wrapped _ (partName_mem_openingTexts part) f hf
  · exact (Scalar.yields_extract _).mono fun v h => C.atom v h.1 h.2

theorem filter : R.KeepsBy .filter (.onOperands SqlScalar.filter) := by
  intro eval e scope keeps he _ hs
  rw [SqlScalar.filter.eq_def]
  split
  · next field condition operands =>
    have hf := keeps field scope (he.operands (operands ▸ by simp)) hs
    refine .bind (keeps condition scope (he.operands (operands ▸ by simp)) hs) fun v hv => ?_
    split
    · refine .bind (C.toSql hv) fun f hc => .bind hf fun w hw => .bind (C.toSql hw) fun g hg => ?_
      have start := C.leading "CASE WHEN " (by decide) f hc
      exact yields_fragment (C.trailing _ (by decide) _ (C.middle _ (by decide) _ g start hg))
    · split
      · exact hf
      · exact Yields.ok_iff.2 (C.atom .null rfl rfl)
  · exact .fault _

/-- An operator that computes where it can keeps what both its ways keep. -/
theorem orCompute {op : Operator} {compute sql : List Value → Result Value}
    (hc : Scalar.handler op = some (.onValues compute))
    (hs : ∀ values, (∀ v ∈ values, R.Good v) → Yields (sql values) R.Good) :
    R.KeepsBy op (.onValues (SqlScalar.orCompute compute sql)) := by
  intro values hv
  rw [SqlScalar.orCompute]
  split
  · exact hs values hv
  · next plain => exact C.computes hc values hv (by simpa using plain)

/-- The scalar operators of statements give good values. -/
theorem scalar {op : Operator} {h : Handler} (hh : SqlScalar.handler op = some h) :
    R.KeepsBy op h := by
  cases op <;> simp only [SqlScalar.handler, Option.some.injEq, reduceCtorEq] at hh <;> subst hh
  case like | ilike => exact C.orCompute rfl fun _ hv => C.between (by decide) hv
  case inList => exact C.orCompute rfl fun _ hv => C.inList hv
  case contains => exact C.orCompute rfl fun _ hv => C.between (by decide) hv
  case isNull => exact C.orCompute rfl fun _ hv => C.isNull hv
  case and | or => exact C.orCompute rfl fun _ hv => C.connective (by decide) hv
  case not => exact C.orCompute rfl fun _ hv => C.not hv
  case add | subtract | multiply | divide => exact C.orCompute rfl fun _ hv => C.arithmetic _ hv
  case extract => exact fun _ hv => C.extract hv
  case concat => exact C.orCompute rfl fun _ hv => C.concat hv
  case filter => exact C.filter
  all_goals exact C.orCompute rfl fun _ hv => C.comparison _ hv

/-! ## Aggregates and aliases -/

section Operands

variable {eval : Evaluator} {scope : Environment} (keeps : R.Keeps eval) (hs : R.env scope)

include keeps hs

theorem render {e : Expr} (he : e.Everywhere R.expr) :
    Yields (SqlClause.render eval scope e) R.Part :=
  .bind (keeps e scope he hs) fun _ hv => C.toSql hv

theorem renderAll {exprs : List Expr} (he : ∀ e ∈ exprs, e.Everywhere R.expr) :
    Yields (exprs.mapM (SqlClause.render eval scope)) fun parts => ∀ f ∈ parts, R.Part f :=
  .mapM fun e hm => C.render keeps hs (he e hm)

theorem selectField {field : Expr} (he : field.Everywhere R.expr) :
    Yields (SqlClause.selectField eval scope field) R.Part := by
  rw [SqlClause.selectField]
  split
  · exact Yields.ok_iff.2 C.asterisk
  · exact C.render keeps hs he

/-- The keys of an order with their directions. -/
theorem orderBy {specs : List OrderSpec} (hspec : ∀ spec ∈ specs, spec.expr.Everywhere R.expr) :
    Yields (SqlClause.orderBy eval scope specs)
      fun g => ∃ keys, (∀ f ∈ keys, R.Part f) ∧ g = .orderedBy keys := by
  refine .bind (.mapM (R := R.Part) fun spec hm => ?_) fun keys hk =>
    Yields.pure_iff.2 ⟨keys, hk, rfl⟩
  refine .bind (C.render keeps hs (hspec spec hm)) fun f hf => Yields.pure_iff.2 ?_
  exact C.trailing _ (by cases spec.descending <;> decide) f hf

/-- The partition of a window. -/
theorem partitionClause {keys : List Expr} (he : ∀ e ∈ keys, e.Everywhere R.expr) :
    Yields (SqlWindow.partitionClause eval scope keys) fun clauses =>
      ∃ partition : Option (List Fragment), (∀ keys, partition = some keys → ∀ f ∈ keys, R.Part f) ∧
        clauses = (partition.map fun keys =>
          (Fragment.ofText "PARTITION BY ").append (Fragment.join ", " keys)).toList := by
  refine .bind (C.renderAll keeps hs he) fun parts hp => ?_
  split
  · exact Yields.pure_iff.2 ⟨none, by simp, rfl⟩
  · exact Yields.pure_iff.2 ⟨some _, by rintro _ ⟨⟩; exact hp, rfl⟩

/-- The order of a window. -/
theorem orderClause {specs : List OrderSpec} (hspec : ∀ spec ∈ specs, spec.expr.Everywhere R.expr) :
    Yields (SqlWindow.orderClause eval scope specs) fun clauses =>
      ∃ order : Option (List Fragment), (∀ keys, order = some keys → ∀ f ∈ keys, R.Part f) ∧
        clauses = (order.map Fragment.orderedBy).toList := by
  rw [SqlWindow.orderClause]
  split
  · exact Yields.pure_iff.2 ⟨none, by simp, rfl⟩
  · refine .bind (C.orderBy keeps hs hspec) ?_
    rintro g ⟨keys, hk, rfl⟩
    exact Yields.pure_iff.2 ⟨some keys, by rintro _ ⟨⟩; exact hk, rfl⟩

end Operands

theorem aliasedCall : R.KeepsBy .aliased (.onOperands SqlClause.aliased) := by
  intro eval e scope keeps he _ hs
  refine .bind (Relation.yields_clauseOperands fun _ hm => he.operands hm) fun pair hp => ?_
  refine .bind (.trivial _) fun name _ => .bind (C.render keeps hs hp.2) fun f hf => ?_
  exact yields_fragment (C.aliased f name hf)

theorem aggregate {op : Operator} {name : String} (hn : name ++ "(" ∈ openingTexts) :
    R.KeepsBy op (.onOperands (SqlClause.aggregate name)) := by
  intro eval e scope keeps he _ hs
  refine .bind (Aggregate.yields_oneOperand fun _ hm => he.operands hm) fun operand ho => ?_
  refine .bind (SqlClause.yields_conditional ho) fun pair hp => ?_
  refine .bind (C.selectField keeps hs hp.1) fun f hf => ?_
  have call := C.wrapped _ hn f hf
  split
  · exact yields_fragment call
  · next condition found =>
    refine .bind (C.render keeps hs (hp.2 condition found)) fun c hc => ?_
    exact yields_fragment (C.attached _ (by decide) _ c call hc)

/-! ## Windows -/

theorem windowCall : R.KeepsBy .windowed (.onOperands SqlWindow.call) := by
  intro eval e scope keeps he _ hs
  rw [SqlWindow.call.eq_def]
  split
  · exact .fault _
  · next function rest operands =>
    have inside : ∀ operand ∈ function :: rest, operand.Everywhere R.expr :=
      fun operand hm => he.operands (operands ▸ hm)
    have spec : ∀ e ∈ rest.head?, e.Everywhere R.expr :=
      fun e hm => inside e (List.mem_cons_of_mem _ (List.mem_of_mem_head? hm))
    refine .bind (WindowSpec.yields_parse spec) fun w ⟨hp, ho⟩ => ?_
    -- the function is compiled in the window, its partition and order outside of it
    refine .bind (C.render keeps (C.compiling scope hs) (inside function (by simp))) fun f hf => ?_
    refine .bind (C.partitionClause keeps hs hp) ?_
    rintro _ ⟨partition, hpart, rfl⟩
    refine .bind (C.orderClause keeps hs ho) ?_
    rintro _ ⟨order, horder, rfl⟩
    have frame : ∃ bounds : Option (Bound × Bound), SqlWindow.frameClause w
        = (bounds.map fun bounds => Fragment.ofText (frameText bounds.1 bounds.2)).toList := by
      rw [SqlWindow.frameClause]
      split
      · exact ⟨none, rfl⟩
      · exact ⟨some (w.effectiveFrame.start, w.effectiveFrame.stop), rfl⟩
    obtain ⟨bounds, eq⟩ := frame
    rw [eq]
    exact yields_fragment (C.windowed f partition order bounds hf hpart horder)

theorem windowFunction {op : Operator} {called name : String} (hn : name ++ "(" ∈ openingTexts) :
    R.KeepsBy op (.onOperands (SqlWindow.windowFunction called name)) := by
  intro eval e scope keeps he _ hs
  rw [SqlWindow.windowFunction]
  split
  · refine .bind (evaluateAll keeps (fun _ hm => he.operands hm) hs) fun values hv => ?_
    exact .bind (C.functionCall hn hv) fun f hf => yields_fragment hf
  · exact .error _

/-- The window calls of statements give good values. -/
theorem window {op : Operator} {h : Handler} (hh : SqlWindow.handler op = some h) :
    R.KeepsBy op h := by
  cases op <;> simp only [SqlWindow.handler, Option.some.injEq, reduceCtorEq] at hh <;> subst hh
  case windowed => exact C.windowCall
  all_goals exact C.windowFunction (by decide)

/-- The clauses that are no stages give good values. -/
theorem clause {op : Operator} {h : Handler} (scalar : op ∉ Operator.stages)
    (hh : SqlClause.handler op = some h) : R.KeepsBy op h := by
  cases op <;> simp only [SqlClause.handler, Option.some.injEq, reduceCtorEq] at hh <;> subst hh
  case aliased => exact C.aliasedCall
  case count | sum | avg | min | max => exact C.aggregate (by decide)
  all_goals exact absurd (by decide) scalar

/-- Every operator of the compiler that is no stage of a query gives good values, if those that both
interpretations share do. -/
theorem handler {op : Operator} {h : Handler}
    (shared : PlainOperators.handler op = some h → R.KeepsBy op h) (scalar : op ∉ Operator.stages)
    (hh : Sql.handler op = some h) : R.KeepsBy op h := by
  simp only [Sql.handler, Option.orElse_eq_orElse, Option.orElse_eq_or] at hh
  rcases Option.or_eq_some_iff.1 hh with hh | ⟨-, hh⟩
  · exact shared hh
  · rcases Option.or_eq_some_iff.1 hh with hh | ⟨-, hh⟩
    · exact C.scalar hh
    · exact (Option.or_eq_some_iff.1 hh).elim (C.clause scalar) fun ⟨_, hh⟩ => C.window hh

end ComposesScalars

/-! ## Clauses -/

namespace Composes

variable (C : R.Composes)

include C

theorem scalars : R.ComposesScalars :=
  { C.toComposes.scalars, C.toBasis with }

theorem always {f : Fragment} (hf : R.Part f) : R.Part ((f.pushText " ON ").pushText "TRUE") := by
  -- the keyword and its condition are written apart, and are one text
  rw [Fragment.pushText_pushText]
  exact C.trailing _ (by decide) f hf

section Operands

variable {eval : Evaluator} {scope : Environment} (keeps : R.Keeps eval) (hs : R.env scope)

include keeps hs

theorem source {e : Expr} (he : e.Everywhere R.expr) :
    Yields (SqlClause.source eval scope e) R.Part :=
  .bind (keeps e scope he hs) fun _ hv => C.scalars.toSource hv

theorem orderBy {specs : List OrderSpec} (hspec : ∀ spec ∈ specs, spec.expr.Everywhere R.expr) :
    Yields (SqlClause.orderBy eval scope specs) R.Part := by
  refine (C.scalars.orderBy keeps hs hspec).mono ?_
  rintro _ ⟨keys, hk, rfl⟩
  exact C.toComposes.orderedBy hk

theorem selectFields {fieldList : Expr} (he : fieldList.Everywhere R.expr) :
    Yields (SqlClause.selectFields eval scope fieldList) R.Part := by
  refine .bind (.mapM (R := R.Part) fun field hf => ?_) fun columns hc => Yields.pure_iff.2 ?_
  · exact C.scalars.selectField keeps hs (he.itemsOrNone hf)
  · refine C.leading _ (by decide) _ (C.toComposes.join (by decide) fun f hf => ?_)
    split at hf
    · exact List.mem_singleton.1 hf ▸ C.asterisk
    · exact hc f hf

end Operands

theorem fromTable : R.KeepsBy .source (.onOperands SqlClause.fromTable) := by
  intro eval e scope keeps he _ hs
  rw [SqlClause.fromTable.eq_def]
  split
  · next table operands =>
    refine .bind (C.scalars.render keeps hs (he.operands (by simp [operands]))) fun f hf => ?_
    exact yields_fragment (C.leading _ (by decide) f hf)
  · exact .fault _

theorem joinClause {op : Operator} {keyword : String} (hk : " " ++ keyword ++ " " ∈ middleTexts) :
    R.KeepsBy op (.onOperands (SqlClause.join keyword)) := by
  intro eval e scope keeps he _ hs
  rw [SqlClause.join.eq_def]
  split
  · next right condition left operands =>
    have inside : ∀ operand ∈ [right, condition, left], operand.Everywhere R.expr :=
      fun operand hm => he.operands (operands ▸ hm)
    refine .bind (C.source keeps hs (inside left (by simp))) fun f hf => ?_
    refine .bind (C.scalars.render keeps hs (inside right (by simp))) fun g hg => ?_
    have joined := C.middle _ hk f g hf hg
    dsimp only
    split
    · exact yields_fragment (C.always joined)
    · refine .bind (C.scalars.render keeps hs (inside condition (by simp))) fun c hc => ?_
      exact yields_fragment (C.middle _ (by decide) _ c joined hc)
  · exact .fault _

theorem filterRows {op : Operator} {name keyword : String} (hk : keyword ∈ middleTexts) :
    R.KeepsBy op (.onOperands (SqlClause.filterRows name keyword)) := by
  intro eval e scope keeps he _ hs
  refine .bind (Relation.yields_clauseOperands fun _ hm => he.operands hm) fun pair hp => ?_
  refine .bind (C.source keeps hs hp.2) fun rows hr => ?_
  split
  · exact yields_fragment hr
  · refine .bind (C.scalars.render keeps hs hp.1) fun c hc => ?_
    exact yields_fragment (C.middle _ hk rows c hr hc)

theorem group : R.KeepsBy .group (.onOperands SqlClause.group) := by
  intro eval e scope keeps he _ hs
  refine .bind (Relation.yields_clauseOperands fun _ hm => he.operands hm) fun pair hp => ?_
  refine .bind (C.source keeps hs hp.2) fun rows hr => ?_
  refine .bind (C.scalars.renderAll keeps hs fun key hk => hp.1.itemsOrNone hk) fun parts hparts => ?_
  split
  · exact yields_fragment hr
  · exact yields_fragment (C.middle _ (by decide) rows _ hr (C.toComposes.join (by decide) hparts))

theorem order : R.KeepsBy .order (.onOperands SqlClause.order) := by
  intro eval e scope keeps he _ hs
  refine .bind (Relation.yields_clauseOperands fun _ hm => he.operands hm) fun pair hp => ?_
  refine .bind (OrderSpec.yields_parseList hp.1) fun specs hspecs => ?_
  refine .bind (C.source keeps hs hp.2) fun rows hr => ?_
  split
  · exact yields_fragment hr
  · refine .bind (C.orderBy keeps hs hspecs) fun f hf => ?_
    exact yields_fragment (C.middle _ (by decide) rows f hr hf)

/-- A count is a parameter after its keyword. -/
theorem pushCount {keyword : String} (hk : keyword ∈ middleTexts) {f : Fragment} (hf : R.Part f)
    (count : Option Nat) : R.Part (SqlClause.pushCount f keyword count) := by
  cases count with
  | none => exact hf
  | some n =>
    have number := C.atom (.integer (Int64.ofNat n)) rfl rfl
    exact C.middle keyword hk f _ hf (C.param _ number rfl)

theorem limit : R.KeepsBy .limit (.onOperands SqlClause.limit) := by
  intro eval e scope keeps he _ hs
  refine .bind (Relation.yields_clauseOperands fun _ hm => he.operands hm) fun pair hp => ?_
  refine .bind (.trivial _) fun _ _ => .bind (.trivial _) fun page _ => ?_
  refine .bind (C.source keeps hs hp.2) fun rows hr => yields_fragment ?_
  exact C.pushCount (by decide) (C.pushCount (by decide) hr page.limit) page.offset

theorem union : R.KeepsBy .union (.onOperands SqlClause.union) := by
  intro eval e scope keeps he _ hs
  refine .bind (.mapM (R := R.Part) fun b hb => C.source keeps hs (he.operands hb)) ?_
  intro branches hb
  split
  · exact yields_fragment (hb _ (List.mem_singleton.2 rfl))
  · refine yields_fragment (C.asQuery _ (C.toComposes.join (by decide) fun f hf => ?_))
    obtain ⟨g, hg, rfl⟩ := List.mem_map.1 hf
    exact C.wrapped _ (by decide) g (hb g hg)

theorem select : R.KeepsBy .select (.onOperands SqlClause.select) := by
  intro eval e scope keeps he _ hs
  rw [SqlClause.select.eq_def]
  split
  · next fieldList operands =>
    refine .bind (C.selectFields keeps hs (he.operands (by simp [operands]))) fun f hf => ?_
    exact yields_fragment (C.asQuery f hf)
  · next fieldList source operands =>
    refine .bind (C.selectFields keeps hs (he.operands (by simp [operands]))) fun f hf => ?_
    refine .bind (C.source keeps hs (he.operands (by simp [operands]))) fun g hg => ?_
    exact yields_fragment (C.asQuery _ (C.middle _ (by decide) f g hf hg))
  · exact .fault _

/-- The clauses of statements give good values. -/
theorem clause {op : Operator} {h : Handler} (hh : SqlClause.handler op = some h) :
    R.KeepsBy op h := by
  cases op <;> simp only [SqlClause.handler, Option.some.injEq, reduceCtorEq] at hh <;> subst hh
  case source => exact C.fromTable
  case join | leftJoin => exact C.joinClause (by decide)
  case filterRows | having => exact C.filterRows (by decide)
  case group => exact C.group
  case order => exact C.order
  case limit => exact C.limit
  case union => exact C.union
  case select => exact C.select
  all_goals exact C.scalars.clause (by decide) rfl

/-! ## The compiler -/

/-- Every operator of the compiler gives good values, if those that both interpretations share
do. -/
theorem handler {op : Operator} {h : Handler}
    (shared : PlainOperators.handler op = some h → R.KeepsBy op h)
    (hh : Sql.handler op = some h) : R.KeepsBy op h := by
  simp only [Sql.handler, Option.orElse_eq_orElse, Option.orElse_eq_or] at hh
  rcases Option.or_eq_some_iff.1 hh with hh | ⟨-, hh⟩
  · exact shared hh
  · rcases Option.or_eq_some_iff.1 hh with hh | ⟨-, hh⟩
    · exact C.scalars.scalar hh
    · exact (Option.or_eq_some_iff.1 hh).elim C.clause fun ⟨_, hh⟩ => C.scalars.window hh

end Composes

end Regime

/-! ## Invariants -/

namespace Invariant

/-- A fragment that is good. -/
def Part (I : Invariant) (f : Fragment) : Prop :=
  I.value (.fragment f)

/-- The invariant allows every column and every way of composition. -/
structure Composes (I : Invariant) : Prop extends Fragment.Composes I.Part I.Good where
  column : ∀ c : ColumnRef, I.value (.column c)

variable {I : Invariant}

/-- Nothing can be taken out of a fragment. -/
theorem good_fragment_iff {f : Fragment} : I.Good (.fragment f) ↔ I.Part f :=
  ⟨fun h => h.here, fun h => .of_parts_nil h rfl⟩

theorem part_regime : I.regime.Part = I.Part :=
  funext fun _ => propext good_fragment_iff

/-- An invariant that columns have is kept by all that does not become part of a statement. -/
theorem basis (column : ∀ c : ColumnRef, I.value (.column c)) : I.regime.Basis where
  column c := .of_parts_nil (column c) rfl
  atom _ plain none := good_of_parts_nil plain none
  compiling := I.compiling
  computes hf values hv _ := Scalar.keepsBy hf values hv

namespace Composes

variable (C : I.Composes)

include C

theorem regime : I.regime.Composes where
  toComposes := by
    rw [part_regime]
    exact C.toComposes
  toBasis := basis C.column

/-- Every operator of the compiler keeps the invariant. -/
theorem handler {op : Operator} {h : Handler} (hh : Sql.handler op = some h) : I.KeepsBy op h :=
  C.regime.handler PlainOperators.keepsBy hh

end Composes

end Invariant

end QueryForms
