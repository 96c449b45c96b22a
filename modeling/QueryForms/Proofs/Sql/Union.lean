import QueryForms.Proofs.Sql.Rendered
import QueryForms.Proofs.Sql.Stages

/-!
# Unions

The branches of a union are compiled one by one, each with placeholders of its own, and are put
together as pieces. So the placeholders of a branch are numbered on after the parameters of the
branches before it (`Fragment.renderAll_eq_mapIdx`), whatever is nested inside of it, and the
parameters are those of the branches one after the other (`compile_union`).
-/

namespace QueryForms

namespace Fragment

variable (style : PlaceholderStyle)

/-- The texts of fragments that follow each other, numbered on from one to the next. -/
def renderAll : Nat → List Fragment → List String
  | _, [] => []
  | n, f :: rest => style.fill n (Piece.gaps f.pieces) :: renderAll (n + f.params.length) rest

/-- The placeholders of a fragment are numbered after the parameters of all fragments before it. -/
theorem renderAll_eq_mapIdx (n : Nat) (parts : List Fragment) :
    renderAll style n parts = parts.mapIdx fun i f =>
      style.fill (n + ((parts.take i).flatMap params).length) (Piece.gaps f.pieces) := by
  induction parts generalizing n with
  | nil => rfl
  | cons f rest ih =>
    rw [renderAll, ih, List.mapIdx_cons]
    simp [Nat.add_assoc]

variable {style}

/-- Fragments that are appended with a separator are numbered on after what is there. -/
theorem render_appendAll (separator : String) (n : Nat) {f : Fragment} {parts : List Fragment}
    (balanced : ∀ g ∈ f :: parts, g.Balanced) :
    Piece.render style n (appendAll separator f parts).pieces
      = separator.intercalate (renderAll style n (f :: parts)) := by
  -- the fragment so far is general, as it grows along the parts
  induction parts generalizing f with
  | nil => simp [appendAll, renderAll, Piece.render_eq_fill]
  | cons g rest ih =>
    obtain ⟨hf, hg, others⟩ : f.Balanced ∧ g.Balanced ∧ ∀ g ∈ rest, g.Balanced := by
      simpa using balanced
    have grown : ((f.pushText separator).append g).Balanced := (hf.pushText separator).append hg
    have count : (f.pushText separator).pieces.count .placeholder = f.params.length :=
      hf.pushText separator
    have text : Piece.render style n ((f.pushText separator).append g).pieces
        = Piece.render style n f.pieces ++ separator
          ++ Piece.render style (n + f.params.length) g.pieces := by
      rw [append, Piece.render_append, count, pushText, Piece.render_pushText]
    have length : n + ((f.pushText separator).append g).params.length
        = n + f.params.length + g.params.length := by
      simp [append, pushText, Nat.add_assoc]
    refine (ih (List.forall_mem_cons.2 ⟨grown, others⟩)).trans ?_
    rw [renderAll, renderAll, renderAll, ← Piece.render_eq_fill, ← Piece.render_eq_fill,
      ← Piece.render_eq_fill, text, length]
    simp [String.append_assoc]

/-- Joined fragments are numbered on from one to the next. -/
theorem render_join (separator : String) (n : Nat) {parts : List Fragment}
    (balanced : ∀ f ∈ parts, f.Balanced) :
    Piece.render style n (join separator parts).pieces
      = separator.intercalate (renderAll style n parts) := by
  cases parts with
  | nil => simp [join, empty, renderAll, Piece.render]
  | cons first rest =>
    obtain ⟨hf, others⟩ := List.forall_mem_cons.1 balanced
    have started : (empty.append first).Balanced := Balanced.append rfl hf
    have text : Piece.render style n (empty.append first).pieces
        = Piece.render style n first.pieces := by
      rw [append, Piece.render_append]
      simp [empty, Piece.render]
    refine (render_appendAll separator n (List.forall_mem_cons.2 ⟨started, others⟩)).trans ?_
    rw [renderAll, renderAll, ← Piece.render_eq_fill, ← Piece.render_eq_fill, text]
    rfl

theorem params_appendAll (separator : String) (f : Fragment) (parts : List Fragment) :
    (appendAll separator f parts).params = f.params ++ parts.flatMap params := by
  induction parts generalizing f with
  | nil => simp [appendAll]
  | cons g rest ih =>
    refine (ih _).trans ?_
    simp [append, pushText]

theorem params_join (separator : String) (parts : List Fragment) :
    (join separator parts).params = parts.flatMap params := by
  cases parts with
  | nil => rfl
  | cons first rest => exact params_appendAll separator _ rest

theorem params_join_wrapped (separator opening closing : String) (parts : List Fragment) :
    (join separator (parts.map fun f => f.wrapped opening closing)).params
      = parts.flatMap params := by
  rw [params_join, List.flatMap_map]
  rfl

/-- In parentheses fragments have the numbers that they have without. -/
theorem renderAll_wrapped (n : Nat) (parts : List Fragment) (opening closing : String) :
    renderAll style n (parts.map fun f => f.wrapped opening closing)
      = (renderAll style n parts).map fun text => opening ++ text ++ closing := by
  induction parts generalizing n with
  | nil => rfl
  | cons f rest ih =>
    have text : Piece.render style n (f.wrapped opening closing).pieces
        = opening ++ Piece.render style n f.pieces ++ closing := by
      rw [← String.toList_inj]
      exact (chars_wrapped n opening closing f).trans (by simp [chars])
    have length : (f.wrapped opening closing).params.length = f.params.length := rfl
    rw [List.map_cons, renderAll, renderAll, ih, List.map_cons, ← Piece.render_eq_fill,
      ← Piece.render_eq_fill, text, length]

variable (style)

/-- The statement of a union: that of its branch if there is one, and otherwise the branches in
parentheses, each numbered on after the parameters of those before it. -/
def unionStatement : List Fragment → String
  | [f] => f.statement style
  | parts => " UNION ALL ".intercalate ((parts.mapIdx fun i f =>
      style.fill (1 + ((parts.take i).flatMap params).length) (Piece.gaps f.pieces)).map
        fun text => "(" ++ text ++ ")")

variable {style}

/-- Branches in parentheses that are joined have the statement of their union. -/
theorem statement_join_wrapped {parts : List Fragment} (balanced : ∀ f ∈ parts, f.Balanced)
    (several : ∀ f, parts ≠ [f]) :
    (join " UNION ALL " (parts.map fun f => f.wrapped "(" ")")).statement style
      = unionStatement style parts := by
  have inParentheses : ∀ f ∈ parts.map fun f => f.wrapped "(" ")", f.Balanced :=
    List.forall_mem_map.2 fun f hf => (balanced f hf).wrapped "(" ")"
  rw [statement, render_join " UNION ALL " 1 inParentheses, renderAll_wrapped, renderAll_eq_mapIdx,
    unionStatement]
  exact several

end Fragment

namespace Sql

/-- Branches with values that are fragments are the sources of their union. -/
theorem mapM_source {env : Environment} {branches : List Expr} {fragments : List Fragment}
    (compiled : List.Forall₂ (fun b f => evaluateIn env b = .ok (.fragment f)) branches fragments) :
    branches.mapM (SqlClause.source interpretation.evaluate env) = .ok fragments := by
  refine mapM_eq_ok_iff.2 (compiled.imp fun b f found => ?_)
  have value : interpretation.evaluate b env = .ok (.fragment f) := found
  rw [SqlClause.source, value]
  rfl

/-- A union has the parameters of its branches one after the other. Its statement is that of its
branch if there is one, and otherwise the branches in parentheses: the statement of a branch, which
on its own is numbered from one, is numbered on after the parameters of the branches before it. -/
theorem compile_union {style : PlaceholderStyle} {context : Context} {branches : List Expr}
    {fragments : List Fragment} (some : branches ≠ [])
    (held : ∀ b ∈ branches, b.Holds (Invariant.OnFragments Fragment.Balanced))
    (bound : context.Holds (Invariant.OnFragments Fragment.Balanced))
    (compiled : List.Forall₂ (fun b f => evaluateIn ((Environment.ofContext context).declareTables
      (.list (.symbol "$union" :: branches))) b = .ok (.fragment f)) branches fragments) :
    (∀ f ∈ fragments, f.statement style = style.fill 1 (Piece.gaps f.pieces) ∧
      (Piece.gaps f.pieces).2.length = f.params.length) ∧
    compile style (.list (.symbol "$union" :: branches)) context
      = .ok (.query (Fragment.unionStatement style fragments)
        (fragments.flatMap Fragment.params)) := by
  have balanced : ∀ f ∈ fragments, f.Balanced := by
    intro f hf
    obtain ⟨i, hi, rfl⟩ := List.mem_iff_getElem.1 hf
    have within : i < branches.length := compiled.length_eq ▸ hi
    exact balanced_of_holds (held _ (List.getElem_mem within)) bound (compiled.get within hi)
  refine ⟨fun f hf => ⟨Piece.render_eq_fill style 1 f.pieces, ?_⟩, ?_⟩
  · rw [Piece.length_gaps, balanced f hf]
  have calls : (Expr.list (.symbol "$union" :: branches)).operator? = Option.some .union := rfl
  have union := evaluateIn_eq calls rfl (by decide)
    ((Environment.ofContext context).declareTables (.list (.symbol "$union" :: branches)))
  have sources : (Expr.list (.symbol "$union" :: branches)).operands.mapM
      (SqlClause.source interpretation.evaluate _) = .ok fragments := mapM_source compiled
  rw [compile, union, SqlClause.union, sources]
  rcases fragments with _ | ⟨f, _ | ⟨g, rest⟩⟩
  · exact absurd (List.forall₂_nil_right_iff.1 compiled) some
  · rw [List.flatMap_singleton]
    rfl
  · have text : _ = Fragment.unionStatement style (f :: g :: rest) :=
      Fragment.statement_join_wrapped balanced (by simp)
    have params := Fragment.params_join_wrapped " UNION ALL " "(" ")" (f :: g :: rest)
    show Except.ok (Compiled.query _ _) = Except.ok (Compiled.query _ _)
    rw [← text, ← params]
    rfl

/-- The second of two branches has its parameter numbered after that of the first. -/
theorem compile_union_of_two :
    compile .dollar (.list [.symbol "$union",
      .list [.symbol "$select", .list [.symbol ":id"], .list [.symbol "$where",
        .list [.symbol "=", .symbol ":kind", .literal (.integer 1)],
        .list [.symbol "$from", .symbol "@things"]]],
      .list [.symbol "$select", .list [.symbol ":id"], .list [.symbol "$where",
        .list [.symbol ">", .symbol ":score", .literal (.integer 2)],
        .list [.symbol "$from", .symbol "@things"]]]]) []
      = .ok (.query ("(SELECT \"id\" FROM \"things\" WHERE \"kind\" = $1) UNION ALL "
        ++ "(SELECT \"id\" FROM \"things\" WHERE \"score\" > $2)") [.integer 1, .integer 2]) := by
  have number : ∀ n, (Value.integer n).Everywhere (Invariant.OnFragments Fragment.Balanced) :=
    fun n => .of_parts_nil (fun f eq => nomatch eq) rfl
  refine (@compile_union _ _ [_, _]
    [⟨[.text "SELECT \"id\" FROM \"things\" WHERE \"kind\" = ", .placeholder], [.integer 1], true⟩,
    ⟨[.text "SELECT \"id\" FROM \"things\" WHERE \"score\" > ", .placeholder], [.integer 2], true⟩]
    (List.cons_ne_nil _ _) ?_ (fun _ h => absurd h List.not_mem_nil)
    (.cons rfl (.cons rfl .nil))).2.trans ?_
  · simp [Expr.Holds, Expr.data, number]
  · have one : Nat.repr 1 = "1" := rfl
    have two : Nat.repr 2 = "2" := rfl
    simp [Fragment.unionStatement, PlaceholderStyle.fill, Piece.gaps, PlaceholderStyle.mark, one,
      two]

end Sql

end QueryForms
