import QueryForms.Proofs.Sql.Compilation

/-!
# Placeholders and parameters

Texts and parameters are kept apart in a fragment and are only matched by position, so one operator
that pushed them out of step would bind every later parameter to the wrong place.
`Fragment.Balanced` counts both, every way of composition keeps the balance, and
`Sql.compile_placeholders` says what that means for a statement: the placeholders are numbered by
their position in the text, one for each parameter, and the style changes nothing else.
-/

namespace QueryForms

/-! ## Numbering -/

/-- The placeholder with a number. -/
def PlaceholderStyle.mark (style : PlaceholderStyle) (n : Nat) : String :=
  match style with
  | .dollar => "$" ++ toString n
  | .question => "?"

/-- The text before the first placeholder, and the text after each of them. -/
def Piece.gaps : List Piece → String × List String
  | [] => ("", [])
  | .text s :: rest => (s ++ (gaps rest).1, (gaps rest).2)
  | .placeholder :: rest => ("", (gaps rest).1 :: (gaps rest).2)

/-- The text with the placeholders numbered from a number on. -/
def PlaceholderStyle.fill (style : PlaceholderStyle) (n : Nat) (gaps : String × List String) :
    String :=
  gaps.1 ++ String.join (gaps.2.mapIdx fun i gap => style.mark (n + i) ++ gap)

/-- After each placeholder there is one text. -/
theorem Piece.length_gaps (pieces : List Piece) :
    (gaps pieces).2.length = pieces.count .placeholder := by
  induction pieces with
  | nil => rfl
  | cons piece rest ih => cases piece <;> simp [gaps, ih]

/-- Rendering numbers the placeholders by their position in the text. -/
theorem Piece.render_eq_fill (style : PlaceholderStyle) (n : Nat) (pieces : List Piece) :
    render style n pieces = style.fill n (gaps pieces) := by
  -- the number of the first placeholder is general, as it grows along the pieces
  induction pieces generalizing n with
  | nil => rfl
  | cons piece rest ih =>
    cases piece with
    | text s =>
      rw [render, ih, gaps, PlaceholderStyle.fill, PlaceholderStyle.fill, String.append_assoc]
    | placeholder =>
      have shift : ∀ i, n + 1 + i = n + (i + 1) := fun i => by omega
      have marked : render style n (.placeholder :: rest)
          = style.mark n ++ render style (n + 1) rest := by cases style <;> rfl
      rw [marked, ih, gaps, PlaceholderStyle.fill, PlaceholderStyle.fill]
      simp [List.mapIdx_cons, shift, String.append_assoc]

/-! ## Balance -/

namespace Fragment

/-- A fragment has a placeholder for each of its parameters. -/
def Balanced (f : Fragment) : Prop :=
  f.pieces.count .placeholder = f.params.length

theorem count_pushText (pieces : List Piece) (s : String) :
    (Piece.pushText pieces s).count .placeholder = pieces.count .placeholder := by
  induction pieces with
  | nil => by_cases h : s = "" <;> simp [Piece.pushText, h]
  | cons piece rest ih =>
    by_cases last : rest = []
    · subst last
      cases piece with
      | text t => simp [Piece.pushText]
      | placeholder =>
        simp only [Piece.pushText]
        split <;> simp
    · rw [Piece.pushText_cons last, List.count_cons, List.count_cons, ih]

theorem count_append (pieces added : List Piece) :
    (Piece.append pieces added).count .placeholder
      = pieces.count .placeholder + added.count .placeholder := by
  induction added generalizing pieces with
  | nil => rfl
  | cons piece rest ih =>
    rw [Piece.append, List.foldl_cons]
    refine (ih _).trans ?_
    cases piece with
    | text s => simp [Piece.push, count_pushText]
    | placeholder => simp [Piece.push]; omega

@[simp] theorem balanced_ofText (s : String) : (ofText s).Balanced :=
  count_pushText [] s

@[simp] theorem balanced_ofParam (v : Value) : (ofParam v).Balanced :=
  rfl

theorem Balanced.pushText {f : Fragment} (h : f.Balanced) (s : String) : (f.pushText s).Balanced :=
  (count_pushText f.pieces s).trans h

theorem Balanced.append {f g : Fragment} (hf : f.Balanced) (hg : g.Balanced) :
    (f.append g).Balanced := by
  rw [Balanced, Fragment.append, count_append, hf, hg, List.length_append]

theorem Balanced.wrapped {f : Fragment} (h : f.Balanced) (opening closing : String) :
    (f.wrapped opening closing).Balanced :=
  ((balanced_ofText opening).append h).pushText closing

end Fragment

/-- Every way of composition keeps placeholders and parameters in step. -/
theorem Fragment.composes_balanced (param : Value → Prop) : Composes Balanced param where
  columnText _ := balanced_ofText _
  timestamp _ := balanced_ofText _
  asterisk := balanced_ofText _
  frame _ _ := balanced_ofText _
  empty := rfl
  param _ _ _ := rfl
  asQuery _ hf := hf
  leading s _ _ hf := (balanced_ofText s).append hf
  trailing s _ _ hf := hf.pushText s
  middle s _ _ _ hf hg := (hf.pushText s).append hg
  wrapped s _ _ hf := hf.wrapped s ")"
  attached s _ _ _ hf hg := ((hf.pushText s).append hg).pushText ")"
  aliased _ name hf := (hf.pushText " AS ").pushText (quoteIdent name)

namespace Sql

/-- Every fragment that an expression compiles to is balanced, if those that it says and those that
are bound are. -/
theorem balanced_of_holds {e : Expr} {scope : Environment} {f : Fragment}
    (he : e.Holds (Invariant.OnFragments Fragment.Balanced))
    (hc : scope.bindings.Holds (Invariant.OnFragments Fragment.Balanced))
    (hf : evaluateIn scope e = .ok (.fragment f)) : f.Balanced := by
  refine Invariant.compiled .free (Fragment.composes_balanced _)
    (fun _ _ s _ _ => Fragment.balanced_ofText s) ?_ ?_ hf
  · exact Expr.Everywhere.mono he fun part h => ⟨h, trivial⟩
  · exact ⟨hc, trivial⟩

/-- No fragment is bound where all that is bound is plain. -/
theorem balanced_of_evaluateIn {e : Expr} {scope : Environment} {f : Fragment}
    (he : e.Holds (Invariant.OnFragments Fragment.Balanced)) (hc : scope.bindings.Plain)
    (hf : evaluateIn scope e = .ok (.fragment f)) : f.Balanced :=
  balanced_of_holds he (hc.mono Invariant.onFragments_of_isPlain) hf

/-- A statement comes from a fragment with one placeholder for each parameter, or from a column.
Either style numbers the placeholders from left to right and changes nothing else. -/
theorem compile_placeholders {style : PlaceholderStyle} {e : Expr} {context : Context}
    {statement : String} {params : List Value}
    (he : e.Holds (Invariant.OnFragments Fragment.Balanced)) (hc : context.Plain)
    (h : compile style e context = .ok (.query statement params)) :
    ∃ pieces : List Piece,
      ((∃ isQuery, evaluateIn ((Environment.ofContext context).declareTables e) e
          = .ok (.fragment ⟨pieces, params, isQuery⟩)) ∨
        ∃ c, evaluateIn ((Environment.ofContext context).declareTables e) e = .ok (.column c) ∧
          pieces = [.text c.text] ∧ params = []) ∧
      pieces.count .placeholder = params.length ∧
      (Piece.gaps pieces).2.length = params.length ∧
      ∀ any : PlaceholderStyle,
        compile any e context = .ok (.query (any.fill 1 (Piece.gaps pieces)) params) := by
  rw [compile] at h
  cases found : evaluateIn ((Environment.ofContext context).declareTables e) e with
  | error failure => rw [found] at h; cases h
  | ok v =>
    rw [found] at h
    cases v with
    | fragment f =>
      -- the gaps of the pieces do not depend on the style, and filling them gives the text
      have balanced : f.Balanced := balanced_of_evaluateIn he hc found
      obtain ⟨pieces, params, isQuery⟩ := f
      cases h
      refine ⟨pieces, .inl ⟨isQuery, rfl⟩, balanced, ?_, fun any => ?_⟩
      · rw [Piece.length_gaps, balanced]
      · rw [compile, found, ← Piece.render_eq_fill]
        rfl
    | column c =>
      cases h
      refine ⟨[.text c.text], .inr ⟨c, rfl, rfl, rfl⟩, rfl, rfl, fun any => ?_⟩
      rw [compile, found, ← Piece.render_eq_fill]
      simp [Except.map, Compiled.ofValue, Piece.render]
    | _ => cases h

/-- Two bounds on one column have the placeholders one and two. -/
theorem placeholders_of_bounds :
    ∃ pieces : List Piece, pieces.count .placeholder = 2 ∧
      ∀ any : PlaceholderStyle,
        compile any (.list [.symbol "$and",
          .list [.symbol ">", .symbol ":age", .literal (.integer 18)],
          .list [.symbol "<", .symbol ":age", .literal (.integer 65)]]) []
          = .ok (.query (any.fill 1 (Piece.gaps pieces)) [.integer 18, .integer 65]) := by
  have number : ∀ n, (Value.integer n).Everywhere (Invariant.OnFragments Fragment.Balanced) :=
    fun n => .of_parts_nil (fun f eq => nomatch eq) rfl
  have dollars : compile .dollar (.list [.symbol "$and",
      .list [.symbol ">", .symbol ":age", .literal (.integer 18)],
      .list [.symbol "<", .symbol ":age", .literal (.integer 65)]]) []
      = .ok (.query "(\"age\" > $1) AND (\"age\" < $2)" [.integer 18, .integer 65]) := rfl
  obtain ⟨pieces, -, count, -, filled⟩ := compile_placeholders
    (by simp [Expr.Holds, Expr.data, number]) (fun _ h => absurd h List.not_mem_nil) dollars
  exact ⟨pieces, count, filled⟩

end Sql

end QueryForms
