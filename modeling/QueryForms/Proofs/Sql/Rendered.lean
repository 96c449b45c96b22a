import QueryForms.Proofs.Sql.Placeholder

/-!
# The text of a fragment

The text of a fragment depends on the style of its placeholders and on the number of the first, and
otherwise it is put together as the fragment is. `TextComposes` lists the ways of composition once
more, as ways to put texts together; what it allows holds of the text of every fragment.
-/

namespace QueryForms

variable (style : PlaceholderStyle)

/-! ## Rendering piece by piece -/

namespace Piece

theorem render_placeholder (n : Nat) (rest : List Piece) :
    render style n (.placeholder :: rest) = style.mark n ++ render style (n + 1) rest := by
  cases style <;> rfl

theorem render_pushText (n : Nat) (pieces : List Piece) (s : String) :
    render style n (pushText pieces s) = render style n pieces ++ s := by
  induction pieces generalizing n with
  | nil => by_cases h : s = "" <;> simp [pushText, render, h]
  | cons piece rest ih =>
    cases piece with
    | text t =>
      by_cases last : rest = []
      · simp [last, pushText, render]
      · rw [pushText_cons last, render, render, ih, String.append_assoc]
    | placeholder =>
      have step : pushText (.placeholder :: rest) s = .placeholder :: pushText rest s := rfl
      rw [step, render_placeholder, render_placeholder, ih, String.append_assoc]

theorem render_push_placeholder (n : Nat) (pieces : List Piece) :
    render style n (push pieces .placeholder)
      = render style n pieces ++ style.mark (n + pieces.count .placeholder) := by
  induction pieces generalizing n with
  | nil => simp [push, render_placeholder, render]
  | cons piece rest ih =>
    have step : push (piece :: rest) .placeholder = piece :: push rest .placeholder := rfl
    rw [step]
    cases piece with
    | text t => rw [render, render, ih, String.append_assoc]; simp
    | placeholder =>
      have shift : n + 1 + rest.count .placeholder = n + (rest.count .placeholder + 1) := by omega
      rw [render_placeholder, render_placeholder, ih, String.append_assoc, List.count_cons_self,
        shift]

/-- The numbers of added pieces go on after those that are there. -/
theorem render_append (n : Nat) (pieces added : List Piece) :
    render style n (append pieces added)
      = render style n pieces ++ render style (n + pieces.count .placeholder) added := by
  induction added generalizing pieces with
  | nil => simp [append, render]
  | cons piece rest ih =>
    have step : append pieces (piece :: rest) = append (push pieces piece) rest := rfl
    rw [step, ih]
    cases piece with
    | text t =>
      rw [push, render_pushText, Fragment.count_pushText, render, String.append_assoc]
    | placeholder =>
      rw [render_push_placeholder, render_placeholder, String.append_assoc]
      simp [push, Nat.add_assoc]

end Piece

namespace Fragment

/-- The text of a fragment whose first placeholder has a given number, as characters. -/
def chars (n : Nat) (f : Fragment) : List Char :=
  (Piece.render style n f.pieces).toList

variable {style}

@[simp] theorem chars_ofText (n : Nat) (s : String) : (ofText s).chars style n = s.toList := by
  rw [chars, ofText, Piece.render_pushText]
  simp [Piece.render]

@[simp] theorem chars_ofParam (n : Nat) (v : Value) :
    (ofParam v).chars style n = (style.mark n).toList := by
  rw [chars, ofParam, Piece.render_placeholder]
  simp [Piece.render]

@[simp] theorem chars_pushText (n : Nat) (f : Fragment) (s : String) :
    (f.pushText s).chars style n = f.chars style n ++ s.toList := by
  rw [chars, pushText, Piece.render_pushText, String.toList_append, chars]

@[simp] theorem chars_append (n : Nat) (f g : Fragment) :
    (f.append g).chars style n
      = f.chars style n ++ g.chars style (n + f.pieces.count .placeholder) := by
  rw [chars, append, Piece.render_append, String.toList_append, chars, chars]

theorem chars_ofText_append (n : Nat) (s : String) (f : Fragment) :
    ((ofText s).append f).chars style n = s.toList ++ f.chars style n := by
  rw [chars_append, chars_ofText]
  simp [ofText, count_pushText]

theorem chars_wrapped (n : Nat) (s closing : String) (f : Fragment) :
    (f.wrapped s closing).chars style n = s.toList ++ f.chars style n ++ closing.toList := by
  rw [wrapped, chars_pushText, chars_ofText_append]

end Fragment

/-! ## Composition of texts -/

/-- A property of texts allows every way in which the compiler puts texts together. -/
structure TextComposes (Q : List Char → Prop) : Prop where
  columnText : ∀ c : ColumnRef, Q c.text.toList
  timestamp : ∀ t : Instant, Q (timestampText t).toList
  asterisk : Q ['*']
  frame : ∀ start stop : Bound, Q (frameText start stop).toList
  empty : Q []
  mark : ∀ (style : PlaceholderStyle) (n : Nat), Q (style.mark n).toList
  leading : ∀ s ∈ leadingTexts, ∀ a, Q a → Q (s.toList ++ a)
  trailing : ∀ s ∈ trailingTexts, ∀ a, Q a → Q (a ++ s.toList)
  middle : ∀ s ∈ middleTexts, ∀ a b, Q a → Q b → Q (a ++ s.toList ++ b)
  wrapped : ∀ s ∈ openingTexts, ∀ a, Q a → Q (s.toList ++ a ++ [')'])
  attached : ∀ s ∈ attachingTexts, ∀ a b, Q a → Q b → Q (a ++ s.toList ++ b ++ [')'])
  aliased : ∀ (a : List Char) (name : String), Q a →
    Q (a ++ " AS ".toList ++ (quoteIdent name).toList)

/-- Fragments of which every text has a property compose as the texts do. -/
theorem TextComposes.composes {Q : List Char → Prop} (h : TextComposes Q) (param : Value → Prop) :
    Fragment.Composes (fun f => ∀ style n, Q (f.chars style n)) param where
  columnText c style n := by rw [Fragment.chars_ofText]; exact h.columnText c
  timestamp t style n := by rw [Fragment.chars_ofText]; exact h.timestamp t
  asterisk style n := by rw [Fragment.chars_ofText]; exact h.asterisk
  frame start stop style n := by rw [Fragment.chars_ofText]; exact h.frame start stop
  empty _ _ := h.empty
  param v _ _ style n := by rw [Fragment.chars_ofParam]; exact h.mark style n
  asQuery f hf := hf
  leading s hs f hf style n := by
    rw [Fragment.chars_append, Fragment.chars_ofText]
    exact h.leading s hs _ (hf style _)
  trailing s hs f hf style n := by
    rw [Fragment.chars_pushText]
    exact h.trailing s hs _ (hf style n)
  middle s hs f g hf hg style n := by
    rw [Fragment.chars_append, Fragment.chars_pushText]
    exact h.middle s hs _ _ (hf style n) (hg style _)
  wrapped s hs f hf style n := by
    rw [Fragment.wrapped, Fragment.chars_pushText, Fragment.chars_append, Fragment.chars_ofText]
    exact h.wrapped s hs _ (hf style _)
  attached s hs f g hf hg style n := by
    rw [Fragment.chars_pushText, Fragment.chars_append, Fragment.chars_pushText]
    exact h.attached s hs _ _ (hf style n) (hg style _)
  aliased f name hf style n := by
    rw [Fragment.chars_pushText, Fragment.chars_pushText]
    exact h.aliased _ name (hf style n)

end QueryForms
