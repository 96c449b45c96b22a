import QueryForms.Sql.Identifier

/-!
# Composing SQL

A fragment is built from texts and parameters and put together with others. A parameter leaves a
placeholder in the text and goes last in `Fragment.params`; appending a fragment appends both. Only
`Fragment.statement` numbers the placeholders, from left to right over the whole statement, so the
parameters are in the order of their placeholders however deeply a fragment was nested. Appending
keeps pieces canonical: no text is empty and no two texts are neighbours.
-/

namespace QueryForms

/-- How a placeholder is written. -/
inductive PlaceholderStyle where
  /-- `$1`, `$2` and so on. -/
  | dollar
  /-- `?` each time. -/
  | question
deriving DecidableEq

namespace Piece

/-- Append text to pieces; it joins a text at the end. -/
def pushText : List Piece → String → List Piece
  | [], s => if s = "" then [] else [.text s]
  | [.text last], s => [.text (last ++ s)]
  | piece :: rest, s => piece :: pushText rest s

/-- Append one piece. -/
def push (pieces : List Piece) : Piece → List Piece
  | .text s => pushText pieces s
  | .placeholder => pieces ++ [.placeholder]

/-- Append pieces one after the other. -/
def append (pieces added : List Piece) : List Piece :=
  added.foldl push pieces

/-- The text of pieces whose first placeholder has a given number. -/
def render (style : PlaceholderStyle) : Nat → List Piece → String
  | _, [] => ""
  | n, .text s :: rest => s ++ render style n rest
  | n, .placeholder :: rest =>
    (match style with
      | .dollar => "$" ++ toString n
      | .question => "?") ++ render style (n + 1) rest

end Piece

namespace Fragment

/-- The fragment without pieces. -/
def empty : Fragment := ⟨[], [], false⟩

/-- A fragment of text alone. -/
def ofText (s : String) : Fragment := ⟨Piece.pushText [] s, [], false⟩

/-- A fragment that is one parameter. -/
def ofParam (v : Value) : Fragment := ⟨[.placeholder], [v], false⟩

/-- Append text. -/
def pushText (f : Fragment) (s : String) : Fragment :=
  { f with pieces := Piece.pushText f.pieces s }

/-- Append a parameter. -/
def pushParam (f : Fragment) (v : Value) : Fragment :=
  { f with pieces := f.pieces ++ [.placeholder], params := f.params ++ [v] }

/-- Append a fragment; the result is a query if the first one is. -/
def append (f g : Fragment) : Fragment :=
  { f with pieces := Piece.append f.pieces g.pieces, params := f.params ++ g.params }

/-- Append each of the fragments with the separator before it. -/
def appendAll (separator : String) (f : Fragment) (parts : List Fragment) : Fragment :=
  parts.foldl (fun out part => (out.pushText separator).append part) f

/-- The fragments one after the other with a separator between them. -/
def join (separator : String) : List Fragment → Fragment
  | [] => empty
  | first :: rest => appendAll separator (empty.append first) rest

/-- The fragment between two texts; that is never a query. -/
def wrapped (f : Fragment) (opening closing : String) : Fragment :=
  ((ofText opening).append f).pushText closing

/-- The fragment as a complete query. -/
def asQuery (f : Fragment) : Fragment :=
  { f with isQuery := true }

/-- Whether there are no pieces. -/
def isEmpty (f : Fragment) : Bool :=
  f.pieces.isEmpty

/-- The text, with placeholders numbered from one. -/
def statement (f : Fragment) (style : PlaceholderStyle) : String :=
  Piece.render style 1 f.pieces

end Fragment

end QueryForms
