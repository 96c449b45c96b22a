import QueryForms.Text.CaseFold

/-!
# Patterns

In a pattern `%` stands for any characters, none included, `_` for exactly one, and a backslash
makes the next character stand for itself; at the end of the pattern it stands for nothing.
`Pattern.parse` reads the items of a pattern, `Pattern.accepts` matches them against a whole text in
time proportional to both lengths.

`Pattern.regex` is the regular expression with the same meaning: it spans the whole text, its point
stands for line ends too, and every character that means something in regular expressions is
escaped.
-/

namespace QueryForms.Text

/-- An item of a pattern. -/
inductive PatternItem where
  /-- Any characters. -/
  | any
  /-- One character. -/
  | one
  /-- A given character. -/
  | exactly (c : Char)
deriving DecidableEq

namespace Pattern

/-- The items of a pattern. -/
def parse : List Char → List PatternItem
  | [] => []
  | '%' :: cs => .any :: parse cs
  | '_' :: cs => .one :: parse cs
  | '\\' :: c :: cs => .exactly c :: parse cs
  | ['\\'] => []
  | c :: cs => .exactly c :: parse cs

/-- For every end of the items, the longest first, whether it matches the empty text. -/
def endRow : List PatternItem → List Bool
  | [] => [true]
  | item :: items =>
    let rest := endRow items
    (item == .any && rest.headD false) :: rest

/-- For every end of the items whether it matches a character and a text after it, given the same
for the text alone; characters are compared by `same`. -/
def charRow (same : Char → Char → Bool) (c : Char) : List PatternItem → List Bool → List Bool
  | item :: items, here :: next =>
    let rest := charRow same c items next
    (match item with
      | .any => rest.headD false || here
      | .one => next.headD false
      | .exactly d => same d c && next.headD false) :: rest
  | _, _ => [false]

/-- Whether the items match a whole text, found from the end of the text to its start. -/
def accepts (same : Char → Char → Bool) (items : List PatternItem) (cs : List Char) : Bool :=
  (cs.foldr (fun c row => charRow same c items row) (endRow items)).headD false

/-- The characters that mean something in regular expressions. -/
def isMeta (c : Char) : Bool :=
  ['\\', '.', '+', '*', '?', '(', ')', '|', '[', ']', '\x7b', '\x7d', '^', '$', '#', '&', '-',
    '~'].contains c

/-- A character that stands for itself in a regular expression. -/
def escape (c : Char) : List Char :=
  if isMeta c then ['\\', c] else [c]

/-- The regular expression of an item. -/
def itemRegex : PatternItem → List Char
  | .any => ['.', '*']
  | .one => ['.']
  | .exactly c => escape c

/-- The regular expression of a pattern. -/
def regex (pattern : String) (ignoreCase : Bool) : String :=
  (if ignoreCase then "(?i)" else "") ++ "(?s)^"
    ++ String.ofList ((parse pattern.toList).flatMap itemRegex) ++ "$"

end Pattern

/-- Whether a text matches a pattern, letters of either case being the same or not. -/
def like (text pattern : String) (ignoreCase : Bool) : Bool :=
  Pattern.accepts (if ignoreCase then sameLetter else (· == ·)) (Pattern.parse pattern.toList)
    text.toList

end QueryForms.Text
