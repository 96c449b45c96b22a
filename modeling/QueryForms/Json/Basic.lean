import QueryForms.Entries
import QueryForms.Number.Checked
import QueryForms.Number.Layout

/-!
# JSON documents and their text

A document is a `Json`. Two texts show it: `compact` has no blanks, `pretty` indents by two spaces
and puts every item on a line of its own. Both keep the order of fields, write numbers by
`FloatLayout.json`, and escape in strings what must be escaped and nothing else.
-/

namespace QueryForms

/-- A JSON document; numbers are integers of 64 bits or finite floats. -/
inductive Json where
  | null
  | boolean (b : Bool)
  | integer (n : Int64)
  | float (x : Float)
  | string (s : String)
  | array (items : List Json)
  | object (fields : List (String × Json))

instance : Inhabited Json := ⟨.null⟩

namespace Json

/-! ## Scalars -/

/-- A hexadecimal digit in lower case. -/
def hexDigit (n : Nat) : Char :=
  Nat.digitChar n

/-- The text of one character inside a string. -/
def escapeChar (c : Char) : List Char :=
  if c = '"' then ['\\', '"']
  else if c = '\\' then ['\\', '\\']
  else if c = '\n' then ['\\', 'n']
  else if c = '\r' then ['\\', 'r']
  else if c = '\t' then ['\\', 't']
  else if c = '\x08' then ['\\', 'b']
  else if c = '\x0c' then ['\\', 'f']
  else if c.toNat < 0x20 then
    ['\\', 'u', '0', '0', hexDigit (c.toNat / 16), hexDigit (c.toNat % 16)]
  else [c]

/-- The text of a string. -/
def quote (s : String) : List Char :=
  '"' :: s.toList.flatMap escapeChar ++ ['"']

/-- The text of an integer. -/
def integerText (n : Int) : List Char :=
  if n < 0 then '-' :: Nat.toDigits 10 n.natAbs else Nat.toDigits 10 n.natAbs

/-- The text of a truth value. -/
def booleanText (b : Bool) : List Char :=
  if b then ['t', 'r', 'u', 'e'] else ['f', 'a', 'l', 's', 'e']

/-- The text of the absent value. -/
def nullText : List Char := ['n', 'u', 'l', 'l']

/-! ## Compact text -/

mutual

/-- The characters of the compact text. -/
def compactChars : Json → List Char
  | .null => nullText
  | .boolean b => booleanText b
  | .integer n => integerText n.toInt
  | .float x => (FloatLayout.json.render x).toList
  | .string s => quote s
  | .array [] => ['[', ']']
  | .array (item :: rest) => '[' :: compactChars item ++ compactItems rest ++ [']']
  | .object [] => ['\x7b', '\x7d']
  | .object ((name, value) :: rest) =>
    '\x7b' :: quote name ++ ':' :: compactChars value ++ compactFields rest ++ ['\x7d']

/-- The further items of an array, a comma before each. -/
def compactItems : List Json → List Char
  | [] => []
  | item :: rest => ',' :: compactChars item ++ compactItems rest

/-- The further fields of an object, a comma before each. -/
def compactFields : List (String × Json) → List Char
  | [] => []
  | (name, value) :: rest =>
    ',' :: quote name ++ ':' :: compactChars value ++ compactFields rest

end

/-- The text without blanks. -/
def compact (j : Json) : String :=
  String.ofList j.compactChars

/-! ## Indented text -/

/-- A line break and the indentation of a depth. -/
def lineBreak (depth : Nat) : List Char :=
  '\n' :: List.replicate (2 * depth) ' '

mutual

/-- The characters of the indented text of a document at a depth. -/
def prettyChars (depth : Nat) : Json → List Char
  | .null => nullText
  | .boolean b => booleanText b
  | .integer n => integerText n.toInt
  | .float x => (FloatLayout.json.render x).toList
  | .string s => quote s
  | .array [] => ['[', ']']
  | .array (item :: rest) =>
    '[' :: lineBreak (depth + 1) ++ prettyChars (depth + 1) item ++ prettyItems (depth + 1) rest
      ++ lineBreak depth ++ [']']
  | .object [] => ['\x7b', '\x7d']
  | .object ((name, value) :: rest) =>
    '\x7b' :: lineBreak (depth + 1) ++ quote name ++ ':' :: ' ' :: prettyChars (depth + 1) value
      ++ prettyFields (depth + 1) rest ++ lineBreak depth ++ ['\x7d']

/-- The further items of an array, a comma and a line break before each. -/
def prettyItems (depth : Nat) : List Json → List Char
  | [] => []
  | item :: rest =>
    ',' :: lineBreak depth ++ prettyChars depth item ++ prettyItems depth rest

/-- The further fields of an object, a comma and a line break before each. -/
def prettyFields (depth : Nat) : List (String × Json) → List Char
  | [] => []
  | (name, value) :: rest =>
    ',' :: lineBreak depth ++ quote name ++ ':' :: ' ' :: prettyChars depth value
      ++ prettyFields depth rest

end

/-- The text with two spaces of indentation for each level. -/
def pretty (j : Json) : String :=
  String.ofList (prettyChars 0 j)

end Json

end QueryForms
