import QueryForms.Json.Number

/-!
# JSON tokens

A JSON text is a sequence of brackets, commas, colons and scalars with blanks between them.
`Token.scan` cuts it up one character at a time: a `Mode` says what the last characters began, and
the tokens finished so far are kept. Strings are read with their escapes, numbers and words when
they end.
-/

namespace QueryForms.Json

/-- A token of JSON text. -/
inductive Token where
  | openArray
  | closeArray
  | openObject
  | closeObject
  | comma
  | colon
  /-- A number, a string, `true`, `false` or `null`. -/
  | scalar (j : Json)

/-! ## Words -/

/-- The scalar that a word spells. -/
def readWord? (word : List Char) : Option Json :=
  if word = nullText then some .null
  else if word = booleanText true then some (.boolean true)
  else if word = booleanText false then some (.boolean false)
  else readNumber? word

/-! ## Scanning -/

/-- What the characters before a place began; texts are kept backwards. -/
inductive Mode where
  /-- Nothing: a token may begin. -/
  | between
  /-- A number or a word. -/
  | word (back : List Char)
  /-- A string. -/
  | text (back : List Char)
  /-- A string, just after a backslash. -/
  | escape (back : List Char)
  /-- A string, in a code of four hexadecimal digits; `high` is the first half of a pair. -/
  | code (back : List Char) (high : Option Nat) (left : Nat) (value : Nat)
  /-- A string, after the first half of a pair: a backslash must follow. -/
  | pairSlash (back : List Char) (high : Nat)
  /-- A string, after the first half of a pair and a backslash: the mark of a code must follow. -/
  | pairMark (back : List Char) (high : Nat)

/-- The state of a scan: what was begun, and the finished tokens, the last one first. -/
structure Scan where
  mode : Mode
  back : List Token

/-- The characters that numbers and words are made of. -/
def isWordChar (c : Char) : Bool :=
  c.isAlphanum || c == '-' || c == '+' || c == '.'

/-- The characters that may stand between tokens. -/
def isSpace (c : Char) : Bool :=
  c == ' ' || c == '\t' || c == '\n' || c == '\r'

/-- The token of a character that is one by itself. -/
def punctuation? (c : Char) : Option Token :=
  if c = '[' then some .openArray
  else if c = ']' then some .closeArray
  else if c = '\x7b' then some .openObject
  else if c = '\x7d' then some .closeObject
  else if c = ',' then some .comma
  else if c = ':' then some .colon
  else none

/-- The value of a hexadecimal digit. -/
def hexValue? (c : Char) : Option Nat :=
  if '0' ≤ c ∧ c ≤ '9' then some (c.toNat - '0'.toNat)
  else if 'a' ≤ c ∧ c ≤ 'f' then some (c.toNat - 'a'.toNat + 10)
  else if 'A' ≤ c ∧ c ≤ 'F' then some (c.toNat - 'A'.toNat + 10)
  else none

/-- The character that a letter after a backslash means. -/
def escaped? (c : Char) : Option Char :=
  if c = '"' then some '"'
  else if c = '\\' then some '\\'
  else if c = '/' then some '/'
  else if c = 'b' then some '\x08'
  else if c = 'f' then some '\x0c'
  else if c = 'n' then some '\n'
  else if c = 'r' then some '\r'
  else if c = 't' then some '\t'
  else none

/-- Go on after a complete code: halves of a pair must come together, the higher one first. -/
def endCode? (back : List Char) (high : Option Nat) (value : Nat) : Option Mode :=
  let isHigh := 0xd800 ≤ value ∧ value ≤ 0xdbff
  let isLow := 0xdc00 ≤ value ∧ value ≤ 0xdfff
  match high with
  | some h =>
    if isLow then
      some (.text (Char.ofNat (0x10000 + (h - 0xd800) * 0x400 + (value - 0xdc00)) :: back))
    else none
  | none =>
    if isHigh then some (.pairSlash back value)
    else if isLow then none
    else some (.text (Char.ofNat value :: back))

/-- One character where a token may begin. -/
def begin? (back : List Token) (c : Char) : Option Scan :=
  if isSpace c then some ⟨.between, back⟩
  else if c = '"' then some ⟨.text [], back⟩
  else if isWordChar c then some ⟨.word [c], back⟩
  else (punctuation? c).map fun token => ⟨.between, token :: back⟩

/-- One character of a scan. -/
def scanChar? (s : Scan) (c : Char) : Option Scan :=
  match s.mode with
  | .between => begin? s.back c
  | .word back =>
    if isWordChar c then some { s with mode := .word (c :: back) }
    else (readWord? back.reverse).bind fun j => begin? (.scalar j :: s.back) c
  | .text back =>
    if c = '"' then some ⟨.between, .scalar (.string (String.ofList back.reverse)) :: s.back⟩
    else if c = '\\' then some { s with mode := .escape back }
    else if c.toNat < 0x20 then none
    else some { s with mode := .text (c :: back) }
  | .escape back =>
    if c = 'u' then some { s with mode := .code back none 4 0 }
    else (escaped? c).map fun e => { s with mode := .text (e :: back) }
  | .code back high left value =>
    (hexValue? c).bind fun d =>
      let value := value * 16 + d
      if left = 1 then (endCode? back high value).map fun mode => { s with mode := mode }
      else some { s with mode := .code back high (left - 1) value }
  | .pairSlash back high =>
    if c = '\\' then some { s with mode := .pairMark back high } else none
  | .pairMark back high =>
    if c = 'u' then some { s with mode := .code back (some high) 4 0 } else none

/-- The tokens at the end of a scan: only a word may be unfinished. -/
def Scan.finish? (s : Scan) : Option (List Token) :=
  match s.mode with
  | .between => some s.back.reverse
  | .word back => (readWord? back.reverse).map fun j => (.scalar j :: s.back).reverse
  | _ => none

/-- The tokens of a text. -/
def Token.scan? (cs : List Char) : Option (List Token) :=
  (cs.foldlM scanChar? ⟨.between, []⟩).bind Scan.finish?

end QueryForms.Json
