import QueryForms.Text.Unseen

/-!
# Quoted text

A text inside a message stands in double quotes. Quotes, backslashes, tabs, line ends and the zero
character have an escape of their own; a character that cannot be seen by itself is shown by its
number.
-/

namespace QueryForms.Text

/-- One character of a quoted text. -/
def quotedChar (c : Char) : List Char :=
  if c = '"' then ['\\', '"']
  else if c = '\\' then ['\\', '\\']
  else if c = '\t' then ['\\', 't']
  else if c = '\n' then ['\\', 'n']
  else if c = '\r' then ['\\', 'r']
  else if c = '\x00' then ['\\', '0']
  else if isUnseen c then '\\' :: 'u' :: '\x7b' :: Nat.toDigits 16 c.toNat ++ ['\x7d']
  else [c]

/-- A text in quotes. -/
def quoted (s : String) : String :=
  String.ofList ('"' :: s.toList.flatMap quotedChar ++ ['"'])

end QueryForms.Text
