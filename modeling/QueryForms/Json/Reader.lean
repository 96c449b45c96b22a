import QueryForms.Json.Token

/-!
# Reading JSON

The reader walks over the tokens of a text with the open containers on a stack. `Awaited` says what
may come next. A field that occurs again keeps its first place and takes its last value. Containers
may be open 127 deep.
-/

namespace QueryForms.Json

/-- An open container that awaits an item. -/
inductive Frame where
  /-- An array with the items before. -/
  | array (items : List Json)
  /-- An object with the fields before and the name of the field whose value comes. -/
  | object (fields : Entries Json) (name : String)

/-- What may come next, with the open containers, the innermost first. -/
inductive Awaited where
  /-- A value. -/
  | value (stack : List Frame)
  /-- The first item of a new array, or its end. -/
  | itemOrEnd (stack : List Frame)
  /-- The first field of a new object, or its end. -/
  | nameOrEnd (stack : List Frame)
  /-- A field of an object. -/
  | name (stack : List Frame) (fields : Entries Json)
  /-- The colon after a name. -/
  | colon (stack : List Frame) (fields : Entries Json) (name : String)
  /-- What follows a complete value. -/
  | after (stack : List Frame) (value : Json)

/-- The most containers that may be open. -/
def maxDepth : Nat := 127

/-- A token where a value must begin. -/
def beginValue? (stack : List Frame) : Token → Option Awaited
  | .scalar j => some (.after stack j)
  | .openArray => if stack.length < maxDepth then some (.itemOrEnd stack) else none
  | .openObject => if stack.length < maxDepth then some (.nameOrEnd stack) else none
  | _ => none

/-- One token. -/
def readToken? (state : Awaited) (token : Token) : Option Awaited :=
  match state, token with
  | .value stack, token => beginValue? stack token
  | .itemOrEnd stack, .closeArray => some (.after stack (.array []))
  | .itemOrEnd stack, token => beginValue? (.array [] :: stack) token
  | .nameOrEnd stack, .closeObject => some (.after stack (.object []))
  | .nameOrEnd stack, .scalar (.string name) => some (.colon stack [] name)
  | .name stack fields, .scalar (.string name) => some (.colon stack fields name)
  | .colon stack fields name, .colon => some (.value (.object fields name :: stack))
  | .after (.array items :: stack) j, .comma => some (.value (.array (items ++ [j]) :: stack))
  | .after (.array items :: stack) j, .closeArray => some (.after stack (.array (items ++ [j])))
  | .after (.object fields name :: stack) j, .comma =>
    some (.name stack (Entries.set fields name j))
  | .after (.object fields name :: stack) j, .closeObject =>
    some (.after stack (.object (Entries.set fields name j)))
  | _, _ => none

/-- The document that tokens spell. -/
def ofTokens? (tokens : List Token) : Option Json :=
  match tokens.foldlM readToken? (.value []) with
  | some (.after [] j) => some j
  | _ => none

/-- The document that a text is. -/
def parse? (text : String) : Option Json :=
  (Token.scan? text.toList).bind ofTokens?

end QueryForms.Json
