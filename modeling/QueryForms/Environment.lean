import QueryForms.Error
import QueryForms.Row

/-!
# Names in scope

A symbol that begins with the token of a namespace names something in it: `:` is the current row,
`@` the tables, `#` what the caller binds; every table and alias has a token of its own, its name
with a colon. `Context` holds what the caller binds, `Environment` everything a symbol may mean at a
place of an expression. Of the tokens that a symbol begins with the longest counts
(`Environment.splitSymbol?`).
-/

namespace QueryForms

/-- The token of the current row. -/
def rowToken : String := ":"

/-- The token of the tables. -/
def tableToken : String := "@"

/-- The token of the caller's values. -/
def contextToken : String := "#"

/-- The token of a table or an alias. -/
def aliasToken (name : String) : String := name ++ ":"

/-- The alias whose token this is: what stands before a final colon. -/
def aliasOfToken? (token : String) : Option String :=
  match token.toList.reverse with
  | ':' :: rest => some (String.ofList rest.reverse)
  | _ => none

/-- What remains of a text after another at its start. -/
def stripStart? (start text : String) : Option String :=
  if start.toList.isPrefixOf text.toList then
    some (String.ofList (text.toList.drop start.toList.length))
  else none

/-! ## Contexts -/

/-- What a caller binds: names to values in namespaces. -/
abbrev Context := Entries Record

namespace Context

/-- Bind a name in a namespace. -/
def bind (context : Context) (token name : String) (v : Value) : Context :=
  Entries.set context token (Entries.set ((Entries.get? context token).getD []) name v)

/-- Bind every name of a namespace. -/
def bindAll (context : Context) (token : String) (names : Record) : Context :=
  names.foldl (fun bound entry => bind bound token entry.1 entry.2) context

/-- Read a context from a record of namespaces. A namespace without names is no namespace. -/
def ofValue (v : Value) : Result Context :=
  match v with
  | .object namespaces =>
    namespaces.foldlM (fun context (token, names) =>
      match names with
      | .object fields => .ok (bindAll context token fields)
      | other => fault (.namespaceShape token other.kind)) []
  | other => fault (.contextShape other.kind)

end Context

/-! ## Environments -/

/-- The window of one row: its partition in window order and the frame within. -/
structure Frame where
  /-- The rows of the partition with the values of their order keys. -/
  partition : List (List Value × Row)
  /-- Which order keys descend. -/
  descending : List Bool
  /-- The position of the current row. -/
  position : Nat
  /-- The first and the last position of the frame, unless it is empty. -/
  bounds : Option (Nat × Nat)

/-- What window calls can see. -/
inductive WindowState where
  /-- The rows of a projection and the index of the current one. -/
  | source (rows : List Row) (index : Nat)
  /-- The window of the current row. -/
  | frame (f : Frame)
  /-- The function of a window call in a statement. -/
  | compiling

/-- Everything a symbol may mean at a place of an expression. -/
structure Environment where
  /-- The declared tokens. -/
  tokens : List String
  /-- The bound names of each namespace. -/
  bindings : Context
  /-- The current row. -/
  row : Option Row
  /-- The window state. -/
  window : Option WindowState

namespace Environment

/-- Add a token unless it is there. -/
def addToken (tokens : List String) (token : String) : List String :=
  if tokens.contains token then tokens else tokens ++ [token]

/-- The environment of a context: the three standing tokens, those of its namespaces, and one for
each of its tables. -/
def ofContext (context : Context) : Environment :=
  let declare (tokens : List String) (entry : String × Record) : List String :=
    let tokens := addToken tokens entry.1
    if entry.1 = tableToken then
      (Entries.keys entry.2).foldl (fun tokens name => addToken tokens (aliasToken name)) tokens
    else tokens
  ⟨context.foldl declare [rowToken, tableToken, contextToken], context, none, none⟩

/-- Add the token of a table; the empty name has none. -/
def declareName (tokens : List String) (name : String) : List String :=
  if name = "" then tokens else addToken tokens (aliasToken name)

mutual

/-- Add the tokens of the tables that an expression names and of the aliases that it introduces. -/
def declareIn (tokens : List String) : Expr → List String
  | .symbol s =>
    match stripStart? tableToken s with
    | some name => declareName tokens name
    | none => tokens
  | .list items =>
    let tokens :=
      if (Expr.list items).isCall .aliased then
        match (items[1]?).bind Expr.asName? with
        | some table => declareName tokens table
        | none => tokens
      else tokens
    declareInList tokens items
  | .record fields => declareInFields tokens fields
  | _ => tokens

/-- Add the tokens of expressions, one after the other. -/
def declareInList (tokens : List String) : List Expr → List String
  | [] => tokens
  | e :: rest => declareInList (declareIn tokens e) rest

/-- Add the tokens of the fields of a record, one after the other. -/
def declareInFields (tokens : List String) : List (String × Expr) → List String
  | [] => tokens
  | (_, e) :: rest => declareInFields (declareIn tokens e) rest

end

/-- Declare the tables and aliases of an expression. -/
def declareTables (env : Environment) (e : Expr) : Environment :=
  { env with tokens := declareIn env.tokens e }

/-- Whether a token is declared. -/
def hasToken (env : Environment) (token : String) : Bool :=
  env.tokens.contains token

/-- The longer of the token found so far and one more that a symbol begins with. -/
def longerToken (symbol : String) (best : Option (String × String)) (token : String) :
    Option (String × String) :=
  match stripStart? token symbol with
  | none => best
  | some rest =>
    match best with
    | some (found, _) =>
      if found.toList.length ≤ token.toList.length then some (token, rest) else best
    | none => some (token, rest)

/-- A symbol as the longest token it begins with and the rest. -/
def splitSymbol? (env : Environment) (symbol : String) : Option (String × String) :=
  env.tokens.foldl (longerToken symbol) none

/-- A text cut at the first dot, if there is one. -/
def splitDot? (name : String) : Option (String × String) :=
  match name.toList.span (· != '.') with
  | (first, '.' :: rest) => some (String.ofList first, String.ofList rest)
  | _ => none

/-- The value bound to a name of a namespace; after a dot a name goes on as a path. -/
def binding? (env : Environment) (token name : String) : Option Value := do
  let names ← Entries.get? env.bindings token
  match Entries.get? names name with
  | some v => return v
  | none =>
    let (first, rest) ← splitDot? name
    (← Entries.get? names first).lookupPath? rest

/-- The environment with another current row. -/
def surround (env : Environment) (row : Row) : Environment :=
  { env with row := some row }

/-- The environment with another window state. -/
def withWindow (env : Environment) (window : WindowState) : Environment :=
  { env with window := some window }

/-- The environment with a name bound in a declared namespace. -/
def extend (env : Environment) (token name : String) (v : Value) : Result Environment :=
  if env.hasToken token then
    .ok { env with bindings := Context.bind env.bindings token name v }
  else .error (.unknownNamespace token)

end Environment

end QueryForms
