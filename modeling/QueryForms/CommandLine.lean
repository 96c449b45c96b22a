import QueryForms.Command

/-!
# The command line

`run EXPR` evaluates an expression in memory and `compile EXPR` compiles it; the context
comes with `--input` or on standard input. `Invocation.ofArgs` reads the arguments and `respond` gives
the exit code and the two outputs, so the program itself only has to pass them on.

Arguments are read from left to right, and the first that settles the invocation wins: a call for
help or a misuse. An option takes its value from the rest of its own argument or from the next
argument, which must not look like an option; after `--` everything is an operand.
-/

namespace QueryForms

/-- A part of the program that an invocation names first. -/
inductive Subcommand where
  | run
  | compile
deriving DecidableEq

/-- An option of a subcommand. -/
inductive CliOption where
  | input
  | pretty
  | placeholder
  | help
deriving DecidableEq

/-- What a command line asks for. -/
inductive Invocation where
  /-- Nothing that the program knows. -/
  | misuse
  /-- A text about the program. -/
  | display (text : String)
  /-- A command. -/
  | execute (command : Command)

/-! ## Texts about the program -/

/-- The name and the version of the program. -/
def versionText : String := "symql 0.3.0\n"

/-- How the program is called. -/
def usageText : String :=
  "Usage: symql <COMMAND>\n\nFor more information, try '--help'.\n"

/-- The help for the program. -/
def programHelp : String :=
  "symql - evaluate JSON query expressions in memory or compile them to SQL\n\n"
    ++ "Usage: symql <COMMAND>\n\n"
    ++ "Commands:\n"
    ++ "  run      Evaluate an expression against in-memory data\n"
    ++ "  compile  Compile an expression to a parameterized SQL statement\n"
    ++ "  help     Print this message or the help of the given subcommand(s)\n\n"
    ++ "Options:\n"
    ++ "  -h, --help     Print help\n"
    ++ "  -V, --version  Print version\n"

/-- The help for help. -/
def helpHelp : String :=
  "Print this message or the help of the given subcommand(s)\n\n"
    ++ "Usage: symql help [COMMAND]...\n\n"
    ++ "Arguments:\n"
    ++ "  [COMMAND]...  Print help for the subcommand(s)\n"

/-- The help for `run`. -/
def runHelp : String :=
  "Evaluate an expression against in-memory data\n\n"
    ++ "Usage: symql run [OPTIONS] <EXPR>\n\n"
    ++ "Arguments:\n"
    ++ "  <EXPR>  The expression, as JSON\n\n"
    ++ "Options:\n"
    ++ "  -i, --input <INPUT>  Context JSON (reads from stdin if not provided)\n"
    ++ "  -p, --pretty         Pretty-print the output\n"
    ++ "  -h, --help           Print help\n"

/-- The short help for `compile`. -/
def compileSummary : String :=
  "Compile an expression to a parameterized SQL statement\n\n"
    ++ "Usage: symql compile [OPTIONS] <EXPR>\n\n"
    ++ "Arguments:\n"
    ++ "  <EXPR>  The expression, as JSON\n\n"
    ++ "Options:\n"
    ++ "  -i, --input <INPUT>              Context JSON (reads from stdin if not provided)\n"
    ++ "  -p, --pretty                     Pretty-print the output\n"
    ++ "      --placeholder <PLACEHOLDER>  Placeholder syntax [default: dollar] "
    ++ "[possible values: dollar, question]\n"
    ++ "  -h, --help                       Print help (see more with '--help')\n"

/-- The long help for `compile`. -/
def compileHelp : String :=
  "Compile an expression to a parameterized SQL statement\n\n"
    ++ "Usage: symql compile [OPTIONS] <EXPR>\n\n"
    ++ "Arguments:\n"
    ++ "  <EXPR>\n          The expression, as JSON\n\n"
    ++ "Options:\n"
    ++ "  -i, --input <INPUT>\n          Context JSON (reads from stdin if not provided)\n\n"
    ++ "  -p, --pretty\n          Pretty-print the output\n\n"
    ++ "      --placeholder <PLACEHOLDER>\n          Placeholder syntax\n\n"
    ++ "          Possible values:\n"
    ++ "          - dollar:   $1, $2, ...\n"
    ++ "          - question: ?\n\n"
    ++ "          [default: dollar]\n\n"
    ++ "  -h, --help\n          Print help (see a summary with '-h')\n"

/-- The help for a subcommand, at length or in short. -/
def Subcommand.help (sub : Subcommand) (long : Bool) : String :=
  match sub with
  | run => runHelp
  | compile => if long then compileHelp else compileSummary

/-! ## Options -/

namespace CliOption

/-- The option of a word after two dashes. -/
def ofWord? (sub : Subcommand) (word : String) : Option CliOption :=
  if word = "input" then some input
  else if word = "pretty" then some pretty
  else if word = "help" then some help
  else if word = "placeholder" ∧ sub = .compile then some placeholder
  else none

/-- The option of a letter after one dash. -/
def ofLetter? (c : Char) : Option CliOption :=
  if c = 'i' then some input
  else if c = 'p' then some pretty
  else if c = 'h' then some help
  else none

/-- Whether the option has a value. -/
def takesValue : CliOption → Bool
  | input => true
  | placeholder => true
  | pretty => false
  | help => false

end CliOption

/-- The way of writing placeholders that a value names. -/
def PlaceholderStyle.ofName? (name : String) : Option PlaceholderStyle :=
  if name = "dollar" then some .dollar
  else if name = "question" then some .question
  else none

/-! ## Reading arguments -/

/-- What the arguments of a subcommand gave so far. -/
structure Arguments where
  /-- The expression. -/
  expr : Option String
  /-- The value of `--input`. -/
  input : Option String
  /-- Whether `--pretty` was there. -/
  pretty : Bool
  /-- The value of `--placeholder`. -/
  style : Option PlaceholderStyle
  /-- The option whose value comes next. -/
  awaiting : Option CliOption
  /-- Whether only operands can follow. -/
  operandsOnly : Bool

namespace Arguments

/-- No arguments. -/
def start : Arguments := ⟨none, none, false, none, none, false⟩

/-- One more operand: the expression, and nothing after it. -/
def operand (given : Arguments) (text : String) : Except Invocation Arguments :=
  if given.expr.isSome then .error .misuse else .ok { given with expr := some text }

/-- The value of an option, which can have only one. -/
def value (given : Arguments) (option : CliOption) (text : String) :
    Except Invocation Arguments :=
  match option with
  | .input =>
    if given.input.isSome then .error .misuse
    else .ok { given with input := some text, awaiting := none }
  | .placeholder =>
    match PlaceholderStyle.ofName? text with
    | some style =>
      if given.style.isSome then .error .misuse
      else .ok { given with style := some style, awaiting := none }
    | none => .error .misuse
  | _ => .error .misuse

/-- An option without a value. -/
def flag (sub : Subcommand) (given : Arguments) (option : CliOption) (long : Bool) :
    Except Invocation Arguments :=
  match option with
  | .help => .error (.display (sub.help long))
  | .pretty => if given.pretty then .error .misuse else .ok { given with pretty := true }
  | _ => .error .misuse

/-- A word after two dashes, perhaps with a value after `=`. -/
def word (sub : Subcommand) (given : Arguments) (cs : List Char) : Except Invocation Arguments :=
  let (name, rest) := cs.span (· != '=')
  match CliOption.ofWord? sub (String.ofList name) with
  | none => .error .misuse
  | some option =>
    match option.takesValue, rest with
    | true, _ :: text => given.value option (String.ofList text)
    | true, [] => .ok { given with awaiting := some option }
    | false, [] => flag sub given option true
    | false, _ :: _ => .error .misuse

/-- Letters after one dash; one with a value takes the rest for it, less a `=` in front. -/
def letters (sub : Subcommand) (given : Arguments) : List Char → Except Invocation Arguments
  | [] => .ok given
  | c :: rest =>
    match CliOption.ofLetter? c with
    | none => .error .misuse
    | some option =>
      if option.takesValue then
        match rest with
        | [] => .ok { given with awaiting := some option }
        | '=' :: text => given.value option (String.ofList text)
        | text => given.value option (String.ofList text)
      else do letters sub (← flag sub given option false) rest

/-- One more argument. -/
def read (sub : Subcommand) (given : Arguments) (arg : String) : Except Invocation Arguments :=
  if given.operandsOnly then given.operand arg
  else
    match given.awaiting, arg.toList with
    | some _, '-' :: _ :: _ => .error .misuse
    | some option, _ => given.value option arg
    | none, ['-', '-'] => .ok { given with operandsOnly := true }
    | none, '-' :: '-' :: cs => word sub given cs
    | none, '-' :: c :: cs => letters sub given (c :: cs)
    | none, _ => given.operand arg

/-- The invocation of a subcommand whose arguments are all read. -/
def finish (sub : Subcommand) (given : Arguments) : Invocation :=
  match given.expr, given.awaiting with
  | some expr, none =>
    let action := match sub with
      | .run => Action.run
      | .compile => Action.compile (given.style.getD .dollar)
    .execute ⟨action, expr, given.input, given.pretty⟩
  | _, _ => .misuse

end Arguments

namespace Invocation

/-- The invocation of a subcommand. -/
def ofSubcommand (sub : Subcommand) (args : List String) : Invocation :=
  match args.foldlM (Arguments.read sub) Arguments.start with
  | .ok given => given.finish sub
  | .error settled => settled

/-- The help that is asked for by the names after `help`. -/
def ofHelp : List String → Invocation
  | [] => .display programHelp
  | ["run"] => .display (Subcommand.run.help true)
  | ["compile"] => .display (Subcommand.compile.help true)
  | ["help"] => .display helpHelp
  | _ => .misuse

/-- The invocation of an option before any subcommand. -/
def ofOption (arg : String) : Invocation :=
  if arg = "--help" then .display programHelp
  else if arg = "--version" then .display versionText
  else match arg.toList with
    | '-' :: 'h' :: _ => .display programHelp
    | '-' :: 'V' :: _ => .display versionText
    | _ => .misuse

/-- What the arguments of the program ask for. -/
def ofArgs : List String → Invocation
  | [] => .misuse
  | first :: rest =>
    if first = "run" then ofSubcommand .run rest
    else if first = "compile" then ofSubcommand .compile rest
    else if first = "help" then ofHelp rest
    else ofOption first

/-- Whether the context comes on standard input. -/
def readsInput : Invocation → Bool
  | .execute c => c.input.isNone
  | _ => false

/-- The invocation with the text of standard input as its context, if it has no other. -/
def withInput (i : Invocation) (text : String) : Invocation :=
  match i with
  | .execute c => .execute { c with input := some (c.input.getD text) }
  | other => other

end Invocation

/-! ## Answers -/

/-- How the program ends. -/
structure Report where
  /-- The exit code. -/
  code : Nat
  /-- The text on standard output. -/
  out : String
  /-- The text on standard error. -/
  err : String
deriving DecidableEq

/-- The report of a command without an answer. The quotient out of range ends the program at once. -/
def CommandError.report : CommandError → Report
  | evaluation .quotientOverflow => ⟨134, "", ""⟩
  | error => ⟨1, "", error.message ++ "\n"⟩

/-- How the program answers an invocation. -/
def Invocation.report : Invocation → Report
  | misuse => ⟨2, "", usageText⟩
  | .display text => ⟨0, text, ""⟩
  | execute c =>
    match c.execute with
    | .ok answer => ⟨0, answer ++ "\n", ""⟩
    | .error error => error.report

/-- How the program answers its arguments and standard input. -/
def respond (args : List String) (input : String) : Report :=
  ((Invocation.ofArgs args).withInput input).report

end QueryForms
