import QueryForms.CommandLine

/-!
# The program

Reads standard input where the invocation needs it, prints the report and exits with its code.
-/

namespace QueryForms

/-- Everything on standard input, if it is a text; a terminal is not read. -/
def standardInput : IO (Option String) := do
  let stdin ← IO.getStdin
  if ← stdin.isTty then return some ""
  else
    let mut bytes := ByteArray.empty
    repeat
      let chunk ← stdin.read 65536
      if chunk.isEmpty then break
      bytes := bytes ++ chunk
    return String.fromUTF8? bytes

/-- Print a report and give its exit code. -/
def Report.print (report : Report) : IO UInt32 := do
  IO.print report.out
  IO.eprint report.err
  return report.code.toUInt32

end QueryForms

/-- The command line program. -/
def main (args : List String) : IO UInt32 := do
  let invocation := QueryForms.Invocation.ofArgs args
  match ← if invocation.readsInput then QueryForms.standardInput else pure (some "") with
  | some input => (invocation.withInput input).report.print
  | none =>
    IO.eprintln "IO error: stream did not contain valid UTF-8"
    return 1
