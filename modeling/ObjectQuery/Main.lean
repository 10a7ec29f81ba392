import ObjectQuery.CommandLine.Run

/-!
The program: it reads the files that the command line names, prints the result and the notes, and ends
with 0 for success, 1 for work that failed and 2 for a command line that makes no sense.
-/

open ObjectQuery CommandLine

namespace ObjectQuery.Program

def usage : String :=
  "Usage: object-query [--config FILE] COMMAND\n\n"
    ++ "compile --mapping FILE [--dialect NAME] [--format sql|json|tree] [--trace] QUERY\n"
    ++ "run --mapping FILE --data FILE [--dialect NAME] QUERY\n"

def versionText : String := "object-query 0.3.0\n"

def fileText? (path : String) : IO (Option String) := do
  try return some (← IO.FS.readFile path)
  catch _ => return none

def surroundings (i : Invocation) : IO Surroundings := do
  let files ← i.paths.mapM fun path => return (path, ← fileText? path)
  let names := [Settings.dialectVariable, Settings.affinityVariable, Settings.deferredVariable]
  let values ← names.mapM fun name => return (name, ← IO.getEnv name)
  return ⟨fun path => (files.lookup path).join, fun name => (values.lookup name).join⟩

end ObjectQuery.Program

def main (args : List String) : IO UInt32 := do
  match CommandLine.parse args with
  | .error .help =>
    IO.print Program.usage
    return 0
  | .error .version =>
    IO.print Program.versionText
    return 0
  | .error .misuse =>
    IO.eprint Program.usage
    return 2
  | .ok invocation =>
    match invocation.run (← Program.surroundings invocation) with
    | .ok output =>
      IO.print output.result
      output.notes.forM fun note => IO.eprintln note
      return 0
    | .error failure =>
      IO.eprintln ("Error: " ++ failure.message)
      return 1
