import FlowGate.Command.Output

/-!
# The program

Reads the files that the command line names, prints what the command prints and ends with its code.
-/

set_option autoImplicit false

open FlowGate

/-- The text of a file, if there is one that can be read. -/
def contentsOf? (path : String) : IO (Option String) :=
  try
    return some (← IO.FS.readFile path)
  catch _ =>
    return none

def main (words : List String) : IO UInt32 := do
  let paths := ((Command.read? words).map Command.paths).getD []
  let files ← paths.mapM fun path ↦ do return (path, ← contentsOf? path)
  let outcome := Command.run (fun path ↦ (files.lookup path).join) words
  IO.print outcome.output
  return outcome.code
