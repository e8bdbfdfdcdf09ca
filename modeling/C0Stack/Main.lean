import C0Stack.CommandLine

/-!
# The program

Reads the file that the arguments name, does what they ask for, and prints the result. The viewer takes the name of a key on each
line of its input and shows the screen after it.
-/

namespace C0Stack.Main

/-- The name under which the program introduces itself. -/
def programName : String := "c0stack"

/-- The bytes of a file, if it can be read. -/
def readFile? (path : String) : IO (Option (List UInt8)) := do
  try return some (← IO.FS.readBinFile path).toList
  catch _ => return none

/-- Shows the viewer, and again after each key. -/
partial def browse (v : Viewer) : IO Unit := do
  let (screen, v) := v.draw 100 30
  for cells in screen.rows do
    IO.println (String.ofList (cells.flatMap fun c => c.chars))
  if v.quit then return ()
  let line ← (← IO.getStdin).getLine
  if line.isEmpty then return ()
  browse (v.press (.ofName line.trimAscii.toString))

/-- Prints a report, or goes on in the viewer. -/
def finish : Outcome → IO UInt32
  | .report r => do
    IO.eprint r.stderr
    IO.print r.stdout
    return r.code
  | .browse stderr v => do
    IO.eprint stderr
    browse v
    return 0

end C0Stack.Main

open C0Stack in
/-- Runs the program on its arguments. -/
def main (args : List String) : IO UInt32 := do
  match Options.parse args with
  | .error e => Main.finish (CommandLine.refuse Main.programName e)
  | .ok o => Main.finish (CommandLine.execute Main.programName o (← Main.readFile? o.path))
