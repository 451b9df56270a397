import Cairn.CommandLine

/-!
# The executable

Reads the file that the arguments name, and does what the command line answers.
-/

open Cairn

/-- The contents of a file, if it can be read. -/
def readContents (name : String) : IO (Option ByteArray) := do
  try
    return some (← IO.FS.readBinFile name)
  catch _ =>
    return none

/-- Answers the arguments. There is no window to edit in, so only the preview gives output. -/
def main (args : List String) : IO UInt32 := do
  let file? := match CommandLine.arguments {} args with | .ok o => o.file? | .error _ => none
  let contents ← match file? with | some name => readContents name | none => pure none
  match CommandLine.respond args fun _ => contents with
  | .finish code output =>
    IO.print output
    return UInt32.ofNat code
  | .edit _ _ =>
    IO.eprintln "no window to edit in"
    return 1
