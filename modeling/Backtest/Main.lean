import Backtest.Command.Execution

/-!
# The program

Reads the arguments and the files they name, and does what the command asks for.
-/

open Backtest

/-- The bytes of a file, if it can be read. -/
def readBytes? (path : String) : IO (Option (List UInt8)) := do
  try
    return some (← IO.FS.readBinFile path).toList
  catch _ => return none

/-- Writes the files of a result. -/
def writeArtifacts (a : Report.Artifacts) : IO Unit := do
  IO.FS.createDirAll a.directory
  for (name, text) in a.files do
    IO.FS.writeFile (Report.below a.directory name) text

/-- Executes a command line: reads the files it looks at, leaves its artifacts, prints what it has
to say, and ends with its code. -/
def main (args : List String) : IO UInt32 := do
  let paths := ((Command.ofArguments? args).map Command.paths).getD []
  let files ← paths.mapM fun path => do return (path, ← readBytes? path)
  let read (path : String) : Option (List UInt8) := (files.find? (·.1 == path)).bind (·.2)
  let outcome := Command.executeLine read args
  match outcome.artifacts with
  | some a => writeArtifacts a
  | none => pure ()
  IO.print outcome.printed
  match outcome.ending with
  | .failure message => IO.eprintln ("Error: " ++ message)
  | .usage => IO.eprintln (HelpTopic.text .all)
  | _ => pure ()
  return outcome.ending.code.toUInt32
