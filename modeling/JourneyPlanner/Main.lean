import JourneyPlanner.CommandLine

/-!
# The program

Reads the files named in the environment, and prints the journeys asked for.
-/

namespace JourneyPlanner

/-- The content of a file, none when it cannot be read. -/
def contentOf (path : String) : IO (Option ByteArray) := do
  try
    return some (← IO.FS.readBinFile path)
  catch _ =>
    return none

/-- The content of the file that an environment variable names, if it is set. -/
def contentNamed (name : String) : IO (Option (Option ByteArray)) := do
  match ← IO.getEnv name with
  | none => return none
  | some path => return some (← contentOf path)

/-- Runs the command line with the zones of a database, and gives the exit code. -/
def program (zones : ZoneDatabase) (args : List String) : IO UInt32 := do
  let files : CommandLine.Files :=
    { network := ← contentNamed "NETWORK_PATH", updaters := ← contentNamed "UPDATERS_PATH" }
  let outcome := CommandLine.run zones args files
  IO.print outcome.output
  IO.eprint outcome.errors
  return outcome.code.toUInt32

end JourneyPlanner
