/-
# The command line

The configuration file is the first argument, or else the one named by the environment variable
`VOXEL_CONFIG`.  The log goes to standard output and the exit code is that of the walk.
-/
import Blockworld.Walk

namespace Blockworld

namespace ConfigSource

/-- The content of a file, if it can be read. -/
def contentOf (path : String) : IO (Option ByteArray) := do
  try
    return some (← IO.FS.readBinFile path)
  catch _ =>
    return none

/-- The configuration source that a command line names. -/
def ofArguments (args : List String) : IO ConfigSource := do
  let named ← match args with
    | path :: _ => pure (some path)
    | [] => IO.getEnv "VOXEL_CONFIG"
  match named with
  | none => return .defaults
  | some path => return .file path (← contentOf path)

end ConfigSource

/-- Prints an entry of the log. -/
def LogEntry.print (entry : LogEntry) : IO Unit :=
  IO.println s!"[{entry.severity.name}] {entry.text}"

end Blockworld

/-- Runs the walk that the command line asks for and prints its log. -/
def main (args : List String) : IO UInt32 := do
  let transcript := Blockworld.Walk.run (← Blockworld.ConfigSource.ofArguments args)
  transcript.log.forM Blockworld.LogEntry.print
  return UInt32.ofNat transcript.exitCode
