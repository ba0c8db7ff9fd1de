import TileOffload.Command.Arguments
import TileOffload.Command.Execute
import TileOffload.Command.Linux

/-! # The command line

Reads the file that a command needs, executes the command, and writes the file back if it has changed. -/

namespace TileOffload

/-- Why a file could not be opened, in the system's words. -/
def systemFault : IO.Error → FileFault
  | .noFileOrDirectory _ code details | .inappropriateType _ code details | .invalidArgument _ code details
  | .permissionDenied _ code details | .noSuchThing _ code details | .resourceBusy code details =>
    .other s!"{details} (os error {code})"
  | e => .other (toString e)

/-- The bytes of a file that can be read and written. -/
def readResource (path : String) : IO (Except FileFault ByteArray) := do
  try
    let handle ← IO.FS.Handle.mk path .readWrite
    let bytes ← handle.readBinToEnd
    return .ok bytes
  catch e => return .error (systemFault e)

/-- Executes a command. -/
def runCommand (command : Command) : IO UInt32 := do
  let path := command.resource?
  let file ← match path with
    | some path => readResource path
    | none => pure (.error .notFound)
  let output := command.execute Command.Linux.mapper file
  if let (some path, some bytes) := (path, output.file) then IO.FS.writeBinFile path bytes
  IO.print output.stdout
  IO.eprint output.stderr
  return UInt32.ofNat output.exitCode

end TileOffload

def main (args : List String) : IO UInt32 := do
  match TileOffload.Command.parse? args with
  | some command => TileOffload.runCommand command
  | none =>
    IO.eprintln "usage: snax run|untiled|layout|schedule|roles|peek|poke [--flag value]..."
    return 2
