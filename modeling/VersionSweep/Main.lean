import VersionSweep.CommandLine.Command

/-!
# The program

Reads what a command needs from the disk and from the standard input, runs the command, and prints
what it ends with.
-/

namespace VersionSweep

def ReadFailure.ofError : IO.Error → ReadFailure
  | .noFileOrDirectory _ _ _ => .missing
  | .inappropriateType _ code _ => if code = 21 then .isFolder else .notAFolder
  | .invalidArgument _ _ _ => .nameTooLong
  | .permissionDenied _ _ _ => .other "Permission denied (os error 13)"
  | .userError _ => .notText
  | error => .other (toString error)

def attempt (reading : IO String) : IO (Except ReadFailure String) := do
  try
    return .ok (← reading)
  catch error =>
    return .error (.ofError error)

def readPaths (paths : List String) : IO (List (String × Except ReadFailure String)) :=
  paths.mapM fun (path : String) ↦ return (path, ← attempt (IO.FS.readFile path))

/-- The text that is left on a stream, behind the text read so far. -/
partial def readStream (stream : IO.FS.Stream) (text : String) : IO String := do
  let line ← stream.getLine
  if line.isEmpty then return text
  readStream stream (text ++ line)

def CommandResult.print (result : CommandResult) : IO UInt32 := do
  (← IO.getStdout).putStr result.stdout
  match result.message with
  | some message => IO.eprintln message
  | none => pure ()
  return result.exit.toUInt32

/-- Run the command that arguments make on the files of the machine. -/
def runCommand (arguments : Arguments) : IO CommandResult := do
  let input ← if arguments.stdin then attempt (readStream (← IO.getStdin) "") else pure (.ok "")
  let first ← readPaths (Command.firstPaths arguments)
  let library ← readPaths (Command.libraryPaths (.ofReadings first) input arguments)
  return Command.run (.ofReadings (first ++ library)) input arguments

end VersionSweep

open VersionSweep in
def main (arguments : List String) : IO UInt32 := do
  match Arguments.parse arguments with
  | .ok arguments => (← runCommand arguments).print
  | .error stop => (Command.stopped stop).print
