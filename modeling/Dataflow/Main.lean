import Dataflow.CommandLine.Session

/-!
The command line as a program.
-/

namespace Dataflow.CommandLine

def FileError.ofSystem : IO.Error → FileError
  | .noFileOrDirectory .. => .noSuchFile
  | .inappropriateType _ 20 _ => .notADirectory
  | .inappropriateType _ 21 _ => .isADirectory
  | .invalidArgument _ 36 _ => .nameTooLong
  | e => .other (toString e)

def tryFile {α : Type} (action : IO α) : IO (Except FileError α) := do
  try
    return .ok (← action)
  catch e =>
    return .error (FileError.ofSystem e)

instance : Host IO where
  readFile path := tryFile (IO.FS.readFile path)
  writeFile path content := tryFile (IO.FS.writeFile path content)
  print channel text := do
    let stream ← match channel with
      | .output => IO.getStdout
      | .errors => IO.getStderr
    stream.putStr text
  now := IO.monoNanosNow

end Dataflow.CommandLine

def main (args : List String) : IO UInt32 := do
  return (← Dataflow.CommandLine.invoke Dataflow.Word.signedMax64 args).toUInt32
