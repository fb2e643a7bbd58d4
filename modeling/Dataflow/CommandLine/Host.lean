/-!
What the command line asks of its surroundings: reading and writing files, printing and telling the time.
-/

namespace Dataflow.CommandLine

inductive FileError where
  | noSuchFile
  | notADirectory
  | isADirectory
  | noSpace
  | nameTooLong
  /-- the path has a NUL character -/
  | nulInName
  | other (text : String)
deriving DecidableEq, Repr

def FileError.message : FileError → String
  | noSuchFile => "No such file or directory (os error 2)"
  | notADirectory => "Not a directory (os error 20)"
  | isADirectory => "Is a directory (os error 21)"
  | noSpace => "No space left on device (os error 28)"
  | nameTooLong => "File name too long (os error 36)"
  | nulInName => "file name contained an unexpected NUL byte"
  | other text => text

/-- where a text is printed -/
inductive Channel where
  | output
  | errors
deriving DecidableEq, Repr

/-- surroundings with effects of type `m` -/
class Host (m : Type → Type) where
  readFile : String → m (Except FileError String)
  writeFile : String → String → m (Except FileError Unit)
  print : Channel → String → m Unit
  /-- nanoseconds since some moment -/
  now : m Nat

end Dataflow.CommandLine
