import Dataflow.CommandLine.Host

/-!
A tree of files in memory around a working directory, which answers the requests of the command line.

A path is followed name by name. Every name but the last has to lead to a directory, `..` leads to the directory around
the present one, and a slash at the end asks for a directory. The first name that cannot be followed decides the error.
-/

namespace Dataflow.CommandLine

/-! ### Places and paths -/

/-- a directory whose place is known without a name -/
inductive Base where
  /-- the directory so many levels above the working directory -/
  | above (levels : Nat)
  | root
deriving DecidableEq, Repr

/-- a place in the tree of files: the names that lead to it from a base -/
structure Location where
  base : Base
  names : List String := []
deriving DecidableEq, Repr

namespace Location

/-- the directory around a place; the root lies in itself -/
def parent (l : Location) : Location :=
  match l.names, l.base with
  | [], .above levels => ⟨.above (levels + 1), []⟩
  | [], .root => l
  | names, base => ⟨base, names.dropLast⟩

def child (l : Location) (name : String) : Location := { l with names := l.names ++ [name] }

/-- whether a place lies somewhere inside another -/
def isInside (l outer : Location) : Bool :=
  l.base = outer.base && outer.names.length < l.names.length && outer.names.isPrefixOf l.names

end Location

/-- a path: where it starts and its names in order, `.` and `..` among them -/
structure Path where
  start : Location
  names : List String
  /-- it ends in a slash, so that it can only name a directory -/
  trailing : Bool
deriving DecidableEq, Repr

/-- the first length in bytes that no path has -/
def pathLimit : Nat := 4096

def longestName : Nat := 255

/-- the path that a text stands for -/
def Path.ofText (text : String) : Except FileError Path :=
  if text.any (· = '\x00') then .error .nulInName
  else if text.isEmpty then .error .noSuchFile
  else if pathLimit ≤ text.utf8ByteSize then .error .nameTooLong
  else .ok
    { start := ⟨if text.startsWith "/" then .root else .above 0, []⟩
      names := (text.splitOn "/").filter (· ≠ "")
      trailing := text.endsWith "/" }

/-! ### The folder -/

/-- the contents of files, and what was printed; a directory is what is one from the start or has a file inside -/
structure Folder where
  files : List (Location × String) := []
  output : String := ""
  errors : String := ""
deriving DecidableEq, Repr

/-- what becomes of a text written to a file that keeps nothing -/
inductive Sink where
  | nothing
  /-- it is refused, unless it never leaves the writer's buffer -/
  | full
  | channel (channel : Channel)
deriving DecidableEq, Repr

/-- the bytes of a writer's buffer -/
def writeBuffer : Nat := 8192

/-- what is found at a place -/
inductive Found where
  | file (content : String)
  | directory
  | nothing
deriving DecidableEq, Repr

namespace Folder

/-- files from a list of their names, relative to the working directory, and contents -/
def ofList (files : List (String × String)) : Folder :=
  { files := files.map fun (path, content) =>
      (⟨.above 0, (path.splitOn "/").filter fun name => name ≠ "" ∧ name ≠ "."⟩, content) }

def print (f : Folder) (channel : Channel) (text : String) : Folder :=
  match channel with
  | .output => { f with output := f.output ++ text }
  | .errors => { f with errors := f.errors ++ text }

def sink? : Location → Option Sink
  | ⟨.root, ["dev", name]⟩ =>
    [("null", .nothing), ("zero", .nothing), ("full", .full), ("stdout", .channel .output),
      ("stderr", .channel .errors)].lookup name
  | _ => none

/-- directories below the root that are there from the start -/
def systemDirectories : List String :=
  ["bin", "dev", "etc", "home", "lib", "media", "mnt", "opt", "proc", "root", "run", "sbin", "srv", "sys", "tmp", "usr",
    "var"]

/-- whether a place is a directory from the start -/
def isGiven : Location → Bool
  | ⟨_, []⟩ => true
  | ⟨.root, [name]⟩ => systemDirectories.contains name
  | _ => false

def look (f : Folder) (l : Location) : Found :=
  if (sink? l).isSome then .file ""
  else
    match f.files.lookup l with
    | some content => .file content
    | none => if isGiven l || f.files.any (·.1.isInside l) then .directory else .nothing

/-- goes from a directory to what a name stands for there, whether it is there or not -/
def enter (f : Folder) (l : Location) (name : String) : Except FileError Location :=
  match f.look l with
  | .file _ => .error .notADirectory
  | .nothing => .error .noSuchFile
  | .directory =>
    if name = "." then .ok l
    else if name = ".." then .ok l.parent
    else if longestName < name.utf8ByteSize then .error .nameTooLong
    else .ok (l.child name)

/-- follows the names of a path; a slash at the end asks for a directory -/
def follow (f : Folder) (path : Path) : Except FileError Location :=
  (path.names ++ if path.trailing then ["."] else []).foldlM f.enter path.start

def read (f : Folder) (text : String) : Except FileError String := do
  match f.look (← f.follow (← Path.ofText text)) with
  | .file content => return content
  | .directory => throw .isADirectory
  | .nothing => throw .noSuchFile

def get? (f : Folder) (text : String) : Option String := (f.read text).toOption

/-- the place where a file is made or replaced; a path that can only name a directory is no such place -/
def target (f : Folder) (path : Path) : Except FileError Location := do
  match path.names.getLast? with
  | none => throw .isADirectory
  | some name =>
    let directory ← path.names.dropLast.foldlM f.enter path.start
    if path.trailing then
      let _ ← f.enter directory "."
      throw .isADirectory
    let l ← f.enter directory name
    match f.look l with
    | .directory => throw .isADirectory
    | _ => return l

def write (f : Folder) (text content : String) : Except FileError Folder := do
  let l ← f.target (← Path.ofText text)
  match sink? l with
  | none => return { f with files := (l, content) :: f.files.filter (·.1 ≠ l) }
  | some .nothing => return f
  | some .full => if writeBuffer < content.utf8ByteSize then throw .noSpace else return f
  | some (.channel channel) => return f.print channel content

end Folder

/-- a folder where no time passes -/
instance : Host (StateM Folder) where
  readFile path := return (← get).read path
  writeFile path content := do
    match (← get).write path content with
    | .ok f => set f; return .ok ()
    | .error e => return .error e
  print channel text := modify (·.print channel text)
  now := return 0

end Dataflow.CommandLine
