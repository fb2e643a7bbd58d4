import Std.Data.TreeMap
import Dataflow.Text.Blank
import Dataflow.Text.Integer
import Dataflow.Word

/-!
Named text parameters of an actor. A value that starts with `$` names an environment variable, which is looked up when
the parameter is read. Numbers and truth values are read from the value without the white space at its ends.
-/

namespace Dataflow

inductive ActorError where
  | missingParameter (key : String)
  | missingEnv (key variable_ : String)
  | invalidParameter (key value : String)
  | unknownClass (name : String)
  | construction (class_ reason : String)
deriving DecidableEq, Repr

def ActorError.message : ActorError → String
  | missingParameter key => s!"missing required parameter `{key}`"
  | missingEnv key variable_ => s!"parameter `{key}` refers to unset environment variable `{variable_}`"
  | invalidParameter key value => s!"parameter `{key}` has malformed value `{value}`"
  | unknownClass name => s!"unknown actor class `{name}`"
  | construction class_ reason => s!"cannot construct `{class_}`: {reason}"

abbrev Environment := String → Option String

/-- the environment of a list of assignments `name=value`: a name that is not empty has what stands behind it and an
equals sign in the first assignment that starts with them -/
def Environment.ofList (assignments : List (String × String)) : Environment := fun name =>
  if name.isEmpty then none
  else
    assignments.findSome? fun (variable_, value) =>
      let sought := (name ++ "=").toList
      let assignment := (variable_ ++ "=" ++ value).toList
      if sought.isPrefixOf assignment then some (String.ofList (assignment.drop sought.length)) else none

/-- named text values, in the order of their names -/
structure Params where
  entries : Std.TreeMap String String compare := ∅

namespace Params

def insert (p : Params) (key value : String) : Params := ⟨p.entries.insert key value⟩

/-- parameters from a list, later ones replacing earlier ones -/
def ofList (pairs : List (String × String)) : Params :=
  pairs.foldl (fun p (key, value) => p.insert key value) {}

def toList (p : Params) : List (String × String) := p.entries.toList

/-- a value as it was written -/
def raw? (p : Params) (key : String) : Option String := p.entries.get? key

/-- a value with its environment variable looked up -/
def get? (p : Params) (env : Environment) (key : String) : Except ActorError (Option String) :=
  match p.raw? key with
  | none => .ok none
  | some value =>
    match value.toList with
    | '$' :: name =>
      match env (String.ofList name) with
      | some found => .ok (some found)
      | none => .error (.missingEnv key (String.ofList name))
    | _ => .ok (some value)

/-- a value that has to be there -/
def get (p : Params) (env : Environment) (key : String) : Except ActorError String := do
  match ← p.get? env key with
  | some value => return value
  | none => throw (.missingParameter key)

/-- a value read by `reader`, if it is there -/
def read? {α : Type} (p : Params) (env : Environment) (reader : String → Option α) (key : String) :
    Except ActorError (Option α) := do
  match ← p.get? env key with
  | none => return none
  | some value =>
    match reader (Text.trim value) with
    | some a => return some a
    | none => throw (.invalidParameter key value)

/-- a value read by `reader` that has to be there -/
def read {α : Type} (p : Params) (env : Environment) (reader : String → Option α) (key : String) :
    Except ActorError α := do
  match ← p.read? env reader key with
  | some a => return a
  | none => throw (.missingParameter key)

/-- a value read by `reader`, or a default when it is not there -/
def readD {α : Type} (p : Params) (env : Environment) (reader : String → Option α) (key : String) (default : α) :
    Except ActorError α := do
  return (← p.read? env reader key).getD default

def affinityKey : String := "affinity"

end Params

namespace Text

def word32? (s : String) : Option Nat := (readUnsigned Word.max32 s).toOption

def word64? (s : String) : Option Nat := (readUnsigned Word.max64 s).toOption

def int32? (s : String) : Option Int32 := (readSigned Word.signedMax32 s).toOption.map Int32.ofInt

def bool? (s : String) : Option Bool :=
  if s = "true" then some true else if s = "false" then some false else none

end Text

end Dataflow
