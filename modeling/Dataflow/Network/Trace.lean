import Dataflow.Actor.Exit
import Dataflow.Json.Value

/-!
A trace of firings: one line of JSON for each call that fired, written to a sink that may fail. After the first failure
nothing more is recorded.
-/

namespace Dataflow

structure FiringRecord where
  /-- position of the instance in the order of declaration -/
  id : Nat
  actor : String
  partition : String
  actions : List Nat
  consumed : List Nat
  produced : List Nat
  exit : ExitKind
deriving DecidableEq, Repr

def FiringRecord.line (r : FiringRecord) (seq : Nat) : String :=
  (JsonValue.object
    [("seq", .nat seq), ("instance", .nat r.id), ("actor", .string r.actor), ("partition", .string r.partition),
      ("actions", .ofList .nat r.actions), ("consumed", .ofList .nat r.consumed), ("produced", .ofList .nat r.produced),
      ("exit", .string r.exit.word)]).compact ++ "\n"

structure Trace where
  /-- names to record, all if absent -/
  only : Option (List String) := none
  /-- bytes that the sink takes before it fails -/
  limit : Option Nat := none
  /-- complete lines written -/
  lines : Array String := #[]
  written : Nat := 0
  /-- records offered to the sink -/
  records : Nat := 0
  failed : Bool := false
deriving DecidableEq, Repr

namespace Trace

def wants (t : Trace) (actor : String) : Bool := t.only.all (·.contains actor)

def record (t : Trace) (r : FiringRecord) : Trace :=
  if t.failed || !t.wants r.actor then t
  else
    let line := r.line t.records
    let written := t.written + line.utf8ByteSize
    let t := { t with records := t.records + 1 }
    if t.limit.any (· < written) then { t with failed := true }
    else { t with lines := t.lines.push line, written }

def flush (t : Trace) : Trace := { t with failed := t.failed || t.limit == some 0 }

def recordAll (t : Trace) (records : List FiringRecord) : Trace := records.foldl record t

def text (t : Trace) : String := String.join t.lines.toList

end Trace

end Dataflow
