import Dataflow.Actor.Exit
import Dataflow.Duration
import Dataflow.Text.Padding
import Dataflow.Word

/-!
What is reported of a run and of the state of a network after it, as text and as JSON.
-/

namespace Dataflow

inductive RunOutcome where
  | allTerminated
  /-- nothing can go on -/
  | quiescent
  | passLimit
deriving DecidableEq, Repr

def RunOutcome.word : RunOutcome → String
  | .allTerminated => "all_terminated"
  | .quiescent => "quiescent"
  | .passLimit => "pass_limit"

def RunOutcome.ofWord? (s : String) : Option RunOutcome := [allTerminated, quiescent, passLimit].find? (·.word = s)

def RunOutcome.title : RunOutcome → String
  | .allTerminated => "AllTerminated"
  | .quiescent => "Quiescent"
  | .passLimit => "PassLimit"

structure PartitionStats where
  name : String
  passes : Nat := 0
  attempts : Nat := 0
  firings : Nat := 0
  /-- waits without progress that were longer than the limit -/
  stalls : Nat := 0
  elapsed : Duration := {}
deriving DecidableEq, Repr

structure RunSummary where
  outcome : RunOutcome
  partitions : List PartitionStats
  elapsed : Duration := {}
deriving DecidableEq, Repr

namespace RunSummary

def firings (s : RunSummary) : Checked Nat := (s.partitions.map (·.firings)).foldlM Word.add64 0

def stalls (s : RunSummary) : Checked Nat := (s.partitions.map (·.stalls)).foldlM Word.add64 0

def partitionLine (p : PartitionStats) : String :=
  "  partition " ++ Text.padRight 12 p.name ++ " passes=" ++ Text.padRight 8 (toString p.passes) ++ " attempts=" ++
    Text.padRight 8 (toString p.attempts) ++ " firings=" ++ Text.padRight 10 (toString p.firings) ++ " stalls=" ++
    toString p.stalls ++ "\n"

def text (s : RunSummary) : String :=
  "run ended (" ++ s.outcome.title ++ ") after " ++ s.elapsed.milliseconds ++ " ms\n" ++
    String.join (s.partitions.map partitionLine)

def partitionJson (p : PartitionStats) : JsonValue :=
  .object
    [("name", .string p.name), ("passes", .nat p.passes), ("attempts", .nat p.attempts), ("firings", .nat p.firings),
      ("stalls", .nat p.stalls), ("elapsed", p.elapsed.toJson)]

def toJson (s : RunSummary) : JsonValue :=
  .object
    [("outcome", .string s.outcome.word), ("partitions", .ofList partitionJson s.partitions),
      ("elapsed", s.elapsed.toJson)]

end RunSummary

structure InstanceReport where
  name : String
  className : String
  partition : String
  terminated : Bool
  lastExit : Option ExitKind
  firings : Nat
deriving DecidableEq, Repr

/-- tokens that a reader has not read yet -/
structure PendingTokens where
  source : String
  target : String
  tokens : Nat
deriving DecidableEq, Repr

structure TerminationReport where
  instances : List InstanceReport := []
  pending : List PendingTokens := []
deriving DecidableEq, Repr

namespace TerminationReport

/-- whether all instances have terminated and no token is left -/
def isClean (r : TerminationReport) : Bool := r.pending.isEmpty && r.instances.all (·.terminated)

def stateText (i : InstanceReport) : String :=
  if i.terminated then "terminated"
  else
    match i.lastExit with
    | some kind => "last exit " ++ kind.word
    | none => "never fired"

def instanceLine (i : InstanceReport) : String :=
  s!"  {i.name} ({i.className}) on {i.partition}: " ++ stateText i ++ s!" after {i.firings} firing(s)\n"

def pendingLine (p : PendingTokens) : String := s!"  {p.source} -> {p.target}: {p.tokens} unread token(s)\n"

def text (r : TerminationReport) : String :=
  "network state at termination:\n" ++ String.join (r.instances.map instanceLine) ++
    String.join (r.pending.map pendingLine)

def instanceJson (i : InstanceReport) : JsonValue :=
  .object
    [("name", .string i.name), ("class", .string i.className), ("partition", .string i.partition),
      ("terminated", .bool i.terminated), ("last_exit", .ofOption (fun k => .string k.word) i.lastExit),
      ("firings", .nat i.firings)]

def pendingJson (p : PendingTokens) : JsonValue :=
  .object [("source", .string p.source), ("target", .string p.target), ("tokens", .nat p.tokens)]

def toJson (r : TerminationReport) : JsonValue :=
  .object [("instances", .ofList instanceJson r.instances), ("pending", .ofList pendingJson r.pending)]

end TerminationReport

end Dataflow
