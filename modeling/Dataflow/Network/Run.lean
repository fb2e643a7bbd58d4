import Dataflow.Network.Basic
import Dataflow.Network.Config
import Dataflow.Network.Error
import Dataflow.Network.Trace

/-!
Runs on one thread.

A pass offers every instance of a partition one attempt, in order. A run makes rounds of passes over all partitions and
ends when every instance has terminated, when a round makes no progress, or when the pass limit is reached. A network
may run for ever, so a run takes `fuel`, the number of rounds it may make; running out of it is an end of its own.
-/

namespace Dataflow

/-- what one pass over a partition did -/
structure PassTally where
  progress : Bool := false
  /-- calls -/
  attempts : Nat := 0
  firings : Nat := 0
  /-- the calls that fired, in order -/
  records : List FiringRecord := []
deriving DecidableEq, Repr

namespace PassTally

def append (a b : PassTally) : PassTally :=
  ⟨a.progress || b.progress, a.attempts + b.attempts, a.firings + b.firings, a.records ++ b.records⟩

def recordOf {σ : Type} (partition : String) (inst : Instance σ) (exit : Exit) (firing : Firing) : FiringRecord :=
  { id := inst.id, actor := inst.name, partition, actions := firing.actions.toList
    consumed := firing.consumed, produced := firing.produced, exit := exit.kind }

def ofAttempt {σ : Type} (partition : String) (inst : Instance σ) (attempt : Attempt) : PassTally :=
  match attempt with
  | .skipped => {}
  | .ran exit firing =>
    { progress := attempt.madeProgress
      attempts := 1
      firings := firing.fired
      records := if firing.fired = 0 then [] else [recordOf partition inst exit firing] }

end PassTally

/-- what a pass leaves behind: connections, instances, its tally, and the fault that ended it early -/
structure Pass (σ : Type) where
  wires : List Connection
  instances : List (Instance σ)
  tally : PassTally
  fault : Option Fault

/-- why a run came back -/
inductive RunEnd where
  | finished (summary : RunSummary)
  | stopped (stop : Stop NetworkError)
  | unfinished
deriving DecidableEq, Repr

structure RunResult (σ : Type) where
  network : Network σ
  /-- the calls that fired, in order -/
  records : List FiringRecord
  ended : RunEnd

/-- one pass more for a partition -/
def PartitionStats.absorb (s : PartitionStats) (tally : PassTally) : PartitionStats :=
  { s with passes := s.passes + 1, attempts := s.attempts + tally.attempts, firings := s.firings + tally.firings }

namespace Network

variable {σ : Type} [Behaviour σ]

/-- one pass over the instances of a partition -/
def pass (partition : String) (loopMax : Nat) : List Connection → List (Instance σ) → Pass σ
  | wires, [] => ⟨wires, [], {}, none⟩
  | wires, inst :: rest =>
    match inst.attempt wires loopMax with
    | (wires, inst, .error f) => ⟨wires, inst :: rest, {}, some f⟩
    | (wires, inst, .ok attempt) =>
      let more := pass partition loopMax wires rest
      { more with
        instances := inst :: more.instances
        tally := (PassTally.ofAttempt partition inst attempt).append more.tally }

/-- what a round over all partitions leaves behind -/
structure Round (σ : Type) where
  wires : List Connection
  partitions : List (Partition σ)
  stats : List PartitionStats
  progress : Bool
  records : List FiringRecord
  fault : Option Fault

/-- one pass over each partition -/
def round (loopMax : Nat) : List Connection → List (Partition σ) → List PartitionStats → Round σ
  | wires, p :: partitions, s :: stats =>
    let pass := pass p.name loopMax wires p.instances
    match pass.fault with
    | some f =>
      ⟨pass.wires, { p with instances := pass.instances } :: partitions, s :: stats, true, pass.tally.records, some f⟩
    | none =>
      let more := round loopMax pass.wires partitions stats
      { more with
        partitions := { p with instances := pass.instances } :: more.partitions
        stats := s.absorb pass.tally :: more.stats
        progress := pass.tally.progress || more.progress
        records := pass.tally.records ++ more.records }
  | wires, partitions, stats => ⟨wires, partitions, stats, false, [], none⟩

/-- rounds until the run ends, each after `prepare`; `passes` have been made, and `records` holds their calls -/
def runRounds (prepare : Network σ → Network σ) (config : RunConfig) :
    Nat → Nat → Network σ → List PartitionStats → Array FiringRecord → RunResult σ
  | 0, _, n, _, records => ⟨n, records.toList, .unfinished⟩
  | fuel + 1, passes, n, stats, records =>
    if config.maxPasses.any (· ≤ passes) then
      ⟨n, records.toList, .finished { outcome := .passLimit, partitions := stats }⟩
    else
      let n := prepare n
      let r := round config.loopMax n.wires n.partitions stats
      let n := { n with wires := r.wires, partitions := r.partitions }
      let records := records ++ r.records
      match r.fault with
      | some f => ⟨n, records.toList, .stopped (.fault f)⟩
      | none =>
        if n.allTerminated then
          ⟨n, records.toList, .finished { outcome := .allTerminated, partitions := r.stats }⟩
        else if r.progress then
          runRounds prepare config fuel (passes + 1) n r.stats records
        else
          ⟨n, records.toList, .finished { outcome := .quiescent, partitions := r.stats }⟩

def freshStats (n : Network σ) : List PartitionStats := n.partitions.map fun p => { name := p.name }

def runInline (config : RunConfig) (fuel : Nat) (n : Network σ) : RunResult σ :=
  runRounds id config fuel 0 n n.freshStats #[]

end Network

end Dataflow
