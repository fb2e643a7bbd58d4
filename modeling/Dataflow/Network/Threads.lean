import Dataflow.Network.Run

/-!
Runs with one thread per partition.

Every thread repeats passes over its partition. To find out that nothing can go on any more, the threads share a
progress epoch and note for each partition the epoch at which it was last seen idle. A thread loads the epoch, attempts
its instances one by one, and then either marks itself busy and advances the epoch, or notes the epoch it had loaded and
compares the notes of all partitions with the current epoch. If they all agree, the run stops.

A thread bears the name of its partition, and no such name may hold a NUL. The threads before the first one that cannot
be named are started and run as long as they would; then the run ends in a fault.

A step is one access to what the threads share, or one attempt. `Crew.step` is the step of one thread, whichever is due;
`Crew.run` lets the threads take turns.
-/

namespace Dataflow

/-- where a thread stands -/
inductive Stage where
  /-- at the top of its loop -/
  | ready
  /-- about to load the epoch -/
  | loading
  /-- in a pass that began at epoch `seen`, with instance `next` to attempt -/
  | passing (seen next : Nat) (progress : Bool)
  /-- about to mark its partition busy -/
  | marking
  /-- about to advance the epoch -/
  | advancing
  /-- about to note that its partition was idle at an epoch -/
  | noting (seen : Nat)
  /-- about to load the epoch for the comparison -/
  | checking
  /-- comparing the note of partition `next` with an epoch -/
  | comparing (epoch next : Nat)
  | finished
  | faulted (f : Fault)
deriving DecidableEq, Repr

structure Thread where
  stage : Stage := .ready
  stats : PartitionStats
deriving DecidableEq, Repr

def Thread.done (t : Thread) : Bool :=
  match t.stage with
  | .finished | .faulted _ => true
  | _ => false

/-- the threads, what they share, and the network they run -/
structure Crew (σ : Type) where
  network : Network σ
  /-- by partition -/
  threads : List Thread
  epoch : Nat := 0
  /-- by partition: the epoch at which it was last idle, if it is not busy -/
  idleAt : List (Option Nat)
  stopping : Bool := false
  limitHit : Bool := false
  /-- the calls that fired, in order -/
  records : Array FiringRecord := #[]

namespace Crew

variable {σ : Type} [Behaviour σ]

/-- whether a thread can bear a name -/
def isThreadName (name : String) : Bool := name.toList.all (· ≠ '\x00')

/-- all threads that can be started at the top of their loops -/
def start (n : Network σ) : Crew σ :=
  { network := n
    threads := (n.freshStats.takeWhile fun stats => isThreadName stats.name).map fun stats => { stats }
    idleAt := n.partitions.map fun _ => none }

/-- the crew with a thread at another stage -/
def goto (c : Crew σ) (index : Nat) (t : Thread) (stage : Stage) : Crew σ :=
  { c with threads := c.threads.set index { t with stage } }

/-- ends a pass and goes on by whether it made progress -/
def endPass (c : Crew σ) (index : Nat) (t : Thread) (seen : Nat) (progress : Bool) : Crew σ :=
  c.goto index { t with stats := { t.stats with passes := t.stats.passes + 1 } }
    (if progress then .marking else .noting seen)

/-- attempts instance `next` of a partition -/
def attempt (loopMax : Nat) (c : Crew σ) (index : Nat) (t : Thread) (seen next : Nat) (progress : Bool) : Crew σ :=
  match c.network.partitions[index]? with
  | none => c.endPass index t seen progress
  | some p =>
    match p.instances[next]? with
    | none => c.endPass index t seen progress
    | some inst =>
      let (wires, inst, answer) := inst.attempt c.network.wires loopMax
      let partitions := c.network.partitions.set index { p with instances := p.instances.set next inst }
      let c := { c with network := { c.network with wires, partitions } }
      match answer with
      | .error f => c.goto index t (.faulted f)
      | .ok attempt =>
        let tally := PassTally.ofAttempt p.name inst attempt
        let stats :=
          { t.stats with attempts := t.stats.attempts + tally.attempts, firings := t.stats.firings + tally.firings }
        { c with records := c.records ++ tally.records }.goto index { t with stats }
          (.passing seen (next + 1) (progress || tally.progress))

def step (config : RunConfig) (index : Nat) (c : Crew σ) : Crew σ :=
  match c.threads[index]? with
  | none => c
  | some t =>
    match t.stage with
    | .ready =>
      if c.stopping then c.goto index t .finished
      else if config.maxPasses.any (· ≤ t.stats.passes) then
        { c with limitHit := true, stopping := true }.goto index t .finished
      else c.goto index t .loading
    | .loading => c.goto index t (.passing c.epoch 0 false)
    | .passing seen next progress => c.attempt config.loopMax index t seen next progress
    | .marking => { c with idleAt := c.idleAt.set index none }.goto index t .advancing
    | .advancing => { c with epoch := c.epoch + 1 }.goto index t .ready
    | .noting seen => { c with idleAt := c.idleAt.set index (some seen) }.goto index t .checking
    | .checking => c.goto index t (.comparing c.epoch 0)
    | .comparing epoch next =>
      match c.idleAt[next]? with
      | none => { c with stopping := true }.goto index t .finished
      | some idle => c.goto index t (if idle = some epoch then .comparing epoch (next + 1) else .ready)
    | .finished => c
    | .faulted _ => c

/-- one step of every thread -/
def turn (config : RunConfig) (c : Crew σ) : Crew σ :=
  (List.range c.threads.length).foldl (fun c i => c.step config i) c

/-- turns until all threads have ended; tells whether they have -/
def run (config : RunConfig) : Nat → Crew σ → Crew σ × Bool
  | 0, c => (c, c.threads.all (·.done))
  | fuel + 1, c => if c.threads.all (·.done) then (c, true) else run config fuel (c.turn config)

def faulted? (c : Crew σ) : Option String :=
  (c.threads.find? fun t => match t.stage with | .faulted _ => true | _ => false).map (·.stats.name)

def outcome (c : Crew σ) : RunOutcome :=
  if c.network.allTerminated then .allTerminated else if c.limitHit then .passLimit else .quiescent

/-- whether every partition has its thread -/
def complete (c : Crew σ) : Bool := c.threads.length = c.network.partitions.length

def ended (c : Crew σ) : RunEnd :=
  if !c.complete then .stopped (.fault .contract)
  else
    match c.faulted? with
    | some name => .stopped (.error (.partitionFaulted name))
    | none => .finished { outcome := c.outcome, partitions := c.threads.map (·.stats) }

end Crew

namespace Network

variable {σ : Type} [Behaviour σ]

def runThreaded (config : RunConfig) (fuel : Nat) (n : Network σ) : RunResult σ :=
  let (crew, done) := (Crew.start n).run config fuel
  ⟨crew.network, crew.records.toList, if done then crew.ended else .unfinished⟩

/-- runs a network: on one thread if there is a single partition, else with one thread per partition -/
def run (config : RunConfig) (fuel : Nat) (n : Network σ) : RunResult σ :=
  if n.partitions.length ≤ 1 then n.runInline config fuel else n.runThreaded config fuel

end Network

end Dataflow
