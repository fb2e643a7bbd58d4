import Dataflow.Network.Instance
import Dataflow.Network.Report
import Dataflow.Text.Quoted

/-!
A wired network: partitions of instances over shared connections.
-/

namespace Dataflow

/-- instances that run one after the other -/
structure Partition (σ : Type) where
  name : String
  instances : List (Instance σ)

/-- the ports that a connection joins, as `instance.port` -/
structure WireLabel where
  source : String
  /-- by reader -/
  targets : List String
deriving DecidableEq, Repr

structure Network (σ : Type) where
  partitions : List (Partition σ)
  wires : List Connection
  /-- by connection -/
  labels : List WireLabel

namespace Instance

/-- one line about an instance -/
def describe {σ : Type} [Behaviour σ] (inst : Instance σ) : String :=
  "ActorInstance \x7b id: InstanceId(" ++ toString inst.id ++ "), name: " ++ Text.quoted inst.name ++ ", class: " ++
    Text.quoted (Behaviour.interface inst.actor).name ++ ", terminated: " ++
    toString inst.terminated ++ ", last_exit: " ++
    (match inst.lastExit with
      | some kind => "Some(" ++ kind.title ++ ")"
      | none => "None") ++ " \x7d"

end Instance

namespace Partition

def allTerminated {σ : Type} (p : Partition σ) : Bool := p.instances.all (·.terminated)

end Partition

namespace Network

variable {σ : Type}

def instances (n : Network σ) : List (Instance σ) := n.partitions.flatMap (·.instances)

def instance? (n : Network σ) (name : String) : Option (Instance σ) := n.instances.find? (·.name == name)

def allTerminated (n : Network σ) : Bool := n.partitions.all (·.allTerminated)

def reportOf [Behaviour σ] (partition : String) (inst : Instance σ) : InstanceReport :=
  { name := inst.name
    className := (Behaviour.interface inst.actor).name
    partition
    terminated := inst.terminated
    lastExit := inst.lastExit
    firings := inst.stats.firings }

/-- the readers of one connection that have tokens to read, from reader `r` on -/
def pendingFrom (c : Connection) (source : String) : Nat → List String → Checked (List PendingTokens)
  | _, [] => .ok []
  | r, target :: rest => do
    let tokens ← c.pending r
    let more ← pendingFrom c source (r + 1) rest
    return if tokens = 0 then more else ⟨source, target, tokens⟩ :: more

def pendingTokens (n : Network σ) : Checked (List PendingTokens) := do
  let lists ← (n.wires.zip n.labels).mapM fun (c, label) => pendingFrom c label.source 0 label.targets
  return lists.flatten

/-- the state of the network, instances in the order of declaration -/
def report [Behaviour σ] (n : Network σ) : Checked TerminationReport := do
  let rows := n.partitions.flatMap fun p => p.instances.map fun i => (i.id, reportOf p.name i)
  let sorted := rows.mergeSort fun a b => a.1 ≤ b.1
  return { instances := sorted.map (·.2), pending := ← n.pendingTokens }

end Network

end Dataflow
