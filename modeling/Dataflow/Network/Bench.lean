import Dataflow.Network.Instance

/-!
A bench for one actor: every input is fed from outside and every output drained from outside, each through a connection
of its own. Calls on the bench go straight to the actor, whether or not it waits for anything.
-/

namespace Dataflow

structure Bench (σ : Type) where
  inst : Instance σ
  /-- those of the inputs, then those of the outputs -/
  wires : List Connection
  /-- the outside ends of the inputs -/
  feeders : List OutputEnd
  /-- the outside ends of the outputs -/
  drains : List InputEnd

namespace Bench

variable {σ : Type} [Behaviour σ]

def link (tokenSize depth : Nat) : Except (Stop ChannelError) (Connection × OutputEnd × InputEnd) := do
  let c ← Connection.create tokenSize depth 1
  let (output, c) ← c.takeOutput.mapError Stop.error
  let (input, c) ← (c.takeInput 0).mapError Stop.error
  return (c, output, input)

/-- puts an actor on the bench with connections of these depths -/
def create (actor : σ) (inDepths outDepths : List Nat) : Except (Stop ChannelError) (Bench σ) := do
  let interface := Behaviour.interface actor
  let ins ← (interface.inputs.zip inDepths).mapM fun (port, depth) => link port.tokenSize depth
  let outs ← (interface.outputs.zip outDepths).mapM fun (port, depth) => link port.tokenSize depth
  let inputs := ins.zipIdx.map fun ((_, _, input), i) => (⟨i, input⟩ : Attached InputEnd)
  let outputs := outs.zipIdx.map fun ((_, output, _), o) => (⟨ins.length + o, output⟩ : Attached OutputEnd)
  return {
    inst := { id := 0, name := interface.name, actor, inputs, outputs }
    wires := (ins ++ outs).map (·.1)
    feeders := ins.map (·.2.1)
    drains := outs.map (·.2.2) }

/-- feeds an input with as many whole tokens as fit; answers their number -/
def feed (b : Bench σ) (i : Nat) (bytes : Bytes) : Checked (Nat × Bench σ) := do
  let output ← fetch b.feeders i
  let c ← fetch b.wires i
  let view ← c.openOutput output
  let n := min view.available (bytes.length / c.tokenSize)
  let (c, view) ← c.writeBytes view (bytes.take (n * c.tokenSize))
  let (c, output) := c.closeOutput output view
  return (n, { b with wires := b.wires.set i c, feeders := b.feeders.set i output })

/-- drains up to `most` tokens from an output -/
def drain (b : Bench σ) (o most : Nat) : Checked (Bytes × Bench σ) := do
  let input ← fetch b.drains o
  let w := b.inst.inputs.length + o
  let c ← fetch b.wires w
  let view := c.openInput input
  let (bytes, view) ← c.readBytes view (min most view.available * c.tokenSize)
  let (c, input) := c.closeInput input view
  return (bytes, { b with wires := b.wires.set w c, drains := b.drains.set o input })

/-- one call with at most `maxLoops` firings -/
def call (b : Bench σ) (maxLoops : Nat) : Checked ((Exit × Firing) × Bench σ) := do
  let ports ← b.inst.openPorts b.wires
  let (wires, inst, answer) := b.inst.settle (Behaviour.act maxLoops b.inst.actor ports)
  match ← answer with
  | .ran exit firing => return ((exit, firing), { b with wires, inst })
  | .skipped => throw .contract

/-- tokens on the inputs, room on the outputs, and tokens behind the outputs -/
def levels (b : Bench σ) : Checked (List Nat × List Nat × List Nat) := do
  let ins ← (List.range b.inst.inputs.length).mapM fun i => b.inst.availability b.wires (.input i)
  let outs ← (List.range b.inst.outputs.length).mapM fun o => b.inst.availability b.wires (.output o)
  let down ← b.drains.zipIdx.mapM fun (input, o) => do
    return (← fetch b.wires (b.inst.inputs.length + o)).available input
  return (ins, outs, down)

end Bench

end Dataflow
