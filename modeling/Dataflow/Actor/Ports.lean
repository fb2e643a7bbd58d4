import Dataflow.Actor.Exit
import Dataflow.Channel.Port

/-!
The open ports of one actor call. Each port is a view on one of the network's connections; what the actor reads and
writes goes through the view to the shared storage. The calls that an actor makes to its actions are noted beside it.
-/

namespace Dataflow

/-- something that belongs to a connection of the network -/
structure Attached (α : Type) where
  wire : Nat
  item : α
deriving DecidableEq, Repr

/-- the ports of one call -/
structure Ports where
  wires : List Connection
  inputs : List (Attached PortView)
  outputs : List (Attached PortView)
  /-- actions fired, in order -/
  actions : Array Nat := #[]

namespace Ports

/-- tokens that may still be read from an input -/
def availableIn (p : Ports) (i : Nat) : Checked Nat := return (← fetch p.inputs i).item.available

/-- tokens that may still be written to an output -/
def availableOut (p : Ports) (o : Nat) : Checked Nat := return (← fetch p.outputs o).item.available

def hasInput (p : Ports) (i n : Nat) : Checked Bool := return n ≤ (← p.availableIn i)

def hasRoom (p : Ports) (o n : Nat) : Checked Bool := return n ≤ (← p.availableOut o)

def onInput {α : Type} (p : Ports) (i : Nat) (f : Connection → PortView → Checked (α × PortView)) :
    Checked (α × Ports) := do
  let port ← fetch p.inputs i
  let wire ← fetch p.wires port.wire
  let (answer, item) ← f wire port.item
  return (answer, { p with inputs := p.inputs.set i { port with item } })

def onOutput (p : Ports) (o : Nat) (f : Connection → PortView → Checked (Connection × PortView)) :
    Checked Ports := do
  let port ← fetch p.outputs o
  let wire ← fetch p.wires port.wire
  let (wire, item) ← f wire port.item
  return { p with wires := p.wires.set port.wire wire, outputs := p.outputs.set o { port with item } }

/-- reads the tokens that fill `length` bytes from an input -/
def readBytes (p : Ports) (i length : Nat) : Checked (Bytes × Ports) :=
  p.onInput i fun c v => c.readBytes v length

def read (p : Ports) (i : Nat) (t : Primitive) : Checked (t.Value × Ports) :=
  p.onInput i fun c v => c.read v t

/-- writes the whole tokens of a byte string to an output -/
def writeBytes (p : Ports) (o : Nat) (bytes : Bytes) : Checked Ports :=
  p.onOutput o fun c v => c.writeBytes v bytes

def write (p : Ports) (o : Nat) (t : Primitive) (value : t.Value) : Checked Ports :=
  p.onOutput o fun c v => c.write v t value

def fire (p : Ports) (action : Nat) : Ports := { p with actions := p.actions.push action }

/-- what a port has left, zero for a port that is not there -/
def left (p : Ports) (port : PortId) : Nat :=
  match port with
  | .input i => (p.inputs[i]?.map (·.item.available)).getD 0
  | .output o => (p.outputs[o]?.map (·.item.available)).getD 0

end Ports

/-- what one call moved and fired -/
structure Firing where
  /-- tokens consumed, by input -/
  consumed : List Nat
  /-- tokens produced, by output -/
  produced : List Nat
  actions : Array Nat
deriving DecidableEq, Repr

/-- the firings as a 32-bit number -/
def Firing.fired (f : Firing) : Nat := Word.low32 f.actions.size

def Firing.movedTokens (f : Firing) : Bool := f.consumed.any (· != 0) || f.produced.any (· != 0)

def Ports.firing (p : Ports) : Firing :=
  ⟨p.inputs.map (·.item.moved), p.outputs.map (·.item.moved), p.actions⟩

end Dataflow
