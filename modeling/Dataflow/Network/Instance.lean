import Dataflow.Actor.Behaviour

/-!
An actor placed in a network: its ends of the connections, and what the scheduler remembers of it.

An attempt offers the instance one call. A terminated instance is never called again. An instance that waits for ports
is skipped while every one of them has the availability that the actor saw when it began to wait. A call opens all
ports, runs, records what the actor left on the ports it waits for, and closes them, which publishes what it moved.
-/

namespace Dataflow

structure InstanceStats where
  attempts : Nat := 0
  /-- firings over all calls -/
  firings : Nat := 0
  /-- turns that were skipped because nothing it waits for had changed -/
  skipped : Nat := 0
deriving DecidableEq, Repr

structure Instance (σ : Type) where
  /-- position in the order of declaration -/
  id : Nat
  name : String
  actor : σ
  inputs : List (Attached InputEnd)
  outputs : List (Attached OutputEnd)
  terminated : Bool := false
  /-- ports it waits for, each with what the actor left there -/
  waiting : Option (List (PortId × Nat)) := none
  lastExit : Option ExitKind := none
  stats : InstanceStats := {}

/-- what became of an attempt -/
inductive Attempt where
  | skipped
  | ran (exit : Exit) (firing : Firing)
deriving DecidableEq, Repr

/-- whether an attempt keeps the network going; an actor that yields says that it may still fire -/
def Attempt.madeProgress : Attempt → Bool
  | .skipped => false
  | .ran exit firing => firing.fired != 0 || exit == .yield

namespace Ports

/-- opens the ports of one side -/
def openAll {α : Type} (view : Connection → α → Checked PortView) (wires : List Connection) (ends : List (Attached α)) :
    Checked (List (Attached PortView)) :=
  ends.mapM fun e => do return ⟨e.wire, ← view (← fetch wires e.wire) e.item⟩

/-- closes the ports of one side in order -/
def closeAll {α : Type} (close : Connection → α → PortView → Connection × α) (wires : List Connection) :
    List (Attached α) → List (Attached PortView) → List Connection × List (Attached α)
  | e :: ends, v :: views =>
    match wires[e.wire]? with
    | none => (wires, e :: ends)
    | some c =>
      let rest := closeAll close (wires.set e.wire (close c e.item v.item).1) ends views
      (rest.1, ⟨e.wire, (close c e.item v.item).2⟩ :: rest.2)
  | ends, _ => (wires, ends)

end Ports

namespace Instance

variable {σ : Type}

/-- what a port has at the moment, zero for a port that is not there -/
def availability (inst : Instance σ) (wires : List Connection) : PortId → Checked Nat
  | .input i =>
    match inst.inputs[i]? with
    | none => .ok 0
    | some e => do return (← fetch wires e.wire).available e.item
  | .output o =>
    match inst.outputs[o]? with
    | none => .ok 0
    | some e => do (← fetch wires e.wire).rooms e.item

/-- whether every listed port still has the listed availability -/
def unchanged (inst : Instance σ) (wires : List Connection) : List (PortId × Nat) → Checked Bool
  | [] => .ok true
  | (port, seen) :: rest => do
    if (← inst.availability wires port) = seen then inst.unchanged wires rest else return false

/-- whether the instance waits and nothing it waits for has changed -/
def stillBlocked (inst : Instance σ) (wires : List Connection) : Checked Bool :=
  match inst.waiting with
  | some (p :: ports) => inst.unchanged wires (p :: ports)
  | _ => .ok false

def openPorts (inst : Instance σ) (wires : List Connection) : Checked Ports := do
  let inputs ← Ports.openAll (fun c e => .ok (c.openInput e)) wires inst.inputs
  let outputs ← Ports.openAll Connection.openOutput wires inst.outputs
  return { wires, inputs, outputs }

def closePorts (inst : Instance σ) (ports : Ports) : List Connection × Instance σ :=
  let (wires, inputs) := Ports.closeAll Connection.closeInput ports.wires inst.inputs ports.inputs
  let (wires, outputs) := Ports.closeAll Connection.closeOutput wires inst.outputs ports.outputs
  (wires, { inst with inputs, outputs })

/-- the ports an exit waits for, with what the actor left there -/
def waitList (ports : Ports) : Exit → Option (List (PortId × Nat))
  | .block blocked => some (blocked.map fun b => (b.port, ports.left b.port))
  | _ => none

def book (inst : Instance σ) (exit : Exit) (waiting : Option (List (PortId × Nat))) (firing : Firing) : Instance σ :=
  { inst with
    stats := { inst.stats with attempts := inst.stats.attempts + 1, firings := inst.stats.firings + firing.fired }
    lastExit := some exit.kind
    waiting
    terminated := inst.terminated || exit == .terminate }

/-- closes the ports of a call and books it; a call that faulted publishes what it moved and is not booked -/
def settle (inst : Instance σ) (turn : Turn σ) : List Connection × Instance σ × Checked Attempt :=
  let (wires, closed) := { inst with actor := turn.actor }.closePorts turn.ports
  match turn.exit with
  | .error f => (wires, closed, .error f)
  | .ok exit =>
    (wires, closed.book exit (waitList turn.ports exit) turn.ports.firing, .ok (.ran exit turn.ports.firing))

/-- offers the instance one call with at most `maxLoops` firings -/
def attempt [Behaviour σ] (inst : Instance σ) (wires : List Connection) (maxLoops : Nat) :
    List Connection × Instance σ × Checked Attempt :=
  if inst.terminated then
    (wires, inst, .ok .skipped)
  else
    match inst.stillBlocked wires with
    | .error f => (wires, inst, .error f)
    | .ok true =>
      (wires, { inst with stats := { inst.stats with skipped := inst.stats.skipped + 1 } }, .ok .skipped)
    | .ok false =>
      match inst.openPorts wires with
      | .error f => (wires, inst, .error f)
      | .ok ports => inst.settle (Behaviour.act maxLoops inst.actor ports)

end Instance

end Dataflow
