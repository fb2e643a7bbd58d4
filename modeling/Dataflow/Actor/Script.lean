import Dataflow.Actor.Behaviour

/-!
An actor that follows a prepared script, one step per call, whatever number of firings it is allowed. It stands in for
arbitrary actors on the bench and in networks.
-/

namespace Dataflow

/-- one call of a scripted actor -/
structure ScriptStep where
  /-- tokens each input must hold -/
  need : List Nat := []
  /-- free slots each output must have -/
  room : List Nat := []
  /-- tokens to read, by input -/
  take : List Nat := []
  /-- bytes to write, by output -/
  put : List Bytes := []
  /-- actions to fire -/
  fire : List Nat := []
  /-- aborts instead of moving anything -/
  aborts : Bool := false
  exit : Exit := .yield
deriving DecidableEq, Repr

structure Script where
  interface : Interface
  steps : List ScriptStep
  /-- the exit once no step is left -/
  rest : Exit
  /-- what was read: input and bytes -/
  received : Array (Nat × Bytes) := #[]
deriving DecidableEq, Repr

namespace Script

/-- the ports, from index `i` on, that hold less than is asked for -/
def lacking (available : Nat → Checked Nat) (port : Nat → PortId) : Nat → List Nat → Checked (List Blocked)
  | _, [] => .ok []
  | i, n :: rest => do
    let have_ ← available i
    let more ← lacking available port (i + 1) rest
    return if have_ < n then ⟨port i, n⟩ :: more else more

/-- reads from the inputs, from index `i` on -/
def takeFrom : Nat → List Nat → Script → Ports → Script × Ports × Checked Unit
  | _, [], s, ports => (s, ports, .ok ())
  | i, n :: rest, s, ports =>
    let size := (s.interface.inputs[i]?.map (·.tokenSize)).getD 0
    match ports.readBytes i (n * size) with
    | .error f => (s, ports, .error f)
    | .ok (bytes, ports) =>
      takeFrom (i + 1) rest (if bytes.isEmpty then s else { s with received := s.received.push (i, bytes) }) ports

/-- writes to the outputs, from index `o` on -/
def putTo : Nat → List Bytes → Ports → Ports × Checked Unit
  | _, [], ports => (ports, .ok ())
  | o, bytes :: rest, ports =>
    match ports.writeBytes o bytes with
    | .error f => (ports, .error f)
    | .ok ports => putTo (o + 1) rest ports

/-- moves the tokens of one step and fires its actions -/
def perform (step : ScriptStep) (s : Script) (ports : Ports) : Turn Script :=
  match takeFrom 0 step.take s ports with
  | (s, ports, .error f) => ⟨s, ports, .error f⟩
  | (s, ports, .ok _) =>
    match putTo 0 step.put ports with
    | (ports, .error f) => ⟨s, ports, .error f⟩
    | (ports, .ok _) => ⟨s, step.fire.foldl Ports.fire ports, .ok step.exit⟩

/-- the ports that keep a step from running -/
def obstacles (step : ScriptStep) (ports : Ports) : Checked (List Blocked) := do
  let inputs ← lacking ports.availableIn .input 0 step.need
  let outputs ← lacking ports.availableOut .output 0 step.room
  return inputs ++ outputs

def act (_ : Nat) (s : Script) (ports : Ports) : Turn Script :=
  match s.steps with
  | [] => ⟨s, ports, .ok s.rest⟩
  | step :: steps =>
    match obstacles step ports with
    | .error f => ⟨s, ports, .error f⟩
    | .ok (b :: more) => ⟨s, ports, .ok (.block (b :: more))⟩
    | .ok [] =>
      if step.aborts then ⟨{ s with steps }, ports, .error .contract⟩ else perform step { s with steps } ports

end Script

instance : Behaviour Script := ⟨Script.interface, Script.act⟩

end Dataflow
