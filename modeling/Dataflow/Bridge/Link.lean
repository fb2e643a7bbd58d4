import Dataflow.Actor.Behaviour
import Dataflow.Bridge.Profile

/-!
The bridge: an actor that moves tokens between its ports and the rings of an accelerator.

It goes round three phases. In `init` it hands read-back output on and, while the device has room for output, stages new
input, launches the kernel and asks for the indices that the kernel publishes. It launches again for input that is still
on the device, or after a call that filled an output, unless the call before moved nothing and nothing has changed
since. In `pollKernel` it waits for the indices, books what was consumed and starts to read back what was produced. In
`pollRead` it waits for those reads, hands tokens on and returns to `init`.

No call waits for the device, and one call launches the kernel at most once. After a failure the bridge terminates and
does nothing more.
-/

namespace Dataflow

structure Bridge (δ : Type) where
  name : String
  device : δ
  inputs : List BridgePort
  outputs : List BridgePort
  phase : LinkPhase := .init
  /-- the last call filled an output, so the kernel may have more to give -/
  shouldRetry : Bool := false
  /-- the last call moved nothing and nothing has been handed on since -/
  stalled : Bool := false
  /-- the launch in flight -/
  kernel : Option EventId := none
  /-- launches so far -/
  callIndex : Nat := 0
  failed : Bool := false
  profile : LinkProfile

inductive BridgeAction where
  | freeUp
  | startKernel
  | updateIndices
  | collect
deriving DecidableEq, Repr

def BridgeAction.number : BridgeAction → Nat
  | .freeUp => 0
  | .startKernel => 1
  | .updateIndices => 2
  | .collect => 3

namespace Bridge

def className : String := "PLink"

variable {δ : Type} [Device δ]

def interface (b : Bridge δ) : Interface :=
  { name := className
    inputs := b.inputs.map fun p => ⟨p.spec.name, p.spec.tokenSize⟩
    outputs := b.outputs.map fun p => ⟨p.spec.name, p.spec.tokenSize⟩ }

/-- reserves device rings for every port and starts in `init` -/
def create (name : String) (device : δ) (inputs outputs : List LinkPort) : Except (Stop DeviceError) (Bridge δ) :=
  let rings : Step DeviceError δ (List BridgePort × List BridgePort) := do
    let inputs ← inputs.mapM BridgePort.allocate
    let outputs ← outputs.mapM BridgePort.allocate
    return (inputs, outputs)
  match rings.exec device with
  | (.error stop, _) => .error stop
  | (.ok (inputs, outputs), device) =>
    .ok { name, device, inputs, outputs
          profile := { name, visits := { init := 1 }, ports := LinkProfile.freshPorts inputs outputs } }

/-! ### Conditions -/

/-- whether a test holds at some index of a list, from `i` on -/
def anyIndexed {α : Type} (test : Nat → α → Checked Bool) : Nat → List α → Checked Bool
  | _, [] => .ok false
  | i, a :: rest => do
    if ← test i a then return true else anyIndexed test (i + 1) rest

/-- whether read-back output can be handed on -/
def canWriteToOutput (b : Bridge δ) (ports : Ports) : Checked Bool :=
  anyIndexed (fun o port => do
    if (← port.hostPending) = 0 then return false else return (← ports.availableOut o) ≠ 0) 0 b.outputs

/-- tokens of an input that can be staged -/
def stageable (port : BridgePort) (ports : Ports) (i : Nat) : Checked Nat := do
  return min (← ports.availableIn i) (← port.hostFree)

/-- whether new input can be staged -/
def canSendInput (b : Bridge δ) (ports : Ports) : Checked Bool :=
  anyIndexed (fun i port => do return (← stageable port ports i) ≠ 0) 0 b.inputs

/-- whether the device has room for output somewhere, or there is none to make -/
def hasOutputSpace (b : Bridge δ) : Checked Bool :=
  if b.outputs.isEmpty then .ok true
  else anyIndexed (fun _ port => do return (← port.deviceFree) ≠ 0) 0 b.outputs

/-- whether staged input has not been consumed yet -/
def inputOnDevice (b : Bridge δ) : Checked Bool :=
  anyIndexed (fun _ port => do return (← port.hostPending) ≠ 0) 0 b.inputs

/-- whether a launch is worth while -/
def shouldStart (b : Bridge δ) (ports : Ports) : Checked Bool := do
  if !(← b.hasOutputSpace) then
    return false
  if ← b.canSendInput ports then
    return true
  if b.stalled then
    return false
  if b.shouldRetry then
    return true
  b.inputOnDevice

/-! ### Steps -/

/-- an operation on a bridge and its open ports -/
abbrev Op (δ α : Type) := Step DeviceError (Bridge δ × Ports) α

def theBridge : Op δ (Bridge δ) := return (← get).1

def thePorts : Op δ Ports := return (← get).2

def change (f : Bridge δ → Bridge δ) : Op δ Unit := modify fun s => (f s.1, s.2)

def onDevice {α : Type} (m : Step DeviceError δ α) : Op δ α :=
  Step.zoom (·.1.device) (fun s device => ({ s.1 with device }, s.2)) m

def poll (event : EventId) : Op δ EventStatus := onDevice (liftM (Device.poll event : StateM δ EventStatus))

/-- an operation on one port and the device; the new port goes back to its place -/
def onPort {α : Type} (port : BridgePort) (put : Bridge δ → BridgePort → Bridge δ) (m : BridgePort.Op δ α) : Op δ α :=
  Step.zoom (fun s => (port, s.1.device)) (fun s (port, device) => (put { s.1 with device } port, s.2)) m

def onInput {α : Type} (i : Nat) (m : BridgePort.Op δ α) : Op δ α := do
  let port ← fetch (← theBridge).inputs i
  onPort port (fun b port => { b with inputs := b.inputs.set i port }) m

def onOutput {α : Type} (o : Nat) (m : BridgePort.Op δ α) : Op δ α := do
  let port ← fetch (← theBridge).outputs o
  onPort port (fun b port => { b with outputs := b.outputs.set o port }) m

def enter (next : LinkPhase) : Op δ Unit :=
  change fun b => { b with phase := next, profile := b.profile.enter b.phase next }

/-- hands on what one output has staged, as far as there is room -/
def freeUp (o : Nat) : Op δ Unit := do
  let room ← (← thePorts).availableOut o
  let bytes ← onOutput o (do
    let (bytes, port) ← (← BridgePort.thePort).unstage room
    BridgePort.putPort port
    return bytes)
  if !bytes.isEmpty then
    let ports ← (← thePorts).writeBytes o bytes
    modify fun s => ({ s.1 with stalled := false }, ports)

/-- hands on what all outputs have staged -/
def freeUpOutputs : Op δ Unit := do
  (List.range (← theBridge).outputs.length).forM freeUp

/-- stages what one input holds and pushes it to the device -/
def sendInput (i : Nat) : Op δ Unit := do
  let ports ← thePorts
  let port ← fetch (← theBridge).inputs i
  let n ← stageable port ports i
  if n ≠ 0 then
    let (bytes, ports) ← ports.readBytes i (← Word.mul64 n port.spec.tokenSize)
    modify fun s => (s.1, ports)
    onInput i (do
      let (start, port) ← (← BridgePort.thePort).stage bytes
      BridgePort.putPort port
      let _ ← BridgePort.writeToDevice start port.host.head)
  onInput i (do BridgePort.putPort (← BridgePort.thePort).publishHead)

/-- sends input, launches the kernel and asks for its indices -/
def startKernel : Op δ Unit := do
  change fun b => { b with shouldRetry := false }
  let b ← theBridge
  (List.range b.inputs.length).forM sendInput
  let b ← theBridge
  let kernel ← onDevice (Device.submit
    (.launch ⟨b.inputs.map BridgePort.kernelArgs, b.outputs.map BridgePort.kernelArgs⟩))
  (List.range b.inputs.length).forM fun i => onInput i BridgePort.requestIndex
  (List.range b.outputs.length).forM fun o => onOutput o BridgePort.requestIndex
  change fun b =>
    { b with kernel := some kernel, callIndex := b.callIndex + 1
             profile := { b.profile with kernelCalls := b.callIndex + 1 } }

/-- whether a test answers yes for all these numbers, asked in order up to the first no -/
def allOf (test : Nat → Op δ Bool) : List Nat → Op δ Bool
  | [] => return true
  | i :: rest => do
    if ← test i then allOf test rest else return false

/-- whether the launch is over and its indices and input transfers have arrived -/
def kernelFinished : Op δ Bool := do
  let b ← theBridge
  match b.kernel with
  | none => return false
  | some event =>
    if !(← poll event).isComplete then
      return false
    let inputsReady ← allOf
      (fun i => onInput i (do if ← BridgePort.indexReady then BridgePort.transfersDone else return false))
      (List.range b.inputs.length)
    if !inputsReady then
      return false
    allOf (fun o => onOutput o BridgePort.indexReady) (List.range b.outputs.length)

/-- books what one input's kernel consumed -/
def bookInput (i : Nat) : Op δ Nat :=
  onInput i (do
    let tail ← BridgePort.takeIndex
    BridgePort.retireTransfers
    let (consumed, port) ← (← BridgePort.thePort).acceptTail tail
    BridgePort.putPort port
    return consumed)

/-- books what one output's kernel produced and starts to read it back -/
def bookOutput (o : Nat) : Op δ Nat := do
  let (produced, free) ← onOutput o (do
    let head ← BridgePort.takeIndex
    let produced ← BridgePort.acceptHead head
    return (produced, ← (← BridgePort.thePort).deviceFree))
  if free = 0 then
    change fun b => { b with shouldRetry := true }
  return produced

/-- books a finished launch -/
def updateIndices : Op δ Unit := do
  let b ← theBridge
  let consumed ← (List.range b.inputs.length).mapM bookInput
  let produced ← (List.range b.outputs.length).mapM bookOutput
  let record : CallRecord := ⟨b.callIndex, consumed, produced⟩
  change fun b =>
    { b with kernel := none, stalled := record.isIdle, profile := b.profile.finish b.inputs b.outputs record }

def readsFinished : Op δ Bool := do
  allOf (fun o => onOutput o BridgePort.transfersDone) (List.range (← theBridge).outputs.length)

/-- lands the read-backs and hands on what it can -/
def collect : Op δ Unit := do
  (List.range (← theBridge).outputs.length).forM fun o => onOutput o BridgePort.retireTransfers
  freeUpOutputs

/-- fails if the command in flight on one of these ports has failed -/
def guardPorts (onNumber : Nat → BridgePort.Op δ Bool → Op δ Bool) (names : List String) : Op δ Unit :=
  (names.zipIdx).forM fun (name, i) => do
    if ← onNumber i BridgePort.hasFailure then
      Step.fail (.commandFailed s!"transfer on port `{name}` failed")

/-- fails if the launch or any transfer in flight has failed -/
def guardFailures : Op δ Unit := do
  let b ← theBridge
  if let some event := b.kernel then
    if (← poll event).hasFailed then
      Step.fail (.commandFailed "kernel launch failed")
  guardPorts onInput (b.inputs.map (·.spec.name))
  guardPorts onOutput (b.outputs.map (·.spec.name))

/-- one step; answers the action taken, if any -/
def step (mayLaunch : Bool) : Op δ (Option BridgeAction) := do
  guardFailures
  let (b, ports) ← get
  match b.phase with
  | .init =>
    if ← b.canWriteToOutput ports then
      freeUpOutputs
      return some .freeUp
    if !mayLaunch then
      return none
    if ← b.shouldStart ports then
      startKernel
      enter .pollKernel
      return some .startKernel
    return none
  | .pollKernel =>
    if ← kernelFinished then
      updateIndices
      enter .pollRead
      return some .updateIndices
    return none
  | .pollRead =>
    if ← readsFinished then
      collect
      enter .init
      return some .collect
    return none

/-! ### Calls -/

/-- the outputs, from index `o` on, that wait for room downstream -/
def stuckOutputs (ports : Ports) : Nat → List BridgePort → Checked (List Blocked)
  | _, [] => .ok []
  | o, port :: rest => do
    let stuck ← if (← port.hostPending) = 0 then pure false else pure ((← ports.availableOut o) = 0)
    let more ← stuckOutputs ports (o + 1) rest
    return if stuck then ⟨.output o, 1⟩ :: more else more

/-- the exit of a call that found nothing to do -/
def idleExit (b : Bridge δ) (ports : Ports) : Checked Exit := do
  let inputs := (List.range b.inputs.length).map fun i => (⟨.input i, 1⟩ : Blocked)
  return .block (inputs ++ (← stuckOutputs ports 0 b.outputs))

/-- the exit of a call that ran out of steps -/
def restingExit (b : Bridge δ) (ports : Ports) (fired : Nat) : Checked Exit :=
  if b.phase = .init ∧ fired = 0 then b.idleExit ports else .ok .yield

/-- the steps of one call -/
def stepLoop : Nat → Nat → Bool → Bridge δ → Ports → Turn (Bridge δ)
  | 0, fired, _, b, ports => ⟨b, ports, b.restingExit ports fired⟩
  | n + 1, fired, mayLaunch, b, ports =>
    match (step mayLaunch).exec (b, ports) with
    | (.ok (some action), b, ports) =>
      stepLoop n (fired + 1) (mayLaunch && action != .startKernel) b (ports.fire action.number)
    | (.ok none, b, ports) => ⟨b, ports, b.restingExit ports fired⟩
    | (.error (.error _), b, ports) => ⟨{ b with failed := true }, ports, .ok .terminate⟩
    | (.error (.fault f), b, ports) => ⟨b, ports, .error f⟩

def act (maxLoops : Nat) (b : Bridge δ) (ports : Ports) : Turn (Bridge δ) :=
  if b.failed then ⟨b, ports, .ok .terminate⟩ else stepLoop maxLoops 0 true b ports

end Bridge

instance {δ : Type} [Device δ] : Behaviour (Bridge δ) := ⟨Bridge.interface, Bridge.act⟩

end Dataflow
