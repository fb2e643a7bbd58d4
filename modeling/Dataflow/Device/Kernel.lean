import Dataflow.Block
import Dataflow.Device.Command
import Dataflow.Ring.Indices

/-!
A kernel's view of the rings named by one launch. Reads advance a private copy of each input tail, writes a private copy
of each output head; both are published to the index words when the kernel returns without an error.
-/

namespace Dataflow

/-- the rings of one launch -/
structure KernelView where
  buffers : Array Block
  args : KernelArgs
  /-- input tails as the kernel has advanced them -/
  tails : List Nat
  /-- output heads as the kernel has advanced them -/
  heads : List Nat

namespace KernelView

def start (buffers : Array Block) (args : KernelArgs) : KernelView :=
  ⟨buffers, args, args.inputs.map (·.tail), args.outputs.map (·.head)⟩

def buffer (k : KernelView) (id : BufferId) : Except (Stop DeviceError) Block :=
  match k.buffers[id]? with
  | some b => .ok b
  | none => .error (.error (.invalidBuffer id))

/-- bytes of one token of a ring -/
def tokenSize (k : KernelView) (ring : PortArgs) : Except (Stop DeviceError) Nat := do
  let storage ← k.buffer ring.data
  Word.quot storage.size ring.capacity

/-- tokens that an input still holds -/
def inputAvailable (k : KernelView) (port : Nat) : Checked Nat := do
  let ring ← fetch k.args.inputs port
  Indices.occupied ring.head (← fetch k.tails port) ring.capacity

/-- free slots of an output -/
def outputSpace (k : KernelView) (port : Nat) : Checked Nat := do
  let ring ← fetch k.args.outputs port
  Indices.freeSpace (← fetch k.heads port) ring.tail ring.capacity

def inputTokenSize (k : KernelView) (port : Nat) : Except (Stop DeviceError) Nat := do
  k.tokenSize (← fetch k.args.inputs port)

def outputTokenSize (k : KernelView) (port : Nat) : Except (Stop DeviceError) Nat := do
  k.tokenSize (← fetch k.args.outputs port)

/-- consumes up to `n` tokens of an input -/
def readInput (k : KernelView) (port n : Nat) : Except (Stop DeviceError) (Bytes × KernelView) := do
  let ring ← fetch k.args.inputs port
  let n := min n (← k.inputAvailable port)
  let size ← k.tokenSize ring
  let start ← fetch k.tails port
  let stop ← Indices.advance start n ring.capacity
  let storage ← k.buffer ring.data
  let runs ← (← Indices.span start stop ring.capacity).byteRanges size
  let bytes ← storage.readRuns runs
  return (bytes, { k with tails := k.tails.set port stop })

/-- appends whole tokens to an output, as many as fit -/
def writeOutput (k : KernelView) (port : Nat) (bytes : Bytes) : Except (Stop DeviceError) (Nat × KernelView) := do
  let ring ← fetch k.args.outputs port
  let size ← k.tokenSize ring
  let n := min (Word.low32 (← Word.quot bytes.length size)) (← k.outputSpace port)
  let start ← fetch k.heads port
  let stop ← Indices.advance start n ring.capacity
  let storage ← k.buffer ring.data
  let runs ← (← Indices.span start stop ring.capacity).byteRanges size
  let storage ← storage.writeRuns runs bytes
  return (n, { k with buffers := k.buffers.setIfInBounds ring.data storage, heads := k.heads.set port stop })

/-- writes indices to their words, one after the other -/
def publishWords : List (PortArgs × Nat) → Step DeviceError KernelView Unit
  | [] => pure ()
  | (ring, index) :: rest => do
    let k ← get
    let word ← k.buffer ring.index
    if word.size < 4 then
      Step.fail (.outOfRange 0 4 word.size)
    set { k with buffers := k.buffers.setIfInBounds ring.index (word.store 0 (Bytes.ofNat 4 index)) }
    publishWords rest

/-- publishes the new tails and heads -/
def publish : Step DeviceError KernelView Unit := do
  let k ← get
  publishWords (k.args.inputs.zip k.tails ++ k.args.outputs.zip k.heads)

end KernelView

/-- kernels with states of type `κ` -/
class Kernel (κ : Type) where
  run : Step DeviceError (κ × KernelView) Unit

end Dataflow
