import Dataflow.Block
import Dataflow.Device.Command
import Dataflow.Ring.Indices

/-!
The host's side of one bridged port. A port has two pairs of indices: one for the staging ring on this side, and one for
what the device was last told or last reported. It owns two transfer slots, one for each part of a stretch that wraps,
and one slot for the index that the kernel publishes. A slot holds one command at a time.
-/

namespace Dataflow

/-- name and shape of a bridged port; the capacity is shared by the staging ring and the device ring -/
structure LinkPort where
  name : String
  tokenSize : Nat
  capacity : Nat
deriving DecidableEq, Repr

inductive Transfer where
  | toDevice (event : EventId)
  /-- lands in the staging ring from `slot` on -/
  | fromDevice (event : EventId) (slot : Nat)
deriving DecidableEq, Repr

def Transfer.event : Transfer → EventId
  | .toDevice event => event
  | .fromDevice event _ => event

/-- staging ring and device bookkeeping of one port -/
structure BridgePort where
  spec : LinkPort
  /-- device buffer of the tokens -/
  data : BufferId
  /-- device buffer of the published index -/
  index : BufferId
  staging : Block
  host : Indices := .zero
  device : Indices := .zero
  firstTransfer : Option Transfer := none
  secondTransfer : Option Transfer := none
  indexRead : Option EventId := none
  bytesMoved : Nat := 0
  transferCount : Nat := 0

inductive TransferSlot where
  | first
  | second
deriving DecidableEq, Repr

def TransferSlot.number : TransferSlot → Nat
  | .first => 0
  | .second => 1

/-- bytes of a published index -/
def indexBytes : Nat := 4

namespace BridgePort

/-! ### Indices -/

/-- free slots of the staging ring -/
def hostFree (p : BridgePort) : Checked Nat := Indices.freeSpace p.host.head p.host.tail p.spec.capacity

/-- staged tokens not handed on yet -/
def hostPending (p : BridgePort) : Checked Nat := Indices.occupied p.host.head p.host.tail p.spec.capacity

/-- free slots of the device ring as last reported -/
def deviceFree (p : BridgePort) : Checked Nat := Indices.freeSpace p.device.head p.device.tail p.spec.capacity

/-- what a kernel is told about the port -/
def kernelArgs (p : BridgePort) : PortArgs :=
  ⟨p.data, p.index, p.spec.capacity, p.device.head, p.device.tail⟩

/-- the byte intervals of the ring slots from `start` up to `stop` -/
def byteSpan (p : BridgePort) (start stop : Nat) : Checked (Interval × Interval) := do
  (← Indices.span start stop p.spec.capacity).byteRanges p.spec.tokenSize

/-- tells the device the head of the staging ring -/
def publishHead (p : BridgePort) : BridgePort := { p with device := { p.device with head := p.host.head } }

/-! ### The staging ring -/

/-- copies whole tokens into the staging ring; answers the head before -/
def stage (p : BridgePort) (bytes : Bytes) : Checked (Nat × BridgePort) := do
  let n := Word.low32 (bytes.length / p.spec.tokenSize)
  require (n ≤ (← p.hostFree))
  let head ← Indices.advance p.host.head n p.spec.capacity
  let staging ← p.staging.writeRuns (← p.byteSpan p.host.head head) bytes
  return (p.host.head, { p with staging, host := { p.host with head } })

/-- copies up to `max` staged tokens out; the device sees the freed slots -/
def unstage (p : BridgePort) (max : Nat) : Checked (Bytes × BridgePort) := do
  let n := min (← p.hostPending) max
  let tail ← Indices.advance p.host.tail n p.spec.capacity
  let bytes ← p.staging.readRuns (← p.byteSpan p.host.tail tail)
  return (bytes, { p with host := { p.host with tail }, device := { p.device with tail } })

/-- records an input tail that the kernel reported; answers the tokens it consumed -/
def acceptTail (p : BridgePort) (tail : Nat) : Checked (Nat × BridgePort) := do
  let consumed ← Indices.occupied tail p.device.tail p.spec.capacity
  return (consumed, { p with host := { p.host with tail }, device := ⟨p.host.head, tail⟩ })

/-! ### Transfer slots -/

def transfer (p : BridgePort) : TransferSlot → Option Transfer
  | .first => p.firstTransfer
  | .second => p.secondTransfer

def setTransfer (p : BridgePort) (slot : TransferSlot) (t : Option Transfer) : BridgePort :=
  match slot with
  | .first => { p with firstTransfer := t }
  | .second => { p with secondTransfer := t }

/-- puts a transfer into its slot, which has to be empty -/
def issue (p : BridgePort) (slot : TransferSlot) (t : Transfer) : Checked BridgePort :=
  match p.transfer slot with
  | some _ => .error (.slotInFlight p.spec.name slot.number)
  | none => .ok { p.setTransfer slot (some t) with transferCount := p.transferCount + 1 }

def transferEvents (p : BridgePort) : List EventId :=
  (p.firstTransfer.toList ++ p.secondTransfer.toList).map Transfer.event

/-! ### Commands -/

variable {δ : Type} [Device δ]

abbrev Op (δ α : Type) := Step DeviceError (BridgePort × δ) α

def thePort : Op δ BridgePort := return (← get).1

def putPort (p : BridgePort) : Op δ Unit := modify fun s => (p, s.2)

def onDevice {α : Type} (m : Step DeviceError δ α) : Op δ α := Step.zoom (·.2) (fun s d => (s.1, d)) m

def poll (event : EventId) : Op δ EventStatus := onDevice (liftM (Device.poll event : StateM δ EventStatus))

/-- reserves the device buffers of a port and its staging ring; a ring larger than the address space is a fault -/
def allocate (spec : LinkPort) : Step DeviceError δ BridgePort := do
  if spec.capacity < 2 then
    Step.fail (.invalidPort spec.name s!"capacity {spec.capacity} leaves no usable slot")
  if spec.tokenSize = 0 then
    Step.fail (.invalidPort spec.name "token size is zero")
  let bytes ← Word.mul64 spec.capacity spec.tokenSize
  let data ← Device.allocate bytes
  let index ← Device.allocate indexBytes
  if bytes > Word.signedMax64 then
    throw (.fault .overflow)
  return { spec, data, index, staging := Block.zeroed bytes }

/-- pushes one part of the staging ring to the device -/
def pushPart (slot : TransferSlot) (part : Interval) : Op δ (List EventId) := do
  if part.length = 0 then
    return []
  let p ← thePort
  let payload ← p.staging.read part.start part.length
  putPort { p with bytesMoved := p.bytesMoved + payload.length }
  let event ← onDevice (Device.submit (.write p.data part.start payload))
  putPort (← (← thePort).issue slot (.toDevice event))
  return [event]

/-- pushes the staging slots from `start` up to `stop` to the device; answers the events of the writes -/
def writeToDevice (start stop : Nat) : Op δ (List EventId) := do
  let (first, second) ← (← thePort).byteSpan start stop
  let firstEvents ← pushPart .first first
  let secondEvents ← pushPart .second second
  return firstEvents ++ secondEvents

/-- pulls one part of the device ring back -/
def pullPart (slot : TransferSlot) (part : Interval) : Op δ Unit := do
  if part.length = 0 then
    return ()
  let p ← thePort
  putPort { p with bytesMoved := p.bytesMoved + part.length }
  let event ← onDevice (Device.submit (.read p.data part.start part.length))
  putPort (← (← thePort).issue slot (.fromDevice event (Word.low32 (part.start / p.spec.tokenSize))))

/-- pulls the device slots from `start` up to `stop` back into the staging ring -/
def readFromDevice (start stop : Nat) : Op δ Unit := do
  let (first, second) ← (← thePort).byteSpan start stop
  pullPart .first first
  pullPart .second second

/-- asks for the index that the kernel publishes -/
def requestIndex : Op δ Unit := do
  let p ← thePort
  if p.indexRead.isSome then
    throw (.fault (.indexInFlight p.spec.name))
  let event ← onDevice (Device.submit (.read p.index 0 indexBytes))
  putPort { ← thePort with indexRead := some event }

/-- whether the index has arrived, or none was asked for -/
def indexReady : Op δ Bool := do
  match (← thePort).indexRead with
  | none => return true
  | some event => return (← poll event).isComplete

/-- takes the index that the kernel published -/
def takeIndex : Op δ Nat := do
  let p ← thePort
  match p.indexRead with
  | none => Step.fail (.commandFailed s!"port `{p.spec.name}` has no index read in flight")
  | some event =>
    putPort { p with indexRead := none }
    match ← onDevice (liftM (Device.take event : StateM δ (Option Bytes))) with
    | none => Step.fail (.commandFailed s!"index read of port `{p.spec.name}` failed")
    | some bytes =>
      if bytes.length < indexBytes then
        Step.fail (.commandFailed s!"short index read on port `{p.spec.name}`")
      let index := Bytes.toNat (bytes.take indexBytes)
      if p.spec.capacity ≤ index then
        Step.fail (.badIndex p.spec.name index p.spec.capacity)
      return index

/-- whether all these events are complete, asked in order up to the first that is not -/
def allComplete : List EventId → Op δ Bool
  | [] => return true
  | event :: rest => do
    if (← poll event).isComplete then allComplete rest else return false

/-- whether one of these events has failed, asked in order up to the first that has -/
def anyFailed : List EventId → Op δ Bool
  | [] => return false
  | event :: rest => do
    if (← poll event).hasFailed then return true else anyFailed rest

def transfersDone : Op δ Bool := do allComplete (← thePort).transferEvents

/-- whether a command in flight has failed -/
def hasFailure : Op δ Bool := do
  let p ← thePort
  anyFailed (p.transferEvents ++ p.indexRead.toList)

/-- empties a transfer slot; what was read lands in the staging ring -/
def retire (slot : TransferSlot) : Op δ Unit := do
  let p ← thePort
  let p' := p.setTransfer slot none
  putPort p'
  match p.transfer slot with
  | none | some (.toDevice _) => return ()
  | some (.fromDevice event start) =>
    match ← onDevice (liftM (Device.take event : StateM δ (Option Bytes))) with
    | none => Step.fail (.commandFailed s!"read-back on port `{p.spec.name}` failed")
    | some bytes =>
      let staging ← p'.staging.write (← Word.mul64 start p.spec.tokenSize) bytes
      putPort { p' with staging }

/-- empties both transfer slots -/
def retireTransfers : Op δ Unit := do
  retire .first
  retire .second

/-- records an output head that the kernel reported and starts to read the new tokens back; answers their number -/
def acceptHead (head : Nat) : Op δ Nat := do
  let p ← thePort
  let produced ← Indices.occupied head p.device.head p.spec.capacity
  readFromDevice p.device.head head
  let p ← thePort
  putPort { p with device := { p.device with head }, host := { p.host with head } }
  return produced

end BridgePort

end Dataflow
