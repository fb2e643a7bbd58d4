import Dataflow.Device.Error
import Dataflow.Device.Event
import Dataflow.Token

/-!
The contract between the bridge and an accelerator. Commands are carried out in the order of submission; each returns at
once with an event. Polling is itself a step of the device, so a device may resolve events between any two polls.
-/

namespace Dataflow

abbrev BufferId := Nat

/-- what a kernel is told about one port -/
structure PortArgs where
  /-- token storage -/
  data : BufferId
  /-- the word that the kernel writes its new index to -/
  index : BufferId
  /-- ring capacity in tokens -/
  capacity : Nat
  head : Nat
  tail : Nat
deriving DecidableEq, Repr

/-- arguments of one launch -/
structure KernelArgs where
  inputs : List PortArgs
  outputs : List PortArgs
deriving DecidableEq, Repr

inductive Command where
  | write (buffer offset : Nat) (data : Bytes)
  | read (buffer offset length : Nat)
  | launch (args : KernelArgs)
deriving DecidableEq, Repr

/-- accelerators with states of type `δ` -/
class Device (δ : Type) where
  allocate : Nat → Step DeviceError δ BufferId
  submit : Command → Step DeviceError δ EventId
  poll : EventId → StateM δ EventStatus
  /-- takes what a finished read brought -/
  take : EventId → StateM δ (Option Bytes)

end Dataflow
