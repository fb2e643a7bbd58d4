/-!
What a device command, or the bridge that issues it, can fail with.
-/

namespace Dataflow

inductive DeviceError where
  | invalidBuffer (id : Nat)
  | outOfRange (offset length size : Nat)
  | invalidPort (port reason : String)
  | disconnected
  | commandFailed (reason : String)
  | badIndex (port : String) (index capacity : Nat)
deriving DecidableEq, Repr

def DeviceError.message : DeviceError → String
  | invalidBuffer id => s!"invalid buffer handle {id}"
  | outOfRange offset length size =>
    s!"transfer of {length} bytes at offset {offset} exceeds buffer of {size} bytes"
  | invalidPort port reason => s!"port `{port}`: {reason}"
  | disconnected => "device worker disconnected"
  | commandFailed reason => s!"device command failed: {reason}"
  | badIndex port index capacity =>
    s!"port `{port}` received index {index} from device for capacity {capacity}"

end Dataflow
