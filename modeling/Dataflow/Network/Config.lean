import Dataflow.Channel.Connection
import Dataflow.Json.Reader

/-!
Settings of a run. As JSON every field is optional, and the fields may also be listed in order in an array.
-/

namespace Dataflow

structure RunConfig where
  /-- firings that one call may make -/
  loopMax : Nat := Word.max32
  /-- time without progress, in milliseconds, that counts as a stall -/
  stallTimeout : Nat := 1000
  /-- passes after which a run ends -/
  maxPasses : Option Nat := none
  /-- depth of connections that ask for none -/
  defaultDepth : Nat := Connection.defaultDepth
  /-- ignores the depths of a mapping -/
  useDefaultDepth : Bool := false
deriving DecidableEq, Repr

namespace RunConfig

/-- names of the fields in JSON, in order -/
def fieldNames : List String := ["loop_max", "stall_timeout_ms", "max_passes", "default_depth", "use_default_depth"]

def ofJson? (v : JsonValue) : Option RunConfig := do
  let fields ← v.fields? fieldNames
  let defaults : RunConfig := {}
  let word := JsonValue.nat? Word.max64
  return {
    loopMax := ← JsonValue.fieldD? fields "loop_max" (JsonValue.nat? Word.max32) defaults.loopMax
    stallTimeout := ← JsonValue.fieldD? fields "stall_timeout_ms" word defaults.stallTimeout
    maxPasses := ← JsonValue.fieldD? fields "max_passes" (JsonValue.nullable? word) defaults.maxPasses
    defaultDepth := ← JsonValue.fieldD? fields "default_depth" word defaults.defaultDepth
    useDefaultDepth := ← JsonValue.fieldD? fields "use_default_depth" JsonValue.bool? defaults.useDefaultDepth }

def parse? (text : String) : Option RunConfig := do ofJson? (← JsonValue.parse? text)

def toJson (c : RunConfig) : JsonValue :=
  .object
    [("loop_max", .nat c.loopMax), ("stall_timeout_ms", .nat c.stallTimeout),
      ("max_passes", .ofOption .nat c.maxPasses), ("default_depth", .nat c.defaultDepth),
      ("use_default_depth", .bool c.useDefaultDepth)]

end RunConfig

end Dataflow
