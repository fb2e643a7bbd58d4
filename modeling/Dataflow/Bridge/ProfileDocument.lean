import Dataflow.Bridge.Profile
import Dataflow.Json.Reader

/-!
Bridge profiles as a JSON document, and bridge ports read from JSON.
-/

namespace Dataflow

namespace LinkProfile

def portJson (p : PortProfile) : JsonValue :=
  .object
    [("name", .string p.name), ("direction", .string p.direction.word), ("bytes", .nat p.bytes),
      ("transfers", .nat p.transfers), ("tokens", .nat p.tokens)]

def callJson (r : CallRecord) : JsonValue :=
  .object [("call", .nat r.call), ("consumed", .ofList .nat r.consumed), ("produced", .ofList .nat r.produced)]

def visitsJson (v : PhaseVisits) : JsonValue :=
  .object [("init", .nat v.init), ("poll_kernel", .nat v.pollKernel), ("poll_read", .nat v.pollRead)]

def toJson (l : LinkProfile) : JsonValue :=
  .object
    [("name", .string l.name), ("kernel_calls", .nat l.kernelCalls), ("cycles", .nat l.cycles),
      ("visits", visitsJson l.visits), ("ports", .ofList portJson l.ports), ("idle_calls", .nat l.idleCalls),
      ("calls", .ofList callJson l.calls)]

def document (profiles : List LinkProfile) : String := (JsonValue.ofList toJson profiles).pretty

end LinkProfile

namespace LinkPort

/-- names of the fields in JSON, in order -/
def fieldNames : List String := ["name", "token_size", "capacity"]

/-- a port from a JSON text; every field has to be there -/
def parse? (text : String) : Option LinkPort := do
  let fields ← (← JsonValue.parse? text).fields? fieldNames
  return {
    name := ← JsonValue.field? fields "name" JsonValue.string?
    tokenSize := ← JsonValue.field? fields "token_size" (JsonValue.nat? Word.max64)
    capacity := ← JsonValue.field? fields "capacity" (JsonValue.nat? Word.max32) }

def toJson (p : LinkPort) : JsonValue :=
  .object [("name", .string p.name), ("token_size", .nat p.tokenSize), ("capacity", .nat p.capacity)]

end LinkPort

end Dataflow
