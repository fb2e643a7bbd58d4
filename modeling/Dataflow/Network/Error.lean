import Dataflow.Actor.Interface
import Dataflow.Actor.Params
import Dataflow.Channel.Error
import Dataflow.Network.MappingDocument

/-!
What can go wrong when a network is described, built or run.
-/

namespace Dataflow

inductive NetworkError where
  | channel (e : ChannelError)
  | actor (e : ActorError)
  | duplicateInstance (name : String)
  | unknownInstance (name : String)
  | unknownPort (inst port : String) (direction : Direction)
  | duplicateConnection (inst port : String)
  | unconnected (inst port : String) (direction : Direction)
  | tokenSizeMismatch (source target : String) (sourceSize targetSize : Nat)
  /-- a mapping file that cannot be read, and why -/
  | mappingFile (path reason : String)
  | mapping (e : MappingError)
  | partitionFaulted (name : String)
deriving DecidableEq, Repr

def NetworkError.message : NetworkError → String
  | channel e => "channel error: " ++ e.message
  | actor e => "actor error: " ++ e.message
  | duplicateInstance name => s!"instance `{name}` declared twice"
  | unknownInstance name => s!"unknown instance `{name}`"
  | unknownPort inst port direction => s!"instance `{inst}` has no " ++ direction.word ++ s!" port `{port}`"
  | duplicateConnection inst port => s!"input `{inst}.{port}` connected more than once"
  | unconnected inst port direction => direction.word ++ s!" `{inst}.{port}` is not connected"
  | tokenSizeMismatch source target sourceSize targetSize =>
    s!"token size mismatch on {source} -> {target}: {sourceSize} vs {targetSize} bytes"
  | mappingFile path reason => s!"cannot read mapping file `{path}`: {reason}"
  | mapping e => "invalid mapping file: " ++ e.message
  | partitionFaulted name => s!"partition `{name}` panicked"

/-- the error that a network error wraps, if it wraps one -/
def NetworkError.cause? : NetworkError → Option String
  | channel e => some e.message
  | actor e => some e.message
  | mappingFile _ reason => some reason
  | _ => none

end Dataflow
