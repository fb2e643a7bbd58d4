import Dataflow.Actor.Params
import Dataflow.Network.Component

/-!
Actors made by class name and parameters.

The stock classes are `Source` (`count`, `start`), `Scale` (`factor`) and `Sink` (`limit`). The bridge class makes an
echo bridge over a simulated accelerator; its parameters are `name`, `token_size`, `depth`, `per_call`, `threaded` and
`latency_us`.
-/

namespace Dataflow

/-- makes an actor from parameters -/
abbrev Recipe := Environment → Params → Except (Stop ActorError) Component

instance : MonadLift (Except ActorError) (Except (Stop ActorError)) where
  monadLift x := x.mapError Stop.error

/-- recipes by class name -/
structure Registry where
  recipes : Std.TreeMap String Recipe compare := ∅

namespace Registry

def source : Recipe := fun env params => do
  let count ← params.read env Text.word32? "count"
  let start ← params.readD env Text.int32? "start" 0
  return .source { feed := .range start count }

def sink : Recipe := fun env params => do
  return .sink { limit := ← params.read? env Text.word64? "limit" }

def scale : Recipe := fun env params => do
  return .scale ⟨← params.readD env Text.int32? "factor" 1⟩

/-- an echo bridge with rings of `depth` tokens that echoes at most `perCall` tokens per launch -/
def makeBridge (name : String) (tokenSize depth perCall : Nat) (threaded : Bool) : Except (Stop ActorError) Component :=
  let device := Accelerator.create (.echo perCall) (if threaded then .worker true else .immediate)
  match Bridge.create name device [⟨"in", tokenSize, depth⟩] [⟨"out", tokenSize, depth⟩] with
  | .ok bridge => .ok (.bridge bridge)
  | .error stop => .error (stop.map fun e => .construction Bridge.className e.message)

def echoBridge : Recipe := fun env params => do
  let name := (← params.get? env "name").getD "plink"
  let tokenSize ← params.readD env Text.word64? "token_size" 4
  let depth ← params.readD env Text.word32? "depth" 64
  let perCall ← params.readD env Text.word32? "per_call" Word.max32
  let threaded ← params.readD env Text.bool? "threaded" true
  let _ ← params.readD env Text.word64? "latency_us" 0
  makeBridge name tokenSize depth perCall threaded

def register (r : Registry) (className : String) (recipe : Recipe) : Registry :=
  ⟨r.recipes.insert className recipe⟩

def stock : Registry :=
  ((({} : Registry).register "Source" source).register "Sink" sink).register "Scale" scale

def withBridge (r : Registry) : Registry := r.register Bridge.className echoBridge

def classes (r : Registry) : List String := r.recipes.keys

def contains (r : Registry) (className : String) : Bool := r.recipes.contains className

def create (r : Registry) (env : Environment) (className : String) (params : Params) :
    Except (Stop ActorError) Component :=
  match r.recipes.get? className with
  | none => .error (.error (.unknownClass className))
  | some recipe => recipe env params

end Registry

end Dataflow
