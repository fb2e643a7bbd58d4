import Dataflow.Actor.Script
import Dataflow.Actor.Stock
import Dataflow.Bridge.Link
import Dataflow.Device.Accelerator

/-!
The actors at hand, as one type: the stock actors, bridges over a simulated accelerator, and scripted actors.
-/

namespace Dataflow

abbrev StockBridge := Bridge (Accelerator StockKernel)

inductive Component where
  | source (s : Source)
  | scale (s : Scale)
  | sink (s : Sink)
  | bridge (b : StockBridge)
  | script (s : Script)

namespace Component

def interface : Component → Interface
  | .source _ => Source.interface
  | .scale _ => Scale.interface
  | .sink _ => Sink.interface
  | .bridge b => b.interface
  | .script s => s.interface

def act (maxLoops : Nat) (c : Component) (ports : Ports) : Turn Component :=
  match c with
  | .source s => (s.act maxLoops ports).map .source
  | .scale s => (s.act maxLoops ports).map .scale
  | .sink s => (s.act maxLoops ports).map .sink
  | .bridge b => (b.act maxLoops ports).map .bridge
  | .script s => (s.act maxLoops ports).map .script

def profile? : Component → Option LinkProfile
  | .bridge b => some b.profile
  | _ => none

def sink? : Component → Option Sink
  | .sink s => some s
  | _ => none

def script? : Component → Option Script
  | .script s => some s
  | _ => none

end Component

instance : Behaviour Component := ⟨Component.interface, Component.act⟩

end Dataflow
