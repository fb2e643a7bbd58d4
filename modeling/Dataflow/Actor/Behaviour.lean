import Dataflow.Actor.Interface
import Dataflow.Actor.Ports

/-!
An actor is a state with an interface and a scheduler. One call of the scheduler gets the open ports and the most
firings it may make. A call that faults leaves the state and the ports as they were at that moment.
-/

namespace Dataflow

/-- what one call leaves behind -/
structure Turn (σ : Type) where
  actor : σ
  ports : Ports
  exit : Checked Exit

/-- actors with states of type `σ` -/
class Behaviour (σ : Type) where
  interface : σ → Interface
  /-- one call with at most the given number of firings -/
  act : Nat → σ → Ports → Turn σ

namespace Turn

def map {σ τ : Type} (f : σ → τ) (t : Turn σ) : Turn τ := ⟨f t.actor, t.ports, t.exit⟩

end Turn

end Dataflow
