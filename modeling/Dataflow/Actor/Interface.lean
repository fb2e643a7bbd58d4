/-!
What an actor shows to the outside: its class name and its ports, each with the size of its tokens.
-/

namespace Dataflow

inductive Direction where
  | input
  | output
deriving DecidableEq, Repr

def Direction.word : Direction → String
  | .input => "input"
  | .output => "output"

structure PortSpec where
  name : String
  /-- bytes of one token -/
  tokenSize : Nat
deriving DecidableEq, Repr

structure Interface where
  name : String
  inputs : List PortSpec := []
  outputs : List PortSpec := []
deriving DecidableEq, Repr

namespace Interface

def inputIndex? (i : Interface) (name : String) : Option Nat := i.inputs.findIdx? (·.name == name)

def outputIndex? (i : Interface) (name : String) : Option Nat := i.outputs.findIdx? (·.name == name)

end Interface

end Dataflow
