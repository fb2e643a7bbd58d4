/-!
How an actor ends one call: done for good, waiting for named ports, or ready to be called again.
-/

namespace Dataflow

inductive PortId where
  | input (index : Nat)
  | output (index : Nat)
deriving DecidableEq, Repr

/-- a port that an actor waits for, and how many tokens or free slots it needs there -/
structure Blocked where
  port : PortId
  tokens : Nat
deriving DecidableEq, Repr

/-- how a call ends -/
inductive Exit where
  | terminate
  | block (ports : List Blocked)
  | yield
deriving DecidableEq, Repr

/-- an exit without its ports -/
inductive ExitKind where
  | terminate
  | block
  | yield
deriving DecidableEq, Repr

def ExitKind.word : ExitKind → String
  | .terminate => "terminate"
  | .block => "block"
  | .yield => "yield"

def ExitKind.title : ExitKind → String
  | .terminate => "Terminate"
  | .block => "Block"
  | .yield => "Yield"

def ExitKind.ofWord? (s : String) : Option ExitKind := [terminate, block, yield].find? (·.word = s)

namespace Exit

def kind : Exit → ExitKind
  | .terminate => .terminate
  | .block _ => .block
  | .yield => .yield

def blockInput (index tokens : Nat) : Exit := .block [⟨.input index, tokens⟩]

def blockOutput (index tokens : Nat) : Exit := .block [⟨.output index, tokens⟩]

end Exit

end Dataflow
