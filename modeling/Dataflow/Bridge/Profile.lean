import Dataflow.Actor.Interface
import Dataflow.Bridge.Port

/-!
What a bridge counts about itself: launches, visits of its phases, traffic by port and the most recent kernel calls.
-/

namespace Dataflow

inductive LinkPhase where
  /-- idle: may hand output on or launch the kernel -/
  | init
  /-- launched: waits for the kernel's indices -/
  | pollKernel
  /-- waits for the produced tokens -/
  | pollRead
deriving DecidableEq, Repr

def LinkPhase.word : LinkPhase → String
  | .init => "init"
  | .pollKernel => "poll_kernel"
  | .pollRead => "poll_read"

/-- how often each phase was entered -/
structure PhaseVisits where
  init : Nat := 0
  pollKernel : Nat := 0
  pollRead : Nat := 0
deriving DecidableEq, Repr

/-- tokens that one kernel call moved -/
structure CallRecord where
  /-- call number, from one -/
  call : Nat
  /-- by input -/
  consumed : List Nat
  /-- by output -/
  produced : List Nat
deriving DecidableEq, Repr

def CallRecord.isIdle (r : CallRecord) : Bool := r.consumed.all (· == 0) && r.produced.all (· == 0)

structure PortProfile where
  name : String
  direction : Direction
  /-- bytes moved across the link -/
  bytes : Nat
  /-- data transfers issued -/
  transfers : Nat
  /-- tokens that the kernel consumed or produced here -/
  tokens : Nat
deriving DecidableEq, Repr

structure LinkProfile where
  name : String
  kernelCalls : Nat := 0
  /-- completed rounds through all phases -/
  cycles : Nat := 0
  visits : PhaseVisits := {}
  /-- inputs first -/
  ports : List PortProfile := []
  /-- finished calls that moved nothing -/
  idleCalls : Nat := 0
  /-- the most recent calls, oldest first -/
  calls : List CallRecord := []
deriving DecidableEq, Repr

namespace LinkProfile

def recentCalls : Nat := 64

/-- notes the step from one phase into another -/
def enter (l : LinkProfile) (current next : LinkPhase) : LinkProfile :=
  match next with
  | .init =>
    { l with visits := { l.visits with init := l.visits.init + 1 }
             cycles := if current = .pollRead then l.cycles + 1 else l.cycles }
  | .pollKernel => { l with visits := { l.visits with pollKernel := l.visits.pollKernel + 1 } }
  | .pollRead => { l with visits := { l.visits with pollRead := l.visits.pollRead + 1 } }

/-- the traffic of a port, with the tokens counted so far -/
def portProfile (direction : Direction) (p : BridgePort) (tokens : Nat) : PortProfile :=
  ⟨p.spec.name, direction, p.bytesMoved, p.transferCount, tokens⟩

/-- the traffic of all ports, each with no tokens -/
def freshPorts (inputs outputs : List BridgePort) : List PortProfile :=
  inputs.map (portProfile .input · 0) ++ outputs.map (portProfile .output · 0)

/-- adds the tokens counted before and those of the finished call -/
def addTokens : List PortProfile → List PortProfile → List Nat → List PortProfile
  | p :: ports, previous, moved =>
    { p with tokens := (previous.head?.map (·.tokens)).getD 0 + moved.headD 0 } ::
      addTokens ports previous.tail moved.tail
  | [], _, _ => []

/-- the recent calls after one more -/
def remember (calls : List CallRecord) (record : CallRecord) : List CallRecord :=
  (if calls.length = recentCalls then calls.tail else calls) ++ [record]

/-- notes a finished kernel call -/
def finish (l : LinkProfile) (inputs outputs : List BridgePort) (record : CallRecord) : LinkProfile :=
  { l with
    ports := addTokens (freshPorts inputs outputs) l.ports (record.consumed ++ record.produced)
    idleCalls := if record.isIdle then l.idleCalls + 1 else l.idleCalls
    calls := remember l.calls record }

end LinkProfile

end Dataflow
