import Dataflow.Actor.Behaviour

/-!
Three stock actors on 32-bit numbers: a source of a fixed sequence, a scaler, and a sink that collects. Each moves one
token per firing. Arithmetic wraps around.
-/

namespace Dataflow

/-- the word that a position of a sequence stands for -/
def wordOfNat (n : Nat) : Int32 := (UInt32.ofNat n).toInt32

/-- what a source emits -/
inductive Feed where
  /-- `count` numbers from `start` on -/
  | range (start : Int32) (count : Nat)
  | values (values : Array Int32)
deriving DecidableEq, Repr

/-- emits a fixed sequence, then terminates -/
structure Source where
  feed : Feed
  emitted : Nat := 0
deriving DecidableEq, Repr

namespace Source

def interface : Interface := { name := "Source", outputs := [⟨"out", 4⟩] }

def next? (s : Source) : Option Int32 :=
  match s.feed with
  | .range start count => if s.emitted < count then some (start + wordOfNat s.emitted) else none
  | .values values => values[s.emitted]?

def act : Nat → Source → Ports → Turn Source
  | 0, s, ports => ⟨s, ports, .ok (if s.next?.isNone then .terminate else .yield)⟩
  | n + 1, s, ports =>
    match s.next? with
    | none => ⟨s, ports, .ok .terminate⟩
    | some value =>
      match ports.hasRoom 0 1 with
      | .error f => ⟨s, ports, .error f⟩
      | .ok false => ⟨s, ports, .ok (.blockOutput 0 1)⟩
      | .ok true =>
        match ports.write 0 .int32 value with
        | .error f => ⟨s, ports, .error f⟩
        | .ok ports =>
          match Word.add32 s.emitted 1 with
          | .error f => ⟨s, ports, .error f⟩
          | .ok emitted => act n { s with emitted } (ports.fire 0)

end Source

/-- multiplies every token -/
structure Scale where
  factor : Int32
deriving DecidableEq, Repr

namespace Scale

def interface : Interface := { name := "Scale", inputs := [⟨"in", 4⟩], outputs := [⟨"out", 4⟩] }

def act : Nat → Scale → Ports → Turn Scale
  | 0, s, ports => ⟨s, ports, .ok .yield⟩
  | n + 1, s, ports =>
    match ports.hasInput 0 1 with
    | .error f => ⟨s, ports, .error f⟩
    | .ok false => ⟨s, ports, .ok (.blockInput 0 1)⟩
    | .ok true =>
      match ports.hasRoom 0 1 with
      | .error f => ⟨s, ports, .error f⟩
      | .ok false => ⟨s, ports, .ok (.blockOutput 0 1)⟩
      | .ok true =>
        match ports.read 0 .int32 with
        | .error f => ⟨s, ports, .error f⟩
        | .ok (value, ports) =>
          match ports.write 0 .int32 (value * s.factor) with
          | .error f => ⟨s, ports, .error f⟩
          | .ok ports => act n s (ports.fire 0)

end Scale

/-- collects every token, up to an optional limit -/
structure Sink where
  limit : Option Nat := none
  tokens : Array Int32 := #[]
  /-- calls that ended waiting for input -/
  blocks : UInt32 := 0
deriving DecidableEq, Repr

namespace Sink

def interface : Interface := { name := "Sink", inputs := [⟨"in", 4⟩] }

def full (s : Sink) : Bool := s.limit.any (· ≤ s.tokens.size)

def act : Nat → Sink → Ports → Turn Sink
  | 0, s, ports => ⟨s, ports, .ok .yield⟩
  | n + 1, s, ports =>
    if s.full then
      ⟨s, ports, .ok .terminate⟩
    else
      match ports.hasInput 0 1 with
      | .error f => ⟨s, ports, .error f⟩
      | .ok false => ⟨{ s with blocks := s.blocks + 1 }, ports, .ok (.blockInput 0 1)⟩
      | .ok true =>
        match ports.read 0 .int32 with
        | .error f => ⟨s, ports, .error f⟩
        | .ok (value, ports) => act n { s with tokens := s.tokens.push value } (ports.fire 0)

end Sink

instance : Behaviour Source := ⟨fun _ => Source.interface, Source.act⟩
instance : Behaviour Scale := ⟨fun _ => Scale.interface, Scale.act⟩
instance : Behaviour Sink := ⟨fun _ => Sink.interface, Sink.act⟩

end Dataflow
