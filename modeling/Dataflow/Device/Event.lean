/-!
Completion of device commands. Every command gets an event when it is submitted; the event is resolved once, as done or
as failed, and may carry a value that can be taken once. Whoever holds an event polls it and never waits.
-/

namespace Dataflow

abbrev EventId := Nat

inductive EventStatus where
  | pending
  | done
  | failed
deriving DecidableEq, Repr

/-- whether the command is finished, successfully or not -/
def EventStatus.isComplete (s : EventStatus) : Bool := s != .pending

/-- whether the command is finished with an error -/
def EventStatus.hasFailed (s : EventStatus) : Bool := s == .failed

structure EventCell (α : Type) where
  status : EventStatus := .pending
  value : Option α := none

structure EventBoard (α : Type) where
  cells : Array (EventCell α) := #[]

namespace EventBoard

variable {α : Type}

def issue (b : EventBoard α) : EventId × EventBoard α := (b.cells.size, ⟨b.cells.push {}⟩)

/-- the status of an event; an event that is not on the board counts as failed -/
def status (b : EventBoard α) (e : EventId) : EventStatus :=
  match b.cells[e]? with
  | some cell => cell.status
  | none => .failed

/-- resolves an event that is still pending -/
def resolve (b : EventBoard α) (e : EventId) (status : EventStatus) (value : Option α := none) : EventBoard α :=
  ⟨b.cells.modify e fun cell => if cell.status = .pending then ⟨status, value⟩ else cell⟩

def complete (b : EventBoard α) (e : EventId) : EventBoard α := b.resolve e .done

/-- marks a command as failed; a command that is lost is marked so too -/
def fail (b : EventBoard α) (e : EventId) : EventBoard α := b.resolve e .failed

/-- marks a command as done with a value -/
def fulfil (b : EventBoard α) (e : EventId) (value : α) : EventBoard α := b.resolve e .done (some value)

/-- takes the value of a command that is done -/
def take (b : EventBoard α) (e : EventId) : Option α × EventBoard α :=
  match b.cells[e]? with
  | some ⟨.done, value⟩ => (value, ⟨b.cells.modify e fun cell => { cell with value := none }⟩)
  | _ => (none, b)

end EventBoard

end Dataflow
