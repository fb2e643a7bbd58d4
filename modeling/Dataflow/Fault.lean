/-!
How an operation ends when it does not answer.

A `Fault` is a broken promise of the caller or of the arithmetic: the program aborts there. A `Checked` value either
faults or answers. An operation that also has ordinary errors stops with `Stop`, which keeps the two apart. A `Step`
works on a state and keeps what it did to that state when it stops half-way, since what was moved stays moved.
-/

namespace Dataflow

/-- why an operation aborts -/
inductive Fault where
  /-- a stated precondition does not hold -/
  | contract
  /-- an index or a slice lies outside its bounds -/
  | range
  /-- word arithmetic leaves its range -/
  | overflow
  | zeroDivisor
  /-- a bridge port issues a transfer into a slot that is still in flight -/
  | slotInFlight (port : String) (slot : Nat)
  /-- a bridge port asks for its index while an earlier request is in flight -/
  | indexInFlight (port : String)
deriving DecidableEq, Repr

/-- the text of a fault, where it has one of its own -/
def Fault.message? : Fault → Option String
  | .slotInFlight port slot => some s!"port `{port}` re-issued transfer slot {slot} while in flight"
  | .indexInFlight port => some s!"port `{port}` requested its index twice"
  | _ => none

/-- an answer, or the fault that prevented it -/
abbrev Checked := Except Fault

/-- why an operation with errors of type `ε` stops: a fault, or one of those errors -/
inductive Stop (ε : Type) where
  | fault (f : Fault)
  | error (e : ε)
deriving DecidableEq, Repr

/-- the same stop with its ordinary error replaced -/
def Stop.map {ε δ : Type} (f : ε → δ) : Stop ε → Stop δ
  | .fault a => .fault a
  | .error e => .error (f e)

/-- an operation on a state `σ`: the state it leaves is kept also when it stops -/
abbrev Step (ε σ α : Type) := ExceptT (Stop ε) (StateM σ) α

instance {ε : Type} : MonadLift Checked (Except (Stop ε)) where
  monadLift x := x.mapError Stop.fault

instance {ε σ : Type} : MonadLift Checked (ExceptT (Stop ε) (StateM σ)) where
  monadLift x := ExceptT.mk (pure (x.mapError Stop.fault))

namespace Step

/-- fails with an ordinary error -/
def fail {ε σ α : Type} (e : ε) : Step ε σ α := throw (.error e)

/-- runs an operation on one part of the state -/
def zoom {ε σ τ α : Type} (view : σ → τ) (put : σ → τ → σ) (m : Step ε τ α) : Step ε σ α :=
  ExceptT.mk fun s =>
    let (answer, part) := m.run.run (view s)
    (answer, put s part)

/-- the answer and the state that remains -/
def exec {ε σ α : Type} (m : Step ε σ α) (s : σ) : Except (Stop ε) α × σ := m.run.run s

end Step

/-- goes on only if `p` holds -/
def require (p : Prop) [Decidable p] : Checked Unit :=
  if p then .ok () else .error .contract

/-- the element at an index that has to be in bounds -/
def fetch {α : Type} (xs : List α) (i : Nat) : Checked α :=
  match xs[i]? with
  | some x => .ok x
  | none => .error .range

end Dataflow
