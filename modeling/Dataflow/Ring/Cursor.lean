import Dataflow.Ring.Runs

/-!
A position in a ring kept as a negative offset: `-capacity` is slot zero and `-1` the last slot, so that reaching zero
is the moment to wrap.
-/

namespace Dataflow

/-- a ring position as a negative offset from the end of the storage -/
structure Cursor where
  pos : Int
deriving DecidableEq, Repr

namespace Cursor

def start (capacity : Nat) : Cursor := ⟨-(capacity : Int)⟩

/-- the position of a given slot -/
def atSlot (slot capacity : Nat) : Checked Cursor := do
  require (slot < capacity)
  return ⟨(slot : Int) - capacity⟩

/-- the slot that the position stands for -/
def slot (c : Cursor) (capacity : Nat) : Nat := (capacity + c.pos).toNat

/-- number of slots before the end of the storage -/
def untilWrap (c : Cursor) : Nat := (-c.pos).toNat

/-- an offset brought back below zero after at most one lap -/
def fold (pos : Int) (capacity : Nat) : Int := if 0 ≤ pos then pos - capacity else pos

/-- the slot `offset` positions ahead -/
def peekSlot (c : Cursor) (offset capacity : Nat) : Nat :=
  (capacity + fold (c.pos + offset) capacity).toNat

/-- the position `n` slots ahead, at most one lap -/
def advance (c : Cursor) (n capacity : Nat) : Checked Cursor := do
  require (n ≤ capacity)
  return ⟨fold (c.pos + n) capacity⟩

/-- the next `n` slots -/
def runs (c : Cursor) (n capacity : Nat) : Checked Runs := Runs.split (c.slot capacity) n capacity

end Cursor

end Dataflow
