import Dataflow.Word

/-!
A stretch of slots of a ring of `capacity` slots, as at most two intervals: one up to the end of the storage and, if the
stretch goes on past it, one from slot zero.
-/

namespace Dataflow

/-- the slots from `start` up to and without `stop` -/
structure Interval where
  start : Nat
  stop : Nat
deriving DecidableEq, Repr

namespace Interval

def length (r : Interval) : Nat := r.stop - r.start

def slots (r : Interval) : List Nat := List.range' r.start r.length

/-- the bytes of these slots when each takes `tokenSize` bytes -/
def scale (r : Interval) (tokenSize : Nat) : Checked Interval := do
  let start ← Word.mul64 r.start tokenSize
  let stop ← Word.mul64 r.stop tokenSize
  return ⟨start, stop⟩

end Interval

/-- a stretch of ring slots -/
structure Runs where
  first : Interval
  second : Interval
deriving DecidableEq, Repr

namespace Runs

/-- the `n` slots from `start` on, in a ring of `capacity` slots -/
def split (start n capacity : Nat) : Checked Runs := do
  require (start < max capacity 1 ∧ n ≤ capacity)
  let stop ← Word.add64 start n
  if capacity < stop then
    return ⟨⟨start, capacity⟩, ⟨0, n - (capacity - start)⟩⟩
  else
    return ⟨⟨start, stop⟩, ⟨0, 0⟩⟩

/-- whether the stretch passes the end of the storage -/
def wraps (r : Runs) : Bool := r.second.length != 0

def length (r : Runs) : Nat := r.first.length + r.second.length

def isEmpty (r : Runs) : Bool := r.length == 0

def slots (r : Runs) : List Nat := r.first.slots ++ r.second.slots

/-- the byte intervals of the two parts -/
def byteRanges (r : Runs) (tokenSize : Nat) : Checked (Interval × Interval) := do
  let first ← r.first.scale tokenSize
  let second ← r.second.scale tokenSize
  return (first, second)

end Runs

end Dataflow
