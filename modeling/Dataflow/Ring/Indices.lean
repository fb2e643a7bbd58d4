import Dataflow.Ring.Runs

/-!
Arithmetic of rings described by a head (next slot to write) and a tail (next slot to read), for any capacity. One slot
stays empty, so equal indices mean an empty ring and `capacity` slots hold at most `capacity - 1` tokens.
-/

namespace Dataflow

structure Indices where
  head : Nat
  tail : Nat
deriving DecidableEq, Repr

namespace Indices

def zero : Indices := ⟨0, 0⟩

/-- slots that a writer at `head` can fill before it reaches `tail` -/
def freeSpace (head tail capacity : Nat) : Checked Nat :=
  if head = tail then
    Word.sub capacity 1
  else if head < tail then
    Word.sub (tail - 1) head
  else do
    let above ← Word.sub capacity head
    Word.sub (above + tail) 1

/-- tokens between `tail` and `head` -/
def occupied (head tail capacity : Nat) : Checked Nat :=
  if tail ≤ head then
    .ok (head - tail)
  else do
    let above ← Word.sub capacity tail
    return above + head

/-- an index moved forward by `n` slots -/
def advance (index n capacity : Nat) : Checked Nat := Word.rem (index + n) capacity

/-- the slots from `start` up to `stop` in ring order -/
def span (start stop capacity : Nat) : Checked Runs := do
  let n ← occupied stop start capacity
  Runs.split start n capacity

end Indices

end Dataflow
