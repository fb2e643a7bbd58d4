import Dataflow.Token
import Dataflow.Ring.Runs
import Std.Data.TreeMap

/-!
A block of zeroed bytes of fixed size. Only the bytes that were ever written are kept, so a block may be far larger than
what is stored in it.
-/

namespace Dataflow

/-- zeroed bytes of a fixed size -/
structure Block where
  size : Nat
  /-- the bytes written so far, by offset -/
  cells : Std.TreeMap Nat UInt8 compare := ∅

namespace Block

def zeroed (size : Nat) : Block := { size }

def byteAt (b : Block) (offset : Nat) : UInt8 := b.cells.getD offset 0

/-- the `n` bytes from `offset` on, whatever the size -/
def slice (b : Block) (offset n : Nat) : Bytes := (List.range' offset n).map b.byteAt

/-- stores bytes from `offset` on, whatever the size -/
def store (b : Block) (offset : Nat) : Bytes → Block
  | [] => b
  | byte :: rest => store { b with cells := b.cells.insert offset byte } (offset + 1) rest

/-- the `n` bytes from `offset` on -/
def read (b : Block) (offset n : Nat) : Checked Bytes :=
  if offset + n ≤ b.size then .ok (b.slice offset n) else .error .range

/-- stores bytes from `offset` on -/
def write (b : Block) (offset : Nat) (bytes : Bytes) : Checked Block :=
  if offset + bytes.length ≤ b.size then .ok (b.store offset bytes) else .error .range

/-- the bytes of two intervals, one after the other -/
def readRuns (b : Block) (runs : Interval × Interval) : Checked Bytes := do
  let first ← b.read runs.1.start runs.1.length
  let second ← b.read runs.2.start runs.2.length
  return first ++ second

/-- stores bytes into two intervals, one after the other -/
def writeRuns (b : Block) (runs : Interval × Interval) (bytes : Bytes) : Checked Block := do
  let b ← b.write runs.1.start (bytes.take runs.1.length)
  b.write runs.2.start ((bytes.drop runs.1.length).take runs.2.length)

end Block

end Dataflow
