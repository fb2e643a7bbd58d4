import Dataflow.Channel.Connection

/-!
Reading and writing through an open port. A view counts down what it may move; bytes go straight to the shared storage,
and nobody sees them before the view closes. A request beyond what the view allows is a fault and changes nothing.
-/

namespace Dataflow

namespace Connection

def skip (c : Connection) (v : PortView) (n : Nat) : Checked PortView := do
  require (n ≤ v.available)
  let cursor ← v.cursor.advance n c.capacity
  return { v with cursor, available := v.available - n }

/-- the byte intervals of the next `n` slots of a view -/
def nextParts (c : Connection) (v : PortView) (n : Nat) : Checked (Interval × Interval) := do
  require (n ≤ v.available)
  (← v.cursor.runs n c.capacity).byteRanges c.tokenSize

/-- whole tokens in a byte string -/
def tokensIn (c : Connection) (length : Nat) : Nat := Word.low32 (length / c.tokenSize)

/-! ### Input ports -/

/-- reads the tokens that fill `length` bytes -/
def readBytes (c : Connection) (v : PortView) (length : Nat) : Checked (Bytes × PortView) := do
  let n := c.tokensIn length
  let bytes ← c.storage.readRuns (← c.nextParts v n)
  return (bytes, ← c.skip v n)

/-- the value `offset` tokens ahead -/
def peek (c : Connection) (v : PortView) (p : Primitive) (offset : Nat) : Checked p.Value := do
  require (p.size = c.tokenSize)
  require (offset < v.available)
  let slot := v.cursor.peekSlot offset c.capacity
  p.decode (← c.storage.read (slot * p.size) p.size)

def read (c : Connection) (v : PortView) (p : Primitive) : Checked (p.Value × PortView) := do
  let value ← c.peek v p 0
  return (value, ← c.skip v 1)

/-- the `n` values from `offset` tokens ahead on -/
def peekEach (c : Connection) (v : PortView) (p : Primitive) : Nat → Nat → Checked (List p.Value)
  | _, 0 => return []
  | offset, n + 1 => do
    let value ← c.peek v p offset
    return value :: (← c.peekEach v p (offset + 1) n)

def readRepeat (c : Connection) (v : PortView) (p : Primitive) (n : Nat) :
    Checked (List p.Value × PortView) := do
  require (Word.low32 n ≤ v.available)
  let values ← c.peekEach v p 0 n
  return (values, ← c.skip v n)

/-! ### Output ports -/

/-- writes the whole tokens of a byte string -/
def writeBytes (c : Connection) (v : PortView) (bytes : Bytes) : Checked (Connection × PortView) := do
  let n := c.tokensIn bytes.length
  let storage ← c.storage.writeRuns (← c.nextParts v n) bytes
  return ({ c with storage }, ← c.skip v n)

def write (c : Connection) (v : PortView) (p : Primitive) (value : p.Value) :
    Checked (Connection × PortView) := do
  require (p.size = c.tokenSize)
  require (0 < v.available)
  let slot := v.cursor.slot c.capacity
  let storage ← c.storage.write (slot * p.size) (p.encode value)
  return ({ c with storage }, ← c.skip v 1)

/-- writes values one after the other -/
def writeEach (c : Connection) (v : PortView) (p : Primitive) : List p.Value → Checked (Connection × PortView)
  | [] => return (c, v)
  | value :: rest => do
    let (c, v) ← c.write v p value
    writeEach c v p rest

/-- writes a list of values, for all of which there has to be room -/
def writeRepeat (c : Connection) (v : PortView) (p : Primitive) (values : List p.Value) :
    Checked (Connection × PortView) := do
  require (Word.low32 values.length ≤ v.available)
  c.writeEach v p values

end Connection

end Dataflow
