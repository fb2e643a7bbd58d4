import Dataflow.Channel.Region

/-!
A ring for one writer and many readers. Every reader has its own place; one slot stays free, so `capacity` slots hold at
most `capacity - 1` unread tokens of the slowest reader. Bytes stored ahead of the write index are nobody's until the
writer advances over them.
-/

namespace Dataflow

/-- one writer, many readers, one free slot -/
structure TokenRing where
  tokenSize : Nat
  capacity : Nat
  storage : Block
  /-- next slot to write -/
  head : Nat
  /-- next slot to read, by reader -/
  tails : List Nat
  writerTaken : Bool := false
  readersTaken : List Bool

namespace TokenRing

def create (tokenSize capacity readers : Nat) : Except (Stop ChannelError) TokenRing := do
  let storage ← Region.forTokens 2 tokenSize capacity readers
  return { tokenSize, capacity, storage, head := 0, tails := List.replicate readers 0,
           readersTaken := List.replicate readers false }

def takeWriter (r : TokenRing) : Except ChannelError TokenRing :=
  if r.writerTaken then .error (.endpointTaken .writer) else .ok { r with writerTaken := true }

def takeReader (r : TokenRing) (reader : Nat) : Except ChannelError TokenRing :=
  match r.readersTaken[reader]? with
  | none => .error (.readerOutOfRange reader r.readersTaken.length)
  | some true => .error (.endpointTaken .reader)
  | some false => .ok { r with readersTaken := r.readersTaken.set reader true }

/-- tokens between a tail and the head -/
def unread (r : TokenRing) (tail : Nat) : Checked Nat := do
  let ahead ← Word.add32 r.capacity r.head
  let gap ← Word.sub ahead tail
  return gap % r.capacity

/-- slots that the head may fill before it reaches a tail -/
def roomBefore (r : TokenRing) (tail : Nat) : Checked Nat := do
  let ahead ← Word.add32 r.capacity tail
  let gap ← Word.sub ahead r.head
  let gap ← Word.sub gap 1
  return gap % r.capacity

/-- tokens that a reader has not released yet -/
def count (r : TokenRing) (reader : Nat) : Checked Nat := do
  r.unread (← fetch r.tails reader)

/-- unread tokens by reader -/
def counts (r : TokenRing) : Checked (List Nat) := r.tails.mapM r.unread

/-- slots that the writer may fill, as the slowest reader allows -/
def rooms (r : TokenRing) : Checked Nat := do
  let each ← r.tails.mapM r.roomBefore
  return each.foldl min (each.headD 0)

/-- the bytes of `n` slots from `start` on, in two parts -/
def parts (r : TokenRing) (start n : Nat) : Checked (Interval × Interval) := do
  (← Runs.split start n r.capacity).byteRanges r.tokenSize

/-! ### Writing -/

/-- the bytes of the longest unbroken stretch that the writer may fill -/
def writeAddress (r : TokenRing) : Checked Bytes := do
  let run := min (r.capacity - r.head) (← r.rooms)
  r.storage.read (r.head * r.tokenSize) (run * r.tokenSize)

/-- the byte intervals of the next `n` slots to write -/
def writeParts (r : TokenRing) (n : Nat) : Checked (Interval × Interval) := do
  require (n ≤ (← r.rooms))
  r.parts r.head n

/-- the content of the next `n` slots to write -/
def writeSlices (r : TokenRing) (n : Nat) : Checked (Bytes × Bytes) := do
  let (first, second) ← r.writeParts n
  return (← r.storage.read first.start first.length, ← r.storage.read second.start second.length)

/-- stores bytes into the next `n` slots, as many as fit, and publishes none of them -/
def fill (r : TokenRing) (n : Nat) (bytes : Bytes) : Checked TokenRing := do
  let runs ← r.writeParts n
  let storage ← r.storage.writeRuns runs bytes
  return { r with storage }

/-- publishes the next `n` slots -/
def publish (r : TokenRing) (n : Nat) : Checked TokenRing := do
  require (n ≤ (← r.rooms))
  return { r with head := (r.head + n) % r.capacity }

/-- stores and publishes as many whole tokens as there is room for -/
def write (r : TokenRing) (bytes : Bytes) : Checked (Nat × TokenRing) := do
  let n := min (Word.low32 (bytes.length / r.tokenSize)) (← r.rooms)
  if n = 0 then
    return (0, r)
  let r ← r.fill n (bytes.take (n * r.tokenSize))
  return (n, ← r.publish n)

/-- stores and publishes one value, if there is room -/
def push (r : TokenRing) (p : Primitive) (v : p.Value) : Checked (Bool × TokenRing) := do
  require (p.size = r.tokenSize)
  if (← r.rooms) = 0 then
    return (false, r)
  let r ← r.fill 1 (p.encode v)
  return (true, ← r.publish 1)

/-! ### Reading -/

/-- the bytes of the longest unbroken stretch that a reader may read -/
def readAddress (r : TokenRing) (reader : Nat) : Checked Bytes := do
  let tail ← fetch r.tails reader
  let run := min (r.capacity - tail) (← r.unread tail)
  r.storage.read (tail * r.tokenSize) (run * r.tokenSize)

/-- the next `n` tokens of a reader, in two parts -/
def readSlices (r : TokenRing) (reader n : Nat) : Checked (Bytes × Bytes) := do
  let tail ← fetch r.tails reader
  require (n ≤ (← r.unread tail))
  let (first, second) ← r.parts tail n
  return (← r.storage.read first.start first.length, ← r.storage.read second.start second.length)

/-- releases the next `n` tokens of a reader -/
def release (r : TokenRing) (reader n : Nat) : Checked TokenRing := do
  let tail ← fetch r.tails reader
  require (n ≤ (← r.unread tail))
  return { r with tails := r.tails.set reader ((tail + n) % r.capacity) }

/-- reads and releases as many tokens as are unread and fit into `length` bytes -/
def read (r : TokenRing) (reader length : Nat) : Checked (Nat × Bytes × TokenRing) := do
  let n := min (Word.low32 (length / r.tokenSize)) (← r.count reader)
  let (first, second) ← r.readSlices reader n
  return (n, first ++ second, ← r.release reader n)

/-- the value `offset` tokens ahead of a reader -/
def peek (r : TokenRing) (reader : Nat) (p : Primitive) (offset : Nat) : Checked (Option p.Value) := do
  require (p.size = r.tokenSize)
  let tail ← fetch r.tails reader
  if (← r.unread tail) ≤ offset then
    return none
  let slot := (← Word.add32 tail offset) % r.capacity
  return some (← p.decode (← r.storage.read (slot * p.size) p.size))

/-- reads and releases one value -/
def pop (r : TokenRing) (reader : Nat) (p : Primitive) : Checked (Option p.Value × TokenRing) := do
  match ← r.peek reader p 0 with
  | none => return (none, r)
  | some v => return (some v, ← r.release reader 1)

end TokenRing

end Dataflow
