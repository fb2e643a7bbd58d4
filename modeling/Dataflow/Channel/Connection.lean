import Dataflow.Channel.Region
import Dataflow.Ring.Cursor

/-!
A connection carries the tokens of one output to its readers. The writer publishes a running total of what it produced,
every reader a running total of what it consumed; the totals are words and wrap around, so the whole capacity is usable:

* a reader may take `produced - consumed` tokens,
* the writer may add `capacity` minus the largest such backlog.

Each end keeps its own total and its own cursor into the shared storage. Totals change only when a port view closes.
-/

namespace Dataflow

/-- storage and published totals of one output and its readers -/
structure Connection where
  tokenSize : Nat
  capacity : Nat
  storage : Block
  /-- tokens published by the writer -/
  produced : UInt32 := 0
  /-- tokens published as consumed, by reader -/
  consumed : List UInt32
  outputTaken : Bool := false
  inputsTaken : List Bool

structure OutputEnd where
  cursor : Cursor
  /-- tokens published so far -/
  produced : UInt32
deriving DecidableEq, Repr

structure InputEnd where
  reader : Nat
  cursor : Cursor
  /-- tokens consumed so far -/
  consumed : UInt32
deriving DecidableEq, Repr

/-- an open port: what may still be moved, and where -/
structure PortView where
  cursor : Cursor
  available : Nat
  openedWith : Nat
deriving DecidableEq, Repr

/-- tokens moved since the view was opened -/
def PortView.moved (v : PortView) : Nat := v.openedWith - v.available

namespace Connection

def defaultDepth : Nat := 4096

def create (tokenSize capacity readers : Nat) : Except (Stop ChannelError) Connection := do
  let storage ← Region.forTokens 1 tokenSize capacity readers
  return { tokenSize, capacity, storage, consumed := List.replicate readers 0,
           inputsTaken := List.replicate readers false }

def readers (c : Connection) : Nat := c.consumed.length

/-- tokens published and not yet consumed by a reader -/
def pending (c : Connection) (reader : Nat) : Checked Nat := do
  return (c.produced - (← fetch c.consumed reader)).toNat

/-- tokens published and not yet consumed, by reader -/
def pendingCounts (c : Connection) : List Nat := c.consumed.map fun consumed => (c.produced - consumed).toNat

def takeOutput (c : Connection) : Except ChannelError (OutputEnd × Connection) :=
  if c.outputTaken then .error (.endpointTaken .output)
  else .ok (⟨Cursor.start c.capacity, 0⟩, { c with outputTaken := true })

def takeInput (c : Connection) (reader : Nat) : Except ChannelError (InputEnd × Connection) :=
  match c.inputsTaken[reader]? with
  | none => .error (.readerOutOfRange reader c.inputsTaken.length)
  | some true => .error (.endpointTaken .input)
  | some false =>
    .ok (⟨reader, Cursor.start c.capacity, 0⟩, { c with inputsTaken := c.inputsTaken.set reader true })

/-! ### What an end may move -/

/-- tokens that the slowest reader is behind a total -/
def backlog (c : Connection) (produced : UInt32) : Nat :=
  (c.consumed.map fun consumed => (produced - consumed).toNat).foldl max 0

/-- slots that the writer may fill -/
def rooms (c : Connection) (e : OutputEnd) : Checked Nat := Word.sub c.capacity (c.backlog e.produced)

/-- tokens that a reader may take -/
def available (c : Connection) (e : InputEnd) : Nat := (c.produced - e.consumed).toNat

/-! ### Opening and closing -/

def openOutput (c : Connection) (e : OutputEnd) : Checked PortView := do
  let rooms ← c.rooms e
  return ⟨e.cursor, rooms, rooms⟩

def openInput (c : Connection) (e : InputEnd) : PortView :=
  ⟨e.cursor, c.available e, c.available e⟩

/-- closes the writer's port and publishes what was written -/
def closeOutput (c : Connection) (e : OutputEnd) (v : PortView) : Connection × OutputEnd :=
  if v.moved = 0 then
    (c, { e with cursor := v.cursor })
  else
    let produced := e.produced + UInt32.ofNat v.moved
    ({ c with produced }, ⟨v.cursor, produced⟩)

/-- closes a reader's port and publishes what was consumed -/
def closeInput (c : Connection) (e : InputEnd) (v : PortView) : Connection × InputEnd :=
  if v.moved = 0 then
    (c, { e with cursor := v.cursor })
  else
    let consumed := e.consumed + UInt32.ofNat v.moved
    ({ c with consumed := c.consumed.set e.reader consumed }, ⟨e.reader, v.cursor, consumed⟩)

end Connection

end Dataflow
