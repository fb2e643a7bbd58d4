import Dataflow.Network.Basic
import Dataflow.Network.Error
import Dataflow.Network.Registry

/-!
A network in the making: declared instances and the links between their ports.

Building makes one connection for every output that has links, in the order of the instances and their ports. The
readers of a connection are its links in the order they were made. The depth is the least power of two that suffices for
every link of the connection. Every declared port has to be linked.
-/

namespace Dataflow

structure Declared (σ : Type) where
  name : String
  actor : σ
  /-- the partition it should run in -/
  affinity : Option String := none

/-- a port of a declared instance: the positions of the instance and of the port -/
structure PortRef where
  inst : Nat
  port : Nat
deriving DecidableEq, Repr

structure Link where
  source : PortRef
  target : PortRef
  /-- tokens asked for -/
  depth : Option Nat
deriving DecidableEq, Repr

structure Builder (σ : Type) where
  instances : List (Declared σ) := []
  links : List Link := []
  /-- depth of links that ask for none -/
  defaultDepth : Nat := Connection.defaultDepth

/-- a connection with its ends and the ports that they belong to -/
structure Wire where
  connection : Connection
  output : OutputEnd
  /-- by reader -/
  inputs : List InputEnd
  source : PortRef
  /-- by reader -/
  targets : List PortRef

namespace Builder

variable {σ : Type} [Behaviour σ]

/-- declares an instance and answers its position -/
def add (b : Builder σ) (name : String) (actor : σ) (affinity : Option String) :
    Except NetworkError (Nat × Builder σ) :=
  if b.instances.any (·.name == name) then .error (.duplicateInstance name)
  else .ok (b.instances.length, { b with instances := b.instances ++ [⟨name, actor, affinity⟩] })

/-- the position and interface of an instance -/
def lookup (b : Builder σ) (name : String) : Except NetworkError (Nat × Interface) :=
  match b.instances.findIdx? (·.name == name) with
  | none => .error (.unknownInstance name)
  | some i =>
    match b.instances[i]? with
    | none => .error (.unknownInstance name)
    | some d => .ok (i, Behaviour.interface d.actor)

/-- the port at a position, with the size of its tokens -/
def portAt (ports : List PortSpec) (missing : NetworkError) : Option Nat → Except NetworkError (Nat × Nat)
  | none => .error missing
  | some k => .ok (k, (ports[k]?.map (·.tokenSize)).getD 0)

def connect (b : Builder σ) (source sourcePort target targetPort : String) (depth : Option Nat) :
    Except NetworkError (Builder σ) := do
  let (src, sourceInterface) ← b.lookup source
  let (dst, targetInterface) ← b.lookup target
  let (output, sourceSize) ←
    portAt sourceInterface.outputs (.unknownPort source sourcePort .output) (sourceInterface.outputIndex? sourcePort)
  let (input, targetSize) ←
    portAt targetInterface.inputs (.unknownPort target targetPort .input) (targetInterface.inputIndex? targetPort)
  if sourceSize ≠ targetSize then
    throw (.tokenSizeMismatch s!"{source}.{sourcePort}" s!"{target}.{targetPort}" sourceSize targetSize)
  if b.links.any (·.target = ⟨dst, input⟩) then
    throw (.duplicateConnection target targetPort)
  return { b with links := b.links ++ [⟨⟨src, output⟩, ⟨dst, input⟩, depth⟩] }

def outputNames? (b : Builder σ) (p : PortRef) : Option (String × String) := do
  let d ← b.instances[p.inst]?
  let port ← (Behaviour.interface d.actor).outputs[p.port]?
  return (d.name, port.name)

def inputNames? (b : Builder σ) (p : PortRef) : Option (String × String) := do
  let d ← b.instances[p.inst]?
  let port ← (Behaviour.interface d.actor).inputs[p.port]?
  return (d.name, port.name)

/-- the depth that a mapping gives a link -/
def mappedDepth? (b : Builder σ) (m : Mapping) (link : Link) : Option Nat := do
  let (source, sourcePort) ← b.outputNames? link.source
  let (target, targetPort) ← b.inputNames? link.target
  m.connectionSize? source sourcePort target targetPort

/-- takes over the depths of a mapping -/
def applySizes (b : Builder σ) (m : Mapping) : Builder σ :=
  { b with links := b.links.map fun link =>
      match b.mappedDepth? m link with
      | some size => { link with depth := some size }
      | none => link }

/-- the groups of instances that become partitions -/
def placement (b : Builder σ) (mapping : Option Mapping) : List Group :=
  match mapping with
  | some m => m.assign (b.instances.map (·.name))
  | none => Group.byHint 0 (b.instances.map (·.affinity)) []

/-! ### Building -/

/-- the depth of a connection with these links -/
def depthOf (b : Builder σ) (links : List Link) : Checked Nat :=
  let asked := (links.map fun link => link.depth.getD b.defaultDepth).foldl max 1
  if Word.powerOfTwo asked < Word.size64 then .ok (Word.powerOfTwo asked) else .error .overflow

/-- hands out the readers' ends from reader `r` on -/
def takeInputs (c : Connection) : Nat → List Link → Except ChannelError (List InputEnd × Connection)
  | _, [] => .ok ([], c)
  | r, _ :: rest => do
    let (input, c) ← c.takeInput r
    let (inputs, c) ← takeInputs c (r + 1) rest
    return (input :: inputs, c)

def channelError {α : Type} (x : Except ChannelError α) : Except (Stop NetworkError) α :=
  x.mapError fun e => .error (.channel e)

def wire (b : Builder σ) (source : PortRef) (tokenSize : Nat) (links : List Link) :
    Except (Stop NetworkError) Wire := do
  let depth ← b.depthOf links
  let c ← (Connection.create tokenSize depth links.length).mapError (Stop.map .channel)
  let (output, c) ← channelError c.takeOutput
  let (inputs, connection) ← channelError (takeInputs c 0 links)
  return { connection, output, inputs, source, targets := links.map (·.target) }

/-- all declared outputs with the sizes of their tokens, in order -/
def outputsOf (b : Builder σ) : List (PortRef × Nat) :=
  b.instances.zipIdx.flatMap fun (d, i) =>
    (Behaviour.interface d.actor).outputs.zipIdx.map fun (port, o) => (⟨i, o⟩, port.tokenSize)

/-- the connections of all outputs that have links -/
def wires (b : Builder σ) : Except (Stop NetworkError) (List Wire) :=
  (b.outputsOf.filterMap fun (source, tokenSize) =>
    let links := b.links.filter (·.source = source)
    if links.isEmpty then none else some (source, tokenSize, links)).mapM fun (source, tokenSize, links) =>
      b.wire source tokenSize links

def outputEnd? (wires : List Wire) (port : PortRef) : Option (Attached OutputEnd) := do
  let w ← wires.findIdx? (·.source = port)
  let wire ← wires[w]?
  return ⟨w, wire.output⟩

def inputEnd? (wires : List Wire) (port : PortRef) : Option (Attached InputEnd) := do
  let w ← wires.findIdx? (·.targets.contains port)
  let wire ← wires[w]?
  let r ← wire.targets.findIdx? (· = port)
  return ⟨w, ← wire.inputs[r]?⟩

/-- the ends for all ports of one side, from port `k` on -/
def endsOf {α : Type} (find : Nat → Option α) (fail : String → NetworkError) :
    Nat → List PortSpec → Except NetworkError (List α)
  | _, [] => .ok []
  | k, port :: rest =>
    match find k with
    | none => .error (fail port.name)
    | some e => do return e :: (← endsOf find fail (k + 1) rest)

def instantiate (wires : List Wire) (id : Nat) (d : Declared σ) : Except NetworkError (Instance σ) := do
  let interface := Behaviour.interface d.actor
  let inputs ← endsOf (fun k => inputEnd? wires ⟨id, k⟩) (.unconnected d.name · .input) 0 interface.inputs
  let outputs ← endsOf (fun k => outputEnd? wires ⟨id, k⟩) (.unconnected d.name · .output) 0 interface.outputs
  return { id, name := d.name, actor := d.actor, inputs, outputs }

/-- a port as it is shown -/
def portLabel (names : Option (String × String)) : String :=
  match names with
  | some (inst, port) => inst ++ "." ++ port
  | none => ""

def label (b : Builder σ) (w : Wire) : WireLabel :=
  ⟨portLabel (b.outputNames? w.source), w.targets.map fun t => portLabel (b.inputNames? t)⟩

/-- wires all links and places all instances -/
def build (b : Builder σ) (mapping : Option Mapping) : Except (Stop NetworkError) (Network σ) := do
  let wires ← b.wires
  let placed ← (b.instances.zipIdx.mapM fun (d : Declared σ × Nat) => instantiate wires d.2 d.1).mapError Stop.error
  let partitions := (b.placement mapping).map fun g => (⟨g.name, g.members.filterMap fun i => placed[i]?⟩ : Partition σ)
  return { partitions, wires := wires.map (·.connection), labels := wires.map b.label }

end Builder

/-- declares an instance of a registered class; its `affinity` parameter names the partition -/
def Builder.create (b : Builder Component) (registry : Registry) (env : Environment) (name className : String)
    (params : Params) : Except (Stop NetworkError) (Nat × Builder Component) := do
  let actor ← (registry.create env className params).mapError (Stop.map .actor)
  let affinity ← (params.get? env Params.affinityKey).mapError fun e => .error (.actor e)
  (b.add name actor affinity).mapError Stop.error

end Dataflow
