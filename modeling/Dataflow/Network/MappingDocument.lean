import Dataflow.Markup.Attribute
import Dataflow.Network.Mapping
import Dataflow.Text.Blank
import Dataflow.Text.Integer
import Dataflow.Word

/-!
Mappings as documents.

The root is a `configuration` element. A `partition` element opens a partition, an `instance` element adds a name to the
open one, a `connection` element sets a depth; where these elements stand below the root does not matter, and other
elements are passed over. A partition counts once its end tag is read, or at once when it is an empty element.
`Mapping.render` writes the document of a mapping.
-/

namespace Dataflow

inductive MappingError where
  | malformed
  | foreignRoot (name : String)
  | noRoot
  | missingAttribute (element key : String)
  | badSize (text : String)
deriving DecidableEq, Repr

def MappingError.message : MappingError → String
  | malformed => "malformed markup"
  | foreignRoot name => s!"root element must be <configuration>, found <{name}>"
  | noRoot => "document has no root element"
  | missingAttribute element key => s!"<{element}> is missing attribute `{key}`"
  | badSize text => s!"connection size `{text}` is not a number"

namespace Mapping

/-- what was read of a document -/
structure Reading where
  mapping : Mapping := {}
  rootSeen : Bool := false
  /-- the partition whose end tag is still to come -/
  pending : Option PartitionSpec := none
deriving DecidableEq, Repr

/-- the attributes of an element that is looked into -/
def attributesOf (content : List Char) : Except MappingError Markup.Attributes :=
  match Markup.attributes? content with
  | some attributes => .ok attributes
  | none => .error .malformed

/-- an attribute that has to be there -/
def required (attributes : Markup.Attributes) (element key : String) : Except MappingError String :=
  match attributes.lookup key with
  | some value => .ok value
  | none => .error (.missingAttribute element key)

/-- the largest depth that a document can hold -/
def largestSize : Nat := Word.max64

/-- the depth that a connection element gives -/
def sizeOf (text : String) : Except MappingError Nat :=
  match Text.readUnsigned largestSize (Text.trim text) with
  | .ok n => .ok n
  | .error _ => .error (.badSize text)

def readPartition (r : Reading) (content : List Char) (isEmpty : Bool) : Except MappingError Reading := do
  let attributes ← attributesOf content
  let spec : PartitionSpec :=
    { id := ← required attributes "partition" "id", scheduling := attributes.lookup "scheduling" }
  if isEmpty then
    return { r with mapping := { r.mapping with partitions := r.mapping.partitions ++ [spec] } }
  else
    return { r with pending := some spec }

def readInstance (r : Reading) (content : List Char) : Except MappingError Reading := do
  let id ← required (← attributesOf content) "instance" "id"
  return { r with pending := r.pending.map fun p => { p with instances := p.instances ++ [id] } }

def readConnection (r : Reading) (content : List Char) : Except MappingError Reading := do
  let attributes ← attributesOf content
  let size ← sizeOf (← required attributes "connection" "size")
  let entry : ConnectionSize :=
    { source := ← required attributes "connection" "source"
      sourcePort := ← required attributes "connection" "source-port"
      target := ← required attributes "connection" "target"
      targetPort := ← required attributes "connection" "target-port"
      size }
  return { r with mapping := { r.mapping with connections := r.mapping.connections ++ [entry] } }

def readElement (r : Reading) (content : List Char) (isEmpty : Bool) : Except MappingError Reading :=
  let name := String.ofList (Markup.nameOf content)
  if !r.rootSeen then
    if name = "configuration" then .ok { r with rootSeen := true } else .error (.foreignRoot name)
  else if name = "partition" then readPartition r content isEmpty
  else if name = "instance" then readInstance r content
  else if name = "connection" then readConnection r content
  else .ok r

def readClose (r : Reading) (name : List Char) : Reading :=
  if String.ofList name = "partition" then
    match r.pending with
    | some spec =>
      { r with mapping := { r.mapping with partitions := r.mapping.partitions ++ [spec] }, pending := none }
    | none => r
  else r

def readTag (r : Reading) : Markup.Tag → Except MappingError Reading
  | .start content => readElement r content false
  | .empty content => readElement r content true
  | .close name => .ok (readClose r name)

def parse (text : String) : Except MappingError Mapping := do
  let scan := Markup.scan text
  let r ← scan.tags.foldlM readTag {}
  if !scan.clean then
    throw .malformed
  if !r.rootSeen then
    throw .noRoot
  return r.mapping

/-! ### Writing -/

def writeTag (name : String) (attributes : List (String × String)) (isEmpty : Bool) : List Char :=
  ['<'] ++ name.toList ++ attributes.flatMap (fun (key, value) => Markup.writeAttribute key value) ++
    (if isEmpty then ['/', '>'] else ['>'])

def writeEnd (name : String) : List Char := ['<', '/'] ++ name.toList ++ ['>']

def writePartition (p : PartitionSpec) : List Char :=
  writeTag "partition" (("id", p.id) :: (p.scheduling.map fun s => ("scheduling", s)).toList) false ++
    p.instances.flatMap (fun id => writeTag "instance" [("id", id)] true) ++ writeEnd "partition"

def writeConnection (c : ConnectionSize) : List Char :=
  writeTag "connection"
    [("source", c.source), ("source-port", c.sourcePort), ("target", c.target), ("target-port", c.targetPort),
      ("size", toString c.size)] true

def render (m : Mapping) : String :=
  String.ofList <|
    writeTag "configuration" [] false ++
      writeTag "partitioning" [] false ++ m.partitions.flatMap writePartition ++ writeEnd "partitioning" ++
      writeTag "connections" [] false ++ m.connections.flatMap writeConnection ++ writeEnd "connections" ++
      writeEnd "configuration"

end Mapping

end Dataflow
