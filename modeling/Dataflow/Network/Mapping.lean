/-!
A mapping places instances into partitions and sets the depths of connections.

Placement takes the instances in the order of the mapping. A name that is unknown, or whose instance is placed already,
is passed over; a partition that gets nobody is left out. The instances that the mapping does not name share one default
partition. Without a mapping, instances are grouped by their hints.
-/

namespace Dataflow

structure PartitionSpec where
  id : String
  /-- a label that changes nothing -/
  scheduling : Option String := none
  /-- names of its instances, in order -/
  instances : List String := []
deriving DecidableEq, Repr

structure ConnectionSize where
  source : String
  sourcePort : String
  target : String
  targetPort : String
  /-- tokens -/
  size : Nat
deriving DecidableEq, Repr

structure Mapping where
  partitions : List PartitionSpec := []
  connections : List ConnectionSize := []
deriving DecidableEq, Repr

/-- the partition of instances that have no other -/
def defaultPartition : String := "default"

/-- a named group of instances, by their positions -/
structure Group where
  name : String
  members : List Nat
deriving DecidableEq, Repr

namespace Group

/-- adds members to the first group of a name, or a new group at the end -/
def add (name : String) (members : List Nat) : List Group → List Group
  | [] => [⟨name, members⟩]
  | g :: rest => if g.name = name then ⟨g.name, g.members ++ members⟩ :: rest else g :: add name members rest

/-- groups the positions from `i` on by their hints -/
def byHint : Nat → List (Option String) → List Group → List Group
  | _, [], groups => groups
  | i, hint :: rest, groups => byHint (i + 1) rest (add (hint.getD defaultPartition) [i] groups)

end Group

namespace Mapping

/-- the last position of a name, counted from `i` -/
def lastIndex? (name : String) : Nat → List String → Option Nat
  | _, [] => none
  | i, n :: rest =>
    match lastIndex? name (i + 1) rest with
    | some j => some j
    | none => if n = name then some i else none

/-- the instances that a partition gets when some are placed already -/
def membersOf (names : List String) : List Nat → List String → List Nat
  | _, [] => []
  | placed, name :: rest =>
    match lastIndex? name 0 names with
    | some i => if placed.contains i then membersOf names placed rest else i :: membersOf names (i :: placed) rest
    | none => membersOf names placed rest

/-- the groups of the partitions that get somebody -/
def place (names : List String) : List Nat → List PartitionSpec → List Group
  | _, [] => []
  | placed, p :: rest =>
    let members := membersOf names placed p.instances
    let more := place names (members ++ placed) rest
    if members.isEmpty then more else ⟨p.id, members⟩ :: more

/-- places the instances of these names -/
def assign (m : Mapping) (names : List String) : List Group :=
  let groups := place names [] m.partitions
  let placed := groups.flatMap (·.members)
  let unmapped := (List.range names.length).filter fun i => !placed.contains i
  if unmapped.isEmpty then groups else Group.add defaultPartition unmapped groups

/-- the depth of a connection, by the first entry for it -/
def connectionSize? (m : Mapping) (source sourcePort target targetPort : String) : Option Nat :=
  (m.connections.find? fun c =>
    c.source = source ∧ c.sourcePort = sourcePort ∧ c.target = target ∧ c.targetPort = targetPort).map (·.size)

end Mapping

end Dataflow
