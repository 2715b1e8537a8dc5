import DependencyAtlas.Graph.Query

/-!
# Topology

The registered units of a graph numbered in ascending order of their identifiers. Successors are
registered targets only, while the out degree counts placeholders too, so a unit whose targets are
all unregistered still depends on something.
-/

namespace DependencyAtlas

structure Topology where
  ids : Array String
  kinds : Array UnitKind
  index : Std.HashMap String Nat
  /-- The registered targets of each unit, in ascending order. -/
  forward : Array (List Nat)
  /-- How many targets each unit has, placeholders included. -/
  outDegrees : Array Nat
  dependents : Array Nat
  edgeCount : Nat
  danglingEdgeCount : Nat

namespace Topology

def indexOf (ids : List String) : Std.HashMap String Nat :=
  .ofList ids.zipIdx

def rowNames (g : Graph) (table : Array (List Nat)) (identifier : String) : List String :=
  match g.position? identifier with
  | none => []
  | some i => g.namesOf (table[i]?.getD [])

def ofGraph (g : Graph) : Topology :=
  let units := g.units
  let ids := units.map (·.identifier)
  let index := indexOf ids
  let targetTable := g.targetTable
  let sourceTable := g.sourceTable
  let targets := ids.map (rowNames g targetTable)
  { ids := ids.toArray
    kinds := (units.map (·.kind)).toArray
    index := index
    forward := (targets.map fun names => names.filterMap fun s => index[s]?).toArray
    outDegrees := (targets.map List.length).toArray
    dependents := (ids.map fun s => (rowNames g sourceTable s).length).toArray
    edgeCount := g.edgeCount
    danglingEdgeCount := g.danglingEdgeCount }

def size (t : Topology) : Nat :=
  t.ids.size

def id (t : Topology) (i : Nat) : String :=
  t.ids[i]?.getD ""

def position? (t : Topology) (identifier : String) : Option Nat :=
  t.index[identifier]?

def kind? (t : Topology) (i : Nat) : Option UnitKind :=
  t.kinds[i]?

/-- The registered targets of a unit; a number beyond the last unit has none. -/
def successors (t : Topology) (i : Nat) : List Nat :=
  t.forward[i]?.getD []

def outDegree (t : Topology) (i : Nat) : Nat :=
  t.outDegrees[i]?.getD 0

def dependentCount (t : Topology) (i : Nat) : Nat :=
  t.dependents[i]?.getD 0

def vertices (t : Topology) : List Nat :=
  List.range t.size

end Topology

end DependencyAtlas
