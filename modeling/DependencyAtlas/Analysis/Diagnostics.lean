import DependencyAtlas.Analysis.Ranking
import DependencyAtlas.Analysis.Topology

/-!
# Diagnostics by degree

Orphans, on which nothing depends, dead ends, which depend on nothing, and hubs, on which the most
units depend.
-/

namespace DependencyAtlas

structure Hub where
  identifier : String
  dependentCount : Nat
deriving DecidableEq

namespace Topology

def isVendoredAt (t : Topology) (i : Nat) : Bool :=
  (t.kind? i).any UnitKind.isVendored

/-- The units without dependents. Vendored units are expected to have none. -/
def orphans (t : Topology) : List String :=
  (t.vertices.filter fun i => t.dependentCount i == 0 && !t.isVendoredAt i).map t.id

/-- The units without dependencies. A dependency on an unregistered unit is one. -/
def deadEnds (t : Topology) : List String :=
  (t.vertices.filter fun i => t.outDegree i == 0).map t.id

def hubs (t : Topology) (limit : Nat) : List Hub :=
  (Ranking.top t.dependentCount t.vertices limit).map fun i => ⟨t.id i, t.dependentCount i⟩

end Topology

end DependencyAtlas
