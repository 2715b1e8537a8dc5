import DependencyAtlas.Graph.Query

/-!
# Building a graph together

Several producers share one graph while it is built. A unit is checked before the graph is taken,
so an invalid unit never touches it; one registration is one step. Finishing hands out the graph.
-/

namespace DependencyAtlas

structure SharedBuild where
  inner : Graph := .empty

namespace SharedBuild

def new : SharedBuild := {}

def ofGraph (g : Graph) : SharedBuild := ⟨g⟩

def register (b : SharedBuild) (u : CodeUnit) : Except GraphError SharedBuild :=
  match u.validate with
  | .ok _ => .ok ⟨b.inner.insert u⟩
  | .error e => .error e

def unitCount (b : SharedBuild) : Nat :=
  b.inner.unitCount

def finish (b : SharedBuild) : Graph :=
  b.inner

end SharedBuild

end DependencyAtlas
