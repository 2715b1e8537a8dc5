import DependencyAtlas.Proofs.Sorting
import DependencyAtlas.Unit.Kind

/-!
# Dependency edges

An edge as it is shown: by the identifiers of its ends and with its labels. Edges are ordered by
source, target, relationship, `via` and target kind; an absent `via` comes first.
-/

namespace DependencyAtlas

structure DependencyEdge where
  source : String
  target : String
  relationship : String
  via : Option String
  /-- The kind of the target, as it was declared. -/
  targetKind : String
deriving DecidableEq, Ord

namespace DependencyEdge

def order : DependencyEdge → DependencyEdge → Ordering :=
  compareLex (compareOn source) <| compareLex (compareOn target) <|
    compareLex (compareOn relationship) <| compareLex (compareOn via) (compareOn targetKind)

/-- The order of the edges of one unit. It does not look at the target kind. -/
def labelOrder : DependencyEdge → DependencyEdge → Ordering :=
  compareLex (compareOn target) <| compareLex (compareOn relationship) (compareOn via)

def sorted (edges : List DependencyEdge) : List DependencyEdge :=
  edges.mergeSort fun a b => (order a b).isLE

/-- Edges in the order of their fields, as the hash of a snapshot takes them. -/
def byFields (edges : List DependencyEdge) : List DependencyEdge :=
  edges.mergeSort fun a b => (compare a b).isLE

instance : Std.TransCmp labelOrder :=
  inferInstanceAs <| Std.TransCmp <| compareLex (compareOn target) <|
    compareLex (compareOn relationship) (compareOn via)

/-- An unstable sort of the edges of one unit. In which order it leaves edges that differ in their
target kind only is not said. -/
structure LabelSort where
  sort : List DependencyEdge → List DependencyEdge
  perm : ∀ edges, (sort edges).Perm edges
  ordered : ∀ edges, (sort edges).Pairwise fun a b => (labelOrder a b).isLE = true

/-- The sort that leaves such edges as they come. -/
def LabelSort.stable : LabelSort where
  sort edges := edges.mergeSort fun a b => (labelOrder a b).isLE
  perm edges := List.mergeSort_perm edges _
  ordered edges := pairwise_mergeSort_isLE edges

end DependencyEdge

structure RegisteredUnit where
  identifier : String
  kind : UnitKind
  file : String
deriving DecidableEq

end DependencyAtlas
