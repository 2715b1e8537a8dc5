import DependencyAtlas.Graph.Query
import DependencyAtlas.Search.BreadthFirst

/-!
# What a change reaches

The units that depend on a unit through a chain of dependencies, nearest first, and the units that
a change of some files affects.
-/

namespace DependencyAtlas

namespace Graph

def byName (g : Graph) (positions : List Nat) : List Nat :=
  positions.mergeSort fun a b => decide (g.identifierAt a ≤ g.identifierAt b)

/-- The direct dependents of a node in the search for dependents; those at the greatest distance
are not followed further. -/
def dependentsToFollow (g : Graph) (table : Array (List Nat)) (limit : Option Nat) (w : Waiting) :
    List Nat :=
  if limit.any fun most => most ≤ w.distance then [] else g.byName (table[w.vertex]?.getD [])

def dependentsThrough (g : Graph) (table : Array (List Nat)) (limit : Option Nat) (start : Nat) :
    List String :=
  let follow := g.dependentsToFollow table limit
  let s := BreadthFirst.search g.nodes.size follow (fun _ => false) start
  s.discovered.map g.identifierAt

/-- The units that depend on `identifier` through a chain of at most `limit` dependencies: nearest
first, and the dependents of one unit in ascending order. The start itself is not among them. -/
def transitiveDependents (g : Graph) (identifier : String) (limit : Option Nat) : List String :=
  match g.position? identifier with
  | none => []
  | some i => g.dependentsThrough g.sourceTable limit i

end Graph

def dropDotSlash : List Char → List Char
  | '.' :: '/' :: rest => dropDotSlash rest
  | cs => cs

/-- The form in which paths are compared: without blanks at the ends and without leading `./`. -/
def comparablePath (path : String) : String :=
  String.ofList (dropDotSlash (Text.trimChars path.toList))

namespace Graph

/-- Whether a unit is defined in one of the changed files, given in comparable form. A unit without
a file never is. -/
def isDefinedIn (changed : List String) (u : RegisteredUnit) : Bool :=
  !u.file.isEmpty && changed.contains (comparablePath u.file)

/-- The units defined in the changed files and all units that depend on them, in ascending
order. -/
def affectedBy (g : Graph) (files : List String) : List String :=
  let changed := files.map comparablePath
  let table := g.sourceTable
  Text.ascending <| (g.units.filter (isDefinedIn changed)).flatMap fun u =>
    u.identifier ::
      match g.position? u.identifier with
      | none => []
      | some i => g.dependentsThrough table none i

end Graph

end DependencyAtlas
