import DependencyAtlas.Graph.Edge
import DependencyAtlas.Graph.Store
import DependencyAtlas.Text.Ascending

/-!
# Questions about one unit or all units

Answers name units by their identifiers and come in ascending order, so they do not depend on the
positions in the store.
-/

namespace DependencyAtlas

def Node.registered? (n : Node) : Option RegisteredUnit :=
  n.unit.map fun r => ⟨n.identifier, r.kind, r.file⟩

namespace Graph

def identifierAt (g : Graph) (i : Nat) : String :=
  (g.nodes[i]?.map (·.identifier)).getD ""

/-- The nodes that edges from `i` lead to, one for each edge. -/
def targetsAt (g : Graph) (i : Nat) : List Nat :=
  g.edges.toList.filterMap fun e => if e.source = i then some e.target else none

def sourcesAt (g : Graph) (i : Nat) : List Nat :=
  g.edges.toList.filterMap fun e => if e.target = i then some e.source else none

def namesOf (g : Graph) (positions : List Nat) : List String :=
  Text.ascending (positions.map g.identifierAt)

def dependentsOf (g : Graph) (identifier : String) : List String :=
  match g.position? identifier with
  | none => []
  | some i => g.namesOf (g.sourcesAt i)

/-- The targets of a unit, placeholders included. -/
def dependenciesOf (g : Graph) (identifier : String) : List String :=
  match g.position? identifier with
  | none => []
  | some i => g.namesOf (g.targetsAt i)

def shown (g : Graph) (e : Edge) : DependencyEdge where
  source := g.identifierAt e.source
  target := g.identifierAt e.target
  relationship := e.relationship
  via := e.via
  targetKind := e.targetKind

def newestFirst (g : Graph) (i : Nat) : List Edge :=
  (g.edges.toList.filter fun e => e.source == i).mergeSort fun a b => decide (b.serial ≤ a.serial)

/-- The edges of a unit by target, relationship and `via`. The sort is given them newest first, and
edges that agree in these three come in the order in which it leaves them. -/
def edgesOf (g : Graph) (identifier : String)
    (labelSort : DependencyEdge.LabelSort := .stable) : List DependencyEdge :=
  match g.position? identifier with
  | none => []
  | some i => labelSort.sort ((g.newestFirst i).map g.shown)

def allEdges (g : Graph) : List DependencyEdge :=
  DependencyEdge.sorted (g.edges.toList.map g.shown)

def units (g : Graph) : List RegisteredUnit :=
  (g.nodes.toList.filterMap Node.registered?).mergeSort fun a b =>
    decide (a.identifier ≤ b.identifier)

def unit? (g : Graph) (identifier : String) : Option RegisteredUnit :=
  (g.position? identifier).bind fun i => g.nodes[i]?.bind Node.registered?

def contains (g : Graph) (identifier : String) : Bool :=
  (g.unit? identifier).isSome

/-- Whether an identifier is known as a target only. -/
def isPlaceholder (g : Graph) (identifier : String) : Bool :=
  (g.position? identifier).any g.isPlaceholderAt

def unitCount (g : Graph) : Nat :=
  g.nodes.toList.countP fun n => n.unit.isSome

def placeholderCount (g : Graph) : Nat :=
  g.nodes.size - g.unitCount

def edgeCount (g : Graph) : Nat :=
  g.edges.size

def danglingEdgeCount (g : Graph) : Nat :=
  g.edges.toList.countP fun e => g.isPlaceholderAt e.target

def isEmpty (g : Graph) : Bool :=
  g.unitCount == 0

def unitsOfKind (g : Graph) (kind : UnitKind) : List String :=
  (g.units.filter fun u => u.kind == kind).map (·.identifier)

/-- For each of `size` keys the values of the edges with that key. -/
def tableOf (size : Nat) (key value : Edge → Nat) (edges : List Edge) : Array (List Nat) :=
  edges.foldr (fun e table => table.modify (key e) (value e :: ·)) (Array.replicate size [])

@[simp] theorem size_tableOf (size : Nat) (key value : Edge → Nat) (edges : List Edge) :
    (tableOf size key value edges).size = size := by
  induction edges with
  | nil => simp [tableOf]
  | cons e edges ih => simpa [tableOf] using ih

theorem getElem?_tableOf (size : Nat) (key value : Edge → Nat) (edges : List Edge) {i : Nat}
    (h : i < size) :
    (tableOf size key value edges)[i]? =
      some (edges.filterMap fun e => if key e = i then some (value e) else none) := by
  induction edges with
  | nil => simp [tableOf, h]
  | cons e edges ih =>
    have hs := size_tableOf size key value edges
    simp only [tableOf, List.foldr_cons] at ih hs ⊢
    rw [Array.getElem?_modify]
    by_cases hk : key e = i
    · simp [hk, ih]
    · simp [hk, ih]

def targetTable (g : Graph) : Array (List Nat) :=
  tableOf g.nodes.size (·.source) (·.target) g.edges.toList

def sourceTable (g : Graph) : Array (List Nat) :=
  tableOf g.nodes.size (·.target) (·.source) g.edges.toList

theorem getElem?_sourceTable (g : Graph) {i : Nat} (h : i < g.nodes.size) :
    g.sourceTable[i]? = some (g.sourcesAt i) :=
  getElem?_tableOf _ _ _ _ h

end Graph

end DependencyAtlas
