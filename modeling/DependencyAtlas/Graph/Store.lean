import DependencyAtlas.Unit.Record
import Std.Data.HashMap

/-!
# The dependency graph

Nodes and edges live in arrays and name each other by position; a map leads from identifiers to
positions. A node that is only the target of some edge is a placeholder. Registering a unit again
replaces it together with its outgoing edges, and placeholders that nothing refers to any more are
removed. An element leaves an array by the last one taking its place, so several elements are
removed from the highest position down.
-/

namespace DependencyAtlas

structure Registration where
  kind : UnitKind
  file : String
deriving DecidableEq

/-- A node; a placeholder has no unit. -/
structure Node where
  identifier : String
  unit : Option Registration
deriving DecidableEq

/-- An edge between two positions, with its labels. Later declarations have larger serial
numbers. -/
structure Edge where
  source : Nat
  target : Nat
  relationship : String
  via : Option String
  targetKind : String
  serial : Nat
deriving DecidableEq

structure Graph where
  nodes : Array Node := #[]
  edges : Array Edge := #[]
  index : Std.HashMap String Nat := ∅
  declared : Nat := 0

/-- Removes the element at a position; the last element takes its place. -/
def swapRemove {α : Type} (xs : Array α) (i : Nat) : Array α :=
  if i < xs.size then (xs.swapIfInBounds i (xs.size - 1)).pop else xs

theorem size_swapRemove {α : Type} {xs : Array α} {i : Nat} (h : i < xs.size) :
    (swapRemove xs i).size = xs.size - 1 := by
  simp [swapRemove, h]

namespace Edge

/-- The edge after the node at `old` has moved to `new`. -/
def rename (old new : Nat) (e : Edge) : Edge :=
  { e with
    source := if e.source = old then new else e.source
    target := if e.target = old then new else e.target }

end Edge

namespace Graph

def empty : Graph := {}

def position? (g : Graph) (identifier : String) : Option Nat :=
  g.index[identifier]?

def isPlaceholderAt (g : Graph) (i : Nat) : Bool :=
  g.nodes[i]?.any fun n => n.unit.isNone

/-- The position of an identifier, which becomes a placeholder if it is unknown. -/
def intern (g : Graph) (identifier : String) : Nat × Graph :=
  match g.index[identifier]? with
  | some i => (i, g)
  | none =>
    let i := g.nodes.size
    (i, { g with
      nodes := g.nodes.push ⟨identifier, none⟩
      index := g.index.insert identifier i })

def setUnit (g : Graph) (i : Nat) (r : Registration) : Graph :=
  { g with nodes := g.nodes.modify i fun n => { n with unit := some r } }

def addDependency (source : Nat) (g : Graph) (d : Dependency) : Graph :=
  let (target, g) := g.intern d.target
  let serial := g.declared
  { g with
    edges := g.edges.push ⟨source, target, d.relationship, d.via, d.kind, serial⟩
    declared := serial + 1 }

/-- The positions of the edges that leave a node, from the highest down. -/
def outgoing (g : Graph) (i : Nat) : List Nat :=
  (List.range g.edges.size).reverse.filter fun p => g.edges[p]?.any fun e => e.source == i

/-- Whether a node is a placeholder without incoming edges. -/
def isAbandoned (g : Graph) (i : Nat) : Bool :=
  g.isPlaceholderAt i && !g.edges.any fun e => e.target == i

/-- Removes a placeholder that no edge touches. The last node moves into its place. -/
def removePlaceholder (g : Graph) (i : Nat) : Graph :=
  match g.nodes[i]? with
  | none => g
  | some removed =>
    let last := g.nodes.size - 1
    let nodes := swapRemove g.nodes i
    let index := g.index.erase removed.identifier
    { g with
      nodes := nodes
      edges := g.edges.map (Edge.rename last i)
      index :=
        match nodes[i]? with
        | some moved => index.insert moved.identifier i
        | none => index }

def descending (positions : List Nat) : List Nat :=
  positions.eraseDups.mergeSort fun a b => decide (b ≤ a)

/-- Removes the outgoing edges of a node, and then the placeholders among their targets that no
edge leads to any more. -/
def clearOutgoing (g : Graph) (i : Nat) : Graph :=
  let positions := g.outgoing i
  let targets := positions.filterMap fun p => g.edges[p]?.map (·.target)
  let g := { g with edges := positions.foldl swapRemove g.edges }
  (descending (targets.filter g.isAbandoned)).foldl removePlaceholder g

/-- Registers a valid unit. Removing placeholders may move its node, so its position is looked up
again before its dependencies are declared. -/
def insert (g : Graph) (u : CodeUnit) : Graph :=
  let (i, g) := g.intern u.identifier
  let known := !g.isPlaceholderAt i
  let g := g.setUnit i ⟨u.kind, u.file⟩
  let g := if known then g.clearOutgoing i else g
  let (i, g) := g.intern u.identifier
  u.dependencies.foldl (addDependency i) g

/-- Registers a unit; an invalid one leaves the graph as it is. -/
def register (g : Graph) (u : CodeUnit) : Except GraphError Graph :=
  match u.validate with
  | .ok _ => .ok (g.insert u)
  | .error e => .error e

/-- Registers units up to the first invalid one. Yields the graph with the units before it, and
their number or the error. -/
def registerAll (g : Graph) : List CodeUnit → Graph × Except GraphError Nat
  | [] => (g, .ok 0)
  | u :: rest =>
    match g.register u with
    | .error e => (g, .error e)
    | .ok h =>
      let (final, count) := h.registerAll rest
      (final, count.map (· + 1))

end Graph

end DependencyAtlas
