import DependencyAtlas.Digest.Blake3
import DependencyAtlas.Graph.Query
import DependencyAtlas.Text.Keyed

/-!
# Snapshots

A snapshot is the content of a graph without its placeholders, which edges bring back: the
registered units by identifier, all edges, and a hash of both. Units are rebuilt from a snapshot
when every edge starts at one of its nodes.
-/

namespace DependencyAtlas

/-- Registered units by identifier, in strictly ascending order. -/
structure NodeMap where
  entries : List (String × Registration)
  ascending : entries.Pairwise fun p q => p.1 < q.1

namespace NodeMap

/-- Of several entries under one identifier the last one counts. -/
def ofList (entries : List (String × Registration)) : NodeMap :=
  ⟨Text.byKey entries, Text.pairwise_byKey entries⟩

def contains (m : NodeMap) (identifier : String) : Bool :=
  m.entries.any fun e => e.1 == identifier

def size (m : NodeMap) : Nat :=
  m.entries.length

theorem ext {m n : NodeMap} (h : m.entries = n.entries) : m = n := by
  cases m
  cases n
  simpa using h

instance : DecidableEq NodeMap := fun m n =>
  decidable_of_iff (m.entries = n.entries) ⟨ext, fun h => h ▸ rfl⟩

end NodeMap

structure Snapshot where
  nodes : NodeMap
  edges : List DependencyEdge
  contentHash : String
deriving DecidableEq

namespace Snapshot

def terminated (s : String) : List UInt8 :=
  s.toUTF8.toList ++ [0x00]

def nodeBytes (e : String × Registration) : List UInt8 :=
  terminated e.1 ++ terminated e.2.kind.name ++ terminated e.2.file

/-- An absent `via` is told apart from an empty one. -/
def viaBytes : Option String → List UInt8
  | some via => 0x02 :: via.toUTF8.toList
  | none => [0x03]

def edgeBytes (e : DependencyEdge) : List UInt8 :=
  terminated e.source ++ terminated e.target ++ terminated e.relationship ++
    viaBytes e.via ++ [0x00] ++ terminated e.targetKind

/-- The bytes that are hashed: every node, a separator, and every edge in the order of the
fields. -/
def hashInput (nodes : NodeMap) (edges : List DependencyEdge) : List UInt8 :=
  nodes.entries.flatMap nodeBytes ++ [0x01] ++ (DependencyEdge.byFields edges).flatMap edgeBytes

def hashOf (nodes : NodeMap) (edges : List DependencyEdge) : String :=
  "blake3:" ++ Digest.Blake3.hexDigest (hashInput nodes edges)

def verifyHash (s : Snapshot) : Bool :=
  hashOf s.nodes s.edges == s.contentHash

def dependencyOf (e : DependencyEdge) : Dependency where
  target := e.target
  relationship := e.relationship
  via := e.via
  kind := e.targetKind

def unitOf (edges : List DependencyEdge) (e : String × Registration) : CodeUnit where
  identifier := e.1
  kind := e.2.kind
  file := e.2.file
  dependencies := (edges.filter fun d => d.source == e.1).map dependencyOf

/-- The units in ascending order, unless an edge starts at no node. -/
def toUnits (s : Snapshot) : Except GraphError (List CodeUnit) :=
  match s.edges.find? fun e => !s.nodes.contains e.source with
  | some e => .error (.unknownSource e.source)
  | none => .ok (s.nodes.entries.map (unitOf s.edges))

end Snapshot

namespace Graph

def nodeMap (g : Graph) : NodeMap :=
  .ofList (g.units.map fun u => (u.identifier, ⟨u.kind, u.file⟩))

def toSnapshot (g : Graph) : Snapshot :=
  let nodes := g.nodeMap
  let edges := g.allEdges
  ⟨nodes, edges, Snapshot.hashOf nodes edges⟩

def ofSnapshot (s : Snapshot) : Except GraphError Graph :=
  match s.toUnits with
  | .error e => .error e
  | .ok units =>
    match Graph.empty.registerAll units with
    | (g, .ok _) => .ok g
    | (_, .error e) => .error e

end Graph

end DependencyAtlas
