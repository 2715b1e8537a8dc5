import DependencyAtlas.Graph.Snapshot

/-!
# The JSON form of snapshots

An edge is printed without an absent `via` and without an empty kind; reading restores both.
-/

namespace DependencyAtlas

open Decoding

namespace Registration

def toJson (r : Registration) : Json :=
  .object [("kind", r.kind.toJson), ("file_path", .text r.file)]

structure Draft where
  kind : Option UnitKind := none
  file : Option String := none

def Draft.visit (d : Draft) (key : String) (v : Json) : Except Mismatch Draft :=
  match key with
  | "kind" => return { d with kind := ← fill "kind" d.kind UnitKind.ofJson v }
  | "file_path" => return { d with file := ← fill "file_path" d.file text v }
  | _ => return d

def ofFields (fields : List (String × Json)) : Except Mismatch Registration := do
  let d ← visitFields Draft.visit {} fields
  return ⟨← require "kind" d.kind, d.file.getD ""⟩

def ofItems (items : List Json) : Except Mismatch Registration := do
  let (kind, rest) ← requireItem "NodeEntry" 2 0 UnitKind.ofJson items
  let (file, rest) ← nextItem text rest
  endOfItems items rest ⟨kind, file.getD ""⟩

def ofJson : Json → Except Mismatch Registration
  | .object fields => ofFields fields
  | .list items => ofItems items
  | v => .error (.invalidType v.shape (.record "NodeEntry"))

end Registration

namespace NodeMap

def toJson (m : NodeMap) : Json :=
  .object (m.entries.map fun e => (e.1, e.2.toJson))

def entryOfField (f : String × Json) : Except Mismatch (String × Registration) :=
  (Registration.ofJson f.2).map fun r => (f.1, r)

def ofJson : Json → Except Mismatch NodeMap
  | .object fields => (fields.mapM entryOfField).map ofList
  | v => .error (.invalidType v.shape .mapping)

end NodeMap

namespace DependencyEdge

def toJson (e : DependencyEdge) : Json :=
  .object ([("source", .text e.source), ("target", .text e.target),
    ("relationship", .text e.relationship)] ++
    (match e.via with
      | none => []
      | some via => [("via", .text via)]) ++
    if e.targetKind.isEmpty then [] else [("type", .text e.targetKind)])

structure Draft where
  source : Option String := none
  target : Option String := none
  relationship : Option String := none
  via : Option (Option String) := none
  targetKind : Option String := none

def Draft.visit (d : Draft) (key : String) (v : Json) : Except Mismatch Draft :=
  match key with
  | "source" => return { d with source := ← fill "source" d.source text v }
  | "target" => return { d with target := ← fill "target" d.target text v }
  | "relationship" => return { d with relationship := ← fill "relationship" d.relationship text v }
  | "via" => return { d with via := ← fill "via" d.via optionalText v }
  | "type" => return { d with targetKind := ← fill "type" d.targetKind text v }
  | _ => return d

def ofFields (fields : List (String × Json)) : Except Mismatch DependencyEdge := do
  let d ← visitFields Draft.visit {} fields
  return {
    source := ← require "source" d.source
    target := ← require "target" d.target
    relationship := ← require "relationship" d.relationship
    via := d.via.getD none
    targetKind := d.targetKind.getD "" }

def ofItems (items : List Json) : Except Mismatch DependencyEdge := do
  let (source, rest) ← requireItem "EdgeEntry" 5 0 text items
  let (target, rest) ← requireItem "EdgeEntry" 5 1 text rest
  let (relationship, rest) ← requireItem "EdgeEntry" 5 2 text rest
  let (via, rest) ← nextItem optionalText rest
  let (targetKind, rest) ← nextItem text rest
  endOfItems items rest {
    source := source
    target := target
    relationship := relationship
    via := via.getD none
    targetKind := targetKind.getD "" }

def ofJson : Json → Except Mismatch DependencyEdge
  | .object fields => ofFields fields
  | .list items => ofItems items
  | v => .error (.invalidType v.shape (.record "EdgeEntry"))

end DependencyEdge

namespace Snapshot

def toJson (s : Snapshot) : Json :=
  .object [("nodes", s.nodes.toJson), ("edges", .list (s.edges.map DependencyEdge.toJson)),
    ("content_hash", .text s.contentHash)]

structure Draft where
  nodes : Option NodeMap := none
  edges : Option (List DependencyEdge) := none
  contentHash : Option String := none

def Draft.visit (d : Draft) (key : String) (v : Json) : Except Mismatch Draft :=
  match key with
  | "nodes" => return { d with nodes := ← fill "nodes" d.nodes NodeMap.ofJson v }
  | "edges" => return { d with edges := ← fill "edges" d.edges (listOf DependencyEdge.ofJson) v }
  | "content_hash" =>
    return { d with contentHash := ← fill "content_hash" d.contentHash text v }
  | _ => return d

def ofFields (fields : List (String × Json)) : Except Mismatch Snapshot := do
  let d ← visitFields Draft.visit {} fields
  return ⟨← require "nodes" d.nodes, ← require "edges" d.edges,
    ← require "content_hash" d.contentHash⟩

def ofItems (items : List Json) : Except Mismatch Snapshot := do
  let (nodes, rest) ← requireItem "GraphSnapshot" 3 0 NodeMap.ofJson items
  let (edges, rest) ← requireItem "GraphSnapshot" 3 1 (listOf DependencyEdge.ofJson) rest
  let (contentHash, rest) ← requireItem "GraphSnapshot" 3 2 text rest
  endOfItems items rest ⟨nodes, edges, contentHash⟩

def ofJson : Json → Except Mismatch Snapshot
  | .object fields => ofFields fields
  | .list items => ofItems items
  | v => .error (.invalidType v.shape (.record "GraphSnapshot"))

end Snapshot

end DependencyAtlas
