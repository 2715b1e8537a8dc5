import DependencyAtlas.Graph.SnapshotJson
import DependencyAtlas.Output.Page

/-!
# The page of a snapshot

The JSON form is the snapshot itself, which can be loaded again.
-/

namespace DependencyAtlas.Snapshot

open Page (tabbed sectionOf listed field)

def text (s : Snapshot) : List String :=
  tabbed ["hash", s.contentHash] ::
  s.nodes.entries.map (fun e => tabbed ["node", e.1, e.2.kind.name, e.2.file]) ++
  s.edges.map (fun e => tabbed ["edge", e.source, e.target, e.relationship])

/-- An edge with its labels; an unregistered target is marked. -/
def edgeLine (nodes : NodeMap) (e : DependencyEdge) : String :=
  let via :=
    match e.via with
    | some via => s!" via {via}"
    | none => ""
  let mark := if nodes.contains e.target then "" else "  (unregistered)"
  s!"{e.source} -> {e.target} [{e.relationship}{via}]{mark}"

def pretty (s : Snapshot) : List String :=
  Page.sections
    [sectionOf "Snapshot"
        [field "Nodes" (toString s.nodes.size), field "Edges" (toString s.edges.length),
          field "Content hash" s.contentHash],
      sectionOf "Edges" (listed "(none)" (s.edges.map (edgeLine s.nodes)))]

def page (s : Snapshot) : Page :=
  ⟨s.text, s.pretty, s.toJson⟩

end DependencyAtlas.Snapshot
