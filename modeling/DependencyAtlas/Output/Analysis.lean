import DependencyAtlas.Analysis.Report
import DependencyAtlas.Loading
import DependencyAtlas.Output.Page

/-!
# The page of an analysis

The report of a graph, the units of highest rank if they were asked for, and what was left out when
the graph was loaded.
-/

namespace DependencyAtlas

structure AnalysisResult where
  report : Report
  ranks : List (RankedUnit Float)
  rejected : List Rejected

namespace AnalysisResult

open Page (tabbed sectionOf listed counted field)

def arrows (cycle : List String) : String :=
  String.intercalate " -> " cycle

def scoreText (r : RankedUnit Float) : String :=
  Decimal.fixed 6 r.score

def text (a : AnalysisResult) : List String :=
  let r := a.report
  [tabbed ["nodes", toString r.counts.nodes],
    tabbed ["edges", toString r.counts.edges],
    tabbed ["dangling_edges", toString r.counts.danglingEdges]] ++
  r.orphans.map (fun id => tabbed ["orphan", id]) ++
  r.deadEnds.map (fun id => tabbed ["dead_end", id]) ++
  r.hubs.map (fun h => tabbed ["hub", h.identifier, toString h.dependentCount]) ++
  r.cycles.map (fun c => tabbed ["cycle", arrows c]) ++
  r.bridges.map (fun b => tabbed ["bridge", b.identifier, toString b.count]) ++
  a.ranks.map (fun u => tabbed ["pagerank", u.identifier, scoreText u]) ++
  (if r.counts.cyclesTruncated then [tabbed ["warning", "cycle enumeration truncated"]] else []) ++
  r.errors.map (fun e => tabbed ["error", e.part, e.error.code.code, e.error.message]) ++
  a.rejected.map (fun j => tabbed ["rejected", s!"{j.source}#{j.index}", j.error.message])

def pretty (a : AnalysisResult) : List String :=
  let r := a.report
  let nothing := "(none)"
  let truncated := if r.counts.cyclesTruncated then ", truncated" else ""
  Page.sections <|
    [sectionOf "Graph"
        [field "Nodes" (toString r.counts.nodes), field "Edges" (toString r.counts.edges),
          field "Dangling edges" (toString r.counts.danglingEdges)],
      sectionOf s!"Orphans ({r.orphans.length})" (listed nothing r.orphans),
      sectionOf s!"Dead ends ({r.deadEnds.length})" (listed nothing r.deadEnds),
      sectionOf "Hubs" (listed nothing (r.hubs.map fun h => counted h.dependentCount h.identifier)),
      sectionOf s!"Cycles ({r.cycles.length}{truncated})"
        (listed "No dependency cycles found." (r.cycles.map arrows)),
      sectionOf "Bridges" (listed nothing (r.bridges.map fun b => counted b.count b.identifier))] ++
    (if a.ranks.isEmpty then []
      else [sectionOf "PageRank"
        (listed nothing (a.ranks.map fun u => s!"{scoreText u}  {u.identifier}"))]) ++
    (if r.errors.isEmpty && a.rejected.isEmpty then []
      else [sectionOf "Problems"
        (listed nothing
          (r.errors.map (fun e => s!"[{e.error.code.code}] {e.part} failed: {e.error.message}") ++
            a.rejected.map fun j =>
              s!"[{j.error.code.code}] {j.source}#{j.index} skipped: {j.error.message}"))])

/-- The fields of the report, followed by what there is besides. -/
def toJson (a : AnalysisResult) : Json :=
  .object (a.report.fields ++
    (if a.ranks.isEmpty then [] else [("pagerank", .list (a.ranks.map RankedUnit.toJson))]) ++
    (if a.rejected.isEmpty then [] else [("rejected", .list (a.rejected.map Rejected.toJson))]))

def page (a : AnalysisResult) : Page :=
  ⟨a.text, a.pretty, a.toJson⟩

end AnalysisResult

end DependencyAtlas
