import DependencyAtlas.Analysis.Bridges
import DependencyAtlas.Analysis.Cycles
import DependencyAtlas.Analysis.Diagnostics
import DependencyAtlas.Analysis.PageRank
import DependencyAtlas.Config
import DependencyAtlas.Random.ChaCha

/-!
# The report

Every analysis of a graph in one value, with the counts of what was found. The parts do not depend
on each other: one that fails is left empty and told among the errors.
-/

namespace DependencyAtlas

structure ReportCounts where
  nodes : Nat
  edges : Nat
  danglingEdges : Nat
  orphans : Nat
  deadEnds : Nat
  hubs : Nat
  /-- A part that failed has no count. -/
  cycles : Option Nat
  bridges : Option Nat
  /-- Whether there are more cycles than those reported. -/
  cyclesTruncated : Bool
deriving DecidableEq

structure SectionError where
  part : String
  error : AnalysisError
deriving DecidableEq

structure Report where
  orphans : List String
  deadEnds : List String
  hubs : List Hub
  cycles : List (List String)
  bridges : List Bridge
  counts : ReportCounts
  errors : List SectionError
deriving DecidableEq

namespace Config

/-- The generator for samples: from the seed of the settings, or else from chance. -/
def generator (c : Config) (chance : UInt64) : ChaCha :=
  .ofSeed (c.seed.elim chance UInt64.ofNat)

end Config

namespace Topology

def rankedUnits (t : Topology) (c : Config) : PageRank Float :=
  t.pageRank c.damping c.tolerance c.maxIterations

def failure {α : Type} (part : String) : Except AnalysisError α → List SectionError
  | .ok _ => []
  | .error e => [⟨part, e⟩]

def assemble (t : Topology) (c : Config) (cycles : Except AnalysisError CycleReport)
    (bridges : Except AnalysisError (List Bridge)) : Report :=
  let orphans := t.orphans
  let deadEnds := t.deadEnds
  let hubs := t.hubs c.hubLimit
  let found := cycles.toOption
  { orphans := orphans
    deadEnds := deadEnds
    hubs := hubs
    cycles := (found.map (·.cycles)).getD []
    bridges := bridges.toOption.getD []
    counts := {
      nodes := t.size
      edges := t.edgeCount
      danglingEdges := t.danglingEdgeCount
      orphans := orphans.length
      deadEnds := deadEnds.length
      hubs := hubs.length
      cycles := found.map (·.cycles.length)
      bridges := bridges.toOption.map List.length
      cyclesTruncated := found.any (·.truncated) }
    errors := failure "cycles" cycles ++ failure "bridges" bridges }

def report {σ : Type} [Generator σ] (t : Topology) (c : Config) (g : σ) : Report :=
  t.assemble c (t.tryCycles c.maxCycles)
    (t.tryBridges c.bridgeLimit c.bridgeSampleSize c.bridgeMinNodes g)

end Topology

def Hub.toJson (h : Hub) : Json :=
  .object [("identifier", .text h.identifier), ("dependent_count", .int h.dependentCount)]

def Bridge.toJson (b : Bridge) : Json :=
  .object [("identifier", .text b.identifier), ("count", .int b.count)]

def RankedUnit.toJson (r : RankedUnit Float) : Json :=
  .object [("identifier", .text r.identifier), ("score", .float r.score)]

def SectionError.toJson (e : SectionError) : Json :=
  .object [("section", .text e.part), ("code", .text e.error.code.code),
    ("message", .text e.error.message)]

namespace ReportCounts

def optional (name : String) (count : Option Nat) : List (String × Json) :=
  (count.map fun n => (name, Json.int n)).toList

def toJson (c : ReportCounts) : Json :=
  .object ([
    ("node_count", .int c.nodes),
    ("edge_count", .int c.edges),
    ("dangling_edge_count", .int c.danglingEdges),
    ("orphan_count", .int c.orphans),
    ("dead_end_count", .int c.deadEnds),
    ("hub_count", .int c.hubs)] ++
    optional "cycle_count" c.cycles ++
    optional "bridge_count" c.bridges ++
    [("cycles_truncated", .bool c.cyclesTruncated)])

end ReportCounts

namespace Report

def textList (names : List String) : Json :=
  .list (names.map .text)

def fields (r : Report) : List (String × Json) :=
  [("orphans", textList r.orphans),
    ("dead_ends", textList r.deadEnds),
    ("hubs", .list (r.hubs.map Hub.toJson)),
    ("cycles", .list (r.cycles.map textList)),
    ("bridges", .list (r.bridges.map Bridge.toJson)),
    ("stats", r.counts.toJson)] ++
    (if r.errors.isEmpty then [] else [("errors", .list (r.errors.map SectionError.toJson))])

def toJson (r : Report) : Json :=
  .object r.fields

end Report

end DependencyAtlas
