import DependencyAtlas.Analysis.Report
import DependencyAtlas.Proofs.Analysis.Topology
import DependencyAtlas.Proofs.Graph.RoundTrip

/-!
# What analyses depend on

The searches and the ranking of a topology look at its units and the edges between them. So they are
a matter of the registered units of a graph and the dependencies between these: neither the out
degrees, which count placeholders too, nor the two counts of edges make a difference. Graphs of one
content have one topology, and with a fixed seed every analysis of it comes out the same.
-/

namespace DependencyAtlas

/-- A topology with other out degrees and other counts of edges. -/
def Topology.withCounts (t : Topology) (outDegrees : Array Nat) (edges danglingEdges : Nat) :
    Topology :=
  { t with outDegrees := outDegrees, edgeCount := edges, danglingEdgeCount := danglingEdges }

theorem Topology.eq_withCounts {t t' : Topology} (hids : t'.ids = t.ids)
    (hkinds : t'.kinds = t.kinds) (hindex : t'.index = t.index) (hforward : t'.forward = t.forward)
    (hdependents : t'.dependents = t.dependents) :
    t' = t.withCounts t'.outDegrees t'.edgeCount t'.danglingEdgeCount := by
  rw [withCounts, ← hids, ← hkinds, ← hindex, ← hforward, ← hdependents]

def Topology.recounted (t : Topology) (edges danglingEdges : Nat) : Topology :=
  { t with edgeCount := edges, danglingEdgeCount := danglingEdges }

def Report.recounted (r : Report) (edges danglingEdges : Nat) : Report :=
  { r with counts := { r.counts with edges := edges, danglingEdges := danglingEdges } }

section Analyses

variable (t : Topology) (outDegrees : Array Nat) (edges danglingEdges : Nat)

theorem CycleSearch.step_withCounts (cap : Nat) :
    step (t.withCounts outDegrees edges danglingEdges) cap = step t cap := by
  funext s
  rfl

theorem CycleSearch.run_withCounts (cap fuel : Nat) (s : CycleSearch) :
    run (t.withCounts outDegrees edges danglingEdges) cap fuel s = run t cap fuel s := by
  induction fuel generalizing s with
  | zero => rfl
  | succ fuel ih => simp only [run, step_withCounts, ih]

theorem Bridges.tallyAll_withCounts :
    tallyAll (t.withCounts outDegrees edges danglingEdges) = tallyAll t :=
  rfl

theorem Bridges.tallySample_withCounts {σ : Type} [Generator σ] (draws : Nat) (g : σ)
    (buffers : BreadthFirst) (tally : Array Nat) :
    tallySample (t.withCounts outDegrees edges danglingEdges) draws g buffers tally =
      tallySample t draws g buffers tally := by
  induction draws generalizing g buffers tally with
  | zero => rfl
  | succ draws ih =>
    simp only [tallySample, ih]
    rfl

theorem PageRank.iterate_withCounts {α : Type} [Scalar α] :
    iterate (α := α) (t.withCounts outDegrees edges danglingEdges) = iterate t :=
  rfl

theorem PageRank.loop_withCounts {α : Type} [Scalar α] (damping tolerance : α) (left : Nat)
    (s : RankState α) :
    loop (t.withCounts outDegrees edges danglingEdges) damping tolerance left s =
      loop t damping tolerance left s := by
  induction left generalizing s with
  | zero => rfl
  | succ left ih =>
    simp only [loop, ih, iterate_withCounts]
    rfl

namespace Topology

theorem orphans_withCounts :
    (t.withCounts outDegrees edges danglingEdges).orphans = t.orphans :=
  rfl

theorem hubs_withCounts (limit : Nat) :
    (t.withCounts outDegrees edges danglingEdges).hubs limit = t.hubs limit :=
  rfl

theorem deadEnds_recounted : (t.recounted edges danglingEdges).deadEnds = t.deadEnds :=
  rfl

theorem tryCycles_withCounts (cap : Nat) :
    (t.withCounts outDegrees edges danglingEdges).tryCycles cap = t.tryCycles cap := by
  simp only [tryCycles, CycleSearch.final, CycleSearch.run_withCounts]
  rfl

theorem tryBridges_withCounts {σ : Type} [Generator σ] (limit sampleSize minNodes : Nat) (g : σ) :
    (t.withCounts outDegrees edges danglingEdges).tryBridges limit sampleSize minNodes g =
      t.tryBridges limit sampleSize minNodes g := by
  simp only [tryBridges, Bridges.tally, Bridges.tallyAll_withCounts, Bridges.tallySample_withCounts]
  rfl

theorem pageRank_withCounts {α : Type} [Scalar α] (damping tolerance : α) (maxIterations : Nat) :
    (t.withCounts outDegrees edges danglingEdges).pageRank damping tolerance maxIterations =
      t.pageRank damping tolerance maxIterations := by
  simp only [pageRank, PageRank.loop_withCounts]
  rfl

theorem report_recounted {σ : Type} [Generator σ] (c : Config) (g : σ) :
    (t.recounted edges danglingEdges).report c g =
      (t.report c g).recounted edges danglingEdges := by
  have ht : t.recounted edges danglingEdges = t.withCounts t.outDegrees edges danglingEdges := rfl
  simp only [ht, report, tryCycles_withCounts, tryBridges_withCounts]
  rfl

end Topology

end Analyses

namespace Graph

variable {g h : Graph} {x : String}

/-- The same units and the same dependencies between units. -/
structure SameLinks (g h : Graph) : Prop where
  unit? : ∀ x, g.unit? x = h.unit? x
  links_iff : ∀ x y, g.Links x y ↔ h.Links x y

/-- The analyses of two graphs that look at units and the dependencies between them come out the
same. -/
structure LinksAnalysedAlike (g h : Graph) : Prop where
  orphans : (Topology.ofGraph h).orphans = (Topology.ofGraph g).orphans
  hubs : ∀ limit, (Topology.ofGraph h).hubs limit = (Topology.ofGraph g).hubs limit
  tryCycles : ∀ cap, (Topology.ofGraph h).tryCycles cap = (Topology.ofGraph g).tryCycles cap
  tryBridges : ∀ {σ : Type} [Generator σ] (random : σ) (limit sampleSize minNodes : Nat),
    (Topology.ofGraph h).tryBridges limit sampleSize minNodes random =
      (Topology.ofGraph g).tryBridges limit sampleSize minNodes random
  pageRank : ∀ {α : Type} [Scalar α] (damping tolerance : α) (maxIterations : Nat),
    (Topology.ofGraph h).pageRank damping tolerance maxIterations =
      (Topology.ofGraph g).pageRank damping tolerance maxIterations

namespace SameLinks

variable (hs : g.SameLinks h)

include hs

theorem contains_eq (x : String) : g.contains x = h.contains x := by
  rw [contains, contains, hs.unit?]

theorem dependentsOf_eq (hg : g.Indexed) (hh : h.Indexed) (hx : g.contains x = true) :
    g.dependentsOf x = h.dependentsOf x := by
  apply Text.eq_of_ascending (fun s => s) (pairwise_dependentsOf g x) (pairwise_dependentsOf h x)
  intro s
  rw [mem_dependentsOf_iff_links hg hx, mem_dependentsOf_iff_links hh (hs.contains_eq x ▸ hx),
    hs.links_iff]

theorem filter_dependenciesOf_eq (hg : g.Indexed) (hh : h.Indexed) (x : String) :
    (g.dependenciesOf x).filter g.contains = (h.dependenciesOf x).filter h.contains := by
  apply Text.eq_of_ascending (fun s => s) ((pairwise_dependenciesOf g x).filter _)
    ((pairwise_dependenciesOf h x).filter _)
  intro s
  rw [mem_filter_dependenciesOf_iff_links hg, mem_filter_dependenciesOf_iff_links hh, hs.links_iff]

/-- The chains of dependents that start at a unit lead through units. -/
theorem transitiveDependents_eq (hg : g.Indexed) (hh : h.Indexed) (hx : g.contains x = true)
    (limit : Option Nat) : g.transitiveDependents x limit = h.transitiveDependents x limit :=
  transitiveDependents_congr (P := fun x => g.contains x = true) hg hh
    (fun _ hx _ hy => ((mem_dependentsOf_iff_links hg hx).mp hy).1)
    (fun _ hx => hs.dependentsOf_eq hg hh hx) hx limit

theorem affectedBy_eq (hg : g.Indexed) (hh : h.Indexed) (files : List String) :
    g.affectedBy files = h.affectedBy files :=
  affectedBy_congr (P := fun x => g.contains x = true) hg hh
    (units_eq_of_unit?_eq hg hh hs.unit?)
    (fun _ hx _ hy => ((mem_dependentsOf_iff_links hg hx).mp hy).1)
    (fun _ hx => hs.dependentsOf_eq hg hh hx)
    (fun _ hu => Option.isSome_of_eq_some ((mem_units hg).mp hu)) files

theorem ofGraph_eq (hg : g.Indexed) (hh : h.Indexed) :
    Topology.ofGraph h = (Topology.ofGraph g).withCounts (Topology.ofGraph h).outDegrees
      h.edgeCount h.danglingEdgeCount := by
  have hunits := units_eq_of_unit?_eq hg hh hs.unit?
  have hnames : Topology.names h = Topology.names g := by rw [Topology.names, ← hunits]; rfl
  have hforward : (Topology.ofGraph h).forward = (Topology.ofGraph g).forward := by
    simp only [Topology.forward_ofGraph hg, Topology.forward_ofGraph hh, hunits, hnames,
      hs.filter_dependenciesOf_eq hg hh]
  have hdependents : (Topology.ofGraph h).dependents = (Topology.ofGraph g).dependents := by
    rw [Topology.dependents_ofGraph hg, Topology.dependents_ofGraph hh, ← hunits]
    congr 1
    apply List.map_congr_left
    intro u hu
    rw [hs.dependentsOf_eq hg hh (Option.isSome_of_eq_some ((mem_units hg).mp hu))]
  apply Topology.eq_withCounts _ _ _ hforward hdependents
  · simp only [Topology.ofGraph, hunits]
  · simp only [Topology.ofGraph, hunits]
  · simp only [Topology.ofGraph, hunits]

theorem linksAnalysedAlike (hg : g.Indexed) (hh : h.Indexed) : g.LinksAnalysedAlike h := by
  have ht := hs.ofGraph_eq hg hh
  refine ⟨?_, fun limit => ?_, fun cap => ?_, fun random limit sampleSize minNodes => ?_,
    fun damping tolerance maxIterations => ?_⟩
  · rw [ht, Topology.orphans_withCounts]
  · rw [ht, Topology.hubs_withCounts]
  · rw [ht, Topology.tryCycles_withCounts]
  · rw [ht, Topology.tryBridges_withCounts]
  · rw [ht, Topology.pageRank_withCounts]

end SameLinks

theorem SameShape.sameLinks (hs : g.SameShape h) (hg : g.Indexed) (hh : h.Indexed) :
    g.SameLinks h := by
  refine ⟨hs.unit?, fun x y => ?_⟩
  rw [Links, Links, contains, contains, hs.unit?, contains, contains, hs.unit?,
    hs.dependenciesOf_eq hg hh]

theorem SameShape.ofGraph_eq (hs : g.SameShape h) (hg : g.Indexed) (hh : h.Indexed) :
    Topology.ofGraph h = (Topology.ofGraph g).recounted h.edgeCount h.danglingEdgeCount := by
  have htargets : Topology.rowNames h h.targetTable = Topology.rowNames g g.targetTable := by
    funext x
    rw [Topology.rowNames_targetTable hh, Topology.rowNames_targetTable hg,
      hs.dependenciesOf_eq hg hh]
  have houtDegrees : (Topology.ofGraph h).outDegrees = (Topology.ofGraph g).outDegrees := by
    simp only [Topology.ofGraph, htargets, hs.units_eq hg hh]
  rw [(hs.sameLinks hg hh).ofGraph_eq hg hh, houtDegrees]
  rfl

theorem SameContent.ofGraph_eq (hc : g.SameContent h) (hg : g.Indexed) (hh : h.Indexed) :
    Topology.ofGraph g = Topology.ofGraph h := by
  rw [hc.sameShape.ofGraph_eq hg hh, ← hc.edgeCount_eq, ← hc.danglingEdgeCount_eq hg hh]
  rfl

/-- Two graphs have one topology, and with a fixed seed their analyses come out the same, whatever
the words from a source of chance are. -/
structure AnalysedAlike (g h : Graph) : Prop where
  topology : Topology.ofGraph g = Topology.ofGraph h
  report : ∀ (c : Config) (seed : Nat) (chance chance' : UInt64), c.seed = some seed →
    (Topology.ofGraph g).report c (c.generator chance) =
      (Topology.ofGraph h).report c (c.generator chance')
  rankedUnits : ∀ c : Config,
    (Topology.ofGraph g).rankedUnits c = (Topology.ofGraph h).rankedUnits c

theorem SameContent.analysedAlike (hc : g.SameContent h) (hg : g.Indexed) (hh : h.Indexed) :
    g.AnalysedAlike h := by
  have ht := hc.ofGraph_eq hg hh
  refine ⟨ht, fun c seed chance chance' hseed => ?_, fun c => by rw [ht]⟩
  have hgenerator : c.generator chance = c.generator chance' := by
    rw [Config.generator, Config.generator, hseed, Option.elim_some, Option.elim_some]
  rw [ht, hgenerator]

end Graph

end DependencyAtlas
