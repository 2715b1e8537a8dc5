import DependencyAtlas.Proofs.Analysis.EdgeCounts
import DependencyAtlas.Proofs.Graph.Agreement

/-!
# What a history leaves behind

The order of registrations, former versions of units and refused units leave no trace: calls whose
last valid units are the same up to the order of dependencies make graphs that nothing tells apart.
Labels and repeated dependencies reach no analysis: units with the same targets make graphs that
differ in their counts of edges only.
-/

namespace DependencyAtlas.Graph

/-- Calls with the same last valid units, up to the order of dependencies, make graphs with one
snapshot, which answer alike and are analysed alike. -/
theorem afterCalls_alike {calls calls' : List Call}
    (h : HistoriesAgree CodeUnit.Reordered (calls.flatMap Call.accepted)
      (calls'.flatMap Call.accepted)) :
    (afterCalls calls).toSnapshot = (afterCalls calls').toSnapshot ∧
      (afterCalls calls).AnswersAlike (afterCalls calls') ∧
        (afterCalls calls).AnalysedAlike (afterCalls calls') := by
  have hg := represents_afterCalls calls
  have hh := represents_afterCalls calls'
  have hc := hg.sameContent hh h
  exact ⟨hc.toSnapshot_eq hg.wellFormed.toIndexed hh.wellFormed.toIndexed,
    hc.answersAlike hg.wellFormed hh.wellFormed,
    hc.analysedAlike hg.wellFormed.toIndexed hh.wellFormed.toIndexed⟩

def plainDependency (target : String) : Dependency :=
  ⟨target, Dependency.defaultRelationship, none, ""⟩

def directCalls : List Call :=
  [.registerAll [⟨"reader", .service, "", [plainDependency "store", plainDependency "log"]⟩,
    ⟨"store", .model, "", []⟩]]

/-- The same two units in another order, after a former version of one and a unit at fault. -/
def winding : List Call :=
  [.register ⟨"reader", .job, "", [plainDependency "disk"]⟩, .register ⟨" ", .model, "", []⟩,
    .register ⟨"store", .model, "", []⟩,
    .register ⟨"reader", .service, "", [plainDependency "log", plainDependency "store"]⟩]

theorem afterCalls_alike_winding :
    HistoriesAgree CodeUnit.Reordered (directCalls.flatMap Call.accepted)
        (winding.flatMap Call.accepted) ∧
      (afterCalls directCalls).toSnapshot = (afterCalls winding).toSnapshot ∧
        (afterCalls directCalls).AnswersAlike (afterCalls winding) ∧
          (afterCalls directCalls).AnalysedAlike (afterCalls winding) := by
  have hagree : HistoriesAgree CodeUnit.Reordered (directCalls.flatMap Call.accepted)
      (winding.flatMap Call.accepted) := by
    intro x
    have hdirect : directCalls.flatMap Call.accepted =
        [⟨"reader", .service, "", [plainDependency "store", plainDependency "log"]⟩,
          ⟨"store", .model, "", []⟩] := by decide
    have hwinding : winding.flatMap Call.accepted =
        [⟨"reader", .job, "", [plainDependency "disk"]⟩, ⟨"store", .model, "", []⟩,
          ⟨"reader", .service, "", [plainDependency "log", plainDependency "store"]⟩] := by decide
    rw [hdirect, hwinding]
    by_cases hreader : x = "reader"
    · subst hreader
      exact .some ⟨rfl, rfl, rfl, .swap _ _ _⟩
    · by_cases hstore : x = "store"
      · subst hstore
        exact .some (.refl _)
      · simp [lastUnit?, Ne.symm hreader, Ne.symm hstore]
  exact ⟨hagree, afterCalls_alike hagree⟩

/-- No query for identifiers and no analysis tells two graphs apart, except by the counts of
edges. -/
structure AlikeButForCounts (g h : Graph) : Prop where
  dependentsOf : ∀ x, g.dependentsOf x = h.dependentsOf x
  dependenciesOf : ∀ x, g.dependenciesOf x = h.dependenciesOf x
  isPlaceholder : ∀ x, g.isPlaceholder x = h.isPlaceholder x
  placeholderCount : g.placeholderCount = h.placeholderCount
  transitiveDependents : ∀ x limit, g.transitiveDependents x limit = h.transitiveDependents x limit
  affectedBy : ∀ files, g.affectedBy files = h.affectedBy files
  /-- Successors, out degrees and dependent counts are the same. -/
  topology : Topology.ofGraph h =
    (Topology.ofGraph g).recounted h.edgeCount h.danglingEdgeCount
  orphans : (Topology.ofGraph h).orphans = (Topology.ofGraph g).orphans
  deadEnds : (Topology.ofGraph h).deadEnds = (Topology.ofGraph g).deadEnds
  hubs : ∀ limit, (Topology.ofGraph h).hubs limit = (Topology.ofGraph g).hubs limit
  tryCycles : ∀ cap, (Topology.ofGraph h).tryCycles cap = (Topology.ofGraph g).tryCycles cap
  tryBridges : ∀ {σ : Type} [Generator σ] (random : σ) (limit sampleSize minNodes : Nat),
    (Topology.ofGraph h).tryBridges limit sampleSize minNodes random =
      (Topology.ofGraph g).tryBridges limit sampleSize minNodes random
  pageRank : ∀ {α : Type} [Scalar α] (damping tolerance : α) (maxIterations : Nat),
    (Topology.ofGraph h).pageRank damping tolerance maxIterations =
      (Topology.ofGraph g).pageRank damping tolerance maxIterations
  report : ∀ {σ : Type} [Generator σ] (c : Config) (random : σ),
    (Topology.ofGraph h).report c random =
      ((Topology.ofGraph g).report c random).recounted h.edgeCount h.danglingEdgeCount

theorem SameShape.alikeButForCounts {g h : Graph} (hs : g.SameShape h) (hg : g.WellFormed)
    (hh : h.WellFormed) : g.AlikeButForCounts h := by
  have ht := hs.ofGraph_eq hg.toIndexed hh.toIndexed
  have ha := (hs.sameLinks hg.toIndexed hh.toIndexed).linksAnalysedAlike hg.toIndexed hh.toIndexed
  refine ⟨hs.dependentsOf_eq hg.toIndexed hh.toIndexed,
    hs.dependenciesOf_eq hg.toIndexed hh.toIndexed, hs.isPlaceholder_eq hg hh,
    hs.placeholderCount_eq hg hh, hs.transitiveDependents_eq hg.toIndexed hh.toIndexed,
    hs.affectedBy_eq hg.toIndexed hh.toIndexed, ht, ha.orphans, ?_, ha.hubs, ha.tryCycles,
    ha.tryBridges, ha.pageRank, fun c random => ?_⟩
  · rw [ht, Topology.deadEnds_recounted]
  · rw [ht, Topology.report_recounted]

/-- Lists of valid units that differ in labels, in the order of dependencies and in how often a
target is repeated make graphs that differ in the counts of edges at most. -/
theorem registerAll_alikeButForCounts {units units' : List CodeUnit}
    (hunits : List.Forall₂ CodeUnit.SameTargets units units')
    (hvalid : ∀ u ∈ units, u.isValid = true) :
    (empty.registerAll units).2 = .ok units.length ∧
      (empty.registerAll units').2 = .ok units.length ∧
        (empty.registerAll units).1.AlikeButForCounts (empty.registerAll units').1 := by
  rw [registerAll_of_isValid hvalid,
    registerAll_of_isValid (CodeUnit.isValid_of_forall₂ hunits hvalid), hunits.length_eq]
  have hg := represents_foldl_insert units
  have hh := represents_foldl_insert units'
  have hshape := hg.sameShape hh
    (historiesAgree_of_forall₂ (fun _ _ => CodeUnit.SameTargets.identifier) hunits)
  exact ⟨rfl, rfl, hshape.alikeButForCounts hg.wellFormed hh.wellFormed⟩

def bareUnits : List CodeUnit :=
  [⟨"reader", .service, "", [plainDependency "store"]⟩]

/-- The same unit with two dependencies on one target, one of them with labels. -/
def labelledUnits : List CodeUnit :=
  [⟨"reader", .service, "", [⟨"store", "calls", some "http", "model"⟩, plainDependency "store"]⟩]

theorem registerAll_alikeButForCounts_labelled :
    List.Forall₂ CodeUnit.SameTargets bareUnits labelledUnits ∧
      (∀ u ∈ bareUnits, u.isValid = true) ∧
        (empty.registerAll bareUnits).2 = .ok bareUnits.length ∧
          (empty.registerAll labelledUnits).2 = .ok bareUnits.length ∧
            (empty.registerAll bareUnits).1.AlikeButForCounts
              (empty.registerAll labelledUnits).1 := by
  have hunits : List.Forall₂ CodeUnit.SameTargets bareUnits labelledUnits :=
    .cons ⟨rfl, rfl, rfl, fun t => by simp [plainDependency]⟩ .nil
  have hvalid : ∀ u ∈ bareUnits, u.isValid = true := by decide
  exact ⟨hunits, hvalid, registerAll_alikeButForCounts hunits hvalid⟩

end DependencyAtlas.Graph
