import DependencyAtlas.Proofs.Graph.Import
import DependencyAtlas.Proofs.Graph.Shape

/-!
# Export and import

The snapshot of a graph determines its units and its edges, and these determine every answer. What
a reachable graph exports is accepted again, and the graph made of it answers like the first one.
-/

namespace DependencyAtlas.Graph

variable {g h : Graph} {history : List CodeUnit}

/-- The same units and the same edges, each edge as often. -/
structure SameContent (g h : Graph) : Prop where
  unit? : ∀ x, g.unit? x = h.unit? x
  declarations : g.declarations.Perm h.declarations

/-- No question about units, placeholders, edges or changes tells two graphs apart. -/
structure AnswersAlike (g h : Graph) : Prop where
  units : g.units = h.units
  unit? : ∀ x, g.unit? x = h.unit? x
  contains : ∀ x, g.contains x = h.contains x
  unitsOfKind : ∀ k, g.unitsOfKind k = h.unitsOfKind k
  isPlaceholder : ∀ x, g.isPlaceholder x = h.isPlaceholder x
  dependentsOf : ∀ x, g.dependentsOf x = h.dependentsOf x
  dependenciesOf : ∀ x, g.dependenciesOf x = h.dependenciesOf x
  allEdges : g.allEdges = h.allEdges
  unitCount : g.unitCount = h.unitCount
  placeholderCount : g.placeholderCount = h.placeholderCount
  edgeCount : g.edgeCount = h.edgeCount
  danglingEdgeCount : g.danglingEdgeCount = h.danglingEdgeCount
  isEmpty : g.isEmpty = h.isEmpty
  transitiveDependents : ∀ x limit, g.transitiveDependents x limit = h.transitiveDependents x limit
  affectedBy : ∀ files, g.affectedBy files = h.affectedBy files

namespace SameContent

variable (hc : g.SameContent h)

include hc

theorem sameShape : g.SameShape h where
  unit? := hc.unit?
  declares_iff x y := by simp only [Declares, hc.declarations.mem_iff]

theorem allEdges_eq : g.allEdges = h.allEdges :=
  DependencyEdge.sorted_congr hc.declarations

theorem edgeCount_eq : g.edgeCount = h.edgeCount := by
  rw [Graph.edgeCount_eq, Graph.edgeCount_eq, hc.declarations.length_eq]

theorem danglingEdgeCount_eq (hg : g.Indexed) (hh : h.Indexed) :
    g.danglingEdgeCount = h.danglingEdgeCount := by
  rw [Graph.danglingEdgeCount_eq hg, Graph.danglingEdgeCount_eq hh, hc.declarations.countP_eq]
  simp only [hc.unit?]

theorem answersAlike (hg : g.WellFormed) (hh : h.WellFormed) : g.AnswersAlike h := by
  have hs := hc.sameShape
  have hunits := hs.units_eq hg.toIndexed hh.toIndexed
  have hcount := hs.unitCount_eq hg.toIndexed hh.toIndexed
  refine ⟨hunits, hc.unit?, fun x => ?_, fun k => ?_, hs.isPlaceholder_eq hg hh,
    hs.dependentsOf_eq hg.toIndexed hh.toIndexed, hs.dependenciesOf_eq hg.toIndexed hh.toIndexed,
    hc.allEdges_eq, hcount, hs.placeholderCount_eq hg hh, hc.edgeCount_eq,
    hc.danglingEdgeCount_eq hg.toIndexed hh.toIndexed, ?_,
    hs.transitiveDependents_eq hg.toIndexed hh.toIndexed,
    hs.affectedBy_eq hg.toIndexed hh.toIndexed⟩
  · rw [Graph.contains, Graph.contains, hc.unit?]
  · rw [Graph.unitsOfKind, Graph.unitsOfKind, hunits]
  · rw [Graph.isEmpty, Graph.isEmpty, hcount]

theorem toSnapshot_eq (hg : g.Indexed) (hh : h.Indexed) : g.toSnapshot = h.toSnapshot := by
  rw [toSnapshot, toSnapshot, nodeMap, nodeMap, hc.sameShape.units_eq hg hh, hc.allEdges_eq]

end SameContent

theorem entries_nodeMap (hg : g.Indexed) :
    g.nodeMap.entries = g.units.map fun u => (u.identifier, ⟨u.kind, u.file⟩) := by
  apply Text.byKey_of_pairwise
  rw [List.pairwise_map]
  exact pairwise_units hg

theorem sameContent_of_toSnapshot (hg : g.Indexed) (hh : h.Indexed)
    (hs : g.toSnapshot = h.toSnapshot) : g.SameContent h := by
  have hnodes : g.nodeMap = h.nodeMap := congrArg Snapshot.nodes hs
  have hedges : g.allEdges = h.allEdges := congrArg Snapshot.edges hs
  have hunits : g.units = h.units := by
    have hentries := congrArg NodeMap.entries hnodes
    rw [entries_nodeMap hg, entries_nodeMap hh] at hentries
    apply List.map_injective_iff.mpr _ hentries
    rintro ⟨x, k, f⟩ ⟨x', k', f'⟩ he
    simp only [Prod.mk.injEq, Registration.mk.injEq] at he
    obtain ⟨rfl, rfl, rfl⟩ := he
    rfl
  refine ⟨fun x => ?_, ?_⟩
  · apply Option.ext
    intro u
    rw [hg.unit?_eq_some_iff_mem_units, hh.unit?_eq_some_iff_mem_units, hunits]
  · have hperm := DependencyEdge.sorted_perm h.declarations
    rw [← allEdges_eq, ← hedges, allEdges_eq] at hperm
    exact (DependencyEdge.sorted_perm g.declarations).symm.trans hperm

theorem normalized_toSnapshot (g : Graph) : g.toSnapshot.normalized = g.toSnapshot := by
  simp only [toSnapshot, Snapshot.normalized, allEdges_eq, DependencyEdge.sorted_sorted]

theorem Represents.acceptable (hr : g.Represents history)
    (hv : ∀ u ∈ history, u.isValid = true) : g.toSnapshot.Acceptable := by
  have hg := hr.wellFormed.toIndexed
  have hedge : ∀ e ∈ g.toSnapshot.edges, e ∈ g.declarations := fun e =>
    (DependencyEdge.sorted_perm _).mem_iff.mp
  refine ⟨fun e he => ?_, fun p hp => ?_, fun e he => ?_⟩
  · obtain ⟨u, hu⟩ := Option.isSome_iff_exists.mp (hg.unit?_source (hedge e he))
    obtain ⟨hx, hmem⟩ := hg.unit?_eq_some_iff_mem_units.mp hu
    apply NodeMap.contains_iff.mpr
    refine ⟨(u.identifier, ⟨u.kind, u.file⟩), ?_, hx⟩
    rw [toSnapshot, entries_nodeMap hg]
    exact List.mem_map_of_mem hmem
  · rw [toSnapshot, entries_nodeMap hg, hr.units_eq, List.map_map] at hp
    obtain ⟨u, hu, rfl⟩ := List.mem_map.mp hp
    exact (CodeUnit.isValid_iff.mp (hv u (mem_of_mem_lastUnits hu))).1
  · obtain ⟨u, hu, d, hd, rfl⟩ := hr.mem_declarations.mp (hedge e he)
    exact (CodeUnit.isValid_iff.mp (hv u (mem_of_mem_lastUnits hu))).2 d hd

theorem Represents.ofSnapshot_toSnapshot (hr : g.Represents history)
    (hv : ∀ u ∈ history, u.isValid = true) :
    ∃ h, ofSnapshot g.toSnapshot = .ok h ∧ h.WellFormed ∧ h.toSnapshot = g.toSnapshot ∧
      g.SameContent h := by
  have himport := ofSnapshot_of_acceptable (hr.acceptable hv)
  have hexport := toSnapshot_of_ofSnapshot himport
  rw [normalized_toSnapshot] at hexport
  have hwell := (represents_of_ofSnapshot himport).wellFormed
  exact ⟨_, himport, hwell, hexport,
    sameContent_of_toSnapshot hr.wellFormed.toIndexed hwell.toIndexed hexport.symm⟩

/-- What calls on an empty graph make is exported with its hash, and importing it gives a graph that
exports the same and answers alike. -/
theorem ofSnapshot_toSnapshot_afterCalls (calls : List Call) :
    (afterCalls calls).toSnapshot.verifyHash = true ∧
      ∃ h, ofSnapshot (afterCalls calls).toSnapshot = .ok h ∧
        h.toSnapshot = (afterCalls calls).toSnapshot ∧ (afterCalls calls).AnswersAlike h := by
  have hr := represents_afterCalls calls
  have hvalid : ∀ u ∈ calls.flatMap Call.accepted, u.isValid = true := by
    intro u hu
    obtain ⟨c, -, hc⟩ := List.mem_flatMap.mp hu
    exact Call.isValid_of_mem_accepted hc
  obtain ⟨h, himport, hwell, hexport, hsame⟩ := hr.ofSnapshot_toSnapshot hvalid
  refine ⟨?_, h, himport, hexport, hsame.answersAlike hr.wellFormed hwell⟩
  rw [Snapshot.verifyHash_iff, normalized_toSnapshot]

end DependencyAtlas.Graph
