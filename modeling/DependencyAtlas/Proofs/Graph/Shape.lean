import DependencyAtlas.Proofs.Graph.Contents
import DependencyAtlas.Proofs.Graph.Dependents

/-!
# The shape of a graph

Its units and the pairs of a unit and a target. Labels and parallel edges are no part of it. Every
question that is answered with identifiers is a matter of the shape alone.
-/

namespace DependencyAtlas.Graph

variable {g h : Graph} {x y : String}

/-- Some edge leads from a unit to a target. -/
def Declares (g : Graph) (x y : String) : Prop :=
  ∃ d ∈ g.declarations, d.source = x ∧ d.target = y

theorem mem_dependentsOf_iff_declares (hg : g.Indexed) : x ∈ g.dependentsOf y ↔ g.Declares x y :=
  mem_dependentsOf hg

theorem mem_dependenciesOf_iff_declares (hg : g.Indexed) :
    y ∈ g.dependenciesOf x ↔ g.Declares x y := by
  simp only [mem_dependenciesOf hg, Declares, and_comm (a := DependencyEdge.target _ = y)]

theorem exists_declares_iff : (∃ x, g.Declares x y) ↔ ∃ d ∈ g.declarations, d.target = y := by
  constructor
  · rintro ⟨_, d, hd, rfl, rfl⟩
    exact ⟨d, hd, rfl⟩
  · rintro ⟨d, hd, rfl⟩
    exact ⟨_, d, hd, rfl, rfl⟩

/-- The same units and the same pairs of a unit and a target. -/
structure SameShape (g h : Graph) : Prop where
  unit? : ∀ x, g.unit? x = h.unit? x
  declares_iff : ∀ x y, g.Declares x y ↔ h.Declares x y

namespace SameShape

variable (hs : g.SameShape h)

include hs

theorem units_eq (hg : g.Indexed) (hh : h.Indexed) : g.units = h.units :=
  units_eq_of_unit?_eq hg hh hs.unit?

theorem unitCount_eq (hg : g.Indexed) (hh : h.Indexed) : g.unitCount = h.unitCount := by
  rw [Graph.unitCount_eq, Graph.unitCount_eq, hs.units_eq hg hh]

theorem exists_target_iff (y : String) :
    (∃ d ∈ g.declarations, d.target = y) ↔ ∃ d ∈ h.declarations, d.target = y := by
  simp only [← exists_declares_iff, hs.declares_iff]

theorem isPlaceholder_eq (hg : g.WellFormed) (hh : h.WellFormed) (x : String) :
    g.isPlaceholder x = h.isPlaceholder x := by
  rw [Bool.eq_iff_iff, hg.isPlaceholder_iff, hh.isPlaceholder_iff, hs.unit?, hs.exists_target_iff]

theorem placeholderCount_eq (hg : g.WellFormed) (hh : h.WellFormed) :
    g.placeholderCount = h.placeholderCount := by
  rw [Graph.placeholderCount_eq hg, Graph.placeholderCount_eq hh]
  congr 1
  apply Text.ascending_congr
  intro x
  simp only [List.mem_filter, List.mem_map, hs.unit?, hs.exists_target_iff]

theorem dependentsOf_eq (hg : g.Indexed) (hh : h.Indexed) (x : String) :
    g.dependentsOf x = h.dependentsOf x := by
  apply Text.eq_of_ascending (fun s => s) (pairwise_dependentsOf g x) (pairwise_dependentsOf h x)
  intro s
  rw [mem_dependentsOf_iff_declares hg, mem_dependentsOf_iff_declares hh, hs.declares_iff]

theorem dependenciesOf_eq (hg : g.Indexed) (hh : h.Indexed) (x : String) :
    g.dependenciesOf x = h.dependenciesOf x := by
  apply Text.eq_of_ascending (fun s => s) (pairwise_dependenciesOf g x)
    (pairwise_dependenciesOf h x)
  intro s
  rw [mem_dependenciesOf_iff_declares hg, mem_dependenciesOf_iff_declares hh, hs.declares_iff]

theorem transitiveDependents_eq (hg : g.Indexed) (hh : h.Indexed) (x : String)
    (limit : Option Nat) : g.transitiveDependents x limit = h.transitiveDependents x limit :=
  transitiveDependents_congr (P := fun _ => True) hg hh (fun _ _ _ _ => trivial)
    (fun x _ => hs.dependentsOf_eq hg hh x) trivial limit

theorem affectedBy_eq (hg : g.Indexed) (hh : h.Indexed) (files : List String) :
    g.affectedBy files = h.affectedBy files :=
  affectedBy_congr (P := fun _ => True) hg hh (hs.units_eq hg hh) (fun _ _ _ _ => trivial)
    (fun x _ => hs.dependentsOf_eq hg hh x) (fun _ _ => trivial) files

end SameShape

end DependencyAtlas.Graph
