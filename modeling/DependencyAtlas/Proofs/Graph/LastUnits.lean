import DependencyAtlas.Proofs.Graph.Contents
import DependencyAtlas.Proofs.Graph.History

/-!
# The last unit counts

A graph that represents a history answers every question from the last units of the history alone.
After any calls on an empty graph, with valid and invalid units in any order, the graph is to an
observer the finite map that sends each identifier to the last valid unit registered under it.
-/

namespace DependencyAtlas.Graph

/-- The answers of a graph are those of the finite map of the last units of a history. -/
structure Mirrors (g : Graph) (history : List CodeUnit) : Prop where
  units : g.units = (lastUnits history).map CodeUnit.registered
  unit? : ∀ x, g.unit? x = (lastUnit? history x).map CodeUnit.registered
  contains : ∀ x, g.contains x = (lastUnit? history x).isSome
  unitsOfKind : ∀ k, g.unitsOfKind k =
    ((lastUnits history).filter fun u => u.kind == k).map CodeUnit.identifier
  /-- An identifier without a unit has no dependencies. -/
  dependenciesOf : ∀ x, g.dependenciesOf x =
    Text.ascending (((lastUnit? history x).elim [] CodeUnit.dependencies).map Dependency.target)
  dependentsOf : ∀ x, g.dependentsOf x =
    ((lastUnits history).filter fun u =>
      u.dependencies.any fun d => d.target == x).map CodeUnit.identifier
  /-- Every dependency of every last unit is an edge, as often as it is declared. -/
  allEdges_perm : g.allEdges.Perm ((lastUnits history).flatMap CodeUnit.edges)
  allEdges_sorted : g.allEdges.Pairwise fun a b => (DependencyEdge.order a b).isLE = true
  isPlaceholder : ∀ x, g.isPlaceholder x = true ↔
    lastUnit? history x = none ∧ ∃ u ∈ lastUnits history, ∃ d ∈ u.dependencies, d.target = x
  unitCount : g.unitCount = (lastUnits history).length
  placeholderCount : g.placeholderCount =
    (Text.ascending (((lastUnits history).flatMap fun u =>
      u.dependencies.map Dependency.target).filter fun x =>
        (lastUnit? history x).isNone)).length
  edgeCount : g.edgeCount = ((lastUnits history).flatMap CodeUnit.dependencies).length
  danglingEdgeCount : g.danglingEdgeCount =
    ((lastUnits history).flatMap CodeUnit.dependencies).countP fun d =>
      (lastUnit? history d.target).isNone
  isEmpty : g.isEmpty = (lastUnits history).isEmpty

namespace Represents

variable {g : Graph} {history : List CodeUnit}

theorem mem_declarations (h : g.Represents history) {d : DependencyEdge} :
    d ∈ g.declarations ↔ ∃ u ∈ lastUnits history, ∃ p ∈ u.dependencies,
      p.edgeFrom u.identifier = d := by
  simp only [h.declarations.mem_iff, List.mem_flatMap, CodeUnit.edges, List.mem_map]

theorem isNone_unit? (h : g.Represents history) (x : String) :
    (g.unit? x).isNone = (lastUnit? history x).isNone := by
  rw [h.unit?, Option.isNone_map]

theorem contains_eq (h : g.Represents history) (x : String) :
    g.contains x = (lastUnit? history x).isSome := by
  rw [contains, h.unit?, Option.isSome_map]

theorem units_eq (h : g.Represents history) :
    g.units = (lastUnits history).map CodeUnit.registered := by
  apply units_eq_of_mem h.wellFormed.toIndexed
  · rw [List.pairwise_map]
    exact pairwise_lastUnits history
  · intro r
    rw [h.unit?, List.mem_map, Option.map_eq_some_iff]
    constructor
    · rintro ⟨u, hu, rfl⟩
      exact ⟨u, mem_lastUnits.mp hu, rfl⟩
    · rintro ⟨u, hu, rfl⟩
      exact ⟨u, mem_lastUnits.mpr hu, rfl⟩

theorem unitsOfKind_eq (h : g.Represents history) (k : UnitKind) :
    g.unitsOfKind k = ((lastUnits history).filter fun u => u.kind == k).map CodeUnit.identifier := by
  rw [unitsOfKind, h.units_eq, List.filter_map, List.map_map]
  rfl

theorem dependenciesOf_eq (h : g.Represents history) (x : String) :
    g.dependenciesOf x = Text.ascending
      (((lastUnit? history x).elim [] CodeUnit.dependencies).map Dependency.target) := by
  apply Text.eq_of_ascending (fun s => s) (pairwise_dependenciesOf g x) (Text.pairwise_ascending _)
  intro t
  rw [mem_dependenciesOf h.wellFormed.toIndexed, Text.mem_ascending, List.mem_map]
  simp only [h.mem_declarations, mem_lastUnits]
  constructor
  · rintro ⟨_, ⟨u, hu, p, hp, rfl⟩, rfl, rfl⟩
    exact ⟨p, by simpa only [Dependency.edgeFrom, hu, Option.elim_some] using hp, rfl⟩
  · rintro ⟨p, hp, rfl⟩
    cases hx : lastUnit? history x with
    | none => simp [hx] at hp
    | some u =>
      rw [hx] at hp
      obtain rfl := identifier_of_lastUnit? hx
      exact ⟨_, ⟨u, hx, p, hp, rfl⟩, rfl, rfl⟩

theorem dependentsOf_eq (h : g.Represents history) (x : String) :
    g.dependentsOf x = ((lastUnits history).filter fun u =>
      u.dependencies.any fun d => d.target == x).map CodeUnit.identifier := by
  apply Text.eq_of_ascending (fun s => s) (pairwise_dependentsOf g x)
  · rw [List.pairwise_map]
    exact (pairwise_lastUnits history).filter _
  · intro s
    simp only [mem_dependentsOf h.wellFormed.toIndexed, h.mem_declarations, List.mem_map,
      List.mem_filter, List.any_eq_true, beq_iff_eq]
    constructor
    · rintro ⟨_, ⟨u, hu, p, hp, rfl⟩, rfl, rfl⟩
      exact ⟨u, ⟨hu, p, hp, rfl⟩, rfl⟩
    · rintro ⟨u, ⟨hu, p, hp, rfl⟩, rfl⟩
      exact ⟨_, ⟨u, hu, p, hp, rfl⟩, rfl, rfl⟩

theorem allEdges_perm (h : g.Represents history) :
    g.allEdges.Perm ((lastUnits history).flatMap CodeUnit.edges) :=
  (DependencyEdge.sorted_perm _).trans h.declarations

theorem isPlaceholder_iff (h : g.Represents history) (x : String) :
    g.isPlaceholder x = true ↔
      lastUnit? history x = none ∧ ∃ u ∈ lastUnits history, ∃ d ∈ u.dependencies, d.target = x := by
  rw [h.wellFormed.isPlaceholder_iff, ← Option.isNone_iff_eq_none, h.isNone_unit?,
    Option.isNone_iff_eq_none]
  simp only [h.mem_declarations]
  apply and_congr_right
  intro _
  constructor
  · rintro ⟨_, ⟨u, hu, p, hp, rfl⟩, hx⟩
    exact ⟨u, hu, p, hp, hx⟩
  · rintro ⟨u, hu, p, hp, hx⟩
    exact ⟨_, ⟨u, hu, p, hp, rfl⟩, hx⟩

theorem placeholderCount_eq (h : g.Represents history) :
    g.placeholderCount = (Text.ascending (((lastUnits history).flatMap fun u =>
      u.dependencies.map Dependency.target).filter fun x =>
        (lastUnit? history x).isNone)).length := by
  rw [Graph.placeholderCount_eq h.wellFormed]
  congr 1
  apply Text.ascending_congr
  intro x
  simp only [List.mem_filter, h.isNone_unit?, List.mem_map, h.mem_declarations, List.mem_flatMap]
  apply and_congr_left
  intro _
  constructor
  · rintro ⟨_, ⟨u, hu, p, hp, rfl⟩, rfl⟩
    exact ⟨u, hu, p, hp, rfl⟩
  · rintro ⟨u, hu, p, hp, rfl⟩
    exact ⟨_, ⟨u, hu, p, hp, rfl⟩, rfl⟩

theorem edgeCount_eq (h : g.Represents history) :
    g.edgeCount = ((lastUnits history).flatMap CodeUnit.dependencies).length := by
  rw [Graph.edgeCount_eq, h.declarations.length_eq, List.length_flatMap, List.length_flatMap]
  simp only [CodeUnit.edges, List.length_map]

theorem danglingEdgeCount_eq (h : g.Represents history) :
    g.danglingEdgeCount = ((lastUnits history).flatMap CodeUnit.dependencies).countP fun d =>
      (lastUnit? history d.target).isNone := by
  rw [Graph.danglingEdgeCount_eq h.wellFormed.toIndexed, h.declarations.countP_eq,
    List.countP_flatMap, List.countP_flatMap]
  simp only [CodeUnit.edges, Function.comp_def, List.countP_map, h.isNone_unit?]
  rfl

theorem unitCount_eq (h : g.Represents history) : g.unitCount = (lastUnits history).length := by
  rw [Graph.unitCount_eq, h.units_eq, List.length_map]

end Represents

/-- After any calls on an empty graph its answers are those of the last valid units. -/
theorem mirrors_afterCalls (calls : List Call) :
    (afterCalls calls).Mirrors (calls.flatMap Call.accepted) := by
  have h := represents_afterCalls calls
  refine ⟨h.units_eq, h.unit?, fun x => ?_, h.unitsOfKind_eq, h.dependenciesOf_eq,
    h.dependentsOf_eq, h.allEdges_perm, DependencyEdge.pairwise_sorted _, h.isPlaceholder_iff,
    h.unitCount_eq, h.placeholderCount_eq, h.edgeCount_eq, h.danglingEdgeCount_eq, ?_⟩
  · rw [contains, h.unit?, Option.isSome_map]
  · rw [isEmpty, h.unitCount_eq]
    cases lastUnits (calls.flatMap Call.accepted) <;> rfl

end DependencyAtlas.Graph
