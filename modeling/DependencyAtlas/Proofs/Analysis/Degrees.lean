import DependencyAtlas.Proofs.Analysis.Topology
import DependencyAtlas.Proofs.Graph.History
import Mathlib.Algebra.BigOperators.Group.Finset.Sigma
import Mathlib.Data.Set.Card

/-!
# Degrees

The degrees of a topology count what its graph answers: an out degree the targets of a unit,
placeholders included, a dependent count the units that lead to it. Counted at either end the edges
between units come to the same sum, and what the out degrees have beyond it is dangling.
-/

namespace DependencyAtlas

/-- The units paired with the placeholders that they depend on. -/
def Graph.danglingPairs (g : Graph) : Set (String × String) :=
  {pair | g.contains pair.1 = true ∧ g.isPlaceholder pair.2 = true ∧
    pair.2 ∈ g.dependenciesOf pair.1}

namespace Topology

/-- The kinds and degrees of a topology are those of the units that it numbers. -/
structure Degrees (t : Topology) (g : Graph) : Prop where
  kind? : ∀ i < t.size, t.kind? i = (g.unit? (t.id i)).map RegisteredUnit.kind
  outDegree : ∀ i < t.size, t.outDegree i = (g.dependenciesOf (t.id i)).length
  dependentCount : ∀ i < t.size, t.dependentCount i = (g.dependentsOf (t.id i)).length

theorem degrees_ofGraph {g : Graph} (hg : g.Indexed) : (ofGraph g).Degrees g := by
  have hunit {i : Nat} (hi : i < (ofGraph g).size) :
      ∃ u, g.units[i]? = some u ∧ u.identifier = (ofGraph g).id i := by
    apply Option.map_eq_some_iff.mp
    rw [← List.getElem?_map]
    exact getElem?_names_iff.mpr ⟨hi, rfl⟩
  refine ⟨fun i hi => ?_, fun i hi => ?_, fun i hi => ?_⟩
  · obtain ⟨u, hu, hid⟩ := hunit hi
    rw [← hid, (Graph.mem_units hg).mp (List.mem_of_getElem? hu)]
    simp [kind?, ofGraph, hu]
  · obtain ⟨u, hu, hid⟩ := hunit hi
    rw [← hid, ← rowNames_targetTable hg]
    simp [outDegree, ofGraph, hu]
  · obtain ⟨u, hu, hid⟩ := hunit hi
    rw [← hid, ← rowNames_sourceTable hg]
    simp [dependentCount, ofGraph, hu]

section Counting

variable {t : Topology} {g : Graph} {i j : Nat}

theorem Numbers.map_id_successors (h : t.Numbers g) (hi : i < t.size) :
    (t.successors i).map t.id = (g.dependenciesOf (t.id i)).filter g.contains := by
  apply Text.eq_of_ascending (fun s => s)
  · apply List.pairwise_map.mpr
    apply (h.ascending i).imp_of_mem
    intro j k _ hk hjk
    exact h.id_lt hjk (h.ordered.lt hk).2
  · exact (Graph.pairwise_dependenciesOf g _).filter _
  · intro y
    rw [List.mem_map, List.mem_filter, h.contains_iff]
    constructor
    · rintro ⟨j, hj, rfl⟩
      obtain ⟨-, hlt, hdep⟩ := h.mem_successors.mp hj
      exact ⟨hdep, j, hlt, rfl⟩
    · rintro ⟨hdep, j, hlt, rfl⟩
      exact ⟨j, h.mem_successors.mpr ⟨hi, hlt, hdep⟩, rfl⟩

theorem Numbers.length_successors (h : t.Numbers g) (hi : i < t.size) :
    (t.successors i).length = (g.dependenciesOf (t.id i)).countP g.contains := by
  rw [← List.length_map t.id, h.map_id_successors hi, List.countP_eq_length_filter]

theorem Numbers.length_dependentsOf (h : t.Numbers g) (hg : g.Indexed) (hj : j < t.size) :
    (g.dependentsOf (t.id j)).length =
      ((Finset.range t.size).filter fun i => j ∈ t.successors i).card := by
  have hnodup := Text.nodup_of_pairwise_lt (Graph.pairwise_dependentsOf g (t.id j))
  rw [← List.toFinset_card_of_nodup hnodup]
  symm
  apply Finset.card_nbij t.id
  · intro i hi
    obtain ⟨-, hdep⟩ := Finset.mem_filter.mp hi
    rw [Finset.mem_coe, List.mem_toFinset, ← Graph.mem_dependenciesOf_iff_mem_dependentsOf hg]
    exact (h.mem_successors.mp hdep).2.2
  · intro i hi k hk heq
    have hilt := Finset.mem_range.mp (Finset.mem_filter.mp hi).1
    have hklt := Finset.mem_range.mp (Finset.mem_filter.mp hk).1
    exact h.id_injective hilt hklt heq
  · intro x hx
    rw [Finset.mem_coe, List.mem_toFinset,
      ← Graph.mem_dependenciesOf_iff_mem_dependentsOf hg] at hx
    obtain ⟨i, hi, rfl⟩ := (h.contains_iff x).mp (Graph.contains_of_mem_dependenciesOf hg hx)
    have hmem := h.mem_successors.mpr ⟨hi, hj, hx⟩
    exact ⟨i, Finset.mem_coe.mpr (Finset.mem_filter.mpr ⟨Finset.mem_range.mpr hi, hmem⟩), rfl⟩

theorem Ordered.sum_card_predecessors (h : t.Ordered) :
    ∑ j ∈ Finset.range t.size, ((Finset.range t.size).filter fun i => j ∈ t.successors i).card =
      ∑ i ∈ Finset.range t.size, (t.successors i).length := by
  have hlength (i : Nat) : (t.successors i).length =
      ((Finset.range t.size).filter fun j => j ∈ t.successors i).card := by
    rw [← List.toFinset_card_of_nodup ((h.ascending i).imp Nat.ne_of_lt)]
    congr 1
    ext j
    rw [List.mem_toFinset, Finset.mem_filter, Finset.mem_range]
    exact ⟨fun hj => ⟨(h.lt hj).2, hj⟩, fun hj => hj.2⟩
  simp only [hlength, Finset.card_filter]
  exact Finset.sum_comm

theorem Degrees.dependentCount_eq (hd : t.Degrees g) (h : t.Numbers g) (hg : g.Indexed)
    (hj : j < t.size) :
    t.dependentCount j = ((Finset.range t.size).filter fun i => j ∈ t.successors i).card := by
  rw [hd.dependentCount j hj, h.length_dependentsOf hg hj]

theorem Degrees.sum_dependentCount (hd : t.Degrees g) (h : t.Numbers g) (hg : g.Indexed) :
    ∑ j ∈ Finset.range t.size, t.dependentCount j =
      ∑ i ∈ Finset.range t.size, (t.successors i).length := by
  rw [← h.ordered.sum_card_predecessors]
  exact Finset.sum_congr rfl fun j hj => hd.dependentCount_eq h hg (Finset.mem_range.mp hj)

/-- Summed over the units, the targets of a kind are as many as the pairs of a unit and such a
target. -/
theorem Numbers.sum_countP_dependenciesOf (h : t.Numbers g) (hg : g.Indexed) (p : String → Bool) :
    ∑ i ∈ Finset.range t.size, (g.dependenciesOf (t.id i)).countP p =
      {pair : String × String | pair.2 ∈ g.dependenciesOf pair.1 ∧ p pair.2 = true}.ncard := by
  have hcount (i : Nat) : (g.dependenciesOf (t.id i)).countP p =
      ((g.dependenciesOf (t.id i)).filter p).toFinset.card := by
    have hnodup := Text.nodup_of_pairwise_lt (Graph.pairwise_dependenciesOf g (t.id i))
    rw [List.toFinset_card_of_nodup (hnodup.filter p), List.countP_eq_length_filter]
  let pairs := (Finset.range t.size).sigma fun i => ((g.dependenciesOf (t.id i)).filter p).toFinset
  have hmem (e : (_ : Nat) × String) :
      e ∈ pairs ↔ e.1 < t.size ∧ e.2 ∈ g.dependenciesOf (t.id e.1) ∧ p e.2 = true := by
    rw [Finset.mem_sigma, Finset.mem_range, List.mem_toFinset, List.mem_filter]
  have himage : {pair : String × String | pair.2 ∈ g.dependenciesOf pair.1 ∧ p pair.2 = true} =
      (fun e : (_ : Nat) × String => (t.id e.1, e.2)) '' (pairs : Set _) := by
    ext ⟨x, y⟩
    constructor
    · rintro ⟨hy, hp⟩
      obtain ⟨i, hi, rfl⟩ := (h.contains_iff x).mp (Graph.contains_of_mem_dependenciesOf hg hy)
      exact ⟨⟨i, y⟩, Finset.mem_coe.mpr ((hmem _).mpr ⟨hi, hy, hp⟩), rfl⟩
    · rintro ⟨e, he, heq⟩
      obtain ⟨rfl, rfl⟩ := Prod.mk.inj heq
      exact ((hmem e).mp (Finset.mem_coe.mp he)).2
  have hinjective : Set.InjOn (fun e : (_ : Nat) × String => (t.id e.1, e.2)) (pairs : Set _) := by
    rintro ⟨i, y⟩ hi ⟨k, z⟩ hk heq
    obtain ⟨hid, rfl⟩ := Prod.mk.inj heq
    obtain rfl := h.id_injective ((hmem _).mp hi).1 ((hmem _).mp hk).1 hid
    rfl
  rw [himage, hinjective.ncard_image, Set.ncard_coe_finset, Finset.card_sigma]
  exact Finset.sum_congr rfl fun i _ => hcount i

theorem Degrees.outDegree_eq (hd : t.Degrees g) (h : t.Numbers g) (hi : i < t.size) :
    t.outDegree i = (t.successors i).length +
      (g.dependenciesOf (t.id i)).countP fun y => !g.contains y := by
  rw [h.length_successors hi, hd.outDegree i hi,
    List.length_eq_countP_add_countP g.contains]
  simp only [Bool.not_eq_true, Bool.decide_eq_false]

theorem Degrees.sum_outDegree (hd : t.Degrees g) (h : t.Numbers g) (hg : g.WellFormed) :
    ∑ i ∈ Finset.range t.size, t.outDegree i =
      ∑ i ∈ Finset.range t.size, (t.successors i).length + g.danglingPairs.ncard := by
  have hpairs : g.danglingPairs = {pair : String × String |
      pair.2 ∈ g.dependenciesOf pair.1 ∧ (!g.contains pair.2) = true} := by
    ext ⟨x, y⟩
    rw [Graph.danglingPairs, Set.mem_ofPred_eq, Set.mem_ofPred_eq, hg.isPlaceholder_iff,
      Bool.not_eq_true', Graph.contains, Graph.contains, Option.isSome_eq_false_iff,
      Option.isNone_iff_eq_none]
    constructor
    · rintro ⟨-, ⟨hnone, -⟩, hy⟩
      exact ⟨hy, hnone⟩
    · rintro ⟨hy, hnone⟩
      obtain ⟨d, hd, htarget, -⟩ := (Graph.mem_dependenciesOf hg.toIndexed).mp hy
      exact ⟨Graph.contains_of_mem_dependenciesOf hg.toIndexed hy, ⟨hnone, d, hd, htarget⟩, hy⟩
  rw [hpairs, ← h.sum_countP_dependenciesOf hg.toIndexed fun y => !g.contains y,
    ← Finset.sum_add_distrib]
  exact Finset.sum_congr rfl fun i hi => hd.outDegree_eq h (Finset.mem_range.mp hi)

/-- Each unit and target that belong together have an edge of their own. -/
theorem Degrees.sum_outDegree_le (hd : t.Degrees g) (h : t.Numbers g) (hg : g.Indexed) :
    ∑ i ∈ Finset.range t.size, t.outDegree i ≤ g.edgeCount := by
  have hall : ∀ i ∈ Finset.range t.size,
      t.outDegree i = (g.dependenciesOf (t.id i)).countP fun _ => true := by
    intro i hi
    rw [hd.outDegree i (Finset.mem_range.mp hi), List.countP_true]
  have hpairs : {pair : String × String | pair.2 ∈ g.dependenciesOf pair.1 ∧ true = true} =
      ((g.declarations.map fun d => (d.source, d.target)).toFinset : Set (String × String)) := by
    ext ⟨x, y⟩
    rw [Finset.mem_coe, List.mem_toFinset, List.mem_map, Set.mem_ofPred_eq,
      Graph.mem_dependenciesOf hg]
    constructor
    · rintro ⟨⟨d, hmem, htarget, hsource⟩, -⟩
      exact ⟨d, hmem, Prod.ext hsource htarget⟩
    · rintro ⟨d, hmem, heq⟩
      obtain ⟨hsource, htarget⟩ := Prod.mk.inj heq
      exact ⟨⟨d, hmem, htarget, hsource⟩, rfl⟩
  rw [Finset.sum_congr rfl hall, h.sum_countP_dependenciesOf hg, hpairs, Set.ncard_coe_finset,
    Graph.edgeCount_eq, ← List.length_map fun d : DependencyEdge => (d.source, d.target)]
  exact List.toFinset_card_le _

theorem Degrees.forall_length_eq_iff (hd : t.Degrees g) (h : t.Numbers g) (hg : g.Indexed) :
    (∀ i < t.size, (t.successors i).length = t.outDegree i) ↔ g.danglingEdgeCount = 0 := by
  rw [Graph.danglingEdgeCount_eq_zero_iff hg]
  constructor
  · intro hall x y hy
    obtain ⟨i, hi, rfl⟩ := (h.contains_iff x).mp (Graph.contains_of_mem_dependenciesOf hg hy)
    have heq := hall i hi
    rw [h.length_successors hi, hd.outDegree i hi, List.countP_eq_length] at heq
    exact heq y hy
  · intro hall i hi
    rw [h.length_successors hi, hd.outDegree i hi, List.countP_eq_length]
    exact hall (t.id i)

end Counting

/-- A topology shows the units of a graph in order, the edges between them and how many there are
at each unit. -/
structure Faithful (t : Topology) (g : Graph) : Prop extends t.Numbers g, t.Degrees g where
  position_none_iff : ∀ x, t.position? x = none ↔ g.contains x = false
  dependentCount_eq : ∀ j < t.size,
    t.dependentCount j = ((Finset.range t.size).filter fun i => j ∈ t.successors i).card
  sum_dependentCount : ∑ j ∈ Finset.range t.size, t.dependentCount j =
    ∑ i ∈ Finset.range t.size, (t.successors i).length
  sum_outDegree : ∑ i ∈ Finset.range t.size, t.outDegree i =
    ∑ i ∈ Finset.range t.size, (t.successors i).length + g.danglingPairs.ncard
  sum_outDegree_le : ∑ i ∈ Finset.range t.size, t.outDegree i ≤ t.edgeCount
  edgeCount : t.edgeCount = g.edgeCount
  danglingEdgeCount : t.danglingEdgeCount = g.danglingEdgeCount
  forall_length_eq_iff :
    (∀ i < t.size, (t.successors i).length = t.outDegree i) ↔ t.danglingEdgeCount = 0

theorem Numbers.position_none_iff {t : Topology} {g : Graph} (h : t.Numbers g) (x : String) :
    t.position? x = none ↔ g.contains x = false := by
  rw [← Bool.not_eq_true, h.contains_iff]
  simp only [Option.eq_none_iff_forall_ne_some, ne_eq, h.position_iff, not_exists]

/-- The topology of a graph shows it faithfully, whatever calls made the graph. -/
theorem ofGraph_afterCalls_faithful (calls : List Call) :
    (ofGraph (Graph.afterCalls calls)).Faithful (Graph.afterCalls calls) := by
  have hg := (Graph.represents_afterCalls calls).wellFormed
  have hn := numbers_ofGraph hg.toIndexed
  have hd := degrees_ofGraph hg.toIndexed
  exact ⟨hn, hd, hn.position_none_iff, fun _ => hd.dependentCount_eq hn hg.toIndexed,
    hd.sum_dependentCount hn hg.toIndexed, hd.sum_outDegree hn hg,
    hd.sum_outDegree_le hn hg.toIndexed, rfl, rfl, hd.forall_length_eq_iff hn hg.toIndexed⟩

end Topology

end DependencyAtlas
