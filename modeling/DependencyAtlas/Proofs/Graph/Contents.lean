import DependencyAtlas.Proofs.Graph.Arena
import DependencyAtlas.Proofs.Graph.EdgeOrder
import DependencyAtlas.Proofs.Text.Ascending

/-!
# What a graph answers

The answers of a graph in order, told by its registered units and its edges alone. Two graphs with
the same units and the same edges, in whatever order, answer alike.
-/

namespace DependencyAtlas.Graph

variable {g h : Graph}

theorem Indexed.nodup_identifiers (hg : g.Indexed) :
    (g.nodes.toList.map Node.identifier).Nodup := by
  rw [List.Nodup, List.pairwise_map, List.pairwise_iff_getElem]
  intro i j hi hj hij he
  have hni : g.nodes[i]? = some g.nodes.toList[i] := by simp
  have hnj : g.nodes[j]? = some g.nodes.toList[j] := by simp
  have := hg.unique hni hnj he
  omega

theorem identifier_of_registered? {n : Node} {u : RegisteredUnit} (h : n.registered? = some u) :
    n.identifier = u.identifier := by
  obtain ⟨r, -, rfl⟩ := Option.map_eq_some_iff.mp h
  rfl

theorem mem_units (hg : g.Indexed) {u : RegisteredUnit} :
    u ∈ g.units ↔ g.unit? u.identifier = some u := by
  rw [units, List.mem_mergeSort, List.mem_filterMap]
  constructor
  · rintro ⟨n, hn, hu⟩
    obtain ⟨i, hi⟩ := Array.mem_iff_getElem?.mp (Array.mem_toList_iff.mp hn)
    rw [← identifier_of_registered? hu, hg.unit?_of_node hi, hu]
  · intro h
    exact ⟨_, (hg.unit?_eq_some_iff.mp h).2, rfl⟩

theorem Indexed.unit?_eq_some_iff_mem_units (hg : g.Indexed) {x : String} {u : RegisteredUnit} :
    g.unit? x = some u ↔ u.identifier = x ∧ u ∈ g.units := by
  rw [mem_units hg]
  constructor
  · intro hu
    obtain ⟨rfl, -⟩ := hg.unit?_eq_some_iff.mp hu
    exact ⟨rfl, hu⟩
  · rintro ⟨rfl, hu⟩
    exact hu

theorem nodup_registered (hg : g.Indexed) :
    ((g.nodes.toList.filterMap Node.registered?).map RegisteredUnit.identifier).Nodup := by
  have hnodes := hg.nodup_identifiers
  rw [List.Nodup, List.pairwise_map] at hnodes ⊢
  apply List.Pairwise.filterMap _ _ hnodes
  intro n m hne u hu v hv he
  rw [← identifier_of_registered? hu, ← identifier_of_registered? hv] at he
  exact hne he

theorem pairwise_units (hg : g.Indexed) :
    g.units.Pairwise fun u v => u.identifier < v.identifier := by
  apply Text.ascending_of_nodup (Text.pairwise_mergeSort_key _ _)
  exact ((List.mergeSort_perm _ _).map _).symm.nodup (nodup_registered hg)

/-- The registered units are those of any ascending list with the same lookups. -/
theorem units_eq_of_mem (hg : g.Indexed) {us : List RegisteredUnit}
    (hus : us.Pairwise fun u v => u.identifier < v.identifier)
    (h : ∀ u, u ∈ us ↔ g.unit? u.identifier = some u) : g.units = us := by
  apply Text.eq_of_ascending RegisteredUnit.identifier (pairwise_units hg) hus
  intro u
  rw [mem_units hg, h]

theorem units_eq_of_unit?_eq (hg : g.Indexed) (hh : h.Indexed)
    (hu : ∀ x, g.unit? x = h.unit? x) : g.units = h.units := by
  apply units_eq_of_mem hg (pairwise_units hh)
  intro u
  rw [mem_units hh, hu]

theorem unitCount_eq (g : Graph) : g.unitCount = g.units.length := by
  rw [units, List.length_mergeSort, unitCount, List.length_filterMap_eq_countP]
  congr 1
  funext n
  rw [Node.registered?, Option.isSome_map]

theorem allEdges_eq (g : Graph) : g.allEdges = DependencyEdge.sorted g.declarations :=
  rfl

theorem edgeCount_eq (g : Graph) : g.edgeCount = g.declarations.length := by
  rw [declarations, List.length_map]
  exact Array.length_toList.symm

theorem Indexed.index_of_source (hg : g.Indexed) {d : DependencyEdge} (hd : d ∈ g.declarations) :
    ∃ i n, g.index[d.source]? = some i ∧ g.nodes[i]? = some n ∧ n.identifier = d.source ∧
      n.unit.isSome = true := by
  obtain ⟨e, he, rfl⟩ := List.mem_map.mp hd
  obtain ⟨n, hn, hu⟩ := hg.source e he
  have hsource : n.identifier = (g.shown e).source := (identifierAt_of_node hn).symm
  exact ⟨e.source, n, hsource ▸ hg.index_of_node hn, hn, hsource, hu⟩

theorem Indexed.index_of_target (hg : g.Indexed) {d : DependencyEdge} (hd : d ∈ g.declarations) :
    ∃ i n, g.index[d.target]? = some i ∧ g.nodes[i]? = some n ∧ n.identifier = d.target := by
  obtain ⟨e, he, rfl⟩ := List.mem_map.mp hd
  obtain ⟨n, hn⟩ := hg.target e he
  have htarget : n.identifier = (g.shown e).target := (identifierAt_of_node hn).symm
  exact ⟨e.target, n, htarget ▸ hg.index_of_node hn, hn, htarget⟩

theorem Indexed.unit?_source (hg : g.Indexed) {d : DependencyEdge} (hd : d ∈ g.declarations) :
    (g.unit? d.source).isSome = true := by
  obtain ⟨i, n, -, hn, hx, hu⟩ := hg.index_of_source hd
  rw [← hx, hg.unit?_of_node hn, Node.registered?, Option.isSome_map, hu]

theorem mem_namesOf_filterMap {key value : Edge → Nat} {i : Nat} {s : String} :
    s ∈ g.namesOf (g.edges.toList.filterMap fun e => if key e = i then some (value e) else none) ↔
      ∃ e ∈ g.edges.toList, key e = i ∧ g.identifierAt (value e) = s := by
  simp only [namesOf, Text.mem_ascending, List.mem_map, List.mem_filterMap,
    Option.ite_none_right_eq_some, Option.some.injEq]
  constructor
  · rintro ⟨_, ⟨e, he, hkey, rfl⟩, hs⟩
    exact ⟨e, he, hkey, hs⟩
  · rintro ⟨e, he, hkey, hs⟩
    exact ⟨_, ⟨e, he, hkey, rfl⟩, hs⟩

theorem mem_dependentsOf (hg : g.Indexed) {s x : String} :
    s ∈ g.dependentsOf x ↔ ∃ d ∈ g.declarations, d.source = s ∧ d.target = x := by
  constructor
  · intro hs
    cases hx : g.index[x]? with
    | none => simp [dependentsOf, position?, hx] at hs
    | some i =>
      rw [dependentsOf, position?, hx] at hs
      obtain ⟨n, hn, rfl⟩ := (hg.index x i).mp hx
      obtain ⟨e, he, hti, rfl⟩ := mem_namesOf_filterMap.mp hs
      exact ⟨g.shown e, List.mem_map_of_mem he, rfl, (hg.target_eq_iff he hn).mpr hti⟩
  · rintro ⟨d, hd, rfl, rfl⟩
    obtain ⟨i, n, hi, hn, hx⟩ := hg.index_of_target hd
    obtain ⟨e, he, rfl⟩ := List.mem_map.mp hd
    rw [dependentsOf, position?, hi]
    exact mem_namesOf_filterMap.mpr ⟨e, he, (hg.target_eq_iff he hn).mp hx.symm, rfl⟩

theorem mem_dependenciesOf (hg : g.Indexed) {t x : String} :
    t ∈ g.dependenciesOf x ↔ ∃ d ∈ g.declarations, d.target = t ∧ d.source = x := by
  constructor
  · intro ht
    cases hx : g.index[x]? with
    | none => simp [dependenciesOf, position?, hx] at ht
    | some i =>
      rw [dependenciesOf, position?, hx] at ht
      obtain ⟨n, hn, rfl⟩ := (hg.index x i).mp hx
      obtain ⟨e, he, hsi, rfl⟩ := mem_namesOf_filterMap.mp ht
      exact ⟨g.shown e, List.mem_map_of_mem he, rfl, (hg.source_eq_iff he hn).mpr hsi⟩
  · rintro ⟨d, hd, rfl, rfl⟩
    obtain ⟨i, n, hi, hn, hx, -⟩ := hg.index_of_source hd
    obtain ⟨e, he, rfl⟩ := List.mem_map.mp hd
    rw [dependenciesOf, position?, hi]
    exact mem_namesOf_filterMap.mpr ⟨e, he, (hg.source_eq_iff he hn).mp hx.symm, rfl⟩

theorem mem_dependenciesOf_iff_mem_dependentsOf (hg : g.Indexed) {x y : String} :
    y ∈ g.dependenciesOf x ↔ x ∈ g.dependentsOf y := by
  simp only [mem_dependenciesOf hg, mem_dependentsOf hg, and_comm]

theorem contains_of_mem_dependenciesOf (hg : g.Indexed) {x y : String}
    (h : y ∈ g.dependenciesOf x) : g.contains x = true := by
  obtain ⟨d, hd, -, rfl⟩ := (mem_dependenciesOf hg).mp h
  exact hg.unit?_source hd

theorem pairwise_dependentsOf (g : Graph) (x : String) : (g.dependentsOf x).Pairwise (· < ·) := by
  rw [dependentsOf]
  split
  · exact List.Pairwise.nil
  · exact Text.pairwise_ascending _

theorem pairwise_dependenciesOf (g : Graph) (x : String) :
    (g.dependenciesOf x).Pairwise (· < ·) := by
  rw [dependenciesOf]
  split
  · exact List.Pairwise.nil
  · exact Text.pairwise_ascending _

theorem Indexed.isPlaceholder_iff (hg : g.Indexed) {x : String} :
    g.isPlaceholder x = true ↔ (⟨x, none⟩ : Node) ∈ g.nodes.toList := by
  rw [isPlaceholder, Option.any_eq_true, Array.mem_toList_iff, Array.mem_iff_getElem?]
  constructor
  · rintro ⟨i, hi, hp⟩
    obtain ⟨n, hn, hu⟩ := isPlaceholderAt_iff.mp hp
    obtain ⟨m, hm, rfl⟩ := (hg.index x i).mp hi
    rw [hn] at hm
    rw [← Option.some.inj hm]
    exact ⟨i, by rw [hn, ← hu]⟩
  · rintro ⟨i, hi⟩
    exact ⟨i, hg.index_of_node hi, isPlaceholderAt_iff.mpr ⟨_, hi, rfl⟩⟩

theorem WellFormed.isPlaceholder_iff (hg : g.WellFormed) {x : String} :
    g.isPlaceholder x = true ↔ g.unit? x = none ∧ ∃ d ∈ g.declarations, d.target = x := by
  rw [hg.toIndexed.isPlaceholder_iff, Array.mem_toList_iff, Array.mem_iff_getElem?]
  constructor
  · rintro ⟨i, hi⟩
    refine ⟨hg.unit?_of_node hi, ?_⟩
    obtain ⟨e, he, ht⟩ := hg.exists_edge (isPlaceholderAt_iff.mpr ⟨_, hi, rfl⟩)
    exact ⟨g.shown e, List.mem_map_of_mem he, (hg.toIndexed.target_eq_iff he hi).mpr ht⟩
  · rintro ⟨hnone, d, hd, rfl⟩
    obtain ⟨i, n, -, hn, hx⟩ := hg.toIndexed.index_of_target hd
    rw [← hx, hg.unit?_of_node hn, Node.registered?, Option.map_eq_none_iff] at hnone
    exact ⟨i, by rw [hn, ← hx, ← hnone]⟩

theorem Indexed.isPlaceholderAt_target (hg : g.Indexed) {e : Edge} (he : e ∈ g.edges.toList) :
    g.isPlaceholderAt e.target = (g.unit? (g.shown e).target).isNone := by
  obtain ⟨n, hn⟩ := hg.target e he
  have htarget : (g.shown e).target = n.identifier := identifierAt_of_node hn
  rw [htarget, hg.unit?_of_node hn, isPlaceholderAt, hn, Node.registered?, Option.any_some,
    Option.isNone_map]

theorem danglingEdgeCount_eq (hg : g.Indexed) :
    g.danglingEdgeCount = g.declarations.countP fun d => (g.unit? d.target).isNone := by
  rw [danglingEdgeCount, declarations, List.countP_map]
  apply List.countP_congr
  intro e he
  rw [hg.isPlaceholderAt_target he]
  rfl

theorem danglingEdgeCount_eq_zero_iff (hg : g.Indexed) :
    g.danglingEdgeCount = 0 ↔ ∀ x, ∀ y ∈ g.dependenciesOf x, g.contains y = true := by
  rw [danglingEdgeCount_eq hg, List.countP_eq_zero]
  simp only [mem_dependenciesOf hg, Option.isNone_iff_eq_none]
  constructor
  · rintro hall x _ ⟨d, hd, rfl, -⟩
    exact Option.isSome_iff_ne_none.mpr (hall d hd)
  · intro hall d hd
    exact Option.isSome_iff_ne_none.mp (hall d.source d.target ⟨d, hd, rfl, rfl⟩)

theorem placeholderCount_eq (hg : g.WellFormed) :
    g.placeholderCount =
      (Text.ascending ((g.declarations.map (·.target)).filter fun x =>
        (g.unit? x).isNone)).length := by
  let placeholders := (g.nodes.toList.filter fun n => n.unit.isNone).map Node.identifier
  have hcount : g.placeholderCount = placeholders.length := by
    have hsum := List.length_eq_countP_add_countP (fun n : Node => n.unit.isSome) (l := g.nodes.toList)
    have hnone : placeholders.length = g.nodes.toList.countP fun n => !n.unit.isSome := by
      simp only [placeholders, List.length_map, ← List.countP_eq_length_filter, Option.not_isSome]
    rw [Array.length_toList] at hsum
    rw [placeholderCount, unitCount, hnone]
    simp only [Bool.not_eq_true, Bool.decide_eq_false] at hsum
    omega
  rw [hcount]
  apply List.Perm.length_eq
  apply (List.perm_ext_iff_of_nodup _ (Text.nodup_ascending _)).mpr
  · intro x
    have hright : x ∈ Text.ascending ((g.declarations.map (·.target)).filter fun x =>
        (g.unit? x).isNone) ↔ g.isPlaceholder x = true := by
      rw [Text.mem_ascending, List.mem_filter, List.mem_map, Option.isNone_iff_eq_none, and_comm,
        hg.isPlaceholder_iff]
    rw [hright, hg.toIndexed.isPlaceholder_iff, List.mem_map]
    constructor
    · rintro ⟨n, hn, rfl⟩
      obtain ⟨hmem, hu⟩ := List.mem_filter.mp hn
      rw [← Option.isNone_iff_eq_none.mp hu]
      exact hmem
    · intro hx
      exact ⟨_, List.mem_filter.mpr ⟨hx, rfl⟩, rfl⟩
  · have hnodup := hg.toIndexed.nodup_identifiers
    rw [List.Nodup, List.pairwise_map] at hnodup ⊢
    exact hnodup.filter _

end DependencyAtlas.Graph
