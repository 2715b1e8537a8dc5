import DependencyAtlas.Analysis.Topology
import DependencyAtlas.Proofs.Graph.Contents
import Mathlib.Data.List.Nodup

/-!
# Numbers for units

A topology numbers the registered units of its graph in ascending order of their identifiers, so
numbers and identifiers are ordered alike. Its edges are the dependencies between registered units.
-/

namespace DependencyAtlas

/-- Pairs listed by their first members are listed once. -/
theorem nodup_flatMap_pairs {α : Type} {xs : List α} {f : α → List α} (hxs : xs.Nodup)
    (hf : ∀ x ∈ xs, (f x).Nodup) : (xs.flatMap fun x => (f x).map fun y => (x, y)).Nodup := by
  apply List.nodup_flatMap.mpr
  constructor
  · intro x hx
    exact (hf x hx).map fun _ _ h => (Prod.mk.inj h).2
  · apply hxs.imp
    intro x x' hne pair hx hx'
    obtain ⟨_, -, rfl⟩ := List.mem_map.mp hx
    obtain ⟨_, -, heq⟩ := List.mem_map.mp hx'
    exact hne (Prod.mk.inj heq).1.symm

/-- A registered unit depends on a registered unit. -/
def Graph.Links (g : Graph) (x y : String) : Prop :=
  g.contains x = true ∧ g.contains y = true ∧ y ∈ g.dependenciesOf x

theorem Graph.mem_dependentsOf_iff_links {g : Graph} (hg : g.Indexed) {x y : String}
    (hx : g.contains x = true) : y ∈ g.dependentsOf x ↔ g.Links y x := by
  rw [← mem_dependenciesOf_iff_mem_dependentsOf hg]
  exact ⟨fun hy => ⟨contains_of_mem_dependenciesOf hg hy, hx, hy⟩, fun hy => hy.2.2⟩

theorem Graph.mem_filter_dependenciesOf_iff_links {g : Graph} (hg : g.Indexed) {x y : String} :
    y ∈ (g.dependenciesOf x).filter g.contains ↔ g.Links x y := by
  rw [List.mem_filter]
  exact ⟨fun hy => ⟨contains_of_mem_dependenciesOf hg hy.1, hy.2, hy.1⟩, fun hy => ⟨hy.2.2, hy.2.1⟩⟩

namespace Topology

/-- The edges of a topology lead from units to units and are listed in ascending order. -/
structure Ordered (t : Topology) : Prop where
  lt : ∀ {i j : Nat}, j ∈ t.successors i → i < t.size ∧ j < t.size
  ascending : ∀ i : Nat, (t.successors i).Pairwise (· < ·)

/-- A topology numbers the registered units of a graph. -/
structure Numbers (t : Topology) (g : Graph) : Prop where
  size : t.size = g.unitCount
  id_lt : ∀ {i j : Nat}, i < j → j < t.size → t.id i < t.id j
  contains_iff : ∀ x : String, g.contains x = true ↔ ∃ i < t.size, t.id i = x
  position_iff : ∀ (x : String) (i : Nat), t.position? x = some i ↔ i < t.size ∧ t.id i = x
  mem_successors : ∀ {i j : Nat}, j ∈ t.successors i ↔
    i < t.size ∧ j < t.size ∧ t.id j ∈ g.dependenciesOf (t.id i)
  ascending : ∀ i : Nat, (t.successors i).Pairwise (· < ·)

namespace Numbers

variable {t : Topology} {g : Graph} {i j : Nat}

theorem ordered (h : t.Numbers g) : t.Ordered where
  lt hj := ⟨(h.mem_successors.mp hj).1, (h.mem_successors.mp hj).2.1⟩
  ascending := h.ascending

theorem id_injective (h : t.Numbers g) (hi : i < t.size) (hj : j < t.size)
    (he : t.id i = t.id j) : i = j := by
  rcases Nat.lt_trichotomy i j with hij | hij | hji
  · exact absurd (he ▸ h.id_lt hij hj) (String.lt_irrefl _)
  · exact hij
  · exact absurd (he ▸ h.id_lt hji hi) (String.lt_irrefl _)

theorem pair_injective (h : t.Numbers g) {e e' : Nat × Nat} (he : e.1 < t.size ∧ e.2 < t.size)
    (he' : e'.1 < t.size ∧ e'.2 < t.size) (heq : Prod.map t.id t.id e = Prod.map t.id t.id e') :
    e = e' := by
  obtain ⟨hfst, hsnd⟩ := Prod.mk.inj heq
  exact Prod.ext (h.id_injective he.1 he'.1 hfst) (h.id_injective he.2 he'.2 hsnd)

theorem links_iff (h : t.Numbers g) (hi : i < t.size) (hj : j < t.size) :
    g.Links (t.id i) (t.id j) ↔ j ∈ t.successors i := by
  rw [h.mem_successors]
  constructor
  · rintro ⟨-, -, hd⟩
    exact ⟨hi, hj, hd⟩
  · rintro ⟨-, -, hd⟩
    exact ⟨(h.contains_iff _).mpr ⟨i, hi, rfl⟩, (h.contains_iff _).mpr ⟨j, hj, rfl⟩, hd⟩

theorem links_of_mem (h : t.Numbers g) (hj : j ∈ t.successors i) :
    g.Links (t.id i) (t.id j) := by
  obtain ⟨hi, hlt⟩ := h.ordered.lt hj
  exact (h.links_iff hi hlt).mpr hj

end Numbers

section OfGraph

variable {g : Graph} {x : String} {i : Nat}

/-- A row of a table of a graph in order has the names at the other end of the edges of a node. -/
theorem rowNames_tableOf (hg : g.Indexed) (key value : Edge → Nat) (x : String) :
    rowNames g (Graph.tableOf g.nodes.size key value g.edges.toList) x =
      match g.position? x with
      | none => []
      | some i =>
        g.namesOf (g.edges.toList.filterMap fun e => if key e = i then some (value e) else none) := by
  unfold rowNames
  cases hx : g.position? x with
  | none => rfl
  | some i =>
    obtain ⟨n, hn, -⟩ := (hg.index x i).mp hx
    have hrow := Graph.getElem?_tableOf g.nodes.size key value g.edges.toList
      (Array.getElem?_eq_some_iff.mp hn).1
    simp only [hrow, Option.getD_some]

theorem rowNames_targetTable (hg : g.Indexed) (x : String) :
    rowNames g g.targetTable x = g.dependenciesOf x :=
  rowNames_tableOf hg _ _ x

theorem rowNames_sourceTable (hg : g.Indexed) (x : String) :
    rowNames g g.sourceTable x = g.dependentsOf x :=
  rowNames_tableOf hg _ _ x

theorem getElem?_indexOf {ids : List String} (h : ids.Nodup) :
    (indexOf ids)[x]? = some i ↔ ids[i]? = some x := by
  have hkeys : ids.zipIdx.Pairwise fun a b => (a.1 == b.1) = false := by
    have hfst : (ids.zipIdx.map Prod.fst).Nodup := by
      rwa [List.zipIdx_map_fst]
    apply (List.pairwise_map.mp hfst).imp
    intro a b hne
    exact beq_false_of_ne hne
  constructor
  · intro hx
    have hmem : x ∈ ids := by
      have hc : (indexOf ids).contains x = true := by
        rw [Std.HashMap.contains_eq_isSome_getElem?, hx]
        rfl
      rw [indexOf, Std.HashMap.contains_ofList, List.zipIdx_map_fst] at hc
      simpa using hc
    obtain ⟨j, hj⟩ := List.mem_iff_getElem?.mp hmem
    have hget : (indexOf ids)[x]? = some j :=
      Std.HashMap.getElem?_ofList_of_mem (beq_self_eq_true x) hkeys
        (List.mk_mem_zipIdx_iff_getElem?.mpr hj)
    rw [hget] at hx
    rwa [← Option.some.inj hx]
  · intro hi
    exact Std.HashMap.getElem?_ofList_of_mem (beq_self_eq_true x) hkeys
      (List.mk_mem_zipIdx_iff_getElem?.mpr hi)

def names (g : Graph) : List String :=
  g.units.map RegisteredUnit.identifier

theorem size_ofGraph (g : Graph) : (ofGraph g).size = (names g).length :=
  List.size_toArray

theorem id_ofGraph (g : Graph) (i : Nat) : (ofGraph g).id i = (names g)[i]?.getD "" := by
  rw [id]
  congr 1
  exact List.getElem?_toArray

theorem getElem?_names_iff : (names g)[i]? = some x ↔ i < (ofGraph g).size ∧ (ofGraph g).id i = x := by
  rw [size_ofGraph, id_ofGraph]
  constructor
  · intro h
    exact ⟨(List.getElem?_eq_some_iff.mp h).1, by rw [h, Option.getD_some]⟩
  · rintro ⟨h, rfl⟩
    rw [List.getElem?_eq_getElem h, Option.getD_some]

theorem pairwise_names (hg : g.Indexed) : (names g).Pairwise (· < ·) :=
  List.pairwise_map.mpr (Graph.pairwise_units hg)

theorem contains_iff_mem_names (hg : g.Indexed) : g.contains x = true ↔ x ∈ names g := by
  rw [Graph.contains, names, Option.isSome_iff_exists, List.mem_map]
  constructor
  · rintro ⟨u, hu⟩
    obtain rfl := (hg.unit?_eq_some_iff.mp hu).1
    exact ⟨u, (Graph.mem_units hg).mpr hu, rfl⟩
  · rintro ⟨u, hu, rfl⟩
    exact ⟨u, (Graph.mem_units hg).mp hu⟩

theorem filterMap_indexOf (hg : g.Indexed) (targets : List String) :
    (targets.filterMap fun s => (indexOf (names g))[s]?) =
      (targets.filter g.contains).filterMap fun s => (indexOf (names g))[s]? := by
  rw [List.filterMap_filter]
  congr 1
  funext s
  by_cases hs : g.contains s = true
  · rw [if_pos hs]
  · rw [if_neg hs, Option.eq_none_iff_forall_not_mem]
    intro i hi
    have hget := (getElem?_indexOf (Text.nodup_of_pairwise_lt (pairwise_names hg))).mp hi
    exact hs ((contains_iff_mem_names hg).mpr (List.mem_of_getElem? hget))

theorem forward_ofGraph (hg : g.Indexed) :
    (ofGraph g).forward = (g.units.map fun u =>
      ((g.dependenciesOf u.identifier).filter g.contains).filterMap fun s =>
        (indexOf (names g))[s]?).toArray := by
  simp only [← filterMap_indexOf hg]
  simp only [ofGraph, List.map_map, Function.comp_def, rowNames_targetTable hg, names]

theorem dependents_ofGraph (hg : g.Indexed) :
    (ofGraph g).dependents =
      (g.units.map fun u => (g.dependentsOf u.identifier).length).toArray := by
  simp only [ofGraph, List.map_map, Function.comp_def, rowNames_sourceTable hg]

theorem successors_ofGraph (hg : g.Indexed) (h : (names g)[i]? = some x) :
    (ofGraph g).successors i =
      (g.dependenciesOf x).filterMap fun s => (indexOf (names g))[s]? := by
  have hrow : (ofGraph g).forward[i]? =
      some ((g.dependenciesOf x).filterMap fun s => (indexOf (names g))[s]?) := by
    rw [ofGraph, List.getElem?_toArray, List.getElem?_map, List.getElem?_map]
    change Option.map _ (Option.map _ (names g)[i]?) = _
    rw [h, Option.map_some, Option.map_some, rowNames_targetTable hg]
    rfl
  rw [successors, hrow, Option.getD_some]

theorem successors_of_size_le (h : (ofGraph g).size ≤ i) : (ofGraph g).successors i = [] := by
  have hrow : (ofGraph g).forward[i]? = none := by
    rw [size_ofGraph, names] at h
    simpa [ofGraph] using h
  rw [successors, hrow, Option.getD_none]

end OfGraph

theorem numbers_ofGraph {g : Graph} (hg : g.Indexed) : (ofGraph g).Numbers g := by
  have hnames := pairwise_names hg
  have hnodup := Text.nodup_of_pairwise_lt hnames
  have hid {i j : Nat} (hij : i < j) (hj : j < (ofGraph g).size) :
      (ofGraph g).id i < (ofGraph g).id j := by
    rw [size_ofGraph] at hj
    have hi := Nat.lt_trans hij hj
    rw [id_ofGraph, id_ofGraph, List.getElem?_eq_getElem hj, List.getElem?_eq_getElem hi]
    exact List.pairwise_iff_getElem.mp hnames i j hi hj hij
  have hposition (x : String) (i : Nat) :
      (ofGraph g).position? x = some i ↔ i < (ofGraph g).size ∧ (ofGraph g).id i = x :=
    (getElem?_indexOf hnodup).trans getElem?_names_iff
  refine ⟨?_, hid, fun x => ?_, hposition, fun {i j} => ?_, fun i => ?_⟩
  · rw [size_ofGraph, names, List.length_map, Graph.unitCount_eq]
  · rw [contains_iff_mem_names hg, List.mem_iff_getElem?]
    simp only [getElem?_names_iff]
  · by_cases hi : i < (ofGraph g).size
    · have hx := getElem?_names_iff.mpr ⟨hi, rfl⟩
      rw [successors_ofGraph hg hx, List.mem_filterMap]
      constructor
      · rintro ⟨s, hs, hj⟩
        obtain ⟨hlt, rfl⟩ := getElem?_names_iff.mp ((getElem?_indexOf hnodup).mp hj)
        exact ⟨hi, hlt, hs⟩
      · rintro ⟨-, hlt, hs⟩
        exact ⟨_, hs, (getElem?_indexOf hnodup).mpr (getElem?_names_iff.mpr ⟨hlt, rfl⟩)⟩
    · rw [successors_of_size_le (Nat.le_of_not_lt hi)]
      constructor
      · exact fun h => absurd h List.not_mem_nil
      · exact fun h => absurd h.1 hi
  · by_cases hi : i < (ofGraph g).size
    · rw [successors_ofGraph hg (getElem?_names_iff.mpr ⟨hi, rfl⟩), List.pairwise_filterMap]
      apply (Graph.pairwise_dependenciesOf g _).imp
      intro s t hst k hk l hl
      obtain ⟨hks, rfl⟩ := getElem?_names_iff.mp ((getElem?_indexOf hnodup).mp hk)
      obtain ⟨-, rfl⟩ := getElem?_names_iff.mp ((getElem?_indexOf hnodup).mp hl)
      rcases Nat.lt_trichotomy k l with h | rfl | h
      · exact h
      · exact absurd hst (String.lt_irrefl _)
      · exact absurd (String.lt_trans hst (hid h hks)) (String.lt_irrefl _)
    · rw [successors_of_size_le (Nat.le_of_not_lt hi)]
      exact List.Pairwise.nil

end Topology

end DependencyAtlas
