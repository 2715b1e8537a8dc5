import DependencyAtlas.Proofs.Graph.Arena
import DependencyAtlas.Proofs.Graph.SwapRemoval

/-!
# Pruning

When a unit is registered again its edges go, and then the placeholders that nothing refers to any
more. Removing a placeholder moves the last node, so positions change; no unit and no edge is
changed by it. The abandoned placeholders are removed from the highest position down, which is why
each is still found where it was listed.
-/

namespace DependencyAtlas.Graph

variable {g h : Graph} {i : Nat}

theorem removePlaceholder_of_node {n : Node} (hn : g.nodes[i]? = some n) :
    g.removePlaceholder i = { g with
      nodes := swapRemove g.nodes i
      edges := g.edges.map (Edge.rename (g.nodes.size - 1) i)
      index :=
        match (swapRemove g.nodes i)[i]? with
        | some moved => (g.index.erase n.identifier).insert moved.identifier i
        | none => g.index.erase n.identifier } := by
  unfold removePlaceholder
  split
  · rename_i hnone
    rw [hn] at hnone
    cases hnone
  · rename_i removed hremoved
    rw [hn] at hremoved
    cases hremoved
    rfl

theorem source_rename (last : Nat) (e : Edge) :
    (e.rename last i).source = settle last i e.source :=
  rfl

theorem target_rename (last : Nat) (e : Edge) :
    (e.rename last i).target = settle last i e.target :=
  rfl

theorem index_removePlaceholder (hg : g.Indexed) {n : Node} (hn : g.nodes[i]? = some n)
    (x : String) :
    (g.removePlaceholder i).index[x]? = (g.index[x]?).bind fun j =>
      if j = i then none else some (settle (g.nodes.size - 1) i j) := by
  have hlt : i < g.nodes.size := (Array.getElem?_eq_some_iff.mp hn).1
  rw [removePlaceholder_of_node hn]
  simp only [getElem?_swapRemove hlt, if_true]
  by_cases hl : i < g.nodes.size - 1
  · rw [if_pos hl]
    have hlast : g.nodes.size - 1 < g.nodes.size := by omega
    have hm := Array.getElem?_eq_getElem hlast
    rw [hm]
    simp only [Std.HashMap.getElem?_insert, Std.HashMap.getElem?_erase, beq_iff_eq,
      hg.identifier_eq_iff hn, hg.identifier_eq_iff hm]
    by_cases hxl : g.index[x]? = some (g.nodes.size - 1)
    · rw [if_pos hxl, hxl, Option.bind_some, if_neg (by omega)]
      simp only [settle, if_true]
    · rw [if_neg hxl]
      cases hx : g.index[x]? with
      | none => simp
      | some j =>
        rw [hx] at hxl
        by_cases hji : j = i
        · simp [hji]
        · have hjl : j ≠ g.nodes.size - 1 := fun he => hxl (congrArg some he)
          simp [hji, settle, hjl]
  · rw [if_neg hl]
    simp only [Std.HashMap.getElem?_erase, beq_iff_eq, hg.identifier_eq_iff hn]
    cases hx : g.index[x]? with
    | none => simp
    | some j =>
      by_cases hji : j = i
      · simp [hji]
      · have hjl : j ≠ g.nodes.size - 1 := by omega
        simp [hji, settle, hjl]

/-- What removing a placeholder does to nodes and edges. -/
structure Removed (g : Graph) (i : Nat) (h : Graph) : Prop where
  indexed : h.Indexed
  node : ∀ (k : Nat) (n : Node), h.nodes[k]? = some n ↔
    ∃ j, j ≠ i ∧ g.nodes[j]? = some n ∧ k = settle (g.nodes.size - 1) i j
  edges : h.edges = g.edges.map (Edge.rename (g.nodes.size - 1) i)
  declared : h.declared = g.declared

theorem Indexed.removePlaceholder (hg : g.Indexed) (ha : g.isAbandoned i = true) :
    Removed g i (g.removePlaceholder i) := by
  obtain ⟨hp, htarget⟩ := isAbandoned_iff.mp ha
  obtain ⟨n, hn, -⟩ := isPlaceholderAt_iff.mp hp
  have hlt : i < g.nodes.size := (Array.getElem?_eq_some_iff.mp hn).1
  have hnode : ∀ (k : Nat) (m : Node), (g.removePlaceholder i).nodes[k]? = some m ↔
      ∃ j, j ≠ i ∧ g.nodes[j]? = some m ∧ k = settle (g.nodes.size - 1) i j := by
    intro k m
    rw [removePlaceholder_of_node hn]
    exact getElem?_swapRemove_eq_some_iff hlt
  have hedges : (g.removePlaceholder i).edges =
      g.edges.map (Edge.rename (g.nodes.size - 1) i) := by
    rw [removePlaceholder_of_node hn]
  refine ⟨⟨?_, ?_, ?_⟩, hnode, hedges, by rw [removePlaceholder_of_node hn]⟩
  · intro x k
    rw [index_removePlaceholder hg hn, Option.bind_eq_some_iff]
    constructor
    · rintro ⟨j, hj, hk⟩
      split at hk
      · exact absurd hk (by simp)
      · rename_i hji
        obtain ⟨m, hm, hx⟩ := (hg.index x j).mp hj
        exact ⟨m, (hnode k m).mpr ⟨j, hji, hm, (Option.some.inj hk).symm⟩, hx⟩
    · rintro ⟨m, hm, hx⟩
      obtain ⟨j, hji, hj, rfl⟩ := (hnode k m).mp hm
      exact ⟨j, (hg.index x j).mpr ⟨m, hj, hx⟩, if_neg hji⟩
  · intro e he
    rw [hedges, Array.toList_map] at he
    obtain ⟨d, hd, rfl⟩ := List.mem_map.mp he
    obtain ⟨m, hm, hmu⟩ := hg.source d hd
    have hne := hg.source_ne_of_isPlaceholderAt hd hp
    exact ⟨m, (hnode _ m).mpr ⟨d.source, hne, hm, rfl⟩, hmu⟩
  · intro e he
    rw [hedges, Array.toList_map] at he
    obtain ⟨d, hd, rfl⟩ := List.mem_map.mp he
    obtain ⟨m, hm⟩ := hg.target d hd
    exact ⟨m, (hnode _ m).mpr ⟨d.target, htarget d hd, hm, rfl⟩⟩

namespace Removed

theorem unit? (hr : Removed g i h) (hg : g.Indexed) (ha : g.isAbandoned i = true) (x : String) :
    h.unit? x = g.unit? x := by
  obtain ⟨n, hn, hu⟩ := isPlaceholderAt_iff.mp (isAbandoned_iff.mp ha).1
  apply hr.indexed.unit?_congr hg
  intro y r
  simp only [List.mem_iff_getElem?, Array.getElem?_toList]
  constructor
  · rintro ⟨k, hk⟩
    obtain ⟨j, -, hj, -⟩ := (hr.node k _).mp hk
    exact ⟨j, hj⟩
  · rintro ⟨j, hj⟩
    have hji : j ≠ i := by
      rintro rfl
      rw [hn] at hj
      rw [Option.some.inj hj] at hu
      exact absurd hu (by simp)
    exact ⟨_, (hr.node _ _).mpr ⟨j, hji, hj, rfl⟩⟩

theorem ledger (hr : Removed g i h) (hg : g.Indexed) (ha : g.isAbandoned i = true) :
    h.ledger = g.ledger := by
  obtain ⟨hp, htarget⟩ := isAbandoned_iff.mp ha
  simp only [Graph.ledger, hr.edges, Array.toList_map, List.map_map]
  apply List.map_congr_left
  intro e he
  obtain ⟨m, hm, -⟩ := hg.source e he
  obtain ⟨m', hm'⟩ := hg.target e he
  have hsource := hg.source_ne_of_isPlaceholderAt he hp
  have hs := identifierAt_of_node ((hr.node _ m).mpr ⟨e.source, hsource, hm, rfl⟩)
  have ht := identifierAt_of_node ((hr.node _ m').mpr ⟨e.target, htarget e he, hm', rfl⟩)
  rw [← identifierAt_of_node hm] at hs
  rw [← identifierAt_of_node hm'] at ht
  simp only [Function.comp_apply, Graph.shown, source_rename, target_rename, hs, ht]
  rfl

/-- The other abandoned placeholders are where they were, unless they were moved. -/
theorem isAbandoned_iff (hr : Removed g i h) (ha : g.isAbandoned i = true) (k : Nat) :
    h.isAbandoned k = true ↔
      ∃ j, j ≠ i ∧ g.isAbandoned j = true ∧ k = settle (g.nodes.size - 1) i j := by
  obtain ⟨-, htarget⟩ := Graph.isAbandoned_iff.mp ha
  simp only [Graph.isAbandoned_iff, isPlaceholderAt_iff, hr.node, hr.edges, Array.toList_map,
    List.mem_map]
  constructor
  · rintro ⟨⟨n, ⟨j, hji, hj, rfl⟩, hu⟩, hedges⟩
    refine ⟨j, hji, ⟨⟨n, hj, hu⟩, fun e he hej => ?_⟩, rfl⟩
    exact hedges _ ⟨e, he, rfl⟩ (congrArg (settle _ i) hej)
  · rintro ⟨j, hji, ⟨⟨n, hj, hu⟩, hedges⟩, rfl⟩
    refine ⟨⟨n, ⟨j, hji, hj, rfl⟩, hu⟩, ?_⟩
    rintro _ ⟨e, he, rfl⟩ hej
    exact hedges e he (settle_injective (htarget e he) hji hej)

/-- The abandoned placeholders that are left, listed from the highest position down, are not the last
node, so the removal leaves them in place. -/
theorem mem_rest_iff (hr : Removed g i h) (ha : g.isAbandoned i = true) {rest : List Nat}
    (hbelow : ∀ k ∈ rest, i > k) (hall : ∀ k, k ∈ i :: rest ↔ g.isAbandoned k = true) (k : Nat) :
    k ∈ rest ↔ h.isAbandoned k = true := by
  obtain ⟨n, hn, -⟩ := isPlaceholderAt_iff.mp (Graph.isAbandoned_iff.mp ha).1
  have hlt : i < g.nodes.size := (Array.getElem?_eq_some_iff.mp hn).1
  rw [hr.isAbandoned_iff ha]
  constructor
  · intro hk
    have hki : i > k := hbelow k hk
    exact ⟨k, by omega, (hall k).mp (List.mem_cons_of_mem i hk), (settle_of_lt (by omega)).symm⟩
  · rintro ⟨j, hji, hj, rfl⟩
    rcases List.mem_cons.mp ((hall j).mpr hj) with hj | hj
    · exact absurd hj hji
    · have hji : i > j := hbelow j hj
      rwa [settle_of_lt (by omega)]

end Removed

/-- Removing all abandoned placeholders, listed from the highest position down, leaves a graph
without any that says the same. -/
theorem foldl_removePlaceholder (positions : List Nat) :
    ∀ {g : Graph}, g.Indexed → positions.Pairwise (· > ·) →
      (∀ i, i ∈ positions ↔ g.isAbandoned i = true) →
      (positions.foldl removePlaceholder g).WellFormed ∧
      (∀ x, (positions.foldl removePlaceholder g).unit? x = g.unit? x) ∧
      (positions.foldl removePlaceholder g).ledger = g.ledger ∧
      (positions.foldl removePlaceholder g).declared = g.declared := by
  induction positions with
  | nil =>
    intro g hg _ hall
    refine ⟨⟨hg, fun i => Bool.eq_false_iff.mpr fun ha => ?_⟩, fun _ => rfl, rfl, rfl⟩
    exact absurd ((hall i).mpr ha) (by simp)
  | cons i rest ih =>
    intro g hg hdesc hall
    obtain ⟨hbelow, hrest⟩ := List.pairwise_cons.mp hdesc
    have ha : g.isAbandoned i = true := (hall i).mp List.mem_cons_self
    have hr := hg.removePlaceholder ha
    obtain ⟨hwell, hunit, hledger, hdeclared⟩ :=
      ih hr.indexed hrest (hr.mem_rest_iff ha hbelow hall)
    exact ⟨hwell, fun x => (hunit x).trans (hr.unit? hg ha x),
      hledger.trans (hr.ledger hg ha), hdeclared.trans hr.declared⟩

end DependencyAtlas.Graph
