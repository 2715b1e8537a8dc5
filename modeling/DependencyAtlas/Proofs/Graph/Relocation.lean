import DependencyAtlas.Proofs.Graph.History

/-!
# Replacing a unit in the arena

Registering a unit again takes elements out of the arena one by one, and each time the last element
takes the free place. Whatever moves on the way, in the end the edges of the unit are gone, the
placeholders that only it referred to are gone, and everything else is there as it was: each node at
some new place, each edge between the new places of its ends.
-/

namespace DependencyAtlas

namespace Edge

def relocate (place : Nat → Nat) (e : Edge) : Edge :=
  { e with source := place e.source, target := place e.target }

theorem rename_eq_relocate (last i : Nat) : Edge.rename last i = relocate (settle last i) :=
  rfl

end Edge

namespace Graph

variable {g h : Graph} {i j : Nat} {place : Nat → Nat}

/-- What removing all abandoned placeholders does: each other node stands at its new place. -/
structure Vacated (g : Graph) (place : Nat → Nat) (h : Graph) : Prop where
  node : ∀ (k : Nat) (n : Node), h.nodes[k]? = some n ↔
    ∃ j, g.isAbandoned j = false ∧ g.nodes[j]? = some n ∧ k = place j
  edges : h.edges = g.edges.map (Edge.relocate place)

theorem vacated_self (hnone : ∀ i, g.isAbandoned i = false) : Vacated g id g := by
  refine ⟨fun k n => ?_, ?_⟩
  · constructor
    · exact fun hk => ⟨k, hnone k, hk, rfl⟩
    · rintro ⟨j, -, hj, rfl⟩
      exact hj
  · exact (Array.map_id _).symm

/-- A placeholder removed before the others moves the last node, and they move it on. -/
theorem Removed.vacated {g' : Graph} (hr : Removed g i g') (ha : g.isAbandoned i = true)
    (hv : Vacated g' place h) : Vacated g (place ∘ settle (g.nodes.size - 1) i) h := by
  have habandoned {j : Nat} (hji : j ≠ i) :
      g'.isAbandoned (settle (g.nodes.size - 1) i j) = g.isAbandoned j := by
    rw [Bool.eq_iff_iff, hr.isAbandoned_iff ha]
    constructor
    · rintro ⟨j', hji', hj', he⟩
      rwa [settle_injective hji hji' he]
    · exact fun hj => ⟨j, hji, hj, rfl⟩
  refine ⟨fun k n => ?_, ?_⟩
  · rw [hv.node]
    constructor
    · rintro ⟨_, hstays, hnode, rfl⟩
      obtain ⟨j, hji, hj, rfl⟩ := (hr.node _ n).mp hnode
      exact ⟨j, habandoned hji ▸ hstays, hj, rfl⟩
    · rintro ⟨j, hstays, hj, rfl⟩
      have hji : j ≠ i := by
        rintro rfl
        rw [ha] at hstays
        cases hstays
      exact ⟨_, (habandoned hji).trans hstays, (hr.node _ n).mpr ⟨j, hji, hj, rfl⟩, rfl⟩
  · rw [hv.edges, hr.edges, Edge.rename_eq_relocate, Array.map_map]
    rfl

/-- From the highest position down, each placeholder is still where it was listed when its turn
comes. -/
theorem exists_vacated (positions : List Nat) :
    ∀ {g : Graph}, g.Indexed → positions.Pairwise (· > ·) →
      (∀ i, i ∈ positions ↔ g.isAbandoned i = true) →
      ∃ place, Vacated g place (positions.foldl removePlaceholder g) := by
  induction positions with
  | nil =>
    intro g _ _ hall
    refine ⟨id, vacated_self fun i => Bool.eq_false_iff.mpr fun ha => ?_⟩
    exact absurd ((hall i).mpr ha) List.not_mem_nil
  | cons i rest ih =>
    intro g hg hdesc hall
    obtain ⟨hbelow, hrest⟩ := List.pairwise_cons.mp hdesc
    have ha : g.isAbandoned i = true := (hall i).mp List.mem_cons_self
    have hr := hg.removePlaceholder ha
    obtain ⟨place, hv⟩ := ih hr.indexed hrest (hr.mem_rest_iff ha hbelow hall)
    exact ⟨_, hr.vacated ha hv⟩

/-- The node at `j` is an unregistered target of the unit at `i` and of no other unit. -/
structure Orphaned (g : Graph) (i j : Nat) : Prop where
  placeholder : g.isPlaceholderAt j = true
  target : ∃ e ∈ g.edges.toList, e.source = i ∧ e.target = j
  alone : ∀ e ∈ g.edges.toList, e.target = j → e.source = i

/-- What is left when the unit at `i` loses its edges: all nodes but the orphaned ones, each at its
own new place, where its identifier leads now, and all edges but those of the unit, with their labels
and between the new places of their ends. -/
structure Cleared (g : Graph) (i : Nat) (place : Nat → Nat) (h : Graph) : Prop where
  node : ∀ (k : Nat) (n : Node), h.nodes[k]? = some n ↔
    ∃ j, ¬ g.Orphaned i j ∧ g.nodes[j]? = some n ∧ k = place j
  index : ∀ (x : String) (k : Nat), h.index[x]? = some k ↔
    ∃ j, ¬ g.Orphaned i j ∧ g.index[x]? = some j ∧ k = place j
  apart : ∀ j j', j < g.nodes.size → j' < g.nodes.size → ¬ g.Orphaned i j → ¬ g.Orphaned i j' →
    place j = place j' → j = j'
  edges : h.edges.toList.Perm
    ((g.edges.toList.filter fun e => e.source != i).map (Edge.relocate place))

theorem WellFormed.isAbandoned_withoutOutgoing_iff (hg : g.WellFormed) :
    (g.withoutOutgoing i).isAbandoned j = true ↔ g.Orphaned i j := by
  constructor
  · intro ha
    obtain ⟨hp, hnone⟩ := isAbandoned_iff.mp ha
    refine ⟨hp, hg.target_of_abandoned ha, fun e he ht => Classical.byContradiction fun hs => ?_⟩
    exact hnone e (mem_remaining.mpr ⟨he, hs⟩) ht
  · intro ho
    refine isAbandoned_iff.mpr ⟨ho.placeholder, fun e he ht => ?_⟩
    obtain ⟨he, hs⟩ := mem_remaining.mp he
    exact hs (ho.alone e he ht)

theorem WellFormed.exists_cleared (hg : g.WellFormed) {n : Node} (hn : g.nodes[i]? = some n) :
    ∃ place, Cleared g i place (g.clearOutgoing i) := by
  obtain ⟨place, hv⟩ := exists_vacated (g.abandonedTargets i) (hg.toIndexed.withoutOutgoing i)
    (pairwise_descending _) fun _ => hg.mem_abandonedTargets
  rw [← clearOutgoing_eq] at hv
  have hnode : ∀ (k : Nat) (n : Node), (g.clearOutgoing i).nodes[k]? = some n ↔
      ∃ j, ¬ g.Orphaned i j ∧ g.nodes[j]? = some n ∧ k = place j := by
    intro k n
    rw [hv.node]
    simp only [← hg.isAbandoned_withoutOutgoing_iff, Bool.not_eq_true]
    exact Iff.rfl
  refine ⟨place, hnode, fun x k => ?_, fun j j' hj hj' ho ho' he => ?_, ?_⟩
  · rw [(hg.clearOutgoing hn).1.index]
    constructor
    · rintro ⟨m, hm, hx⟩
      obtain ⟨j, ho, hj, rfl⟩ := (hnode k m).mp hm
      exact ⟨j, ho, (hg.index x j).mpr ⟨m, hj, hx⟩, rfl⟩
    · rintro ⟨j, ho, hj, rfl⟩
      obtain ⟨m, hm, hx⟩ := (hg.index x j).mp hj
      exact ⟨m, (hnode _ m).mpr ⟨j, ho, hm, rfl⟩, hx⟩
  · -- Two nodes at one place are one node, and its identifier stands at one position only.
    have hm := (hnode _ _).mpr ⟨j, ho, Array.getElem?_eq_getElem hj, rfl⟩
    have hm' := (hnode _ _).mpr ⟨j', ho', Array.getElem?_eq_getElem hj', rfl⟩
    rw [he, hm', Option.some.injEq] at hm
    apply hg.unique (Array.getElem?_eq_getElem hj) (Array.getElem?_eq_getElem hj')
    rw [hm]
  · have hperm := (g.remaining_perm i).map (Edge.relocate place)
    rwa [hv.edges, Array.toList_map]

theorem exists_insert_eq (hg : g.WellFormed) {u : CodeUnit}
    (hi : g.index[u.identifier]? = some i) (hp : g.isPlaceholderAt i = false) :
    ∃ place, Cleared (g.setUnit i ⟨u.kind, u.file⟩) i place
        ((g.setUnit i ⟨u.kind, u.file⟩).clearOutgoing i) ∧
      g.insert u = u.dependencies.foldl (addDependency (place i))
        ((g.setUnit i ⟨u.kind, u.file⟩).clearOutgoing i) := by
  let r : Registration := ⟨u.kind, u.file⟩
  have hintern := hg.toIndexed.intern u.identifier
  rw [intern_of_index hi] at hintern
  obtain ⟨n, hn, -⟩ := hintern.node
  have hnode := getElem?_setUnit_of_node hn r
  obtain ⟨place, hcleared⟩ := (hintern.setUnit hg r).exists_cleared hnode
  refine ⟨place, hcleared, ?_⟩
  have hstays : ¬ (g.setUnit i r).Orphaned i i := by
    intro ho
    obtain ⟨m, hm, hu⟩ := isPlaceholderAt_iff.mp ho.placeholder
    rw [hnode] at hm
    rw [← Option.some.inj hm] at hu
    cases hu
  have hplace : ((g.setUnit i r).clearOutgoing i).index[u.identifier]? = some (place i) :=
    (hcleared.index _ _).mpr ⟨i, hstays, hi, rfl⟩
  have hplaced : g.placed u = (g.setUnit i r).clearOutgoing i := by
    rw [placed, intern_of_index hi]
    simp only [hp, Bool.false_eq_true, if_false]
    rfl
  rw [insert_eq, hplaced, intern_of_index hplace]

/-- The map leads from each identifier to the node that carries it and to each node from one
identifier; the edges start at registered units and end at nodes; and placeholders are where edges
end and none starts. -/
structure Intact (g : Graph) : Prop where
  lookup : ∀ (x : String) (i : Nat), g.index[x]? = some i →
    ∃ n : Node, g.nodes[i]? = some n ∧ n.identifier = x
  once : ∀ i < g.nodes.size, ∃! x : String, g.index[x]? = some i
  joined : ∀ e ∈ g.edges.toList,
    (∃ n : Node, g.nodes[e.source]? = some n ∧ n.unit.isSome = true) ∧ e.target < g.nodes.size
  referred : ∀ i, g.isPlaceholderAt i = true →
    (∃ e ∈ g.edges.toList, e.target = i) ∧ ∀ e ∈ g.edges.toList, e.source ≠ i

theorem WellFormed.intact (hg : g.WellFormed) : g.Intact := by
  refine ⟨fun x i => (hg.index x i).mp, fun i hi => ?_, fun e he => ⟨hg.source e he, ?_⟩,
    fun i hp => ⟨hg.exists_edge hp, fun e he => hg.source_ne_of_isPlaceholderAt he hp⟩⟩
  · have hn := Array.getElem?_eq_getElem hi
    refine ⟨_, hg.index_of_node hn, fun x hx => ?_⟩
    exact ((hg.identifier_eq_iff hn).mpr hx).symm
  · obtain ⟨n, hn⟩ := hg.target e he
    exact (Array.getElem?_eq_some_iff.mp hn).1

/-- The arena is intact after any calls. A unit that is registered again takes its new kind and file
where it stands, its former edges and the placeholders that only these reached are taken out, and its
new dependencies are declared from the place where it stands then. -/
theorem arena_intact (calls : List Call) :
    let g := afterCalls calls
    g.Intact ∧ ∀ (u : CodeUnit) (i : Nat), u.isValid = true → g.index[u.identifier]? = some i →
      g.isPlaceholderAt i = false → ∃ place,
        Cleared (g.setUnit i ⟨u.kind, u.file⟩) i place
          ((g.setUnit i ⟨u.kind, u.file⟩).clearOutgoing i) ∧
        g.register u = .ok (u.dependencies.foldl (addDependency (place i))
          ((g.setUnit i ⟨u.kind, u.file⟩).clearOutgoing i)) := by
  intro g
  have hg : g.WellFormed := (represents_afterCalls calls).wellFormed
  refine ⟨hg.intact, fun u i hu hi hp => ?_⟩
  obtain ⟨place, hcleared, hinsert⟩ := exists_insert_eq hg hi hp
  exact ⟨place, hcleared, by rw [register_of_isValid hu, hinsert]⟩

end Graph

end DependencyAtlas
