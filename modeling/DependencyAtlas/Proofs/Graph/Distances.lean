import DependencyAtlas.Proofs.Graph.Dependents
import DependencyAtlas.Proofs.Graph.History
import DependencyAtlas.Proofs.Graph.Shape
import DependencyAtlas.Proofs.Search.Levels

/-!
# Dependents by distance

The distance of a unit from what it depends on is the length of the shortest chain of dependencies
between them. The dependents through chains are the units within the limit by this distance, the
nearest first.
-/

namespace DependencyAtlas

theorem PathTo.two_le_length {α : Type} {R : α → α → Prop} {x v : α} {p : List α}
    (h : PathTo R x v p) (hne : v ≠ x) : 2 ≤ p.length := by
  cases h with
  | here => exact absurd rfl hne
  | step hp _ =>
    have hpos := List.length_pos_iff.mpr hp.ne_nil
    rw [List.length_append, List.length_singleton]
    omega

namespace Graph

/-- The shortest chains from a unit `y` to `x` take `n` dependencies. -/
def ChainLength (g : Graph) (y x : String) (n : Nat) : Prop :=
  StepsApart (fun a b => b ∈ g.dependenciesOf a) y x n

/-- The units from which a chain within the limit leads to `x`, each once and the nearest first. The
start is not among them. -/
structure DependentsWithin (g : Graph) (x : String) (limit : Option Nat) (found : List String) :
    Prop where
  nodup : found.Nodup
  mem_iff : ∀ y, y ∈ found ↔ g.contains y = true ∧ y ≠ x ∧
    ∃ n, g.ChainLength y x n ∧ 1 ≤ n ∧ ∀ most ∈ limit, n ≤ most
  nearestFirst : found.Pairwise fun y z =>
    ∀ m n, g.ChainLength y x m → g.ChainLength z x n → m ≤ n

variable {g : Graph} {x y : String} {i j : Nat}

/-- The nodes that the search for dependents goes on to from a node. -/
def follow (g : Graph) (i : Nat) : List Nat :=
  g.byName (g.sourceTable[i]?.getD [])

theorem dependentsToFollow_eq_bounded (g : Graph) (limit : Option Nat) :
    g.dependentsToFollow g.sourceTable limit = BreadthFirst.bounded limit g.follow :=
  rfl

theorem follow_eq (hi : i < g.nodes.size) : g.follow i = g.byName (g.sourcesAt i) := by
  rw [follow, getElem?_sourceTable g hi, Option.getD_some]

theorem lt_of_mem_follow (hg : g.Indexed) (hj : j ∈ g.follow i) :
    i < g.nodes.size ∧ j < g.nodes.size := by
  by_cases hi : i < g.nodes.size
  · rw [follow_eq hi, (byName_perm g _).mem_iff] at hj
    exact ⟨hi, hg.sourcesAt_lt hj⟩
  · have hrow : g.sourceTable[i]? = none := by
      rw [Array.getElem?_eq_none_iff, sourceTable, size_tableOf]
      omega
    rw [follow, hrow, (byName_perm g _).mem_iff] at hj
    exact absurd hj List.not_mem_nil

theorem mem_dependentsOf_identifierAt (hg : g.Indexed) (hi : i < g.nodes.size) :
    y ∈ g.dependentsOf (g.identifierAt i) ↔ ∃ j ∈ g.follow i, g.identifierAt j = y := by
  have hn := Array.getElem?_eq_getElem hi
  rw [identifierAt_of_node hn, ← hg.map_identifierAt_byName hn, List.mem_map, follow_eq hi]
  simp only [List.mem_eraseDups]

theorem stepsApart_identifierAt (hg : g.Indexed) (hi : i < g.nodes.size) (hj : j < g.nodes.size)
    (n : Nat) :
    StepsApart (fun a b => b ∈ g.dependentsOf a) (g.identifierAt i) (g.identifierAt j) n ↔
      StepsApart (fun u v => v ∈ g.follow u) i j n := by
  apply stepsApart_congr
  intro k
  constructor
  · rintro ⟨names, hnames, rfl⟩
    obtain ⟨w, p, hw, hwj, hp, rfl⟩ := hnames.exists_lift (P := fun u => u < g.nodes.size)
      (S := fun u v => v ∈ g.follow u) hi fun u hu b hb => by
        obtain ⟨w, hw, hwb⟩ := (mem_dependentsOf_identifierAt hg hu).mp hb
        exact ⟨w, (lt_of_mem_follow hg hw).2, hwb, hw⟩
    rw [identifierAt_injective hg hw hj hwj] at hp
    exact ⟨p, hp, (List.length_map _).symm⟩
  · rintro ⟨p, hp, rfl⟩
    refine ⟨_, hp.map g.identifierAt fun u v huv => ?_, List.length_map _⟩
    exact (mem_dependentsOf_identifierAt hg (lt_of_mem_follow hg huv).1).mpr ⟨v, huv, rfl⟩

theorem chainLength_iff (hg : g.Indexed) (n : Nat) :
    g.ChainLength y x n ↔ StepsApart (fun a b => b ∈ g.dependentsOf a) x y n := by
  simp only [ChainLength, ← mem_dependenciesOf_iff_mem_dependentsOf hg]
  exact stepsApart_swap n

theorem chainLength_identifierAt (hg : g.Indexed) (hi : i < g.nodes.size) (hj : j < g.nodes.size)
    (n : Nat) :
    g.ChainLength (g.identifierAt j) (g.identifierAt i) n ↔
      StepsApart (fun u v => v ∈ g.follow u) i j n :=
  (chainLength_iff hg n).trans (stepsApart_identifierAt hg hi hj n)

theorem ChainLength.one_le {n : Nat} (h : g.ChainLength y x n) (hne : y ≠ x) : 1 ≤ n := by
  obtain ⟨p, hp, hlength⟩ := h.1
  have htwo := hp.two_le_length hne.symm
  omega

theorem ChainLength.exists_dependent {n : Nat} (hg : g.Indexed) (h : g.ChainLength y x n)
    (hne : y ≠ x) : ∃ z, z ∈ g.dependentsOf x := by
  obtain ⟨p, hp, -⟩ := h.1
  cases hp with
  | here => exact absurd rfl hne
  | step _ hzx => exact ⟨_, (mem_dependenciesOf_iff_mem_dependentsOf hg).mp hzx⟩

theorem ChainLength.contains {n : Nat} (hg : g.Indexed) (h : g.ChainLength y x n) (hne : y ≠ x) :
    g.contains y = true := by
  obtain ⟨p, hp, -⟩ := h.1
  have hback := hp.swap
  generalize p.reverse = q at hback
  cases hback with
  | here => exact absurd rfl hne
  | step _ hyz => exact contains_of_mem_dependenciesOf hg hyz

theorem dependentsWithin_of_unknown (hg : g.Indexed) (hx : g.position? x = none)
    (limit : Option Nat) : g.DependentsWithin x limit (g.transitiveDependents x limit) := by
  rw [transitiveDependents_of_unknown hx]
  refine ⟨List.nodup_nil, fun y => ⟨fun hy => absurd hy List.not_mem_nil, ?_⟩, List.Pairwise.nil⟩
  rintro ⟨-, hne, n, hn, -⟩
  obtain ⟨z, hz⟩ := hn.exists_dependent hg hne
  rw [dependentsOf, hx] at hz
  exact absurd hz List.not_mem_nil

theorem dependentsWithin_of_index (hg : g.Indexed) (hx : g.index[x]? = some i)
    (limit : Option Nat) : g.DependentsWithin x limit (g.transitiveDependents x limit) := by
  rw [transitiveDependents_of_index hx]
  obtain ⟨node, hnode, hid⟩ := (hg.index x i).mp hx
  have hi : i < g.nodes.size := (Array.getElem?_eq_some_iff.mp hnode).1
  obtain rfl : g.identifierAt i = x := (identifierAt_of_node hnode).trans hid
  have hfollow : ∀ u, ∀ v ∈ g.follow u, v < g.nodes.size :=
    fun _ _ hv => (lt_of_mem_follow hg hv).2
  have hsearch := BreadthFirst.nearestFirst_search hfollow hi limit
  rw [dependentsToFollow_eq_bounded]
  generalize (BreadthFirst.search _ _ _ i).discovered = found at hsearch ⊢
  have hlt : ∀ j ∈ found, j < g.nodes.size := by
    intro j hj
    obtain ⟨hne, n, ⟨⟨p, hp, -⟩, -⟩, -⟩ := (hsearch.mem_iff j).mp hj
    cases hp with
    | here => exact absurd rfl hne
    | step _ huj => exact (lt_of_mem_follow hg huj).2
  refine ⟨?_, fun y => ⟨?_, ?_⟩, ?_⟩
  · apply List.Nodup.map_on _ hsearch.nodup
    exact fun j hj k hk he => identifierAt_injective hg (hlt j hj) (hlt k hk) he
  · intro hy
    obtain ⟨j, hj, rfl⟩ := List.mem_map.mp hy
    obtain ⟨hne, n, hn, hlimit⟩ := (hsearch.mem_iff j).mp hj
    have hchain := (chainLength_identifierAt hg hi (hlt j hj) n).mpr hn
    have hji : g.identifierAt j ≠ g.identifierAt i :=
      fun he => hne (identifierAt_injective hg (hlt j hj) hi he)
    exact ⟨hchain.contains hg hji, hji, n, hchain, hchain.one_le hji, hlimit⟩
  · rintro ⟨hy, hne, n, hn, -, hlimit⟩
    obtain ⟨u, hu⟩ := Option.isSome_iff_exists.mp hy
    obtain ⟨j, -, hj⟩ := hg.node_of_unit? hu
    have hjlt : j < g.nodes.size := (Array.getElem?_eq_some_iff.mp hj).1
    obtain rfl : g.identifierAt j = y := identifierAt_of_node hj
    have hsteps := (chainLength_identifierAt hg hi hjlt n).mp hn
    refine List.mem_map_of_mem ((hsearch.mem_iff j).mpr ⟨?_, n, hsteps, hlimit⟩)
    rintro rfl
    exact hne rfl
  · rw [List.pairwise_map]
    apply hsearch.sorted.imp_of_mem
    intro j k hj hk hle m n hm hn
    exact hle m n ((chainLength_identifierAt hg hi (hlt j hj) m).mp hm)
      ((chainLength_identifierAt hg hi (hlt k hk) n).mp hn)

theorem dependentsWithin (hg : g.Indexed) (x : String) (limit : Option Nat) :
    g.DependentsWithin x limit (g.transitiveDependents x limit) := by
  cases hx : g.index[x]? with
  | none => exact dependentsWithin_of_unknown hg hx limit
  | some i => exact dependentsWithin_of_index hg hx limit

theorem transitiveDependents_mono (g : Graph) (x : String) {limit limit' : Option Nat}
    (hle : ∀ most' ∈ limit', ∃ most ∈ limit, most ≤ most') :
    g.transitiveDependents x limit <+: g.transitiveDependents x limit' := by
  cases hx : g.index[x]? with
  | none => rw [transitiveDependents_of_unknown hx, transitiveDependents_of_unknown hx]
  | some i =>
    rw [transitiveDependents_of_index hx, transitiveDependents_of_index hx,
      dependentsToFollow_eq_bounded, dependentsToFollow_eq_bounded]
    exact (BreadthFirst.discovered_mono hle g.nodes.size i).map g.identifierAt

/-- After any calls the dependents of any identifier are the units within the limit, and a greater
limit adds the further ones behind. -/
theorem transitiveDependents_nearestFirst (calls : List Call) (x : String) :
    (∀ limit, (afterCalls calls).DependentsWithin x limit
      ((afterCalls calls).transitiveDependents x limit)) ∧
    ∀ limit limit' : Option Nat, (∀ most' ∈ limit', ∃ most ∈ limit, most ≤ most') →
      (afterCalls calls).transitiveDependents x limit <+:
        (afterCalls calls).transitiveDependents x limit' := by
  have hg := (represents_afterCalls calls).wellFormed.toIndexed
  exact ⟨dependentsWithin hg x, fun _ _ hle => transitiveDependents_mono _ x hle⟩

end Graph

end DependencyAtlas
