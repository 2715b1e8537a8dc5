import DependencyAtlas.Graph.Impact
import DependencyAtlas.Proofs.Graph.Contents
import DependencyAtlas.Proofs.Graph.Registration
import DependencyAtlas.Proofs.Search.BreadthFirst
import Mathlib.Data.List.Basic
import Mathlib.Data.List.Forall2

/-!
# Dependents of dependents

What a change reaches is a matter of direct dependents alone: two graphs in order that agree on the
direct dependents of all identifiers that a chain can come to agree on all dependents through chains,
at every limit and in their order, wherever the nodes are in the two stores.
-/

namespace DependencyAtlas.Graph

variable {g h : Graph} {x : String} {i j : Nat}

theorem sublist_eraseDups {α : Type} [BEq α] : ∀ xs : List α, xs.eraseDups.Sublist xs
  | [] => List.Sublist.slnil
  | x :: xs => by
    rw [List.eraseDups_cons]
    exact ((sublist_eraseDups _).trans List.filter_sublist).cons_cons x
termination_by xs => xs.length
decreasing_by exact Nat.lt_succ_of_le (List.length_filter_le _ _)

/-- Positions of one identifier in two graphs. -/
def SameName (g h : Graph) (i j : Nat) : Prop :=
  ∃ n m : Node, g.nodes[i]? = some n ∧ h.nodes[j]? = some m ∧ n.identifier = m.identifier

theorem SameName.lt (hij : SameName g h i j) : i < g.nodes.size ∧ j < h.nodes.size := by
  obtain ⟨n, m, hn, hm, -⟩ := hij
  exact ⟨(Array.getElem?_eq_some_iff.mp hn).1, (Array.getElem?_eq_some_iff.mp hm).1⟩

theorem SameName.identifierAt_eq (hij : SameName g h i j) :
    g.identifierAt i = h.identifierAt j := by
  obtain ⟨n, m, hn, hm, hx⟩ := hij
  rw [identifierAt_of_node hn, identifierAt_of_node hm, hx]

theorem sameName_of_identifierAt_eq (hi : i < g.nodes.size) (hj : j < h.nodes.size)
    (hx : g.identifierAt i = h.identifierAt j) : SameName g h i j := by
  have hn := Array.getElem?_eq_getElem hi
  have hm := Array.getElem?_eq_getElem hj
  rw [identifierAt_of_node hn, identifierAt_of_node hm] at hx
  exact ⟨_, _, hn, hm, hx⟩

theorem biUnique_sameName (hg : g.Indexed) (hh : h.Indexed) : Relator.BiUnique (SameName g h) := by
  constructor
  · rintro i j k ⟨n, m, hn, hm, hx⟩ ⟨n', m', hn', hm', hx'⟩
    rw [hm] at hm'
    obtain rfl := Option.some.inj hm'
    exact hg.unique hn hn' (hx.trans hx'.symm)
  · rintro i j k ⟨n, m, hn, hm, hx⟩ ⟨n', m', hn', hm', hx'⟩
    rw [hn] at hn'
    obtain rfl := Option.some.inj hn'
    exact hh.unique hm hm' (hx.symm.trans hx')

theorem identifierAt_injective (hg : g.Indexed) (hi : i < g.nodes.size) (hj : j < g.nodes.size)
    (hx : g.identifierAt i = g.identifierAt j) : i = j :=
  (biUnique_sameName hg hg).2 (sameName_of_identifierAt_eq hi hi rfl)
    (sameName_of_identifierAt_eq hi hj hx)

theorem forall₂_sameName :
    ∀ {l l' : List Nat}, (∀ i ∈ l, i < g.nodes.size) → (∀ j ∈ l', j < h.nodes.size) →
      l.map g.identifierAt = l'.map h.identifierAt → List.Forall₂ (SameName g h) l l'
  | [], [], _, _, _ => List.Forall₂.nil
  | i :: l, j :: l', hl, hl', he => by
    obtain ⟨hi, hl⟩ := List.forall_mem_cons.mp hl
    obtain ⟨hj, hl'⟩ := List.forall_mem_cons.mp hl'
    obtain ⟨hij, he⟩ := List.cons.inj he
    exact List.Forall₂.cons (sameName_of_identifierAt_eq hi hj hij) (forall₂_sameName hl hl' he)

theorem map_identifierAt_of_forall₂ {l l' : List Nat} (hl : List.Forall₂ (SameName g h) l l') :
    l.map g.identifierAt = l'.map h.identifierAt := by
  induction hl with
  | nil => rfl
  | cons hij _ ih => rw [List.map_cons, List.map_cons, hij.identifierAt_eq, ih]

theorem Indexed.sourcesAt_lt (hg : g.Indexed) (h : j ∈ g.sourcesAt i) : j < g.nodes.size := by
  obtain ⟨e, he, hj⟩ := List.mem_filterMap.mp h
  split at hj
  · rw [← Option.some.inj hj]
    exact hg.source_lt he
  · exact absurd hj (by simp)

theorem byName_perm (g : Graph) (l : List Nat) : (g.byName l).Perm l :=
  List.mergeSort_perm l _

theorem Indexed.byName_lt (hg : g.Indexed) :
    ∀ j ∈ (g.byName (g.sourcesAt i)).eraseDups, j < g.nodes.size := by
  intro j hj
  rw [List.mem_eraseDups, (byName_perm g _).mem_iff] at hj
  exact hg.sourcesAt_lt hj

theorem Indexed.map_identifierAt_byName (hg : g.Indexed) {n : Node} (hn : g.nodes[i]? = some n) :
    (g.byName (g.sourcesAt i)).eraseDups.map g.identifierAt = g.dependentsOf n.identifier := by
  let l := (g.byName (g.sourcesAt i)).eraseDups
  have hsorted : (l.map g.identifierAt).Pairwise (· ≤ ·) := by
    rw [List.pairwise_map]
    exact (Text.pairwise_mergeSort_key g.identifierAt _).sublist (sublist_eraseDups _)
  have hnodup : (l.map g.identifierAt).Nodup := by
    rw [List.Nodup, List.pairwise_map]
    apply (nodup_eraseDups (g.byName (g.sourcesAt i))).imp_of_mem
    intro j k hj hk hne he
    exact hne (identifierAt_injective hg (hg.byName_lt j hj) (hg.byName_lt k hk) he)
  apply Text.eq_of_ascending (fun s => s)
    (Text.ascending_of_nodup hsorted (by rwa [List.map_id'])) (pairwise_dependentsOf g _)
  intro s
  rw [dependentsOf, position?, hg.index_of_node hn]
  simp only [namesOf, Text.mem_ascending, List.mem_map, l, List.mem_eraseDups,
    (byName_perm g _).mem_iff]

theorem dependentsToFollow_eq (g : Graph) (limit : Option Nat) {w : Waiting}
    (hw : w.vertex < g.nodes.size) :
    g.dependentsToFollow g.sourceTable limit w =
      if limit.any fun most => most ≤ w.distance then []
      else g.byName (g.sourcesAt w.vertex) := by
  rw [dependentsToFollow, getElem?_sourceTable g hw, Option.getD_some]

theorem transitiveDependents_of_unknown {limit : Option Nat} (hx : g.position? x = none) :
    g.transitiveDependents x limit = [] := by
  rw [transitiveDependents, hx]

theorem transitiveDependents_of_index {limit : Option Nat} (hx : g.index[x]? = some i) :
    g.transitiveDependents x limit =
      (BreadthFirst.search g.nodes.size (g.dependentsToFollow g.sourceTable limit)
        BreadthFirst.never i).discovered.map g.identifierAt := by
  rw [transitiveDependents, position?, hx]
  rfl

/-- What nothing depends on directly, nothing depends on. -/
theorem Indexed.transitiveDependents_eq_nil (hg : g.Indexed) (hx : g.dependentsOf x = [])
    (limit : Option Nat) : g.transitiveDependents x limit = [] := by
  cases hi : g.index[x]? with
  | none => exact transitiveDependents_of_unknown hi
  | some i =>
    obtain ⟨n, hn, rfl⟩ := (hg.index x i).mp hi
    have hnames := hg.map_identifierAt_byName hn
    rw [hx, List.map_eq_nil_iff] at hnames
    have hfollow : g.dependentsToFollow g.sourceTable limit ⟨i, 0⟩ = [] := by
      rw [dependentsToFollow_eq g limit (Array.getElem?_eq_some_iff.mp hn).1]
      split
      · rfl
      · exact List.eq_nil_iff_forall_not_mem.mpr fun j hj =>
          absurd (List.mem_eraseDups.mpr hj) (by simp [hnames])
    rw [transitiveDependents_of_index hi, BreadthFirst.search,
      BreadthFirst.run_succ_of_pop? (w := ⟨i, 0⟩) rfl, hfollow, List.foldl_nil,
      BreadthFirst.run_of_queue_eq_nil rfl]
    rfl

/-- Positions of one identifier, which is in a set, in two graphs. -/
def SameNameIn (P : String → Prop) (g h : Graph) (i j : Nat) : Prop :=
  P (g.identifierAt i) ∧ SameName g h i j

theorem biUnique_sameNameIn {P : String → Prop} (hg : g.Indexed) (hh : h.Indexed) :
    Relator.BiUnique (SameNameIn P g h) :=
  ⟨fun _ _ _ hik hjk => (biUnique_sameName hg hh).1 hik.2 hjk.2,
    fun _ _ _ hij hik => (biUnique_sameName hg hh).2 hij.2 hik.2⟩

section Congruence

variable {P : String → Prop} (hg : g.Indexed) (hh : h.Indexed)
  (hP : ∀ x, P x → ∀ y ∈ g.dependentsOf x, P y)
  (hd : ∀ x, P x → g.dependentsOf x = h.dependentsOf x)

include hg hh hP hd

theorem forall₂_dependentsToFollow (limit : Option Nat) (w w' : Waiting)
    (hw : w.Alike (SameNameIn P g h) w') :
    List.Forall₂ (SameNameIn P g h) (g.dependentsToFollow g.sourceTable limit w).eraseDups
      (h.dependentsToFollow h.sourceTable limit w').eraseDups := by
  obtain ⟨hx, hsame⟩ := hw.vertex
  rw [dependentsToFollow_eq g limit hsame.lt.1, dependentsToFollow_eq h limit hsame.lt.2,
    hw.distance]
  split
  · exact List.Forall₂.nil
  · obtain ⟨n, m, hn, hm, hnm⟩ := hsame
    rw [identifierAt_of_node hn] at hx
    have hnames := hg.map_identifierAt_byName hn
    refine (List.forall₂_and_left _ _).mpr ⟨fun j hj => hP _ hx _ ?_, ?_⟩
    · rw [← hnames]
      exact List.mem_map_of_mem hj
    · apply forall₂_sameName hg.byName_lt hh.byName_lt
      rw [hnames, hh.map_identifierAt_byName hm, ← hnm, hd _ hx]

/-- Two graphs agree on the dependents through chains that start in a set which no chain leaves, if
they agree on the direct dependents in this set. -/
theorem transitiveDependents_congr (hx : P x) (limit : Option Nat) :
    g.transitiveDependents x limit = h.transitiveDependents x limit := by
  cases hi : g.index[x]? with
  | none =>
    have hnil : h.dependentsOf x = [] := by
      rw [← hd x hx, dependentsOf, position?, hi]
    rw [transitiveDependents_of_unknown hi, hh.transitiveDependents_eq_nil hnil]
  | some i =>
    cases hj : h.index[x]? with
    | none =>
      have hnil : g.dependentsOf x = [] := by
        rw [hd x hx, dependentsOf, position?, hj]
      rw [transitiveDependents_of_unknown hj, hg.transitiveDependents_eq_nil hnil]
    | some j =>
      obtain ⟨n, hn, hnx⟩ := (hg.index x i).mp hi
      obtain ⟨m, hm, hmx⟩ := (hh.index x j).mp hj
      have hstart : SameNameIn P g h i j :=
        ⟨(identifierAt_of_node hn).trans hnx ▸ hx, n, m, hn, hm, hnx.trans hmx.symm⟩
      have hfound := BreadthFirst.discovered_alike (biUnique_sameNameIn hg hh)
        (fun _ _ hij => hij.2.lt) (forall₂_dependentsToFollow hg hh hP hd limit) hstart
      rw [transitiveDependents_of_index hi, transitiveDependents_of_index hj]
      exact map_identifierAt_of_forall₂ (hfound.imp fun _ _ hij => hij.2)

end Congruence

theorem affectedBy_eq (g : Graph) (files : List String) :
    g.affectedBy files = Text.ascending
      ((g.units.filter (isDefinedIn (files.map comparablePath))).flatMap fun u =>
        u.identifier :: g.transitiveDependents u.identifier none) :=
  rfl

theorem affectedBy_congr {P : String → Prop} (hg : g.Indexed) (hh : h.Indexed)
    (hu : g.units = h.units) (hP : ∀ x, P x → ∀ y ∈ g.dependentsOf x, P y)
    (hd : ∀ x, P x → g.dependentsOf x = h.dependentsOf x) (hunits : ∀ u ∈ g.units, P u.identifier)
    (files : List String) : g.affectedBy files = h.affectedBy files := by
  rw [affectedBy_eq, affectedBy_eq, ← hu]
  congr 1
  apply List.flatMap_congr
  intro u hmem
  have hx := hunits u (List.mem_of_mem_filter hmem)
  rw [transitiveDependents_congr hg hh hP hd hx]

end DependencyAtlas.Graph
