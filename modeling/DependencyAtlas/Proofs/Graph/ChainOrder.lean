import DependencyAtlas.Proofs.Analysis.Routes
import DependencyAtlas.Proofs.Graph.Distances
import DependencyAtlas.Proofs.Graph.LastUnits
import Mathlib.Data.String.Basic

/-!
# The order of dependents

Dependents come in the order of the chains that lead to them: short chains first, and chains of one
length by the identifiers along them, from the start on. So the dependents at one distance are in
the order of their own identifiers as far as they are direct ones. Further away the units that
depend on one unit stay together, whatever the identifiers of the others are. A store has its nodes
in the order in which they came up; numbered by their identifiers they are found in the same order,
and there the neighbours of a node are in ascending order.
-/

namespace DependencyAtlas

namespace Graph

/-- The first of the shortest chains from `x` to `y` comes before that to `z`. -/
def ChainBefore (g : Graph) (x y z : String) : Prop :=
  ReachedBefore (fun a b => b ∈ g.dependentsOf a) x y z

/-- Dependents at one distance from `x` are in ascending order. -/
def AscendingInLevels (g : Graph) (x : String) (found : List String) : Prop :=
  found.Pairwise fun y z => ∀ n, g.ChainLength y x n → g.ChainLength z x n → y < z

/-- First chains of one length are in the order of their ends. -/
def ChainsAscend (g : Graph) (x : String) (found : List String) : Prop :=
  ∀ y ∈ found, ∀ z ∈ found, g.ChainBefore x y z →
    ∀ n, g.ChainLength y x n → g.ChainLength z x n → y < z

variable {g : Graph} {x y z : String} {i j k : Nat}

theorem eraseDups_of_nodup {xs : List Nat} (h : xs.Nodup) : xs.eraseDups = xs := by
  apply (sublist_eraseDups xs).eq_of_length_le
  exact (List.subperm_of_subset h fun _ hx => List.mem_eraseDups.mpr hx).length_le

def identifiers (g : Graph) : List String :=
  Text.ascending (g.nodes.toList.map Node.identifier)

def numbered (g : Graph) (k : Nat) : String :=
  g.identifiers[k]?.getD ""

def followNumber (g : Graph) (k : Nat) : List Nat :=
  (g.dependentsOf (g.numbered k)).map g.identifiers.idxOf

def HasNumber (g : Graph) (i k : Nat) : Prop :=
  i < g.nodes.size ∧ g.identifiers[k]? = some (g.identifierAt i)

theorem pairwise_identifiers (g : Graph) : g.identifiers.Pairwise (· < ·) :=
  Text.pairwise_ascending _

theorem identifierAt_mem_identifiers (hi : i < g.nodes.size) :
    g.identifierAt i ∈ g.identifiers := by
  rw [identifierAt_of_node (Array.getElem?_eq_getElem hi), identifiers, Text.mem_ascending]
  exact List.mem_map_of_mem (Array.mem_toList_iff.mpr (Array.getElem_mem hi))

theorem mem_identifiers_of_mem_dependentsOf (hg : g.Indexed) (hy : y ∈ g.dependentsOf x) :
    y ∈ g.identifiers := by
  obtain ⟨d, hd, rfl, -⟩ := (mem_dependentsOf hg).mp hy
  obtain ⟨i, n, -, hn, hx, -⟩ := hg.index_of_source hd
  rw [← hx, ← identifierAt_of_node hn]
  exact identifierAt_mem_identifiers (Array.getElem?_eq_some_iff.mp hn).1

theorem numbered_eq (h : g.identifiers[k]? = some x) : g.numbered k = x := by
  rw [numbered, h, Option.getD_some]

theorem numbered_idxOf (hx : x ∈ g.identifiers) : g.numbered (g.identifiers.idxOf x) = x :=
  numbered_eq (List.getElem?_idxOf hx)

theorem numbered_lt (hj : j < g.identifiers.length) (hij : i < j) :
    g.numbered i < g.numbered j := by
  have hi := Nat.lt_trans hij hj
  rw [numbered_eq (List.getElem?_eq_getElem hi), numbered_eq (List.getElem?_eq_getElem hj)]
  exact List.pairwise_iff_getElem.mp g.pairwise_identifiers i j hi hj hij

theorem idxOf_lt_idxOf (hx : x ∈ g.identifiers) (hy : y ∈ g.identifiers) (hxy : x < y) :
    g.identifiers.idxOf x < g.identifiers.idxOf y := by
  rcases Nat.lt_trichotomy (g.identifiers.idxOf x) (g.identifiers.idxOf y) with h | h | h
  · exact h
  · rw [(List.idxOf_inj hx).mp h] at hxy
    exact absurd hxy (String.lt_irrefl y)
  · have hyx := numbered_lt (List.idxOf_lt_length_of_mem hx) h
    rw [numbered_idxOf hx, numbered_idxOf hy] at hyx
    exact absurd (String.lt_trans hxy hyx) (String.lt_irrefl x)

theorem pairwise_followNumber (hg : g.Indexed) (k : Nat) :
    (g.followNumber k).Pairwise (· < ·) := by
  rw [followNumber, List.pairwise_map]
  apply (pairwise_dependentsOf g _).imp_of_mem
  intro y z hy hz hyz
  exact idxOf_lt_idxOf (mem_identifiers_of_mem_dependentsOf hg hy)
    (mem_identifiers_of_mem_dependentsOf hg hz) hyz

theorem lt_of_mem_followNumber (hg : g.Indexed) (hj : j ∈ g.followNumber k) :
    j < g.identifiers.length := by
  obtain ⟨y, hy, rfl⟩ := List.mem_map.mp hj
  exact List.idxOf_lt_length_of_mem (mem_identifiers_of_mem_dependentsOf hg hy)

theorem numbered_mem_dependentsOf (hg : g.Indexed) (hj : j ∈ g.followNumber k) :
    g.numbered j ∈ g.dependentsOf (g.numbered k) := by
  obtain ⟨y, hy, rfl⟩ := List.mem_map.mp hj
  rwa [numbered_idxOf (mem_identifiers_of_mem_dependentsOf hg hy)]

theorem exists_mem_followNumber (hg : g.Indexed) (hy : y ∈ g.dependentsOf (g.numbered k)) :
    ∃ j, g.numbered j = y ∧ j ∈ g.followNumber k :=
  ⟨_, numbered_idxOf (mem_identifiers_of_mem_dependentsOf hg hy), List.mem_map_of_mem hy⟩

theorem chainBefore_numbered (hg : g.Indexed) (hk : k < g.identifiers.length)
    (h : ReachedBefore (fun u v => v ∈ g.followNumber u) k i j) :
    g.ChainBefore (g.numbered k) (g.numbered i) (g.numbered j) :=
  h.map (P := (· < g.identifiers.length)) hk (fun _ _ hv => lt_of_mem_followNumber hg hv)
    (fun _ _ _ hb hab => numbered_lt hb hab) (fun _ _ hv => numbered_mem_dependentsOf hg hv)
    fun _ _ _ hb => exists_mem_followNumber hg hb

namespace HasNumber

theorem numbered_eq (h : g.HasNumber i k) : g.numbered k = g.identifierAt i :=
  Graph.numbered_eq h.2

theorem lt (h : g.HasNumber i k) : i < g.nodes.size ∧ k < g.identifiers.length :=
  ⟨h.1, (List.getElem?_eq_some_iff.mp h.2).1⟩

theorem biUnique (hg : g.Indexed) : Relator.BiUnique g.HasNumber := by
  constructor
  · intro i j k hi hj
    exact identifierAt_injective hg hi.1 hj.1 (hi.numbered_eq.symm.trans hj.numbered_eq)
  · intro i k l hk hl
    have hnodup := Text.nodup_of_pairwise_lt g.pairwise_identifiers
    exact (List.getElem?_inj hk.lt.2 hnodup).mp (hk.2.trans hl.2.symm)

theorem of_idxOf (hi : i < g.nodes.size) :
    g.HasNumber i (g.identifiers.idxOf (g.identifierAt i)) :=
  ⟨hi, List.getElem?_idxOf (identifierAt_mem_identifiers hi)⟩

theorem forall₂_follow (hg : g.Indexed) (h : g.HasNumber i k) :
    List.Forall₂ g.HasNumber (g.follow i).eraseDups (g.followNumber k).eraseDups := by
  have hnode := Array.getElem?_eq_getElem h.1
  have hnumbers : g.followNumber k =
      (g.follow i).eraseDups.map fun j => g.identifiers.idxOf (g.identifierAt j) := by
    rw [followNumber, h.numbered_eq, identifierAt_of_node hnode, ← hg.map_identifierAt_byName hnode,
      List.map_map, follow_eq h.1]
    rfl
  have hnodup := (pairwise_followNumber hg k).imp Nat.ne_of_lt
  rw [eraseDups_of_nodup hnodup, hnumbers, List.forall₂_map_right_iff, List.forall₂_same]
  intro j hj
  rw [follow_eq h.1] at hj
  exact of_idxOf (hg.byName_lt j hj)

end HasNumber

open BreadthFirst

/-- By position and by number the same units are found in the same order. -/
theorem transitiveDependents_eq_numbered (hg : g.Indexed) (h : g.HasNumber i k) :
    g.transitiveDependents (g.identifierAt i) none =
      (search g.identifiers.length (fun w => g.followNumber w.vertex) never k).discovered.map
        g.numbered := by
  have hfound : List.Forall₂ g.HasNumber
      (search g.nodes.size (bounded none g.follow) never i).discovered
      (search g.identifiers.length (fun w => g.followNumber w.vertex) never k).discovered :=
    discovered_alike (HasNumber.biUnique hg) (fun _ _ hij => hij.lt)
      (fun _ _ hw => hw.vertex.forall₂_follow hg) h
  have hindex : g.index[g.identifierAt i]? = some i := by
    rw [identifierAt_of_node (Array.getElem?_eq_getElem h.1)]
    exact hg.index_of_node (Array.getElem?_eq_getElem h.1)
  rw [transitiveDependents_of_index hindex, dependentsToFollow_eq_bounded]
  generalize (search _ _ _ i).discovered = found at hfound ⊢
  generalize (search _ _ _ k).discovered = numbers at hfound ⊢
  induction hfound with
  | nil => rfl
  | cons hij _ ih => rw [List.map_cons, List.map_cons, hij.numbered_eq, ih]

theorem pairwise_chainBefore (hg : g.Indexed) (x : String) (limit : Option Nat) :
    (g.transitiveDependents x limit).Pairwise (g.ChainBefore x) := by
  -- A limit cuts the rest off, so it is enough to look at the search without one.
  have hprefix : g.transitiveDependents x limit <+: g.transitiveDependents x none :=
    transitiveDependents_mono g x fun _ hmost => absurd hmost (Option.not_mem_none _)
  apply List.Pairwise.sublist hprefix.sublist
  cases hx : g.index[x]? with
  | none =>
    rw [transitiveDependents_of_unknown hx]
    exact List.Pairwise.nil
  | some i =>
    obtain ⟨node, hnode, rfl⟩ := (hg.index x i).mp hx
    have hi : i < g.nodes.size := (Array.getElem?_eq_some_iff.mp hnode).1
    have hnumber := HasNumber.of_idxOf (g := g) hi
    rw [← identifierAt_of_node hnode, transitiveDependents_eq_numbered hg hnumber,
      List.pairwise_map]
    apply (reachedBefore_search (fun _ _ hv => lt_of_mem_followNumber hg hv)
      (pairwise_followNumber hg) hnumber.lt.2).imp
    intro j l hjl
    rw [← hnumber.numbered_eq]
    exact chainBefore_numbered hg hnumber.lt.2 hjl

/-- In a list that is in one order, another one is kept as well where it follows from the first. -/
theorem pairwise_iff_of_pairwise {R S : String → String → Prop} {xs : List String}
    (hR : xs.Pairwise R) (hasymm : ∀ a b, R a b → ¬ R b a) :
    xs.Pairwise S ↔ ∀ a ∈ xs, ∀ b ∈ xs, R a b → S a b := by
  constructor
  · intro hS
    apply List.Pairwise.forall_of_forall_of_flip
    · exact fun a _ haa => absurd haa (hasymm a a haa)
    · apply hS.imp
      intro a b hab _
      exact hab
    · apply hR.imp
      intro a b hab hba
      exact absurd hba (hasymm a b hab)
  · intro h
    exact hR.imp_of_mem fun ha hb hab => h _ ha _ hb hab

theorem ascendingInLevels_iff (hg : g.Indexed) (x : String) (limit : Option Nat) :
    g.AscendingInLevels x (g.transitiveDependents x limit) ↔
      g.ChainsAscend x (g.transitiveDependents x limit) :=
  pairwise_iff_of_pairwise (pairwise_chainBefore hg x limit) fun _ _ h => h.asymm

/-- The chains of direct dependents differ in their ends only. -/
theorem ChainBefore.lt_of_direct (hg : g.Indexed) (h : g.ChainBefore x y z)
    (hy : g.ChainLength y x 1) (hz : g.ChainLength z x 1) : y < z := by
  obtain ⟨p, q, hp, hq, hlt⟩ := h
  obtain ⟨rfl, -⟩ := hp.path.eq_pair
    (((chainLength_iff hg 1).mp hy).length_eq hp.path hp.shortest)
  obtain ⟨rfl, -⟩ := hq.path.eq_pair
    (((chainLength_iff hg 1).mp hz).length_eq hq.path hq.shortest)
  rcases rank_lt_iff.mp hlt with hlength | ⟨-, hlt⟩
  · exact absurd hlength (Nat.lt_irrefl 2)
  · simpa [List.cons_lt_cons_iff] using hlt

theorem ascendingInLevels_of_le_one (hg : g.Indexed) (x : String) {limit : Option Nat} {most : Nat}
    (hmost : most ∈ limit) (hle : most ≤ 1) :
    g.AscendingInLevels x (g.transitiveDependents x limit) := by
  have hwithin := dependentsWithin hg x limit
  rw [ascendingInLevels_iff hg]
  intro y hy z hz hbefore n hyn hzn
  obtain ⟨-, -, m, hm, hpos, hlimit⟩ := (hwithin.mem_iff y).mp hy
  have hn : n = 1 := by
    have hmle := hlimit most hmost
    have hnm := hyn.unique hm
    omega
  subst hn
  exact hbefore.lt_of_direct hg hyn hzn

/-- Two units depend on a third one, and on each of the two depends one further unit. The two
further units are in the opposite order of those that they depend on. -/
def crossing : List CodeUnit :=
  [⟨"area", .service, "", [⟨"right", "dependency", none, ""⟩]⟩,
    ⟨"base", .service, "", []⟩,
    ⟨"left", .service, "", [⟨"base", "dependency", none, ""⟩]⟩,
    ⟨"right", .service, "", [⟨"base", "dependency", none, ""⟩]⟩,
    ⟨"zone", .service, "", [⟨"left", "dependency", none, ""⟩]⟩]

def crossed : Graph :=
  afterCalls [.registerAll crossing]

def crossingPairs : List (String × String) :=
  crossing.flatMap fun u => u.dependencies.map fun d => (u.identifier, d.target)

theorem represents_crossed : crossed.Represents crossing := by
  have h := represents_afterCalls [.registerAll crossing]
  rwa [List.flatMap_singleton, Call.accepted, List.takeWhile_eq_self_iff.mpr (by decide)] at h

theorem mem_dependentsOf_crossed : y ∈ crossed.dependentsOf x ↔ (y, x) ∈ crossingPairs := by
  have hlast : lastUnits crossing = crossing := lastUnits_of_pairwise (by decide)
  rw [represents_crossed.dependentsOf_eq, hlast]
  simp only [crossingPairs, List.mem_map, List.mem_filter, List.any_eq_true, beq_iff_eq,
    List.mem_flatMap, Prod.mk.injEq]
  constructor
  · rintro ⟨u, ⟨hu, d, hd, hx⟩, hy⟩
    exact ⟨u, hu, d, hd, hy, hx⟩
  · rintro ⟨u, hu, d, hd, hy, hx⟩
    exact ⟨u, ⟨hu, d, hd, hx⟩, hy⟩

theorem path_crossed {p q : List String}
    (hp : PathTo (fun a b => b ∈ crossed.dependentsOf a) "base" y p)
    (hq : PathTo (fun a b => b ∈ crossed.dependentsOf a) "base" y q) : p = q := by
  have hone : ∀ e ∈ crossingPairs, ∀ e' ∈ crossingPairs, e.1 = e'.1 → e.2 = e'.2 := by decide
  have hbase : ∀ e ∈ crossingPairs, e.1 ≠ "base" := by decide
  refine hp.unique hq (fun a b c ha hb => ?_) fun a ha => ?_
  · exact hone _ (mem_dependentsOf_crossed.mp ha) _ (mem_dependentsOf_crossed.mp hb) rfl
  · exact hbase _ (mem_dependentsOf_crossed.mp ha) rfl

theorem path_area : PathTo (fun a b => b ∈ crossed.dependentsOf a) "base" "area"
    ["base", "right", "area"] :=
  .step (.step .here (mem_dependentsOf_crossed.mpr (by decide)))
    (mem_dependentsOf_crossed.mpr (by decide))

theorem path_zone : PathTo (fun a b => b ∈ crossed.dependentsOf a) "base" "zone"
    ["base", "left", "zone"] :=
  .step (.step .here (mem_dependentsOf_crossed.mpr (by decide)))
    (mem_dependentsOf_crossed.mpr (by decide))

theorem chainLength_crossed {p : List String}
    (hp : PathTo (fun a b => b ∈ crossed.dependentsOf a) "base" y p) (hlength : p.length = 3) :
    crossed.ChainLength y "base" 2 := by
  rw [chainLength_iff represents_crossed.wellFormed.toIndexed]
  refine ⟨⟨p, hp, hlength⟩, ?_⟩
  rintro k ⟨q, hq, hk⟩
  rw [path_crossed hq hp, hlength] at hk
  omega

theorem chainBefore_crossed : crossed.ChainBefore "base" "zone" "area" := by
  have hfirst {y : String} {p : List String}
      (hp : PathTo (fun a b => b ∈ crossed.dependentsOf a) "base" y p) :
      FirstShortest (fun a b => b ∈ crossed.dependentsOf a) "base" y p := by
    refine ⟨hp, fun q hq => ?_, fun q hq _ => ?_⟩
    · rw [path_crossed hq hp]
    · rw [path_crossed hq hp]
      exact lt_irrefl p
  refine ⟨_, _, hfirst path_zone, hfirst path_area, rank_lt_iff.mpr ?_⟩
  decide

/-- Beyond direct dependents the order of the identifiers is not kept. -/
theorem not_ascendingInLevels_crossed {limit : Option Nat} (hlimit : ∀ most ∈ limit, 2 ≤ most) :
    ¬ crossed.AscendingInLevels "base" (crossed.transitiveDependents "base" limit) := by
  have hg := represents_crossed.wellFormed.toIndexed
  have harea := chainLength_crossed path_area rfl
  have hzone := chainLength_crossed path_zone rfl
  have hmem {y : String} (hy : crossed.ChainLength y "base" 2) (hne : y ≠ "base") :
      y ∈ crossed.transitiveDependents "base" limit :=
    ((dependentsWithin hg "base" limit).mem_iff y).mpr
      ⟨hy.contains hg hne, hne, 2, hy, by decide, hlimit⟩
  rw [ascendingInLevels_iff hg]
  intro hascending
  have hlt := hascending "zone" (hmem hzone (by decide)) "area" (hmem harea (by decide))
    chainBefore_crossed 2 hzone harea
  exact absurd hlt (by decide)

/-- At every limit dependents come in the order of their first chains. So those at one distance come
in the order of their identifiers exactly where their first chains do, and this is so in every graph
exactly if the limit lets direct dependents through only. -/
theorem transitiveDependents_inChainOrder (limit : Option Nat) :
    (∀ (calls : List Call) (x : String),
      ((afterCalls calls).transitiveDependents x limit).Pairwise
        ((afterCalls calls).ChainBefore x) ∧
      ((afterCalls calls).AscendingInLevels x ((afterCalls calls).transitiveDependents x limit) ↔
        (afterCalls calls).ChainsAscend x ((afterCalls calls).transitiveDependents x limit))) ∧
      ((∀ (calls : List Call) (x : String), (afterCalls calls).AscendingInLevels x
        ((afterCalls calls).transitiveDependents x limit)) ↔ ∃ most ∈ limit, most ≤ 1) := by
  refine ⟨fun calls x => ?_, fun hascending => ?_, ?_⟩
  · have hg := (represents_afterCalls calls).wellFormed.toIndexed
    exact ⟨pairwise_chainBefore hg x limit, ascendingInLevels_iff hg x limit⟩
  · apply Classical.byContradiction
    intro hnone
    refine not_ascendingInLevels_crossed (fun most hmost => ?_) (hascending _ "base")
    exact Nat.lt_of_not_le fun hle => hnone ⟨most, hmost, hle⟩
  · rintro ⟨most, hmost, hle⟩ calls x
    exact ascendingInLevels_of_le_one (represents_afterCalls calls).wellFormed.toIndexed x hmost hle

end Graph

end DependencyAtlas
