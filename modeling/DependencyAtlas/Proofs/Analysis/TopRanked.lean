import DependencyAtlas.Analysis.Diagnostics
import DependencyAtlas.Proofs.Analysis.Degrees
import DependencyAtlas.Proofs.Analysis.Tally

/-!
# The top of a ranking

Hubs and bridges are cut from rankings that do not depend on where they are cut: with more room
there are more of them, and the first ones stay. The hubs come from the one ranking of all units
with dependents.
-/

namespace DependencyAtlas

def Graph.EligibleHub (g : Graph) (x : String) : Prop :=
  g.contains x = true ∧ g.dependentsOf x ≠ []

/-- All units with dependents, each once with their number, the highest numbers first and equal ones
by identifier. -/
structure Graph.RankedHubs (g : Graph) (ranked : List Hub) : Prop where
  mem_iff : ∀ h, h ∈ ranked ↔
    g.EligibleHub h.identifier ∧ h.dependentCount = (g.dependentsOf h.identifier).toFinset.card
  nodup : (ranked.map Hub.identifier).Nodup
  sorted : ranked.Pairwise (Ranking.Precedes Hub.dependentCount Hub.identifier)

theorem Graph.RankedHubs.unique {g : Graph} {ranked other : List Hub} (h : g.RankedHubs ranked)
    (h' : g.RankedHubs other) : other = ranked :=
  Ranking.eq_of_precedes h'.sorted h.sorted fun hub => (h'.mem_iff hub).trans (h.mem_iff hub).symm

namespace Topology

variable {t : Topology} {g : Graph} {x : String} {limit : Nat}

def hubRanking (t : Topology) : List Hub :=
  (Ranking.all t.dependentCount t.vertices).map fun i => ⟨t.id i, t.dependentCount i⟩

theorem hubs_eq_take (t : Topology) (limit : Nat) : t.hubs limit = t.hubRanking.take limit := by
  rw [hubs, Ranking.top, hubRanking, List.map_take]

theorem mem_hubRanking {h : Hub} :
    h ∈ t.hubRanking ↔
      ∃ i < t.size, h = ⟨t.id i, t.dependentCount i⟩ ∧ 0 < t.dependentCount i := by
  simp only [hubRanking, List.mem_map, Ranking.mem_all, vertices, List.mem_range]
  constructor
  · rintro ⟨i, ⟨hi, hpos⟩, rfl⟩
    exact ⟨i, hi, rfl, hpos⟩
  · rintro ⟨i, hi, rfl, hpos⟩
    exact ⟨i, ⟨hi, hpos⟩, rfl⟩

theorem Degrees.eligibleHub_iff (hd : t.Degrees g) (hn : t.Numbers g) :
    g.EligibleHub x ↔ ∃ i < t.size, t.id i = x ∧ 0 < t.dependentCount i := by
  rw [Graph.EligibleHub, hn.contains_iff]
  constructor
  · rintro ⟨⟨i, hi, rfl⟩, hsome⟩
    exact ⟨i, hi, rfl, hd.dependentCount i hi ▸ List.length_pos_iff.mpr hsome⟩
  · rintro ⟨i, hi, rfl, hpos⟩
    rw [hd.dependentCount i hi, List.length_pos_iff] at hpos
    exact ⟨⟨i, hi, rfl⟩, hpos⟩

theorem Degrees.dependentCount_eq_card (hd : t.Degrees g) {i : Nat} (hi : i < t.size) :
    t.dependentCount i = (g.dependentsOf (t.id i)).toFinset.card := by
  rw [hd.dependentCount i hi, List.toFinset_card_of_nodup]
  exact Text.nodup_of_pairwise_lt (Graph.pairwise_dependentsOf g (t.id i))

theorem Degrees.rankedHubs (hd : t.Degrees g) (hn : t.Numbers g) : g.RankedHubs t.hubRanking := by
  refine ⟨fun h => ?_, ?_, ?_⟩
  · rw [mem_hubRanking, hd.eligibleHub_iff hn]
    constructor
    · rintro ⟨i, hi, rfl, hpos⟩
      exact ⟨⟨i, hi, rfl, hpos⟩, hd.dependentCount_eq_card hi⟩
    · rintro ⟨⟨i, hi, hid, hpos⟩, hcount⟩
      refine ⟨i, hi, ?_, hpos⟩
      rw [hd.dependentCount_eq_card hi, hid, ← hcount]
  · rw [hubRanking, List.map_map]
    apply (Ranking.nodup_all List.nodup_range).map_on
    intro i hi j hj he
    exact hn.id_injective (List.mem_range.mp (Ranking.mem_all.mp hi).1)
      (List.mem_range.mp (Ranking.mem_all.mp hj).1) he
  · apply List.pairwise_map.mpr
    exact hn.pairwise_all t.dependentCount

theorem Degrees.eligibleHub_of_mem_hubs (hd : t.Degrees g) (hn : t.Numbers g)
    (hx : x ∈ (t.hubs limit).map Hub.identifier) : g.EligibleHub x := by
  obtain ⟨h, hh, rfl⟩ := List.mem_map.mp hx
  rw [hubs_eq_take] at hh
  exact (((hd.rankedHubs hn).mem_iff h).mp (List.mem_of_mem_take hh)).1

theorem Degrees.mem_hubs_iff (hd : t.Degrees g) (hn : t.Numbers g) (hlimit : t.size ≤ limit) :
    x ∈ (t.hubs limit).map Hub.identifier ↔ g.EligibleHub x := by
  refine ⟨hd.eligibleHub_of_mem_hubs hn, fun hx => ?_⟩
  have hall : t.hubRanking.length ≤ limit := by
    rw [hubRanking, List.length_map]
    exact (t.length_all_le _).trans hlimit
  have hmem : (⟨x, (g.dependentsOf x).toFinset.card⟩ : Hub) ∈ t.hubRanking :=
    ((hd.rankedHubs hn).mem_iff _).mpr ⟨hx, rfl⟩
  rw [hubs_eq_take, List.take_of_length_le hall]
  exact List.mem_map_of_mem hmem

theorem hubs_prefix (t : Topology) {k k' : Nat} (hk : k ≤ k') : t.hubs k <+: t.hubs k' := by
  rw [hubs_eq_take, hubs_eq_take]
  exact List.take_prefix_take_left hk

theorem Numbers.bridges_prefix {σ : Type} [Generator σ] (hn : t.Numbers g) {k k' : Nat}
    (hk : k ≤ k') (sampleSize minNodes : Nat) (random : σ) :
    t.bridges k sampleSize minNodes random <+: t.bridges k' sampleSize minNodes random := by
  obtain ⟨ranked, -, htake⟩ := Bridges.exists_take_eq_tryBridges hn sampleSize minNodes random
  rw [bridges, bridges, htake, htake]
  exact List.take_prefix_take_left hk

end Topology

/-- The hubs are the first ones of the one ranking of all units with dependents. The bridges never
fail and are the first ones of a ranking that the same random numbers give whatever the limit. -/
theorem Graph.rankings_exact (calls : List Call) :
    (∃ ranked, (afterCalls calls).RankedHubs ranked ∧
      (∀ other, (afterCalls calls).RankedHubs other → other = ranked) ∧
        ∀ limit, (Topology.ofGraph (afterCalls calls)).hubs limit = ranked.take limit) ∧
    (∀ k k', k ≤ k' → (Topology.ofGraph (afterCalls calls)).hubs k <+:
      (Topology.ofGraph (afterCalls calls)).hubs k') ∧
    ∀ {σ : Type} [Generator σ] (random : σ) (sampleSize minNodes : Nat),
      (∃ ranked : List Bridge, ranked.Pairwise (Ranking.Precedes Bridge.count Bridge.identifier) ∧
        ∀ limit, (Topology.ofGraph (afterCalls calls)).tryBridges limit sampleSize minNodes random =
          .ok (ranked.take limit)) ∧
      ∀ k k', k ≤ k' →
        (Topology.ofGraph (afterCalls calls)).bridges k sampleSize minNodes random <+:
          (Topology.ofGraph (afterCalls calls)).bridges k' sampleSize minNodes random := by
  have hg := (represents_afterCalls calls).wellFormed.toIndexed
  have hn := Topology.numbers_ofGraph hg
  have hranked := (Topology.degrees_ofGraph hg).rankedHubs hn
  refine ⟨⟨_, hranked, fun _ => hranked.unique, Topology.hubs_eq_take _⟩,
    fun _ _ => Topology.hubs_prefix _, fun random sampleSize minNodes => ⟨?_, fun _ _ hk => ?_⟩⟩
  · exact Bridges.exists_take_eq_tryBridges hn sampleSize minNodes random
  · exact hn.bridges_prefix hk sampleSize minNodes random

end DependencyAtlas
