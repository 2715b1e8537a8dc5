import DependencyAtlas.Proofs.Analysis.Tally
import Mathlib.Algebra.BigOperators.Ring.Finset
import Mathlib.Data.Set.Card
import Mathlib.Data.String.Basic

/-!
# Exact bridge counts

Counted over all ordered pairs, a unit has the number of pairs for which it lies inside the first of
the shortest paths along the dependencies of registered units, by identifier.
-/

namespace DependencyAtlas

/-- The ordered pairs of different registered units for which a unit lies inside the first of the
shortest paths from the one to the other. -/
def Graph.pairsThrough (g : Graph) (unit : String) : Set (String × String) :=
  {pair | g.contains pair.1 = true ∧ g.contains pair.2 = true ∧ pair.1 ≠ pair.2 ∧
    ∃ p, FirstShortest g.Links pair.1 pair.2 p ∧ unit ∈ interior p}

noncomputable def Graph.betweenness (g : Graph) (unit : String) : Nat :=
  (g.pairsThrough unit).ncard

namespace Topology

open Bridges

variable {t : Topology} {g : Graph} {i j v : Nat} {p : List Nat}

theorem Numbers.forall_mem_lt (h : t.Numbers g) (hi : i < t.size)
    (hp : PathTo (fun u v => v ∈ t.successors u) i j p) : ∀ v ∈ p, v < t.size :=
  hp.forall_mem hi fun _ _ hv => (h.ordered.lt hv).2

theorem Numbers.lt_of_pathTo (h : t.Numbers g) (hi : i < t.size)
    (hp : PathTo (fun u v => v ∈ t.successors u) i j p) : j < t.size :=
  h.forall_mem_lt hi hp j (List.mem_of_getLast? hp.getLast?)

theorem Numbers.exists_successor (h : t.Numbers g) (hi : i < t.size) {y : String}
    (hy : g.Links (t.id i) y) : ∃ j, t.id j = y ∧ j ∈ t.successors i := by
  obtain ⟨j, hj, rfl⟩ := (h.contains_iff y).mp hy.2.1
  exact ⟨j, rfl, (h.links_iff hi hj).mp hy⟩

theorem Numbers.exists_path (h : t.Numbers g) (hi : i < t.size) {y : String} {names : List String}
    (hp : PathTo g.Links (t.id i) y names) :
    ∃ j p, t.id j = y ∧ PathTo (fun u v => v ∈ t.successors u) i j p ∧ p.map t.id = names := by
  obtain ⟨j, p, -, hj, hq, hmap⟩ := hp.exists_lift (P := (· < t.size)) hi fun u hu b hb => by
    obtain ⟨w, hwb, hw⟩ := h.exists_successor hu hb
    exact ⟨w, (h.ordered.lt hw).2, hwb, hw⟩
  exact ⟨j, p, hj, hq, hmap⟩

theorem Numbers.firstShortest (h : t.Numbers g) (hi : i < t.size)
    (hp : FirstShortest (fun u v => v ∈ t.successors u) i j p) :
    FirstShortest g.Links (t.id i) (t.id j) (p.map t.id) :=
  hp.map (P := (· < t.size)) hi (fun _ _ hv => (h.ordered.lt hv).2)
    (fun _ _ _ hb hab => h.id_lt hab hb) (fun _ _ hv => h.links_of_mem hv)
    fun _ hu _ hb => h.exists_successor hu hb

theorem interior_map {α β : Type} (f : α → β) (p : List α) :
    interior (p.map f) = (interior p).map f := by
  rw [interior, interior, ← List.map_tail, List.map_dropLast]

theorem Numbers.mem_inner_iff (h : t.Numbers g) (hv : v < t.size) (hd : Distinct t.size (i, j)) :
    v ∈ t.inner (i, j) ↔
      ∃ names, FirstShortest g.Links (t.id i) (t.id j) names ∧ t.id v ∈ interior names := by
  have hinner := inner_eq h.ordered (BreadthFirst.fits_idle t.size) hd
  rcases h.ordered.interior?_searchFrom (BreadthFirst.fits_idle t.size) hd.1 hd.2.1
    (Ne.symm hd.2.2) with ⟨p, hp, -, heq⟩ | ⟨hnone, heq⟩
  · have hnames := h.firstShortest hd.1 hp
    rw [← Option.some.inj (heq.symm.trans hinner), List.mem_reverse]
    constructor
    · intro hmem
      exact ⟨_, hnames, interior_map t.id p ▸ List.mem_map_of_mem hmem⟩
    · rintro ⟨names, hfirst, hmem⟩
      rw [hfirst.unique hnames, interior_map] at hmem
      obtain ⟨w, hw, heq⟩ := List.mem_map.mp hmem
      have hwp : w ∈ p := List.mem_of_mem_tail (List.mem_of_mem_dropLast hw)
      have hwlt := h.forall_mem_lt hd.1 hp.path w hwp
      exact h.id_injective hwlt hv heq ▸ hw
  · rw [← Option.some.inj (heq.symm.trans hinner)]
    constructor
    · exact fun hmem => absurd hmem List.not_mem_nil
    · rintro ⟨names, hfirst, -⟩
      obtain ⟨k, q, hk, hq, -⟩ := h.exists_path hd.1 hfirst.path
      exact absurd (h.id_injective (h.lt_of_pathTo hd.1 hq) hd.2.1 hk ▸ hq) (hnone q)

theorem Numbers.existsUnique_firstShortest (h : t.Numbers g) {x y : String}
    (hx : g.contains x = true) (hne : x ≠ y) (hreach : Relation.ReflTransGen g.Links x y) :
    ∃! names, FirstShortest g.Links x y names := by
  obtain ⟨i, hi, rfl⟩ := (h.contains_iff x).mp hx
  obtain ⟨names, hnames⟩ := DependencyAtlas.exists_path hreach
  obtain ⟨j, q, rfl, hq, -⟩ := h.exists_path hi hnames
  have hj := h.lt_of_pathTo hi hq
  rcases h.ordered.interior?_searchFrom (BreadthFirst.fits_idle t.size) hi hj
    (fun he => hne (he ▸ rfl)) with ⟨p, hp, -, -⟩ | ⟨hnone, -⟩
  · exact ⟨_, h.firstShortest hi hp, fun _ h' => h'.unique (h.firstShortest hi hp)⟩
  · exact absurd hq (hnone q)

theorem Numbers.pairsThrough_eq (h : t.Numbers g) (hv : v < t.size) :
    g.pairsThrough (t.id v) = Prod.map t.id t.id ''
      ((Finset.range t.size).offDiag.filter fun pair => v ∈ t.inner pair : Finset (Nat × Nat)) := by
  ext ⟨x, y⟩
  simp only [Graph.pairsThrough, Set.mem_ofPred_eq, Set.mem_image, Finset.mem_coe,
    Finset.mem_filter, mem_offDiag_iff]
  constructor
  · rintro ⟨hx, hy, hne, hpath⟩
    obtain ⟨i, hi, rfl⟩ := (h.contains_iff x).mp hx
    obtain ⟨j, hj, rfl⟩ := (h.contains_iff y).mp hy
    have hd : Distinct t.size (i, j) := ⟨hi, hj, fun he => hne (congrArg t.id he)⟩
    exact ⟨(i, j), ⟨hd, (h.mem_inner_iff hv hd).mpr hpath⟩, rfl⟩
  · rintro ⟨⟨i, j⟩, ⟨hd, hmem⟩, heq⟩
    obtain ⟨rfl, rfl⟩ := Prod.mk.inj heq
    refine ⟨(h.contains_iff _).mpr ⟨i, hd.1, rfl⟩, (h.contains_iff _).mpr ⟨j, hd.2.1, rfl⟩,
      fun he => hd.2.2 (h.id_injective hd.1 hd.2.1 he), (h.mem_inner_iff hv hd).mp hmem⟩

/-- A unit is counted once for each pair that it lies between. -/
theorem Numbers.sum_count_inner (h : t.Numbers g) (hv : v < t.size) :
    ∑ pair ∈ (Finset.range t.size).offDiag, (t.inner pair).count v = g.betweenness (t.id v) := by
  have hone : ∀ pair ∈ (Finset.range t.size).offDiag,
      (t.inner pair).count v = if v ∈ t.inner pair then 1 else 0 :=
    fun pair hp => (nodup_inner h.ordered (mem_offDiag_iff.mp hp)).count
  have hinjective : Set.InjOn (Prod.map t.id t.id)
      ((Finset.range t.size).offDiag.filter fun pair => v ∈ t.inner pair : Finset (Nat × Nat)) := by
    intro a ha b hb heq
    have ha := mem_offDiag_iff.mp (Finset.mem_filter.mp ha).1
    have hb := mem_offDiag_iff.mp (Finset.mem_filter.mp hb).1
    exact h.pair_injective ⟨ha.1, ha.2.1⟩ ⟨hb.1, hb.2.1⟩ heq
  rw [Finset.sum_congr rfl hone, Finset.sum_boole, Graph.betweenness, h.pairsThrough_eq hv,
    hinjective.ncard_image, Set.ncard_coe_finset]
  rfl

end Topology

/-- All bridges of a graph with their exact counts, the highest counts first and equal ones by
identifier. -/
structure Graph.RankedBridges (g : Graph) (ranked : List Bridge) : Prop where
  mem_iff : ∀ b, b ∈ ranked ↔
    g.contains b.identifier = true ∧ b.count = g.betweenness b.identifier ∧ 0 < b.count
  sorted : ranked.Pairwise fun b c =>
    c.count < b.count ∨ (b.count = c.count ∧ b.identifier < c.identifier)

theorem Topology.Numbers.rankedBridges {t : Topology} {g : Graph} (h : t.Numbers g)
    {tally : Array Nat} (htally : ∀ v < t.size, tally[v]?.getD 0 = g.betweenness (t.id v)) :
    g.RankedBridges (Bridges.ranking t tally) := by
  constructor
  · intro b
    rw [Bridges.mem_ranking]
    constructor
    · rintro ⟨v, hv, rfl, hpos⟩
      exact ⟨(h.contains_iff _).mpr ⟨v, hv, rfl⟩, htally v hv, hpos⟩
    · rintro ⟨hb, hcount, hpos⟩
      obtain ⟨v, hv, hid⟩ := (h.contains_iff _).mp hb
      rw [← hid, ← htally v hv] at hcount
      refine ⟨v, hv, ?_, hcount ▸ hpos⟩
      rw [← hcount, hid]
  · exact Bridges.pairwise_ranking h tally

/-- Counted over all ordered pairs, the bridges are exact, whatever the random numbers. -/
theorem Graph.tryBridges_exhaustive (calls : List Call) :
    (∀ x y, (afterCalls calls).contains x = true → x ≠ y →
      Relation.ReflTransGen (afterCalls calls).Links x y →
        ∃! p, FirstShortest (afterCalls calls).Links x y p) ∧
    ∃ ranked, (afterCalls calls).RankedBridges ranked ∧
      ∀ {σ : Type} [Generator σ] (g : σ) (limit sampleSize minNodes : Nat),
        max minNodes 2 ≤ (afterCalls calls).unitCount →
          (afterCalls calls).unitCount * ((afterCalls calls).unitCount - 1) ≤ sampleSize →
            (Topology.ofGraph (afterCalls calls)).tryBridges limit sampleSize minNodes g =
              .ok (ranked.take limit) := by
  have hn := Topology.numbers_ofGraph (represents_afterCalls calls).wellFormed.toIndexed
  have hranked := hn.rankedBridges fun v hv =>
    (Bridges.getD_totals_orderedPairs hv).trans (hn.sum_count_inner hv)
  refine ⟨fun x y => hn.existsUnique_firstShortest, _, hranked, ?_⟩
  intro σ _ g limit sampleSize minNodes hmin hpairs
  rw [← hn.size] at hmin hpairs
  rw [Bridges.tryBridges_eq hn.ordered limit sampleSize hmin, Bridges.evaluated, if_pos hpairs]

end DependencyAtlas
