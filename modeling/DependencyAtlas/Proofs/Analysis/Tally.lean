import DependencyAtlas.Proofs.Analysis.Ranking
import DependencyAtlas.Proofs.Analysis.Routes
import DependencyAtlas.Proofs.Graph.History
import Mathlib.Algebra.BigOperators.Group.Finset.Basic
import Mathlib.Algebra.GroupWithZero.Nat
import Mathlib.Algebra.Order.BigOperators.Group.List
import Mathlib.Algebra.Order.Group.Nat
import Mathlib.Data.Finset.Prod
import Mathlib.Data.Set.Function

/-!
# Counting over pairs

Both ways of counting, over all ordered pairs and over drawn ones, add up what the whole search from
the first unit of a pair counts for the second one. So the order of the draws does not matter, and no
count exceeds the number of pairs.
-/

namespace DependencyAtlas

/-- The inner vertices of the path that the search over all of a graph took between two units. -/
def Topology.inner (t : Topology) (pair : Nat × Nat) : List Nat :=
  ((t.searchFrom (.idle t.size) pair.1).interior? pair.1 pair.2).getD []

/-- The counts that some pairs give together. -/
def Topology.totals (t : Topology) (pairs : List (Nat × Nat)) : Array Nat :=
  Bridges.count (.replicate t.size 0) (pairs.flatMap t.inner)

namespace Bridges

variable {t : Topology} {size i j v source target : Nat} {tally : Array Nat} {pair : Nat × Nat}
  {buffers : BreadthFirst}

def Distinct (size : Nat) (pair : Nat × Nat) : Prop :=
  pair.1 < size ∧ pair.2 < size ∧ pair.1 ≠ pair.2

theorem size_count (tally : Array Nat) (vertices : List Nat) :
    (count tally vertices).size = tally.size := by
  induction vertices generalizing tally with
  | nil => rfl
  | cons v vertices ih => rw [count, List.foldl_cons, ← count, ih, Array.size_modify]

theorem count_append (tally : Array Nat) (vertices vertices' : List Nat) :
    count tally (vertices ++ vertices') = count (count tally vertices) vertices' :=
  List.foldl_append

theorem getD_count (hv : v < tally.size) (vertices : List Nat) :
    (count tally vertices)[v]?.getD 0 = tally[v]?.getD 0 + vertices.count v := by
  induction vertices generalizing tally with
  | nil => rfl
  | cons w vertices ih =>
    rw [count, List.foldl_cons, ← count, ih (by rwa [Array.size_modify]), Array.getElem?_modify,
      List.count_cons, Array.getElem?_eq_getElem hv]
    by_cases hw : w = v
    · simp [hw]
      omega
    · simp [hw]

/-- A fold whose steps count, counts all at once. -/
theorem foldlM_count {α ε : Type} {f : Array Nat → α → Except ε (Array Nat)} {inner : α → List Nat}
    {xs : List α} (h : ∀ x ∈ xs, ∀ tally, f tally x = .ok (count tally (inner x)))
    (tally : Array Nat) : xs.foldlM f tally = .ok (count tally (xs.flatMap inner)) := by
  induction xs generalizing tally with
  | nil => rfl
  | cons x xs ih =>
    obtain ⟨hx, hxs⟩ := List.forall_mem_cons.mp h
    rw [List.foldlM_cons, hx, List.flatMap_cons, count_append]
    exact ih hxs _

theorem inner_eq (ht : t.Ordered) (hb : buffers.Fits t.size)
    (hp : Distinct t.size (source, target)) :
    (t.searchFrom buffers source).interior? source target = some (t.inner (source, target)) := by
  have hnew : t.searchFrom buffers source = t.searchFrom (.idle t.size) source := by
    rw [Topology.searchFrom_eq hb, Topology.searchFrom_eq (BreadthFirst.fits_idle t.size)]
  rw [hnew, Topology.inner]
  rcases ht.interior?_searchFrom (BreadthFirst.fits_idle t.size) hp.1 hp.2.1 (Ne.symm hp.2.2) with
    ⟨p, -, -, heq⟩ | ⟨-, heq⟩
  · rw [heq, Option.getD_some]
  · rw [heq, Option.getD_some]

theorem nodup_inner (ht : t.Ordered) (hp : Distinct t.size pair) : (t.inner pair).Nodup := by
  rcases ht.interior?_searchFrom (BreadthFirst.fits_idle t.size) hp.1 hp.2.1 (Ne.symm hp.2.2) with
    ⟨p, -, hnodup, heq⟩ | ⟨-, heq⟩
  · rw [Topology.inner, heq, Option.getD_some, List.nodup_reverse]
    exact hnodup.sublist ((List.dropLast_sublist _).trans (List.tail_sublist _))
  · rw [Topology.inner, heq, Option.getD_some]
    exact List.nodup_nil

theorem tallyPath_searchFrom (ht : t.Ordered) (hb : buffers.Fits t.size)
    (hp : Distinct t.size (source, target)) (tally : Array Nat) :
    tallyPath t (t.searchFrom buffers source) source target tally =
      .ok (count tally (t.inner (source, target))) := by
  rw [tallyPath, inner_eq ht hb hp]

theorem tallyPath_searchTo (ht : t.Ordered) (hb : buffers.Fits t.size)
    (hp : Distinct t.size (source, target)) (tally : Array Nat) :
    tallyPath t (t.searchTo buffers source target) source target tally =
      .ok (count tally (t.inner (source, target))) := by
  rw [tallyPath, ht.interior?_searchTo hb hb hp.1 (Ne.symm hp.2.2), inner_eq ht hb hp]

def orderedPairs (size : Nat) : List (Nat × Nat) :=
  (List.range size).flatMap fun source =>
    ((List.range size).filter fun v => v ≠ source).map fun target => (source, target)

theorem mem_orderedPairs : pair ∈ orderedPairs size ↔ Distinct size pair := by
  obtain ⟨i, j⟩ := pair
  simp only [orderedPairs, List.mem_flatMap, List.mem_map, List.mem_filter, List.mem_range,
    decide_eq_true_eq, Prod.mk.injEq, Distinct]
  constructor
  · rintro ⟨i, hi, j, ⟨hj, hne⟩, rfl, rfl⟩
    exact ⟨hi, hj, Ne.symm hne⟩
  · rintro ⟨hi, hj, hne⟩
    exact ⟨i, hi, j, ⟨hj, Ne.symm hne⟩, rfl, rfl⟩

theorem nodup_orderedPairs (size : Nat) : (orderedPairs size).Nodup :=
  nodup_flatMap_pairs List.nodup_range fun _ _ => List.nodup_range.filter _

theorem mem_offDiag_iff : pair ∈ (Finset.range size).offDiag ↔ Distinct size pair := by
  rw [Finset.mem_offDiag, Finset.mem_range, Finset.mem_range]
  rfl

theorem toFinset_orderedPairs (size : Nat) :
    (orderedPairs size).toFinset = (Finset.range size).offDiag := by
  ext pair
  rw [List.mem_toFinset, mem_orderedPairs, mem_offDiag_iff]

theorem length_orderedPairs (size : Nat) : (orderedPairs size).length = size * (size - 1) := by
  rw [← List.toFinset_card_of_nodup (nodup_orderedPairs size), toFinset_orderedPairs,
    Finset.offDiag_card, Finset.card_range, Nat.mul_sub_one]

theorem tallyFrom_eq (ht : t.Ordered) (hb : buffers.Fits t.size) (hsource : source < t.size)
    (tally : Array Nat) :
    tallyFrom t (buffers, tally) source =
      .ok (t.searchFrom buffers source,
        count tally ((othersOf t source).flatMap fun target => t.inner (source, target))) := by
  have htarget : ∀ target ∈ othersOf t source, ∀ tally : Array Nat,
      tallyPath t (t.searchFrom buffers source) source target tally =
        .ok (count tally (t.inner (source, target))) := by
    intro target htarget tally
    obtain ⟨htarget, hne⟩ := List.mem_filter.mp htarget
    have hne : target ≠ source := of_decide_eq_true hne
    exact tallyPath_searchFrom ht hb ⟨hsource, List.mem_range.mp htarget, Ne.symm hne⟩ tally
  rw [tallyFrom, foldlM_count htarget tally]
  rfl

theorem foldlM_tallyFrom (ht : t.Ordered) {sources : List Nat} (hs : ∀ v ∈ sources, v < t.size)
    (hb : buffers.Fits t.size) (tally : Array Nat) :
    (sources.foldlM (tallyFrom t) (buffers, tally)).map Prod.snd =
      .ok (count tally (sources.flatMap fun source =>
        (othersOf t source).flatMap fun target => t.inner (source, target))) := by
  induction sources generalizing buffers tally with
  | nil => rfl
  | cons source sources ih =>
    obtain ⟨hsource, hs⟩ := List.forall_mem_cons.mp hs
    rw [List.foldlM_cons, tallyFrom_eq ht hb hsource, List.flatMap_cons, count_append]
    exact ih hs (Topology.fits_search hb source _) _

theorem tallyAll_eq (ht : t.Ordered) :
    tallyAll t = .ok (t.totals (orderedPairs t.size)) := by
  have hlt : ∀ v ∈ t.vertices, v < t.size := fun _ => List.mem_range.mp
  rw [tallyAll, foldlM_tallyFrom ht hlt (BreadthFirst.fits_idle t.size), Topology.totals,
    orderedPairs, List.flatMap_assoc]
  simp only [List.flatMap_map, othersOf, Topology.vertices]

/-- The pairs that some draws stand for. -/
def drawn {σ : Type} [Generator σ] (size : Nat) : Nat → σ → List (Nat × Nat)
  | 0, _ => []
  | draws + 1, g => (drawPair size g).1 :: drawn size draws (drawPair size g).2

section Drawn

variable {σ : Type} [Generator σ]

theorem length_drawn (size draws : Nat) (g : σ) : (drawn size draws g).length = draws := by
  induction draws generalizing g with
  | zero => rfl
  | succ draws ih => rw [drawn, List.length_cons, ih]

theorem distinct_pairOf (hi : i < size) (hj : j < size - 1) : Distinct size (pairOf i j) := by
  unfold Distinct pairOf
  split <;> omega

theorem distinct_drawPair (h : 2 ≤ size) (g : σ) : Distinct size (drawPair size g).1 := by
  have hi := Generator.below_lt (show 0 < size by omega) g
  rw [drawPair]
  -- The draws are kept as they are: nothing but their range matters.
  generalize Generator.below size g = first at hi ⊢
  obtain ⟨i, g⟩ := first
  have hj := Generator.below_lt (show 0 < size - 1 by omega) g
  dsimp only
  generalize Generator.below (size - 1) g = second at hj ⊢
  exact distinct_pairOf hi hj

theorem distinct_drawn (h : 2 ≤ size) (draws : Nat) (g : σ) :
    ∀ pair ∈ drawn size draws g, Distinct size pair := by
  induction draws generalizing g with
  | zero => exact fun _ hp => absurd hp List.not_mem_nil
  | succ draws ih => exact List.forall_mem_cons.mpr ⟨distinct_drawPair h g, ih _⟩

/-- Each pair of different units stands for one pair of draws. -/
theorem pairOf_bijOn (size : Nat) :
    Set.BijOn (fun d : Nat × Nat => pairOf d.1 d.2) {d | d.1 < size ∧ d.2 < size - 1}
      {pair | Distinct size pair} := by
  refine ⟨fun d hd => distinct_pairOf hd.1 hd.2, ?_, ?_⟩
  · rintro ⟨i, j⟩ - ⟨k, l⟩ - heq
    simp only [pairOf, Prod.mk.injEq] at heq
    obtain ⟨rfl, heq⟩ := heq
    split at heq <;> split at heq <;> simp only [Prod.mk.injEq, true_and] <;> omega
  · rintro ⟨i, j⟩ ⟨hi, hj, hne⟩
    refine ⟨(i, if i < j then j - 1 else j), ⟨hi, ?_⟩, ?_⟩
    · simp only at hi hj hne ⊢
      split <;> omega
    · simp only [pairOf, Prod.mk.injEq, true_and] at hne ⊢
      split <;> split <;> omega

theorem tallySample_eq (ht : t.Ordered) (h : 2 ≤ t.size) (draws : Nat) (g : σ)
    (hb : buffers.Fits t.size) (tally : Array Nat) :
    tallySample t draws g buffers tally =
      .ok (count tally ((drawn t.size draws g).flatMap t.inner)) := by
  induction draws generalizing g buffers tally with
  | zero => rfl
  | succ draws ih =>
    have hdistinct := distinct_drawPair h g
    rw [tallySample, drawn]
    generalize drawPair t.size g = draw at hdistinct ⊢
    obtain ⟨⟨source, target⟩, g⟩ := draw
    rw [List.flatMap_cons, count_append]
    simp only [tallyPath_searchTo ht hb hdistinct]
    exact ih g (Topology.fits_search hb source _) _

def evaluated (size sampleSize : Nat) (g : σ) : List (Nat × Nat) :=
  if size * (size - 1) ≤ sampleSize then orderedPairs size else drawn size sampleSize g

theorem two_le_of_not_le {sampleSize : Nat} (h : ¬ size * (size - 1) ≤ sampleSize) : 2 ≤ size := by
  rcases size with _ | _ | size
  · simp at h
  · simp at h
  · omega

theorem distinct_evaluated (size sampleSize : Nat) (g : σ) :
    ∀ pair ∈ evaluated size sampleSize g, Distinct size pair := by
  unfold evaluated
  split
  · exact fun _ => mem_orderedPairs.mp
  · next h => exact distinct_drawn (two_le_of_not_le h) sampleSize g

theorem length_evaluated_le (size sampleSize : Nat) (g : σ) :
    (evaluated size sampleSize g).length ≤ sampleSize := by
  unfold evaluated
  split
  · next h => rwa [length_orderedPairs]
  · exact (length_drawn size sampleSize g).le

theorem tally_eq (ht : t.Ordered) (sampleSize : Nat) (g : σ) :
    Bridges.tally t sampleSize g = .ok (t.totals (evaluated t.size sampleSize g)) := by
  unfold Bridges.tally
  by_cases h : t.size * (t.size - 1) ≤ sampleSize
  · rw [if_pos h, evaluated, if_pos h, tallyAll_eq ht]
  · rw [if_neg h, evaluated, if_neg h, tallySample_eq ht (two_le_of_not_le h) _ g
      (BreadthFirst.fits_idle t.size)]
    rfl

end Drawn

variable {pairs pairs' : List (Nat × Nat)}

theorem size_totals (pairs : List (Nat × Nat)) : (t.totals pairs).size = t.size := by
  rw [Topology.totals, size_count, Array.size_replicate]

theorem getD_totals (hv : v < t.size) (pairs : List (Nat × Nat)) :
    (t.totals pairs)[v]?.getD 0 = (pairs.map fun pair => (t.inner pair).count v).sum := by
  rw [Topology.totals, getD_count (by rwa [Array.size_replicate]), Array.getElem?_replicate,
    if_pos hv, Option.getD_some, Nat.zero_add, List.count_flatMap]
  rfl

theorem getD_totals_orderedPairs (hv : v < t.size) :
    (t.totals (orderedPairs t.size))[v]?.getD 0 =
      ∑ pair ∈ (Finset.range t.size).offDiag, (t.inner pair).count v := by
  rw [getD_totals hv, ← toFinset_orderedPairs, List.sum_toFinset _ (nodup_orderedPairs t.size)]

theorem getD_totals_le (ht : t.Ordered) (hpairs : ∀ pair ∈ pairs, Distinct t.size pair) (v : Nat) :
    (t.totals pairs)[v]?.getD 0 ≤ pairs.length := by
  by_cases hv : v < t.size
  · rw [getD_totals hv]
    have hone : ∀ n ∈ pairs.map fun pair => (t.inner pair).count v, n ≤ 1 := by
      rw [List.forall_mem_map]
      exact fun pair hp => List.nodup_iff_count_le_one.mp (nodup_inner ht (hpairs pair hp)) v
    simpa using List.sum_le_card_nsmul _ 1 hone
  · rw [Array.getElem?_eq_none (by rw [size_totals]; omega)]
    exact Nat.zero_le _

theorem totals_perm (h : pairs.Perm pairs') : t.totals pairs = t.totals pairs' := by
  apply Array.ext (by rw [size_totals, size_totals])
  intro v hv hv'
  have hlt : v < t.size := size_totals pairs ▸ hv
  have hcount := (getD_totals hlt pairs).trans
    ((h.map _).sum_eq.trans (getD_totals hlt pairs').symm)
  rwa [Array.getElem?_eq_getElem hv, Array.getElem?_eq_getElem hv', Option.getD_some,
    Option.getD_some] at hcount

/-- The bridges that some counts give, the highest counts first. -/
def ranking (t : Topology) (tally : Array Nat) : List Bridge :=
  let count (v : Nat) : Nat := tally[v]?.getD 0
  (Ranking.all count t.vertices).map fun v => ⟨t.id v, count v⟩

theorem mem_ranking {b : Bridge} :
    b ∈ ranking t tally ↔
      ∃ v < t.size, b = ⟨t.id v, tally[v]?.getD 0⟩ ∧ 0 < tally[v]?.getD 0 := by
  simp only [ranking, List.mem_map, Ranking.mem_all, Topology.vertices, List.mem_range]
  constructor
  · rintro ⟨v, ⟨hv, hpos⟩, rfl⟩
    exact ⟨v, hv, rfl, hpos⟩
  · rintro ⟨v, hv, rfl, hpos⟩
    exact ⟨v, ⟨hv, hpos⟩, rfl⟩

theorem pairwise_ranking {g : Graph} (hn : t.Numbers g) (tally : Array Nat) :
    (ranking t tally).Pairwise (Ranking.Precedes Bridge.count Bridge.identifier) := by
  apply List.pairwise_map.mpr
  exact hn.pairwise_all _

theorem tryBridges_eq {σ : Type} [Generator σ] (ht : t.Ordered) (limit sampleSize : Nat)
    {minNodes : Nat} (h : max minNodes 2 ≤ t.size) (g : σ) :
    t.tryBridges limit sampleSize minNodes g =
      .ok ((ranking t (t.totals (evaluated t.size sampleSize g))).take limit) := by
  unfold Topology.tryBridges
  by_cases hlimit : limit = 0
  · rw [if_pos (.inr hlimit), hlimit, List.take_zero]
  · rw [if_neg (by omega), tally_eq ht, ranking, ← List.map_take]
    rfl

/-- The bridges are the first ones of a list that does not depend on how many there may be. -/
theorem exists_take_eq_tryBridges {σ : Type} [Generator σ] {g : Graph} (hn : t.Numbers g)
    (sampleSize minNodes : Nat) (random : σ) :
    ∃ ranked : List Bridge, ranked.Pairwise (Ranking.Precedes Bridge.count Bridge.identifier) ∧
      ∀ limit, t.tryBridges limit sampleSize minNodes random = .ok (ranked.take limit) := by
  by_cases hmin : max minNodes 2 ≤ t.size
  · exact ⟨_, pairwise_ranking hn _,
      fun limit => tryBridges_eq hn.ordered limit sampleSize hmin random⟩
  · refine ⟨[], .nil, fun limit => ?_⟩
    rw [Topology.tryBridges, if_pos (.inl (by omega)), List.take_nil]

theorem exists_tryBridges {σ : Type} [Generator σ] (ht : t.Ordered)
    (limit sampleSize minNodes : Nat) (g : σ) :
    ∃ bridges, t.tryBridges limit sampleSize minNodes g = .ok bridges ∧
      ∀ b ∈ bridges, ∃ pair, Distinct t.size pair ∧ ∃ v ∈ t.inner pair, b.identifier = t.id v := by
  by_cases hmin : max minNodes 2 ≤ t.size
  · refine ⟨_, tryBridges_eq ht limit sampleSize hmin g, fun b hb => ?_⟩
    obtain ⟨v, hv, rfl, hpos⟩ := mem_ranking.mp (List.mem_of_mem_take hb)
    rw [getD_totals hv, List.sum_pos_iff_exists_pos_nat] at hpos
    obtain ⟨_, hmem, hcount⟩ := hpos
    obtain ⟨pair, hpair, rfl⟩ := List.mem_map.mp hmem
    exact ⟨pair, distinct_evaluated t.size sampleSize g pair hpair, v,
      List.count_pos_iff.mp hcount, rfl⟩
  · refine ⟨[], ?_, fun b hb => absurd hb List.not_mem_nil⟩
    rw [Topology.tryBridges, if_pos (.inl (by omega))]

end Bridges

open Bridges

/-- Some bridges report the counts of all units that count anything. -/
def Topology.Counts (t : Topology) (bridges : List Bridge) (total : Nat → Nat) : Prop :=
  ∀ b, b ∈ bridges ↔ ∃ v < t.size, b = ⟨t.id v, total v⟩ ∧ 0 < total v

/-- The counts over drawn pairs are those of the whole searches for these pairs. -/
structure Topology.SampledAlike (t : Topology) : Prop where
  /-- A search that stops at its target counts what the search over all of the graph counts, in
  whatever buffers either of them runs. -/
  stopped : ∀ {source target : Nat}, Distinct t.size (source, target) →
    ∀ {buffers buffers' : BreadthFirst}, buffers.Fits t.size → buffers'.Fits t.size →
      ∀ tally : Array Nat,
        tallyPath t (t.searchTo buffers source target) source target tally =
            .ok (count tally (t.inner (source, target))) ∧
          tallyPath t (t.searchFrom buffers' source) source target tally =
            .ok (count tally (t.inner (source, target)))
  sampled : ∀ {σ : Type} [Generator σ] (g : σ) {limit sampleSize minNodes : Nat},
    max minNodes 2 ≤ t.size → sampleSize < t.size * (t.size - 1) → t.size ≤ limit →
      ∃ bridges, t.tryBridges limit sampleSize minNodes g = .ok bridges ∧
        t.Counts bridges fun v =>
          ((drawn t.size sampleSize g).map fun pair => (t.inner pair).count v).sum
  exhaustive : ∀ {σ : Type} [Generator σ] (g : σ) {limit sampleSize minNodes : Nat},
    max minNodes 2 ≤ t.size → t.size * (t.size - 1) ≤ sampleSize → t.size ≤ limit →
      ∃ bridges, t.tryBridges limit sampleSize minNodes g = .ok bridges ∧
        t.Counts bridges fun v =>
          ∑ pair ∈ (Finset.range t.size).offDiag, (t.inner pair).count v
  /-- The ranking does not depend on the order of the draws. -/
  order : ∀ {σ τ : Type} [Generator σ] [Generator τ] (g : σ) (g' : τ)
    (limit sampleSize minNodes : Nat),
    (drawn t.size sampleSize g).Perm (drawn t.size sampleSize g') →
      t.tryBridges limit sampleSize minNodes g = t.tryBridges limit sampleSize minNodes g'
  bounded : ∀ {σ : Type} [Generator σ] (g : σ) (sampleSize : Nat),
    ∃ tally, Bridges.tally t sampleSize g = .ok tally ∧ ∀ v : Nat, tally[v]?.getD 0 ≤ sampleSize
  distinct : ∀ {σ : Type} [Generator σ] (g : σ) (draws : Nat), 2 ≤ t.size →
    ∀ pair ∈ drawn t.size draws g, Distinct t.size pair

namespace Topology

variable {t : Topology} {tally : Array Nat} {total : Nat → Nat}

theorem counts_ranking (h : ∀ v < t.size, tally[v]?.getD 0 = total v) :
    t.Counts (ranking t tally) total := by
  intro b
  rw [mem_ranking]
  refine exists_congr fun v => and_congr_right fun hv => ?_
  rw [h v hv]

theorem Ordered.sampledAlike (ht : t.Ordered) : t.SampledAlike := by
  have htake (tally : Array Nat) {limit : Nat} (hlimit : t.size ≤ limit) :
      (ranking t tally).take limit = ranking t tally := by
    apply List.take_of_length_le
    rw [ranking, List.length_map]
    exact (t.length_all_le _).trans hlimit
  refine ⟨fun hp _ _ hb hb' tally =>
      ⟨tallyPath_searchTo ht hb hp tally, tallyPath_searchFrom ht hb' hp tally⟩,
    fun g _ _ _ hmin hpairs hlimit => ?_, fun g _ _ _ hmin hpairs hlimit => ?_, ?_,
    fun g sampleSize => ?_,
    fun g draws h => distinct_drawn h draws g⟩
  · refine ⟨_, tryBridges_eq ht _ _ hmin g, ?_⟩
    rw [htake _ hlimit, evaluated, if_neg (by omega)]
    exact counts_ranking fun v hv => getD_totals hv _
  · refine ⟨_, tryBridges_eq ht _ _ hmin g, ?_⟩
    rw [htake _ hlimit, evaluated, if_pos hpairs]
    exact counts_ranking fun v hv => getD_totals_orderedPairs hv
  · intro σ τ _ _ g g' limit sampleSize minNodes hperm
    by_cases hmin : max minNodes 2 ≤ t.size
    · rw [tryBridges_eq ht _ _ hmin, tryBridges_eq ht _ _ hmin]
      by_cases hpairs : t.size * (t.size - 1) ≤ sampleSize
      · rw [evaluated, evaluated, if_pos hpairs, if_pos hpairs]
      · rw [evaluated, evaluated, if_neg hpairs, if_neg hpairs, totals_perm hperm]
    · rw [tryBridges, tryBridges, if_pos (.inl (by omega)), if_pos (.inl (by omega))]
  · refine ⟨_, tally_eq ht sampleSize g, fun v => ?_⟩
    exact (getD_totals_le ht (distinct_evaluated _ _ g) v).trans (length_evaluated_le _ _ g)

end Topology

/-- Counting over drawn pairs agrees with counting over all, and each pair of different units stands
for one pair of draws. -/
theorem Graph.tryBridges_sampledAlike (calls : List Call) :
    (Topology.ofGraph (afterCalls calls)).size = (afterCalls calls).unitCount ∧
      (Topology.ofGraph (afterCalls calls)).SampledAlike ∧
      ∀ size, 2 ≤ size → Set.BijOn (fun d : Nat × Nat => pairOf d.1 d.2)
        {d | d.1 < size ∧ d.2 < size - 1} {pair | Distinct size pair} := by
  have hn := Topology.numbers_ofGraph (represents_afterCalls calls).wellFormed.toIndexed
  exact ⟨hn.size, hn.ordered.sampledAlike, fun size _ => pairOf_bijOn size⟩

end DependencyAtlas
