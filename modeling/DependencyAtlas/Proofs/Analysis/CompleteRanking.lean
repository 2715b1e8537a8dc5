import DependencyAtlas.Proofs.Analysis.PowerIteration
import DependencyAtlas.Proofs.Analysis.Topology
import DependencyAtlas.Proofs.Decimal.TotalOrder
import DependencyAtlas.Proofs.Graph.History
import DependencyAtlas.Proofs.Sorting

/-!
# Every unit has its rank

The settings of the iteration are not checked, so scores can be infinite, or not be numbers. The
units are still all listed, each once, in the total order of their scores.
-/

namespace DependencyAtlas

/-- One unit is listed before another: its score is higher in the total order, or the same under a
smaller name. -/
def Outranks (a b : RankedUnit Float) : Prop :=
  TotallyBelow b.score a.score ∨ (a.score = b.score ∧ a.identifier < b.identifier)

/-- All registered units, each once, in the order of their scores. -/
structure Graph.RanksAll (g : Graph) (ranks : List (RankedUnit Float)) : Prop where
  mem_iff : ∀ x, x ∈ ranks.map RankedUnit.identifier ↔ g.contains x = true
  nodup : (ranks.map RankedUnit.identifier).Nodup
  sorted : ranks.Pairwise Outranks

namespace PageRank

variable {t : Topology} {ranks : Array Float} {v w : Nat}

def before (ranks : Array Float) (v w : Nat) : Ordering :=
  (Scalar.order (rankAt ranks w) (rankAt ranks v)).then (compare v w)

instance (ranks : Array Float) : Std.TransCmp (before ranks) :=
  inferInstanceAs <| Std.TransCmp <|
    compareLex (fun v w => compareOn (fun u => floatKey (rankAt ranks u)) w v) compare

theorem before_eq_lt_iff :
    before ranks v w = .lt ↔
      TotallyBelow (rankAt ranks w) (rankAt ranks v) ∨
        (rankAt ranks v = rankAt ranks w ∧ v < w) := by
  rw [before, Ordering.then_eq_lt, order_eq_lt_iff, order_eq_eq_iff, Nat.compare_eq_lt, eq_comm]

instance (ranks : Array Float) : Std.LawfulEqCmp (before ranks) where
  eq_of_compare h := Nat.compare_eq_eq.mp (Ordering.then_eq_eq.mp h).2

theorem mem_ranked : v ∈ ranked t ranks ↔ v < t.size :=
  (ranked_perm t ranks).mem_iff.trans List.mem_range

theorem pairwise_ranked (t : Topology) (ranks : Array Float) :
    (ranked t ranks).Pairwise fun v w => before ranks v w = .lt :=
  pairwise_mergeSort_lt List.nodup_range

end PageRank

namespace Topology

open PageRank

variable {t : Topology} {g : Graph}

theorem Numbers.ranksAll (h : t.Numbers g) (ranks : Array Float) :
    g.RanksAll (listed t ranks) := by
  have hnames : (listed t ranks).map RankedUnit.identifier = (PageRank.ranked t ranks).map t.id :=
    List.map_map
  refine ⟨fun x => ?_, ?_, ?_⟩
  · rw [hnames, h.contains_iff, List.mem_map]
    simp only [mem_ranked]
  · rw [hnames]
    apply ((ranked_perm t ranks).symm.nodup List.nodup_range).map_on
    intro v hv w hw he
    exact h.id_injective (mem_ranked.mp hv) (mem_ranked.mp hw) he
  · rw [listed, List.pairwise_map]
    apply (pairwise_ranked t ranks).imp_of_mem
    intro v w _ hw hbefore
    rcases before_eq_lt_iff.mp hbefore with hbelow | ⟨heq, hlt⟩
    · exact Or.inl hbelow
    · exact Or.inr ⟨heq, h.id_lt hlt (mem_ranked.mp hw)⟩

/-- Whatever the settings, every registered unit is listed once with the score that the iterations
give it, in the total order of the scores. A run ends at its cap unless it converges, which it does
with the first change below the tolerance, and once it converges a higher cap changes nothing. -/
theorem pageRank_complete (calls : List Call) (damping tolerance : Float) (cap : Nat) :
    let g := Graph.afterCalls calls
    let t := ofGraph g
    let r := t.pageRank damping tolerance cap
    g.RanksAll r.ranks ∧
      (∀ v < t.size, ⟨t.id v, rankAt (ranksAfter t damping r.iterations) v⟩ ∈ r.ranks) ∧
      r.iterations ≤ cap ∧
      (r.converged = false → r.iterations = cap) ∧
      (0 < t.size →
        Ends t damping tolerance cap
          ⟨ranksAfter t damping r.iterations, r.iterations, r.converged⟩) ∧
      (r.converged = true →
        ∀ cap', r.iterations ≤ cap' → t.pageRank damping tolerance cap' = r) := by
  intro g t r
  have hn : t.Numbers g := numbers_ofGraph (Graph.represents_afterCalls calls).wellFormed.toIndexed
  have hranks : r.ranks = _ := ranks_pageRank t damping tolerance cap
  refine ⟨?_, fun v hv => ?_, ?_⟩
  · rw [hranks]
    exact hn.ranksAll _
  · rw [hranks]
    exact List.mem_map.mpr ⟨v, mem_ranked.mpr hv, rfl⟩
  rcases Nat.eq_zero_or_pos t.size with hsize | hsize
  · have hempty (cap' : Nat) : t.pageRank damping tolerance cap' = ⟨[], 0, true⟩ := by
      rw [pageRank, if_pos hsize]
    have hr : r = _ := hempty cap
    rw [hr]
    exact ⟨Nat.zero_le cap, fun h => absurd h.symm Bool.false_ne_true,
      fun h => absurd hsize (Nat.ne_of_gt h), fun _ cap' _ => hempty cap'⟩
  · obtain ⟨s, hends, heq⟩ := exists_ends_pageRank hsize damping tolerance cap
    have hr : r = _ := heq
    rw [hr]
    refine ⟨hends.iterations_le, hends.iterations_eq_of_converged_eq_false, fun _ => ?_,
      fun hconverged cap' hle => ?_⟩
    · rw [← hends.ranks_eq]
      exact hends
    · obtain ⟨s', hends', heq'⟩ := exists_ends_pageRank hsize damping tolerance cap'
      rw [heq', hends.eq_of_converged hends' hconverged hle]

end Topology

end DependencyAtlas
