import DependencyAtlas.Proofs.Analysis.PowerIteration
import DependencyAtlas.Proofs.Analysis.Topology
import DependencyAtlas.Proofs.Graph.History
import DependencyAtlas.Config
import Mathlib.Algebra.Order.BigOperators.Ring.Finset
import Mathlib.Algebra.Order.Ring.Rat
import Mathlib.Algebra.BigOperators.Field
import Mathlib.Tactic.FieldSimp
import Mathlib.Tactic.Linarith
import Mathlib.Tactic.NormNum
import Mathlib.Tactic.Positivity
import Mathlib.Tactic.Ring

/-!
# Ranks in exact numbers

In exact numbers an iteration is one step of a random walk that follows a dependency with the
probability of the damping and else starts anew anywhere.
-/

namespace DependencyAtlas

open Finset (range)

/-- Rational numbers, in which nothing is rounded. -/
instance : Scalar ℚ where
  ofCount n := n
  magnitude x := |x|
  below x y := decide (x < y)
  sumStart := 0
  order := compare

namespace Topology

/-- The share of its rank that a unit hands on to another one. Without registered successors it
hands on to all alike. -/
def flow (t : Topology) (u v : Nat) : ℚ :=
  if t.successors u = [] then 1 / t.size
  else (t.successors u).count v / (t.successors u).length

end Topology

namespace PageRank

variable {t : Topology} {damping : ℚ} {ranks : Array ℚ} {u v : Nat}

theorem sum_eq (terms : List ℚ) : sum terms = terms.sum := by
  rw [List.sum_eq_foldl]
  rfl

theorem sum_vertices (t : Topology) (f : Nat → ℚ) :
    sum (t.vertices.map f) = ∑ v ∈ range t.size, f v := by
  rw [sum_eq]
  rfl

theorem danglingRank_eq (t : Topology) (ranks : Array ℚ) :
    danglingRank t ranks =
      ∑ u ∈ range t.size, if t.successors u = [] then rankAt ranks u else 0 := by
  rw [danglingRank, sum_eq, ← sum_vertices, sum_eq]
  induction t.vertices with
  | nil => rfl
  | cons u vertices ih =>
    by_cases hu : t.successors u = []
    · simp [hu, ih]
    · simp [hu, ih]

theorem floor_eq (t : Topology) (damping : ℚ) (ranks : Array ℚ) :
    floor t damping ranks = (1 - damping) / t.size + damping * danglingRank t ranks / t.size := by
  have hone : ((1 : Nat) : ℚ) = 1 := Nat.cast_one
  rw [← hone]
  rfl

theorem size_foldl_modify (f : ℚ → ℚ) (positions : List Nat) (next : Array ℚ) :
    (positions.foldl (fun next w => next.modify w f) next).size = next.size := by
  induction positions generalizing next with
  | nil => rfl
  | cons w positions ih => rw [List.foldl_cons, ih, Array.size_modify]

theorem rankAt_foldl_modify (share : ℚ) (positions : List Nat) {next : Array ℚ}
    (hv : v < next.size) :
    rankAt (positions.foldl (fun next w => next.modify w (· + share)) next) v =
      rankAt next v + positions.count v * share := by
  induction positions generalizing next with
  | nil => simp
  | cons w positions ih =>
    rw [List.foldl_cons, ih (by rwa [Array.size_modify]), List.count_cons, rankAt,
      Array.getElem?_modify, rankAt, Array.getElem?_eq_getElem hv]
    by_cases hw : w = v
    · simp [hw]
      ring
    · simp [hw]

theorem rankAt_handOn (t : Topology) (damping : ℚ) (ranks : Array ℚ) {next : Array ℚ} (u : Nat)
    (hv : v < next.size) :
    (handOn t damping ranks next u).size = next.size ∧
      rankAt (handOn t damping ranks next u) v = rankAt next v +
        (t.successors u).count v * (damping * rankAt ranks u / (t.successors u).length) := by
  rw [handOn]
  split
  · rename_i hnone
    simp [List.isEmpty_iff.mp hnone]
  · exact ⟨size_foldl_modify _ _ _, rankAt_foldl_modify _ _ hv⟩

theorem rankAt_foldl_handOn (vertices : List Nat) {next : Array ℚ} (hv : v < next.size) :
    rankAt (vertices.foldl (handOn t damping ranks) next) v = rankAt next v +
      (vertices.map fun u => (t.successors u).count v *
        (damping * rankAt ranks u / (t.successors u).length)).sum := by
  induction vertices generalizing next with
  | nil => simp
  | cons u vertices ih =>
    obtain ⟨hsize, hrank⟩ := rankAt_handOn t damping ranks u hv
    rw [List.foldl_cons, ih (hsize ▸ hv), hrank, List.map_cons, List.sum_cons, add_assoc]

theorem rankAt_iterate (t : Topology) (damping : ℚ) (ranks : Array ℚ) (hv : v < t.size) :
    rankAt (iterate t damping ranks) v =
      (1 - damping) / t.size + damping * ∑ u ∈ range t.size, rankAt ranks u * t.flow u v := by
  have hfloor : rankAt (Array.replicate t.size (floor t damping ranks)) v =
      floor t damping ranks := by
    simp [rankAt, hv]
  have hsum (f : Nat → ℚ) : (t.vertices.map f).sum = ∑ u ∈ range t.size, f u := rfl
  rw [iterate, rankAt_foldl_handOn _ (by simpa using hv), hfloor, floor_eq, hsum, danglingRank_eq,
    Finset.mul_sum, Finset.sum_div, Finset.mul_sum, add_assoc, ← Finset.sum_add_distrib]
  congr 1
  apply Finset.sum_congr rfl
  intro u _
  rw [Topology.flow]
  split
  · rename_i hnone
    simp [hnone]
    ring
  · ring

end PageRank

namespace Topology

variable {t : Topology} {u v : Nat}

theorem flow_nonneg (t : Topology) (u v : Nat) : 0 ≤ t.flow u v := by
  rw [flow]
  split <;> positivity

theorem Ordered.sum_flow (ht : t.Ordered) (hu : u < t.size) :
    ∑ v ∈ range t.size, t.flow u v = 1 := by
  by_cases hnone : t.successors u = []
  · have hsize : (t.size : ℚ) ≠ 0 := Nat.cast_ne_zero.mpr (Nat.ne_of_gt (Nat.zero_lt_of_lt hu))
    simp only [flow, if_pos hnone, Finset.sum_const, Finset.card_range, nsmul_eq_mul]
    exact mul_one_div_cancel hsize
  · have hlength : ((t.successors u).length : ℚ) ≠ 0 :=
      Nat.cast_ne_zero.mpr (mt List.length_eq_zero_iff.mp hnone)
    have hcount : ∑ v ∈ range t.size, (t.successors u).count v = (t.successors u).length := by
      have hall : ∀ v ∈ (t.successors u : Multiset Nat), v ∈ range t.size := by
        intro v hv
        exact Finset.mem_range.mpr (ht.lt (Multiset.mem_coe.mp hv)).2
      simpa using Multiset.sum_count_eq_card hall
    simp only [flow, if_neg hnone, ← Finset.sum_div, ← Nat.cast_sum, hcount]
    exact div_self hlength

theorem Ordered.sum_sum_flow (ht : t.Ordered) (f : Nat → ℚ) :
    ∑ v ∈ range t.size, ∑ u ∈ range t.size, f u * t.flow u v = ∑ u ∈ range t.size, f u := by
  -- Summed by where it comes from, each unit hands on all of its rank.
  rw [Finset.sum_comm]
  apply Finset.sum_congr rfl
  intro u hu
  rw [← Finset.mul_sum, ht.sum_flow (Finset.mem_range.mp hu), mul_one]

end Topology

namespace PageRank

variable {t : Topology} {damping : ℚ} {ranks a b : Array ℚ} {u v k : Nat}

/-- Ranks that share out one whole. -/
def SumsToOne (t : Topology) (ranks : Array ℚ) : Prop :=
  ∑ v ∈ range t.size, rankAt ranks v = 1

def even (t : Topology) : Array ℚ :=
  (start t).ranks

theorem rankAt_even (hv : v < t.size) : rankAt (even t) v = 1 / t.size := by
  have hone : (Scalar.ofCount 1 : ℚ) = 1 := Nat.cast_one
  simp [even, start, rankAt, hv, hone]
  rfl

theorem sumsToOne_even (hsize : 0 < t.size) : SumsToOne t (even t) := by
  have hne : (t.size : ℚ) ≠ 0 := Nat.cast_ne_zero.mpr (Nat.ne_of_gt hsize)
  rw [SumsToOne, Finset.sum_congr rfl fun v hv => rankAt_even (Finset.mem_range.mp hv),
    Finset.sum_const, Finset.card_range, nsmul_eq_mul]
  exact mul_one_div_cancel hne

theorem SumsToOne.iterate (h : SumsToOne t ranks) (ht : t.Ordered) (hsize : 0 < t.size)
    (damping : ℚ) : SumsToOne t (iterate t damping ranks) := by
  have hne : (t.size : ℚ) ≠ 0 := Nat.cast_ne_zero.mpr (Nat.ne_of_gt hsize)
  rw [SumsToOne] at h ⊢
  calc ∑ v ∈ range t.size, rankAt (PageRank.iterate t damping ranks) v
      = ∑ v ∈ range t.size, ((1 - damping) / t.size +
          damping * ∑ u ∈ range t.size, rankAt ranks u * t.flow u v) :=
        Finset.sum_congr rfl fun v hv => rankAt_iterate t damping ranks (Finset.mem_range.mp hv)
    _ = t.size * ((1 - damping) / t.size) + damping * ∑ u ∈ range t.size, rankAt ranks u := by
        rw [Finset.sum_add_distrib, Finset.sum_const, Finset.card_range, nsmul_eq_mul,
          ← Finset.mul_sum, ht.sum_sum_flow]
    _ = 1 := by
        rw [h, mul_div_cancel₀ _ hne]
        ring

theorem sumsToOne_ranksAfter (ht : t.Ordered) (hsize : 0 < t.size) (damping : ℚ) (k : Nat) :
    SumsToOne t (ranksAfter t damping k) := by
  induction k with
  | zero => exact sumsToOne_even hsize
  | succ k ih => exact ih.iterate ht hsize damping

theorem le_rankAt_iterate (hdamping : 0 ≤ damping) (hranks : ∀ u < t.size, 0 ≤ rankAt ranks u)
    (hv : v < t.size) : (1 - damping) / t.size ≤ rankAt (iterate t damping ranks) v := by
  rw [rankAt_iterate t damping ranks hv]
  apply le_add_of_nonneg_right
  apply mul_nonneg hdamping
  apply Finset.sum_nonneg
  intro u hu
  exact mul_nonneg (hranks u (Finset.mem_range.mp hu)) (t.flow_nonneg u v)

theorem rankAt_ranksAfter_nonneg (hdamping : 0 ≤ damping) (hle : damping ≤ 1) (hv : v < t.size) :
    0 ≤ rankAt (ranksAfter t damping k) v := by
  induction k generalizing v with
  | zero =>
    rw [ranksAfter, ← even, rankAt_even hv]
    positivity
  | succ k ih =>
    have hbase : 0 ≤ (1 - damping) / t.size := div_nonneg (by linarith) (Nat.cast_nonneg _)
    exact hbase.trans (le_rankAt_iterate hdamping (fun u hu => ih hu) hv)

theorem rankAt_ranksAfter_le_one (ht : t.Ordered) (hdamping : 0 ≤ damping) (hle : damping ≤ 1)
    (hv : v < t.size) : rankAt (ranksAfter t damping k) v ≤ 1 := by
  have hsum := sumsToOne_ranksAfter ht (Nat.zero_lt_of_lt hv) damping k
  rw [← hsum]
  apply Finset.single_le_sum (f := rankAt (ranksAfter t damping k)) _ (Finset.mem_range.mpr hv)
  intro u hu
  exact rankAt_ranksAfter_nonneg hdamping hle (Finset.mem_range.mp hu)

theorem change_eq (t : Topology) (a b : Array ℚ) :
    change t a b = ∑ v ∈ range t.size, |rankAt a v - rankAt b v| :=
  sum_vertices t _

theorem change_nonneg (t : Topology) (a b : Array ℚ) : 0 ≤ change t a b := by
  rw [change_eq]
  exact Finset.sum_nonneg fun v _ => abs_nonneg _

/-- An iteration brings any two vectors of ranks together by the damping. -/
theorem change_iterate_le (ht : t.Ordered) (hdamping : 0 ≤ damping) (a b : Array ℚ) :
    change t (iterate t damping a) (iterate t damping b) ≤ damping * change t a b := by
  -- The even part of the ranks cancels, and the rest is linear in them.
  have hdifference : ∀ v ∈ range t.size,
      |rankAt (iterate t damping a) v - rankAt (iterate t damping b) v| ≤
        damping * ∑ u ∈ range t.size, |rankAt a u - rankAt b u| * t.flow u v := by
    intro v hv
    have heq : rankAt (iterate t damping a) v - rankAt (iterate t damping b) v =
        damping * ∑ u ∈ range t.size, (rankAt a u - rankAt b u) * t.flow u v := by
      rw [rankAt_iterate t damping a (Finset.mem_range.mp hv),
        rankAt_iterate t damping b (Finset.mem_range.mp hv)]
      simp only [sub_mul, Finset.sum_sub_distrib]
      ring
    rw [heq, abs_mul, abs_of_nonneg hdamping]
    apply mul_le_mul_of_nonneg_left _ hdamping
    apply (Finset.abs_sum_le_sum_abs _ _).trans_eq
    apply Finset.sum_congr rfl
    intro u _
    rw [abs_mul, abs_of_nonneg (t.flow_nonneg u v)]
  rw [change_eq, change_eq]
  calc ∑ v ∈ range t.size, |rankAt (iterate t damping a) v - rankAt (iterate t damping b) v|
      ≤ ∑ v ∈ range t.size,
          damping * ∑ u ∈ range t.size, |rankAt a u - rankAt b u| * t.flow u v :=
        Finset.sum_le_sum hdifference
    _ = damping * ∑ u ∈ range t.size, |rankAt a u - rankAt b u| := by
        rw [← Finset.mul_sum, ht.sum_sum_flow]

theorem changeAfter_succ_le (ht : t.Ordered) (hdamping : 0 ≤ damping) (k : Nat) :
    changeAfter t damping (k + 1) ≤ damping * changeAfter t damping k :=
  change_iterate_le ht hdamping _ _

theorem change_le_two {t : Topology} {a b : Array ℚ} (ha : ∀ v < t.size, 0 ≤ rankAt a v)
    (hb : ∀ v < t.size, 0 ≤ rankAt b v) (hsa : SumsToOne t a) (hsb : SumsToOne t b) :
    change t a b ≤ 2 := by
  rw [SumsToOne] at hsa hsb
  rw [change_eq]
  calc ∑ v ∈ range t.size, |rankAt a v - rankAt b v|
      ≤ ∑ v ∈ range t.size, (rankAt a v + rankAt b v) := by
        apply Finset.sum_le_sum
        intro v hv
        have hav := ha v (Finset.mem_range.mp hv)
        have hbv := hb v (Finset.mem_range.mp hv)
        rw [abs_le]
        constructor <;> linarith
    _ = 2 := by
        rw [Finset.sum_add_distrib, hsa, hsb]
        norm_num

/-- What an iteration changes in the even distribution grows with the damping. -/
theorem changeAfter_zero_eq (t : Topology) (hdamping : 0 ≤ damping) :
    changeAfter t damping 0 = damping * change t (even t) (iterate t 1 (even t)) := by
  have hfirst : changeAfter t damping 0 = change t (even t) (iterate t damping (even t)) := rfl
  rw [hfirst, change_eq, change_eq, Finset.mul_sum]
  apply Finset.sum_congr rfl
  intro v hv
  have hlt := Finset.mem_range.mp hv
  have hscaled : rankAt (even t) v - rankAt (iterate t damping (even t)) v =
      damping * (rankAt (even t) v - rankAt (iterate t 1 (even t)) v) := by
    rw [rankAt_iterate t damping _ hlt, rankAt_iterate t 1 _ hlt, rankAt_even hlt]
    ring
  rw [hscaled, abs_mul, abs_of_nonneg hdamping]

theorem changeAfter_zero_le (ht : t.Ordered) (hdamping : 0 ≤ damping) :
    changeAfter t damping 0 ≤ 2 * damping := by
  by_cases hsize : 0 < t.size
  · have hsum := sumsToOne_even hsize
    have hnonneg : ∀ v < t.size, 0 ≤ rankAt (even t) v := by
      intro v hv
      rw [rankAt_even hv]
      positivity
    have hnext : ∀ v < t.size, 0 ≤ rankAt (iterate t 1 (even t)) v := by
      intro v hv
      simpa using le_rankAt_iterate zero_le_one hnonneg hv
    rw [changeAfter_zero_eq t hdamping, mul_comm]
    exact mul_le_mul_of_nonneg_right (change_le_two hnonneg hnext hsum (hsum.iterate ht hsize 1))
      hdamping
  · have hzero : t.size = 0 := Nat.eq_zero_of_not_pos hsize
    rw [changeAfter, change_eq, hzero, Finset.range_zero, Finset.sum_empty]
    positivity

theorem changeAfter_le (ht : t.Ordered) (hdamping : 0 ≤ damping) (k : Nat) :
    changeAfter t damping k ≤ 2 * damping ^ (k + 1) := by
  induction k with
  | zero => simpa using changeAfter_zero_le ht hdamping
  | succ k ih =>
    calc changeAfter t damping (k + 1)
        ≤ damping * changeAfter t damping k := changeAfter_succ_le ht hdamping k
      _ ≤ damping * (2 * damping ^ (k + 1)) := mul_le_mul_of_nonneg_left ih hdamping
      _ = 2 * damping ^ (k + 1 + 1) := by ring

end PageRank

namespace Topology

open PageRank

variable {t : Topology} {damping tolerance : ℚ} {cap k : Nat}

theorem settlesAfter_iff :
    settlesAfter t damping tolerance k = true ↔ changeAfter t damping k < tolerance :=
  decide_eq_true_iff

theorem scores_pageRank (hsize : 0 < t.size) (damping tolerance : ℚ) (cap : Nat) :
    ((t.pageRank damping tolerance cap).ranks.map RankedUnit.score).Perm
      (t.vertices.map
        (rankAt (ranksAfter t damping (t.pageRank damping tolerance cap).iterations))) := by
  obtain ⟨s, hends, heq⟩ := exists_ends_pageRank hsize damping tolerance cap
  rw [heq, hends.ranks_eq, listed, List.map_map]
  exact (ranked_perm _ _).map _

theorem sum_scores_pageRank (ht : t.Ordered) (hsize : 0 < t.size) (damping tolerance : ℚ)
    (cap : Nat) : ((t.pageRank damping tolerance cap).ranks.map RankedUnit.score).sum = 1 := by
  rw [(scores_pageRank hsize damping tolerance cap).sum_eq]
  exact sumsToOne_ranksAfter ht hsize damping _

theorem exists_rankAt_of_mem_ranks (hsize : 0 < t.size) {u : RankedUnit ℚ}
    (hu : u ∈ (t.pageRank damping tolerance cap).ranks) :
    ∃ v < t.size, u.score =
      rankAt (ranksAfter t damping (t.pageRank damping tolerance cap).iterations) v := by
  have hmem := (scores_pageRank hsize damping tolerance cap).mem_iff.mp (List.mem_map_of_mem hu)
  obtain ⟨v, hv, heq⟩ := List.mem_map.mp hmem
  exact ⟨v, List.mem_range.mp hv, heq.symm⟩

/-- Where the bound on the change is below the tolerance, every run that may go so far converges. -/
theorem pageRank_converges_of_lt (ht : t.Ordered) (hdamping : 0 ≤ damping)
    (htolerance : 2 * damping ^ (k + 1) < tolerance) (hcap : k < cap) :
    (t.pageRank damping tolerance cap).converged = true ∧
      (t.pageRank damping tolerance cap).iterations ≤ k + 1 := by
  by_cases hsize : 0 < t.size
  · obtain ⟨s, hends, heq⟩ := exists_ends_pageRank hsize damping tolerance cap
    rw [heq]
    apply hends.converged_of_settles hcap
    exact settlesAfter_iff.mpr ((changeAfter_le ht hdamping k).trans_lt htolerance)
  · rw [pageRank, if_pos (Nat.eq_zero_of_not_pos hsize)]
    exact ⟨rfl, Nat.zero_le _⟩

theorem ordered_ofGraph_afterCalls (calls : List Call) :
    (ofGraph (Graph.afterCalls calls)).Ordered :=
  (numbers_ofGraph (Graph.represents_afterCalls calls).wellFormed.toIndexed).ordered

/-- Whatever the damping, the scores share out one whole, in a run of any length. With a damping
that is a probability every score is one, and from the first iteration on none is below an even part
of what is not handed on. -/
theorem pageRank_sharesOne (calls : List Call)
    (hsize : 0 < (ofGraph (Graph.afterCalls calls)).size) (damping : ℚ) :
    let t := ofGraph (Graph.afterCalls calls)
    (∀ cap, (t.pageRank damping 0 cap).iterations = cap) ∧
      ∀ tolerance cap,
        ((t.pageRank damping tolerance cap).ranks.map RankedUnit.score).sum = 1 ∧
          (0 ≤ damping → damping ≤ 1 → ∀ u ∈ (t.pageRank damping tolerance cap).ranks,
            0 ≤ u.score ∧ u.score ≤ 1 ∧
              ((t.pageRank damping tolerance cap).iterations ≠ 0 →
                (1 - damping) / t.size ≤ u.score)) := by
  intro t
  have ht : t.Ordered := ordered_ofGraph_afterCalls calls
  refine ⟨fun cap => ?_, fun tolerance cap =>
    ⟨sum_scores_pageRank ht hsize damping tolerance cap, fun hdamping hle u hu => ?_⟩⟩
  · obtain ⟨s, hends, heq⟩ := exists_ends_pageRank hsize damping 0 cap
    rw [heq]
    apply hends.iterations_eq
    intro k
    rw [← Bool.not_eq_true, settlesAfter_iff]
    exact not_lt.mpr (change_nonneg t _ _)
  · obtain ⟨v, hv, hscore⟩ := exists_rankAt_of_mem_ranks hsize hu
    rw [hscore]
    refine ⟨rankAt_ranksAfter_nonneg hdamping hle hv, rankAt_ranksAfter_le_one ht hdamping hle hv,
      fun hiterations => ?_⟩
    obtain ⟨k, hk⟩ := Nat.exists_eq_succ_of_ne_zero hiterations
    rw [hk]
    exact le_rankAt_iterate hdamping (fun u hu => rankAt_ranksAfter_nonneg hdamping hle hu) hv

/-- A unit that depends on a registered and on an unknown one. -/
def threeNames : List Call :=
  [.registerAll [⟨"reader", .service, "", [⟨"store", "", none, ""⟩, ⟨"log", "", none, ""⟩]⟩,
    ⟨"store", .model, "", []⟩]]

theorem size_threeNames : 0 < (ofGraph (Graph.afterCalls threeNames)).size := by
  have hr := Graph.represents_afterCalls threeNames
  have hstore : (Graph.afterCalls threeNames).contains "store" = true := by
    rw [Graph.contains, hr.unit?]
    decide
  obtain ⟨i, hi, -⟩ := ((numbers_ofGraph hr.wellFormed.toIndexed).contains_iff "store").mp hstore
  exact Nat.zero_lt_of_lt hi

theorem pageRank_sharesOne_threeNames :
    0 < (ofGraph (Graph.afterCalls threeNames)).size ∧
      (((ofGraph (Graph.afterCalls threeNames)).pageRank (3 / 4 : ℚ) 0 2).ranks.map
        RankedUnit.score).sum = 1 ∧
        ∀ u ∈ ((ofGraph (Graph.afterCalls threeNames)).pageRank (3 / 4 : ℚ) 0 2).ranks,
          (1 - 3 / 4) / ((ofGraph (Graph.afterCalls threeNames)).size : ℚ) ≤ u.score := by
  obtain ⟨hcap, hscores⟩ := pageRank_sharesOne threeNames size_threeNames (3 / 4)
  obtain ⟨hsum, hbounds⟩ := hscores 0 2
  refine ⟨size_threeNames, hsum, fun u hu => ?_⟩
  apply (hbounds (by norm_num) (by norm_num) u hu).2.2
  rw [hcap]
  decide

/-- In each iteration the ranks change by at most the damping times what they changed before, so
their change falls like the powers of the damping. With the default settings a run converges within
90 iterations, before the default cap. -/
theorem pageRank_converges (calls : List Call) :
    let t := ofGraph (Graph.afterCalls calls)
    (∀ damping : ℚ, 0 ≤ damping →
      (∀ k, changeAfter t damping (k + 1) ≤ damping * changeAfter t damping k ∧
        changeAfter t damping k ≤ 2 * damping ^ (k + 1)) ∧
      ∀ (tolerance : ℚ) (k cap : Nat), 2 * damping ^ (k + 1) < tolerance → k + 1 ≤ cap →
        (t.pageRank damping tolerance cap).converged = true ∧
          (t.pageRank damping tolerance cap).iterations ≤ k + 1) ∧
      (t.pageRank (0.85 : ℚ) 1e-6 ({} : Config).maxIterations).converged = true ∧
        (t.pageRank (0.85 : ℚ) 1e-6 ({} : Config).maxIterations).iterations ≤ 90 ∧
          90 < ({} : Config).maxIterations := by
  intro t
  have ht : t.Ordered := ordered_ofGraph_afterCalls calls
  have hcap : 89 < ({} : Config).maxIterations := by decide
  have hdefault := pageRank_converges_of_lt ht (by norm_num : (0 : ℚ) ≤ 0.85)
    (by norm_num : 2 * (0.85 : ℚ) ^ (89 + 1) < 1e-6) hcap
  refine ⟨fun damping hdamping => ⟨fun k => ?_, fun tolerance k cap htolerance hcap => ?_⟩,
    hdefault.1, hdefault.2, by decide⟩
  · exact ⟨changeAfter_succ_le ht hdamping k, changeAfter_le ht hdamping k⟩
  · exact pageRank_converges_of_lt ht hdamping htolerance hcap

theorem pageRank_converges_threeNames :
    ((0 : ℚ) ≤ 1 / 2 ∧ 2 * (1 / 2 : ℚ) ^ (3 + 1) < 1 / 5) ∧
      changeAfter (ofGraph (Graph.afterCalls threeNames)) (1 / 2 : ℚ) 1 ≤
        1 / 2 * changeAfter (ofGraph (Graph.afterCalls threeNames)) (1 / 2 : ℚ) 0 ∧
      ((ofGraph (Graph.afterCalls threeNames)).pageRank (1 / 2 : ℚ) (1 / 5) 4).converged =
        true := by
  obtain ⟨hchange, hruns⟩ := (pageRank_converges threeNames).1 (1 / 2) (by norm_num)
  exact ⟨by norm_num, (hchange 0).1, (hruns (1 / 5) 3 4 (by norm_num) (by decide)).1⟩

end Topology

end DependencyAtlas
