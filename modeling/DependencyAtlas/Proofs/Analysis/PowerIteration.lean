import DependencyAtlas.Analysis.PageRank

/-!
# Power iteration

An iteration looks at the ranks before it and at nothing else, so all runs go through one sequence
of ranks. A run ends with the first iteration that changes less than the tolerance, or else at its
cap. This is so in any arithmetic.
-/

namespace DependencyAtlas

namespace PageRank

variable {α : Type} [Scalar α] {t : Topology} {damping tolerance : α} {s : RankState α}
  {cap left : Nat}

def ranksAfter (t : Topology) (damping : α) : Nat → Array α
  | 0 => (start t).ranks
  | k + 1 => iterate t damping (ranksAfter t damping k)

/-- How much iteration `k + 1` changes the ranks. -/
def changeAfter (t : Topology) (damping : α) (k : Nat) : α :=
  change t (ranksAfter t damping k) (ranksAfter t damping (k + 1))

/-- Whether the change in iteration `k + 1` is below the tolerance. -/
def settlesAfter (t : Topology) (damping tolerance : α) (k : Nat) : Bool :=
  Scalar.below (changeAfter t damping k) tolerance

/-- How a run ends: with the first change below the tolerance, or at the cap without one. -/
inductive Ends (t : Topology) (damping tolerance : α) (cap : Nat) : RankState α → Prop where
  | settled {k : Nat} (lt_cap : k < cap)
      (before : ∀ j < k, settlesAfter t damping tolerance j = false)
      (settles : settlesAfter t damping tolerance k = true) :
      Ends t damping tolerance cap ⟨ranksAfter t damping (k + 1), k + 1, true⟩
  | capped (before : ∀ j < cap, settlesAfter t damping tolerance j = false) :
      Ends t damping tolerance cap ⟨ranksAfter t damping cap, cap, false⟩

theorem ends_loop {k : Nat} (hcap : k + left = cap)
    (before : ∀ j < k, settlesAfter t damping tolerance j = false) :
    Ends t damping tolerance cap
      (loop t damping tolerance left ⟨ranksAfter t damping k, k, false⟩) := by
  -- By induction on the iterations left: so far no change was below the tolerance.
  induction left generalizing k with
  | zero =>
    obtain rfl : k = cap := hcap
    exact .capped before
  | succ left ih =>
    have hnext : iterate t damping (ranksAfter t damping k) = ranksAfter t damping (k + 1) := rfl
    have hbelow : Scalar.below (change t (ranksAfter t damping k) (ranksAfter t damping (k + 1)))
        tolerance = settlesAfter t damping tolerance k := rfl
    simp only [loop, hnext, hbelow]
    cases hsettles : settlesAfter t damping tolerance k with
    | true =>
      rw [if_pos rfl]
      exact .settled (by omega) before hsettles
    | false =>
      rw [if_neg Bool.false_ne_true]
      apply ih (by omega)
      intro j hj
      rcases Nat.lt_succ_iff_lt_or_eq.mp hj with hlt | rfl
      · exact before j hlt
      · exact hsettles

theorem ends_start (t : Topology) (damping tolerance : α) (cap : Nat) :
    Ends t damping tolerance cap (loop t damping tolerance cap (start t)) :=
  ends_loop (Nat.zero_add cap) fun j hj => absurd hj (Nat.not_lt_zero j)

namespace Ends

theorem ranks_eq (h : Ends t damping tolerance cap s) :
    s.ranks = ranksAfter t damping s.iterations := by
  cases h <;> rfl

theorem converged_of_settles (h : Ends t damping tolerance cap s) {k : Nat} (hk : k < cap)
    (hsettles : settlesAfter t damping tolerance k = true) :
    s.converged = true ∧ s.iterations ≤ k + 1 := by
  cases h with
  | @settled k' lt_cap before settles =>
    refine ⟨rfl, Nat.le_of_not_lt fun hlt => ?_⟩
    rw [before k (Nat.lt_of_succ_lt_succ hlt)] at hsettles
    exact Bool.false_ne_true hsettles
  | capped before =>
    rw [before k hk] at hsettles
    exact absurd hsettles Bool.false_ne_true

theorem iterations_eq (h : Ends t damping tolerance cap s)
    (hnever : ∀ k, settlesAfter t damping tolerance k = false) : s.iterations = cap := by
  cases h with
  | settled _ _ settles =>
    rw [hnever] at settles
    exact absurd settles Bool.false_ne_true
  | capped => rfl

theorem iterations_le (h : Ends t damping tolerance cap s) : s.iterations ≤ cap := by
  cases h with
  | settled lt_cap before settles => exact lt_cap
  | capped before => exact Nat.le_refl cap

theorem iterations_eq_of_converged_eq_false (h : Ends t damping tolerance cap s)
    (hconverged : s.converged = false) : s.iterations = cap := by
  cases h with
  | settled lt_cap before settles => exact absurd hconverged.symm Bool.false_ne_true
  | capped before => rfl

/-- All runs that may go as far as one that converged end as it did. -/
theorem eq_of_converged {cap' : Nat} {s' : RankState α} (h : Ends t damping tolerance cap s)
    (h' : Ends t damping tolerance cap' s') (hconverged : s.converged = true)
    (hle : s.iterations ≤ cap') : s' = s := by
  cases h with
  | capped before => exact absurd hconverged Bool.false_ne_true
  | @settled k lt_cap before settles =>
    cases h' with
    | capped before' => exact absurd settles (ne_true_of_eq_false (before' k hle))
    | @settled k' lt_cap' before' settles' =>
      rcases Nat.lt_trichotomy k k' with hlt | rfl | hlt
      · exact absurd settles (ne_true_of_eq_false (before' k hlt))
      · rfl
      · exact absurd settles' (ne_true_of_eq_false (before k' hlt))

end Ends

def listed (t : Topology) (ranks : Array α) : List (RankedUnit α) :=
  (ranked t ranks).map fun v => ⟨t.id v, rankAt ranks v⟩

theorem ranked_perm (t : Topology) (ranks : Array α) : (ranked t ranks).Perm t.vertices :=
  List.mergeSort_perm _ _

end PageRank

namespace Topology

open PageRank

variable {α : Type} [Scalar α] {t : Topology}

theorem exists_ends_pageRank (hsize : 0 < t.size) (damping tolerance : α) (cap : Nat) :
    ∃ s, Ends t damping tolerance cap s ∧
      t.pageRank damping tolerance cap = ⟨listed t s.ranks, s.iterations, s.converged⟩ := by
  refine ⟨_, ends_start t damping tolerance cap, ?_⟩
  rw [pageRank, if_neg (Nat.ne_of_gt hsize), listed]

theorem ranks_pageRank (t : Topology) (damping tolerance : α) (cap : Nat) :
    (t.pageRank damping tolerance cap).ranks =
      listed t (ranksAfter t damping (t.pageRank damping tolerance cap).iterations) := by
  rcases Nat.eq_zero_or_pos t.size with hsize | hsize
  · have hnone : t.vertices = [] := by
      rw [vertices, hsize, List.range_zero]
    rw [pageRank, if_pos hsize, listed, PageRank.ranked, hnone, List.mergeSort_nil, List.map_nil]
  · obtain ⟨s, hends, heq⟩ := exists_ends_pageRank hsize damping tolerance cap
    rw [heq, ← hends.ranks_eq]

end Topology

end DependencyAtlas
