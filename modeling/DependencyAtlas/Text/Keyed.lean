/-!
# Values under texts

Lists of pairs of a text and a value, in strictly ascending order of the texts. Of several values
under one text the last one counts.
-/

namespace DependencyAtlas.Text

/-- Keeps the last pair of each run of pairs under one text. -/
def lastOfRuns {α : Type} : List (String × α) → List (String × α)
  | [] => []
  | [p] => [p]
  | p :: q :: rest =>
    if p.1 = q.1 then lastOfRuns (q :: rest) else p :: lastOfRuns (q :: rest)

/-- The pairs in strictly ascending order of their texts. -/
def byKey {α : Type} (pairs : List (String × α)) : List (String × α) :=
  lastOfRuns (pairs.mergeSort fun p q => decide (p.1 ≤ q.1))

theorem mem_of_mem_lastOfRuns {α : Type} {p : String × α} :
    ∀ {ps : List (String × α)}, p ∈ lastOfRuns ps → p ∈ ps
  | [], h => h
  | [_], h => h
  | q :: r :: rest, h => by
    unfold lastOfRuns at h
    split at h
    · exact List.mem_cons_of_mem _ (mem_of_mem_lastOfRuns h)
    · rcases List.mem_cons.mp h with rfl | h
      · exact List.mem_cons_self
      · exact List.mem_cons_of_mem _ (mem_of_mem_lastOfRuns h)

theorem pairwise_lastOfRuns {α : Type} :
    ∀ {ps : List (String × α)}, ps.Pairwise (fun p q => p.1 ≤ q.1) →
      (lastOfRuns ps).Pairwise fun p q => p.1 < q.1
  | [], _ => .nil
  | [p], _ => List.pairwise_singleton _ p
  | p :: q :: rest, h => by
    have hq := (List.pairwise_cons.mp h).2
    unfold lastOfRuns
    split
    · exact pairwise_lastOfRuns hq
    · rename_i hne
      refine List.pairwise_cons.mpr ⟨fun r hr => ?_, pairwise_lastOfRuns hq⟩
      have hpq : p.1 < q.1 :=
        Std.lt_of_le_of_ne ((List.pairwise_cons.mp h).1 q List.mem_cons_self) hne
      rcases List.mem_cons.mp (mem_of_mem_lastOfRuns hr) with rfl | hr
      · exact hpq
      · exact Std.lt_of_lt_of_le hpq ((List.pairwise_cons.mp hq).1 r hr)

theorem pairwise_byKey {α : Type} (pairs : List (String × α)) :
    (byKey pairs).Pairwise fun p q => p.1 < q.1 := by
  refine pairwise_lastOfRuns ?_
  let below (p q : String × α) : Bool := decide (p.1 ≤ q.1)
  have h : (pairs.mergeSort below).Pairwise fun p q => below p q := List.pairwise_mergeSort
    (fun _ _ _ h₁ h₂ => by
      simp only [below, decide_eq_true_eq] at *
      exact String.le_trans h₁ h₂)
    (fun p q => by
      simp only [below, Bool.or_eq_true, decide_eq_true_eq]
      exact String.le_total p.1 q.1) pairs
  simpa [below] using h

end DependencyAtlas.Text
