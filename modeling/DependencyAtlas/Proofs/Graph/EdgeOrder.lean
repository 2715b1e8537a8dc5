import DependencyAtlas.Graph.Edge
import DependencyAtlas.Proofs.Sorting

/-!
# The order of edges

The listed order, by source, target, relationship, `via` and target kind, is a linear order, and the
order of the fields is the same one. Hence a sorted list of edges is known by how often each edge
is in it. The order of the edges of one unit does not look at the target kind, so a sort can leave
edges that differ in nothing else in any order, and it can be refined to any order of them.
-/

namespace DependencyAtlas.DependencyEdge

instance : Std.TransCmp order :=
  inferInstanceAs <| Std.TransCmp <| compareLex (compareOn source) <|
    compareLex (compareOn target) <| compareLex (compareOn relationship) <|
      compareLex (compareOn via) (compareOn targetKind)

instance : Std.LawfulEqCmp order where
  eq_of_compare {a b} h := by
    simp only [order, compareLex, Ordering.then_eq_eq, compareOn, Std.compare_eq_iff_eq] at h
    obtain ⟨hsource, htarget, hrelationship, hvia, hkind⟩ := h
    cases a
    cases b
    simp_all

theorem compare_eq_order (a b : DependencyEdge) : compare a b = order a b := by
  have hfields : compare a b = (compare a.source b.source).then ((compare a.target b.target).then
      ((compare a.relationship b.relationship).then ((compare a.via b.via).then
        ((compare a.targetKind b.targetKind).then .eq)))) := rfl
  rw [hfields, Ordering.then_eq]
  rfl

theorem byFields_eq_sorted (edges : List DependencyEdge) : byFields edges = sorted edges := by
  simp only [byFields, sorted, compare_eq_order]

theorem sorted_perm (edges : List DependencyEdge) : (sorted edges).Perm edges :=
  List.mergeSort_perm edges _

theorem pairwise_sorted (edges : List DependencyEdge) :
    (sorted edges).Pairwise fun a b => (order a b).isLE = true :=
  pairwise_mergeSort_isLE edges

theorem eq_of_perm_of_pairwise {xs ys : List DependencyEdge} (h : xs.Perm ys)
    (hx : xs.Pairwise fun a b => (order a b).isLE = true)
    (hy : ys.Pairwise fun a b => (order a b).isLE = true) : xs = ys :=
  eq_of_perm_of_isLE h hx hy fun _ _ _ _ => Std.LawfulEqCmp.eq_of_compare

theorem sorted_congr {xs ys : List DependencyEdge} (h : xs.Perm ys) : sorted xs = sorted ys :=
  eq_of_perm_of_pairwise (((sorted_perm xs).trans h).trans (sorted_perm ys).symm)
    (pairwise_sorted xs) (pairwise_sorted ys)

@[simp] theorem sorted_sorted (edges : List DependencyEdge) : sorted (sorted edges) = sorted edges :=
  sorted_congr (sorted_perm edges)

/-- Parallel edges of one unit are in the order of their kinds. -/
theorem isLE_order_of_parallel (x target relationship : String) (via : Option String)
    {kind kind' : String} :
    (order ⟨x, target, relationship, via, kind⟩
        ⟨x, target, relationship, via, kind'⟩).isLE = true ↔ kind ≤ kind' := by
  have hkinds : order ⟨x, target, relationship, via, kind⟩
      ⟨x, target, relationship, via, kind'⟩ = compare kind kind' := by
    simp [order, compareLex, compareOn]
  rw [hkinds]
  exact isLE_compareOfLessAndEq String.le_antisymm String.not_le String.le_total

theorem labelOrder_eq_iff {a b : DependencyEdge} :
    labelOrder a b = .eq ↔
      a.target = b.target ∧ a.relationship = b.relationship ∧ a.via = b.via := by
  simp only [labelOrder, compareLex, Ordering.then_eq_eq, compareOn, Std.compare_eq_iff_eq]

namespace LabelSort

variable {ties : DependencyEdge → DependencyEdge → Ordering}

theorem sort_stable_eq_iff {xs ys : List DependencyEdge} :
    stable.sort xs = stable.sort ys ↔ ∀ a : DependencyEdge,
      (xs.filter fun b => labelOrder a b == .eq) = ys.filter fun b => labelOrder a b == .eq :=
  mergeSort_isLE_eq_iff

/-- Lists of up to this length are sorted by insertion. -/
def insertionLimit : Nat :=
  20

/-- Insertion leaves ties as they come. -/
def KeepsShort (labelSort : LabelSort) : Prop :=
  ∀ edges, edges.length ≤ insertionLimit → labelSort.sort edges = stable.sort edges

theorem keepsShort_stable : stable.KeepsShort :=
  fun _ _ => rfl

/-- The sort that settles ties by another comparison. -/
def refined (ties : DependencyEdge → DependencyEdge → Ordering) [Std.TransCmp ties] :
    LabelSort where
  sort edges := edges.mergeSort fun a b => (compareLex labelOrder ties a b).isLE
  perm edges := List.mergeSort_perm edges _
  ordered edges := by
    apply (pairwise_mergeSort_isLE edges).imp
    exact fun h => Ordering.isLE_left_of_isLE_then h

theorem pairwise_sort_refined [Std.TransCmp ties] (edges : List DependencyEdge) :
    ((refined ties).sort edges).Pairwise fun a b =>
      labelOrder a b = .eq → (ties a b).isLE = true := by
  apply (pairwise_mergeSort_isLE edges).imp
  intro a b h htie
  rcases (Ordering.isLE_then_iff_and.mp h).2 with hlt | hle
  · rw [htie] at hlt
    cases hlt
  · exact hle

end LabelSort

end DependencyAtlas.DependencyEdge
