import DependencyAtlas.Analysis.Ranking
import DependencyAtlas.Proofs.Analysis.Topology

/-!
# Order of a ranking

A ranking holds the vertices that count anything, each as often as it was given, the higher counts
first and equal counts in ascending order. No other list of the same entries has that order.
-/

namespace DependencyAtlas

namespace Ranking

variable {count : Nat → Nat} {vertices : List Nat} {v w : Nat}

def Before (count : Nat → Nat) (v w : Nat) : Prop :=
  count w < count v ∨ (count v = count w ∧ v < w)

theorem all_perm (count : Nat → Nat) (vertices : List Nat) :
    (all count vertices).Perm (vertices.filter fun v => 0 < count v) :=
  List.mergeSort_perm _ _

theorem mem_all : v ∈ all count vertices ↔ v ∈ vertices ∧ 0 < count v := by
  rw [(all_perm count vertices).mem_iff, List.mem_filter, decide_eq_true_eq]

theorem length_all_le (count : Nat → Nat) (vertices : List Nat) :
    (all count vertices).length ≤ vertices.length := by
  rw [(all_perm count vertices).length_eq]
  exact List.length_filter_le _ _

theorem nodup_all (h : vertices.Nodup) : (all count vertices).Nodup :=
  (all_perm count vertices).symm.nodup (h.filter _)

theorem pairwise_all (h : vertices.Nodup) : (all count vertices).Pairwise (Before count) := by
  let le (a b : Nat) : Bool := decide (count b < count a) || (count a == count b && decide (a ≤ b))
  have hle {a b : Nat} : le a b = true ↔ count b < count a ∨ (count a = count b ∧ a ≤ b) := by
    simp [le]
  have hsorted : (all count vertices).Pairwise fun a b => le a b = true := by
    apply List.pairwise_mergeSort
    · intro a b c hab hbc
      have hab := hle.mp hab
      have hbc := hle.mp hbc
      exact hle.mpr (by omega)
    · intro a b
      have htotal : (count b < count a ∨ (count a = count b ∧ a ≤ b)) ∨
          (count a < count b ∨ (count b = count a ∧ b ≤ a)) := by omega
      exact (Bool.or_eq_true _ _).mpr (htotal.imp hle.mpr hle.mpr)
  apply (hsorted.and (nodup_all h)).imp
  rintro a b ⟨hab, hne⟩
  rcases hle.mp hab with hlt | ⟨heq, hab⟩
  · exact .inl hlt
  · exact .inr ⟨heq, Nat.lt_of_le_of_ne hab hne⟩

section Named

variable {α : Type} {number : α → Nat} {name : α → String} {a b : α} {xs ys : List α}

/-- One entry counts more than another, or as much under a smaller name. -/
def Precedes (number : α → Nat) (name : α → String) (a b : α) : Prop :=
  number b < number a ∨ (number a = number b ∧ name a < name b)

theorem Precedes.asymm (h : Precedes number name a b) : ¬ Precedes number name b a := by
  rcases h with hlt | ⟨heq, hname⟩
  · rintro (hgt | ⟨heq, -⟩)
    · exact Nat.lt_asymm hlt hgt
    · exact Nat.ne_of_lt hlt heq
  · rintro (hgt | ⟨-, hname'⟩)
    · exact Nat.ne_of_lt hgt heq
    · exact String.lt_asymm hname hname'

theorem nodup_of_precedes (h : xs.Pairwise (Precedes number name)) : xs.Nodup := by
  apply h.imp
  rintro a _ hab rfl
  exact hab.asymm hab

theorem eq_of_precedes (hx : xs.Pairwise (Precedes number name))
    (hy : ys.Pairwise (Precedes number name)) (h : ∀ a, a ∈ xs ↔ a ∈ ys) : xs = ys := by
  apply List.Perm.eq_of_pairwise _ hx hy
  · exact (List.perm_ext_iff_of_nodup (nodup_of_precedes hx) (nodup_of_precedes hy)).mpr h
  · intro a b _ _ hab hba
    exact absurd hba hab.asymm

end Named

end Ranking

theorem Topology.length_all_le (t : Topology) (count : Nat → Nat) :
    (Ranking.all count t.vertices).length ≤ t.size := by
  have h := Ranking.length_all_le count t.vertices
  rwa [vertices, List.length_range] at h

theorem Topology.Numbers.pairwise_all {t : Topology} {g : Graph} (h : t.Numbers g)
    (count : Nat → Nat) :
    (Ranking.all count t.vertices).Pairwise (Ranking.Precedes count t.id) := by
  apply (Ranking.pairwise_all List.nodup_range).imp_of_mem
  intro v w _ hw hvw
  have hlt : w < t.size := List.mem_range.mp (Ranking.mem_all.mp hw).1
  exact hvw.imp_right fun hvw => ⟨hvw.1, h.id_lt hvw.2 hlt⟩

end DependencyAtlas
