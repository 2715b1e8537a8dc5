import DependencyAtlas.Graph.Store

/-!
# Removal by swapping

Taking an element out of an array moves the last one to its place and leaves all others where they
are. Removing from the highest position down, every position still to be removed is found where it
was; what is left is the rest of the array in some order.
-/

namespace DependencyAtlas

variable {α : Type}

/-- Where the element at `j` stands after the one at `i` was removed and the one at `last` took its
place. -/
def settle (last i j : Nat) : Nat :=
  if j = last then i else j

theorem settle_of_lt {last i j : Nat} (h : j < last) : settle last i j = j := by
  simp only [settle, if_neg (Nat.ne_of_lt h)]

theorem settle_injective {last i j k : Nat} (hj : j ≠ i) (hk : k ≠ i)
    (h : settle last i j = settle last i k) : j = k := by
  unfold settle at h
  split at h <;> split at h <;> omega

theorem getElem?_swapRemove {xs : Array α} {i : Nat} (hi : i < xs.size) (k : Nat) :
    (swapRemove xs i)[k]? =
      if k < xs.size - 1 then if k = i then xs[xs.size - 1]? else xs[k]? else none := by
  have hlast : xs.size - 1 < xs.size := by omega
  unfold swapRemove
  rw [if_pos hi, Array.getElem?_pop, Array.size_swapIfInBounds]
  by_cases hk : k < xs.size - 1
  · have hk' : k < (xs.swapIfInBounds i (xs.size - 1)).size := by
      rw [Array.size_swapIfInBounds]
      omega
    rw [if_pos hk, if_pos hk, Array.getElem?_eq_getElem hk', Array.getElem_swapIfInBounds]
    by_cases hki : k = i
    · rw [dif_pos ⟨hki, hlast⟩, if_pos hki, Array.getElem?_eq_getElem hlast]
    · have hkl : ¬ (k = xs.size - 1 ∧ i < xs.size) := by omega
      rw [dif_neg (by simp [hki]), dif_neg hkl, if_neg hki, Array.getElem?_eq_getElem]
  · rw [if_neg hk, if_neg hk]

/-- Every element but the removed one is kept, the last one in the place that became free. -/
theorem getElem?_settle {xs : Array α} {i j : Nat} (hi : i < xs.size) (hj : j < xs.size)
    (hne : j ≠ i) : (swapRemove xs i)[settle (xs.size - 1) i j]? = xs[j]? := by
  rw [getElem?_swapRemove hi]
  by_cases hl : j = xs.size - 1
  · have hlt : i < xs.size - 1 := by omega
    simp only [settle, if_pos hlt, if_true, hl]
  · have hlt : j < xs.size - 1 := by omega
    rw [settle_of_lt hlt, if_pos hlt, if_neg hne]

theorem getElem?_swapRemove_eq_some_iff {xs : Array α} {i : Nat} (hi : i < xs.size) {k : Nat}
    {a : α} :
    (swapRemove xs i)[k]? = some a ↔
      ∃ j, j ≠ i ∧ xs[j]? = some a ∧ k = settle (xs.size - 1) i j := by
  constructor
  · intro h
    rw [getElem?_swapRemove hi] at h
    split at h
    · rename_i hk
      split at h
      · rename_i hki
        exact ⟨xs.size - 1, by omega, h, by simp [settle, hki]⟩
      · rename_i hki
        exact ⟨k, hki, h, (settle_of_lt hk).symm⟩
    · exact absurd h (by simp)
  · rintro ⟨j, hne, hj, rfl⟩
    have hlt : j < xs.size := (Array.getElem?_eq_some_iff.mp hj).1
    rw [getElem?_settle hi hlt hne, hj]

theorem perm_swapRemove {xs : Array α} {i : Nat} (hi : i < xs.size) :
    (xs[i] :: (swapRemove xs i).toList).Perm xs.toList := by
  have hlast : xs.size - 1 < xs.size := by omega
  let swapped := xs.swap i (xs.size - 1) hi hlast
  have hne : swapped.toList ≠ [] := by
    intro h
    have hlen : 0 < swapped.toList.length := by simp [swapped]; omega
    simp [h] at hlen
  have hend : swapped.toList.getLast hne = xs[i] := by
    rw [List.getLast_eq_getElem]
    simp [swapped]
  have hpop : (swapRemove xs i).toList = swapped.toList.dropLast := by
    simp [swapRemove, hi, hlast, Array.swapIfInBounds, swapped, Array.toList_pop]
  have hsplit := List.dropLast_concat_getLast hne
  rw [hend, ← hpop] at hsplit
  have hperm : (xs[i] :: (swapRemove xs i).toList).Perm swapped.toList :=
    hsplit ▸ (List.perm_append_singleton xs[i] _).symm
  exact hperm.trans (Array.swap_perm hi hlast).toList

/-- The positions below `n` that hold elements to be removed, from the highest down. -/
def positionsBelow (p : α → Bool) (xs : Array α) (n : Nat) : List Nat :=
  (List.range n).reverse.filter fun i => xs[i]?.any p

theorem positionsBelow_succ (p : α → Bool) (xs : Array α) (n : Nat) :
    positionsBelow p xs (n + 1) =
      if xs[n]?.any p then n :: positionsBelow p xs n else positionsBelow p xs n := by
  simp only [positionsBelow, List.range_succ, List.reverse_append, List.reverse_singleton,
    List.singleton_append, List.filter_cons]

theorem positionsBelow_congr {p : α → Bool} {xs ys : Array α} {n : Nat}
    (h : ∀ i < n, xs[i]? = ys[i]?) : positionsBelow p xs n = positionsBelow p ys n := by
  apply List.filter_congr
  intro i hi
  rw [h i (by simpa using hi)]

def DoneFrom (p : α → Bool) (xs : Array α) (n : Nat) : Prop :=
  ∀ i a, n ≤ i → xs[i]? = some a → p a = false

namespace DoneFrom

variable {p : α → Bool} {xs : Array α} {n : Nat}

theorem size (p : α → Bool) (xs : Array α) : DoneFrom p xs xs.size := by
  intro i a hi ha
  rw [Array.getElem?_eq_none hi] at ha
  exact absurd ha (by simp)

theorem filter_eq (h : DoneFrom p xs 0) : (xs.toList.filter fun a => !p a) = xs.toList := by
  rw [List.filter_eq_self]
  intro a ha
  obtain ⟨i, hi⟩ := List.mem_iff_getElem?.mp ha
  rw [Array.getElem?_toList] at hi
  rw [h i a (Nat.zero_le i) hi]
  rfl

theorem of_succ (h : DoneFrom p xs (n + 1)) (hn : n < xs.size) (hp : p xs[n] = false) :
    DoneFrom p xs n := by
  intro i a hi ha
  by_cases hin : i = n
  · subst i
    rw [Array.getElem?_eq_getElem hn] at ha
    rw [← Option.some.inj ha, hp]
  · exact h i a (by omega) ha

/-- What moves down to `n` comes from behind it. -/
theorem swapRemove (h : DoneFrom p xs (n + 1)) (hn : n < xs.size) :
    DoneFrom p (swapRemove xs n) n := by
  intro i a hi ha
  obtain ⟨j, hne, hj, rfl⟩ := (getElem?_swapRemove_eq_some_iff hn).mp ha
  apply h j a _ hj
  unfold settle at hi
  split at hi <;> omega

end DoneFrom

/-- Removing from `n` down the elements with a property leaves all without it. -/
theorem foldl_swapRemove_perm (p : α → Bool) (n : Nat) :
    ∀ {xs : Array α}, n ≤ xs.size → DoneFrom p xs n →
      ((positionsBelow p xs n).foldl swapRemove xs).toList.Perm
        (xs.toList.filter fun a => !p a) := by
  induction n with
  | zero =>
    intro xs _ hdone
    rw [hdone.filter_eq]
    exact List.Perm.refl _
  | succ n ih =>
    intro xs hn hdone
    have hlt : n < xs.size := by omega
    rw [positionsBelow_succ, Array.getElem?_eq_getElem hlt, Option.any_some]
    by_cases hp : p xs[n] = true
    · rw [if_pos hp, List.foldl_cons]
      have hsame : ∀ i < n, xs[i]? = (swapRemove xs n)[i]? := by
        intro i hi
        rw [getElem?_swapRemove hlt, if_pos (by omega), if_neg (by omega)]
      have hsize := size_swapRemove hlt
      have hperm := (perm_swapRemove hlt).filter (fun a => !p a)
      rw [List.filter_cons_of_neg (by simp [hp])] at hperm
      rw [positionsBelow_congr hsame]
      exact (ih (by omega) (hdone.swapRemove hlt)).trans hperm
    · rw [if_neg hp]
      exact ih (by omega) (hdone.of_succ hlt (Bool.eq_false_iff.mpr hp))

theorem swapRemove_all_perm (p : α → Bool) (xs : Array α) :
    ((positionsBelow p xs xs.size).foldl swapRemove xs).toList.Perm
      (xs.toList.filter fun a => !p a) :=
  foldl_swapRemove_perm p xs.size (Nat.le_refl _) (DoneFrom.size p xs)

end DependencyAtlas
