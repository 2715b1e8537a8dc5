/-!
# Sorting by a comparison

A list sorted by a comparison is in order, strictly so if it has no repeats and only equal things
compare as equal. Things that compare as equal stay in their order, so two lists are sorted alike
exactly when they agree on each class of such things.
-/

namespace DependencyAtlas

variable {α : Type} {cmp : α → α → Ordering} [Std.TransCmp cmp]

theorem isLE_or_isLE (a b : α) : ((cmp a b).isLE || (cmp b a).isLE) = true := by
  rw [Bool.or_eq_true]
  by_cases h : (cmp a b).isLE = true
  · exact Or.inl h
  · have hlt : cmp b a = .lt := Std.OrientedCmp.lt_of_not_isLE h
    exact Or.inr (by rw [hlt]; rfl)

theorem pairwise_mergeSort_isLE (xs : List α) :
    (xs.mergeSort fun a b => (cmp a b).isLE).Pairwise fun a b => (cmp a b).isLE = true :=
  List.pairwise_mergeSort (fun _ _ _ => Std.TransCmp.isLE_trans) isLE_or_isLE xs

theorem pairwise_mergeSort_lt [Std.LawfulEqCmp cmp] {xs : List α} (h : xs.Nodup) :
    (xs.mergeSort fun a b => (cmp a b).isLE).Pairwise fun a b => cmp a b = .lt := by
  have hnodup := (List.mergeSort_perm xs fun a b => (cmp a b).isLE).symm.nodup h
  apply ((pairwise_mergeSort_isLE xs).and hnodup).imp
  rintro a b ⟨hle, hne⟩
  rcases Ordering.isLE_iff_eq_lt_or_eq_eq.mp hle with hlt | heq
  · exact hlt
  · exact absurd (Std.LawfulEqCmp.eq_of_compare heq) hne

theorem eq_of_perm_of_isLE {xs ys : List α} (h : xs.Perm ys)
    (hx : xs.Pairwise fun a b => (cmp a b).isLE = true)
    (hy : ys.Pairwise fun a b => (cmp a b).isLE = true)
    (heq : ∀ a ∈ xs, ∀ b ∈ xs, cmp a b = .eq → a = b) : xs = ys := by
  apply h.eq_of_pairwise _ hx hy
  intro a b ha hb hab hba
  exact heq a ha b (h.mem_iff.mpr hb) (Std.OrientedCmp.isLE_antisymm hab hba)

theorem filter_mergeSort_isLE (a : α) (xs : List α) :
    ((xs.mergeSort fun a b => (cmp a b).isLE).filter fun b => cmp a b == .eq) =
      xs.filter fun b => cmp a b == .eq := by
  let le (a b : α) : Bool := (cmp a b).isLE
  let same := xs.filter fun b => cmp a b == .eq
  have hordered : same.Pairwise fun b c => le b c = true := by
    rw [List.pairwise_iff_forall_sublist]
    intro b c hbc
    have hb : cmp a b = .eq := by simpa using (List.mem_filter.mp (hbc.subset (by simp))).2
    have hc : cmp a c = .eq := by simpa using (List.mem_filter.mp (hbc.subset (by simp))).2
    have hbc : cmp b c = .eq := Std.TransCmp.eq_trans (Std.OrientedCmp.eq_symm hb) hc
    change (cmp b c).isLE = true
    rw [hbc]
    rfl
  have hkept : same.Sublist (xs.mergeSort le) :=
    List.sublist_mergeSort (fun _ _ _ => Std.TransCmp.isLE_trans) isLE_or_isLE hordered
      List.filter_sublist
  have hsub := hkept.filter fun b => cmp a b == .eq
  rw [List.filter_filter] at hsub
  simp only [Bool.and_self] at hsub
  apply (hsub.eq_of_length _).symm
  exact (((List.mergeSort_perm xs le).filter _).length_eq).symm

/-- Ordered lists are known by their classes of things that compare as equal. -/
theorem eq_of_filter_eq {xs ys : List α} (hx : xs.Pairwise fun a b => (cmp a b).isLE = true)
    (hy : ys.Pairwise fun a b => (cmp a b).isLE = true)
    (h : ∀ a, (xs.filter fun b => cmp a b == .eq) = ys.filter fun b => cmp a b == .eq) :
    xs = ys := by
  have hmem {a : α} {zs ws : List α} (ha : a ∈ zs)
      (h : (zs.filter fun b => cmp a b == .eq) = ws.filter fun b => cmp a b == .eq) : a ∈ ws := by
    have hself : a ∈ zs.filter fun b => cmp a b == .eq :=
      List.mem_filter.mpr ⟨ha, by simp [Std.ReflCmp.compare_self]⟩
    exact (List.mem_filter.mp (h ▸ hself)).1
  have hle {a b : α} {zs : List α} (hz : (a :: zs).Pairwise fun a b => (cmp a b).isLE = true)
      (hb : b ∈ a :: zs) : (cmp a b).isLE = true := by
    rcases List.mem_cons.mp hb with rfl | hb
    · have hself : cmp b b = .eq := Std.ReflCmp.compare_self
      rw [hself]
      rfl
    · exact (List.pairwise_cons.mp hz).1 b hb
  induction xs generalizing ys with
  | nil =>
    cases ys with
    | nil => rfl
    | cons y ys => exact absurd (hmem List.mem_cons_self (h y).symm) List.not_mem_nil
  | cons x xs ih =>
    cases ys with
    | nil => exact absurd (hmem List.mem_cons_self (h x)) List.not_mem_nil
    | cons y ys =>
      have hxy : cmp x y = .eq := Std.OrientedCmp.isLE_antisymm
        (hle hx (hmem List.mem_cons_self (h y).symm)) (hle hy (hmem List.mem_cons_self (h x)))
      have hhead := h x
      simp only [List.filter_cons, Std.ReflCmp.compare_self, hxy, beq_self_eq_true, if_true,
        List.cons.injEq] at hhead
      obtain rfl := hhead.1
      rw [ih (List.pairwise_cons.mp hx).2 (List.pairwise_cons.mp hy).2]
      intro a
      have htail := h a
      simp only [List.filter_cons] at htail
      split at htail
      · exact (List.cons.inj htail).2
      · exact htail

theorem mergeSort_isLE_eq_iff {xs ys : List α} :
    ((xs.mergeSort fun a b => (cmp a b).isLE) = ys.mergeSort fun a b => (cmp a b).isLE) ↔
      ∀ a, (xs.filter fun b => cmp a b == .eq) = ys.filter fun b => cmp a b == .eq := by
  constructor
  · intro h a
    rw [← filter_mergeSort_isLE a xs, h, filter_mergeSort_isLE]
  · intro h
    apply eq_of_filter_eq (pairwise_mergeSort_isLE xs) (pairwise_mergeSort_isLE ys)
    intro a
    rw [filter_mergeSort_isLE, filter_mergeSort_isLE, h]

end DependencyAtlas
