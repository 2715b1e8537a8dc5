import DependencyAtlas.Analysis.Cycle
import DependencyAtlas.Proofs.Search.ClosedWalk
import Mathlib.Data.List.Rotate
import Mathlib.Order.Lattice

/-!
# The canonical form of a cycle

Canonicalizing splits the members at the first least one and swaps the two parts. The edges of the
closed walk stay the same, and the canonical form of a cycle without repeats starts at a member that
is smaller than all others. Two cycles without repeats therefore have one canonical form exactly
when one is a rotation of the other.
-/

namespace DependencyAtlas.Cycle

variable {α : Type} [LinearOrder α] {x m : α} {cycle before after l r s : List α}

theorem least_mem (first : α) (rest : List α) : least first rest ∈ first :: rest := by
  induction rest generalizing first with
  | nil => exact List.mem_singleton_self _
  | cons x rest ih =>
    unfold least at ih ⊢
    rw [List.foldl_cons]
    by_cases hx : x < first
    · rw [if_pos hx]
      exact List.mem_cons_of_mem _ (ih x)
    · rw [if_neg hx]
      rcases List.mem_cons.mp (ih first) with h | h
      · rw [h]
        exact List.mem_cons_self
      · exact List.mem_cons_of_mem _ (List.mem_cons_of_mem _ h)

theorem least_le (first : α) (rest : List α) : ∀ x ∈ first :: rest, least first rest ≤ x := by
  induction rest generalizing first with
  | nil =>
    intro x hx
    rw [List.mem_singleton.mp hx]
    exact le_refl _
  | cons y rest ih =>
    intro x hx
    unfold least at ih ⊢
    rw [List.foldl_cons]
    by_cases hy : y < first
    · rw [if_pos hy]
      rcases List.mem_cons.mp hx with rfl | hx
      · exact le_trans (ih y y List.mem_cons_self) (le_of_lt hy)
      · exact ih y x hx
    · rw [if_neg hy]
      rcases List.mem_cons.mp hx with rfl | hx
      · exact ih x x List.mem_cons_self
      · rcases List.mem_cons.mp hx with rfl | hx
        · exact le_trans (ih first first List.mem_cons_self) (not_lt.mp hy)
        · exact ih first x (List.mem_cons_of_mem _ hx)

theorem body_of_nodup (h : cycle.Nodup) : body cycle = cycle := by
  unfold body
  split
  · rename_i first second rest
    rw [if_neg]
    intro hlast
    exact (List.nodup_cons.mp h).1 (List.mem_of_getLast? hlast)
  · rfl

theorem body_closed (x : α) (l : List α) : body (x :: (l ++ [x])) = x :: l := by
  cases l with
  | nil => simp [body]
  | cons y l =>
    have hlast : (y :: (l ++ [x])).getLast? = some x := by
      rw [← List.cons_append, List.getLast?_concat]
    rw [List.cons_append, body, if_pos hlast, ← List.cons_append, ← List.cons_append,
      List.dropLast_concat]

theorem body_eq_nil_iff : body cycle = [] ↔ cycle = [] := by
  unfold body
  split
  · rename_i first second rest
    split
    · rw [List.dropLast_cons_cons]
      simp
    · rfl
  · rfl

/-- Members split at the first least one. -/
theorem canonicalize_of_split (hbody : body cycle = before ++ m :: after)
    (hbefore : ∀ x ∈ before, m < x) (hafter : ∀ x ∈ after, m ≤ x) :
    canonicalize cycle = m :: (after ++ before ++ [m]) := by
  obtain ⟨first, rest, hcons⟩ : ∃ first rest, before ++ m :: after = first :: rest := by
    cases before with
    | nil => exact ⟨m, after, rfl⟩
    | cons y before => exact ⟨y, before ++ m :: after, rfl⟩
  have hle : ∀ x ∈ before ++ m :: after, m ≤ x := by
    intro x hx
    rcases List.mem_append.mp hx with hx | hx
    · exact le_of_lt (hbefore x hx)
    · rcases List.mem_cons.mp hx with rfl | hx
      · exact le_refl _
      · exact hafter x hx
  have hleast : least first rest = m := by
    have hmem := least_mem first rest
    rw [← hcons] at hmem
    apply le_antisymm _ (hle _ hmem)
    exact least_le first rest m (hcons ▸ List.mem_append_right _ List.mem_cons_self)
  have hne : ∀ x ∈ before, decide (x ≠ m) = true := fun x hx =>
    decide_eq_true (ne_of_gt (hbefore x hx))
  unfold canonicalize
  rw [hbody, hcons]
  simp only [hleast]
  rw [← hcons, List.dropWhile_append_of_pos hne, List.takeWhile_append_of_pos hne]
  simp

theorem exists_split (h : l ≠ []) : ∃ before m after, l = before ++ m :: after ∧
    (∀ x ∈ before, m < x) ∧ ∀ x ∈ after, m ≤ x := by
  induction l with
  | nil => exact absurd rfl h
  | cons y l ih =>
    by_cases hl : l = []
    · exact ⟨[], y, [], by rw [hl]; rfl, by simp, by simp⟩
    · obtain ⟨before, m, after, rfl, hbefore, hafter⟩ := ih hl
      rcases lt_or_ge m y with hlt | hge
      · refine ⟨y :: before, m, after, rfl, fun x hx => ?_, hafter⟩
        rcases List.mem_cons.mp hx with rfl | hx
        · exact hlt
        · exact hbefore x hx
      · refine ⟨[], y, before ++ m :: after, rfl, by simp, fun x hx => ?_⟩
        rcases List.mem_append.mp hx with hx | hx
        · exact le_trans hge (le_of_lt (hbefore x hx))
        · rcases List.mem_cons.mp hx with rfl | hx
          · exact hge
          · exact le_trans hge (hafter x hx)

theorem exists_canonicalize (h : cycle ≠ []) :
    ∃ before m after, body cycle = before ++ m :: after ∧
      canonicalize cycle = m :: (after ++ before ++ [m]) ∧ ∀ y ∈ after ++ before, m ≤ y := by
  obtain ⟨before, m, after, hbody, hbefore, hafter⟩ := exists_split (mt body_eq_nil_iff.mp h)
  refine ⟨before, m, after, hbody, canonicalize_of_split hbody hbefore hafter, fun y hy => ?_⟩
  rcases List.mem_append.mp hy with hy | hy
  · exact hafter y hy
  · exact le_of_lt (hbefore y hy)

theorem canonicalize_of_nodup (hn : (x :: l).Nodup) :
    ∃ m r, canonicalize (x :: l) = m :: (r ++ [m]) ∧ (m :: r).Perm (x :: l) ∧ (∀ y ∈ r, m < y) ∧
      (walkEdges (canonicalize (x :: l))).Perm (walkEdges (x :: (l ++ [x]))) := by
  obtain ⟨before, m, after, hbody, hcanonical, hle⟩ := exists_canonicalize (List.cons_ne_nil x l)
  rw [body_of_nodup hn] at hbody
  have hperm : (m :: (after ++ before)).Perm (x :: l) := by
    rw [hbody, ← List.cons_append]
    exact List.perm_append_comm
  refine ⟨m, after ++ before, hcanonical, hperm, fun y hy => ?_, ?_⟩
  · apply lt_of_le_of_ne (hle y hy)
    rintro rfl
    exact (List.nodup_cons.mp (hperm.symm.nodup hn)).1 hy
  · rw [hcanonical]
    exact walkEdges_rotate_perm before m after hbody.symm

theorem canonicalize_closed (h : ∀ y ∈ l, m ≤ y) :
    canonicalize (m :: (l ++ [m])) = m :: (l ++ [m]) := by
  have hbody : body (m :: (l ++ [m])) = [] ++ m :: l := body_closed m l
  have hfixed := canonicalize_of_split hbody (by simp) h
  rwa [List.append_nil] at hfixed

theorem exists_isRotated_body (h : cycle ≠ []) :
    ∃ m r, canonicalize cycle = m :: (r ++ [m]) ∧ (m :: r) ~r body cycle ∧ ∀ y ∈ r, m ≤ y := by
  obtain ⟨before, m, after, hbody, hcanonical, hle⟩ := exists_canonicalize h
  refine ⟨m, after ++ before, hcanonical, ?_, hle⟩
  rw [hbody, ← List.cons_append]
  exact List.isRotated_append

@[simp] theorem canonicalize_nil : canonicalize ([] : List α) = [] := rfl

@[simp] theorem canonicalize_eq_nil_iff : canonicalize cycle = [] ↔ cycle = [] := by
  constructor
  · intro hnil
    by_contra h
    obtain ⟨m, r, heq, -⟩ := exists_isRotated_body h
    rw [heq] at hnil
    exact List.cons_ne_nil _ _ hnil
  · rintro rfl
    rfl

/-- Repeats do no harm here: the first least member of a canonical form stands at its front. -/
theorem canonicalize_canonicalize (cycle : List α) :
    canonicalize (canonicalize cycle) = canonicalize cycle := by
  by_cases h : cycle = []
  · rw [h, canonicalize_nil, canonicalize_nil]
  · obtain ⟨m, r, heq, -, hle⟩ := exists_isRotated_body h
    rw [heq]
    exact canonicalize_closed hle

omit [LinearOrder α] in
theorem tail_eq_of_isRotated (hn : (m :: r).Nodup) (h : (m :: r) ~r (m :: s)) : r = s := by
  obtain ⟨n, hlen, hrotate⟩ := List.isRotated_iff_mod.mp h
  rw [List.rotate_eq_drop_append_take hlen] at hrotate
  cases n with
  | zero => simpa using hrotate
  | succ n =>
    rw [List.drop_succ_cons, List.take_succ_cons] at hrotate
    cases hdrop : r.drop n with
    | nil =>
      rw [hdrop, List.nil_append, List.take_of_length_le (List.drop_eq_nil_iff.mp hdrop)] at hrotate
      exact (List.cons.inj hrotate).2
    | cons y rest =>
      -- the rotation would start at a second copy of the head
      rw [hdrop, List.cons_append] at hrotate
      have hy : y ∈ r := List.mem_of_mem_drop (hdrop ▸ List.mem_cons_self)
      rw [(List.cons.inj hrotate).1] at hy
      exact absurd hy (List.nodup_cons.mp hn).1

theorem canonicalize_eq_iff (hx : cycle.Nodup) (hy : l.Nodup) :
    canonicalize cycle = canonicalize l ↔ cycle ~r l := by
  rcases eq_or_ne l [] with rfl | hl
  · rw [canonicalize_nil, canonicalize_eq_nil_iff, List.isRotated_nil_iff]
  rcases eq_or_ne cycle [] with rfl | hcycle
  · rw [canonicalize_nil, eq_comm, canonicalize_eq_nil_iff, List.isRotated_nil_iff', eq_comm]
  obtain ⟨m, r, hm, hrotateCycle, hleast⟩ := exists_isRotated_body hcycle
  obtain ⟨n, s, hn, hrotateList, hleast'⟩ := exists_isRotated_body hl
  rw [body_of_nodup hx] at hrotateCycle
  rw [body_of_nodup hy] at hrotateList
  rw [hm, hn]
  constructor
  · intro heq
    obtain ⟨rfl, htail⟩ := List.cons.inj heq
    rw [List.append_cancel_right htail] at hrotateCycle
    exact hrotateCycle.symm.trans hrotateList
  · intro hrotate
    have hsame : (m :: r) ~r (n :: s) := (hrotateCycle.trans hrotate).trans hrotateList.symm
    -- each least member is among the other's members
    obtain rfl : m = n := by
      apply le_antisymm
      · rcases List.mem_cons.mp (hsame.mem_iff.mpr List.mem_cons_self) with h | h
        · exact le_of_eq h.symm
        · exact hleast n h
      · rcases List.mem_cons.mp (hsame.mem_iff.mp List.mem_cons_self) with h | h
        · exact le_of_eq h.symm
        · exact hleast' m h
    rw [tail_eq_of_isRotated (hrotateCycle.nodup_iff.mpr hx) hsame]

theorem canonicalize_close (hn : (x :: l).Nodup) :
    canonicalize (x :: l ++ [x]) = canonicalize (x :: l) := by
  have hbody : body (x :: l ++ [x]) = body (x :: l) := by
    rw [body_of_nodup hn, List.cons_append, body_closed]
  unfold canonicalize
  rw [hbody]

theorem canonicalize_decides_rotation (x y : List α) :
    canonicalize (canonicalize x) = canonicalize x ∧
    (canonicalize x = [] ↔ x = []) ∧
    (x.Nodup → y.Nodup → (canonicalize x = canonicalize y ↔ x ~r y)) ∧
    ∀ h : x ≠ [], x.Nodup → canonicalize (x ++ [x.head h]) = canonicalize x := by
  refine ⟨canonicalize_canonicalize x, canonicalize_eq_nil_iff, canonicalize_eq_iff, ?_⟩
  intro h hn
  cases x with
  | nil => exact absurd rfl h
  | cons first rest => exact canonicalize_close hn

theorem canonicalize_decides_rotation_three :
    canonicalize [2, 3, 1] = canonicalize [3, 1, 2] ∧
    canonicalize [2, 3, 1] ≠ canonicalize [3, 2, 1] ∧
    canonicalize [2, 3, 1, 2] = canonicalize [2, 3, 1] := by
  obtain ⟨-, -, hrotated, hclosed⟩ := canonicalize_decides_rotation [2, 3, 1] [3, 1, 2]
  obtain ⟨-, -, hother, -⟩ := canonicalize_decides_rotation [2, 3, 1] [3, 2, 1]
  refine ⟨(hrotated (by decide) (by decide)).mpr ⟨1, rfl⟩, ?_, hclosed (by decide) (by decide)⟩
  rw [Ne, hother (by decide) (by decide)]
  decide

end DependencyAtlas.Cycle
