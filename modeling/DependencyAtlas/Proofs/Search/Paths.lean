import Mathlib.Data.List.Infix
import Mathlib.Data.List.Lex
import Mathlib.Data.List.Nodup
import Mathlib.Data.Prod.Lex
import Mathlib.Logic.Relation
import Mathlib.Order.Bounds.Basic
import Mathlib.Order.Defs.LinearOrder
import Mathlib.Order.Nat

/-!
# Paths

A path lists the vertices from one end to the other. Among the shortest paths between two vertices
the first is the least one by the order of the vertices; it is the least of all paths when a shorter
list is less than a longer one.
-/

namespace DependencyAtlas

variable {α β : Type} {R S : α → α → Prop} {x u v w : α} {p q : List α}

/-- The list leads from `x` to a vertex along a relation. -/
inductive PathTo (R : α → α → Prop) (x : α) : α → List α → Prop
  | here : PathTo R x x [x]
  | step {u v : α} {p : List α} : PathTo R x u p → R u v → PathTo R x v (p ++ [v])

/-- The vertices of a path between its ends. -/
def interior (p : List α) : List α :=
  p.tail.dropLast

/-- A shortest path that no path of its length comes before. -/
structure FirstShortest [LT α] (R : α → α → Prop) (x y : α) (p : List α) : Prop where
  path : PathTo R x y p
  shortest : ∀ q, PathTo R x y q → p.length ≤ q.length
  first : ∀ q, PathTo R x y q → q.length = p.length → ¬ q < p

namespace PathTo

theorem ne_nil (h : PathTo R x v p) : p ≠ [] := by
  cases h with
  | here => exact List.cons_ne_nil _ _
  | step _ _ => exact List.append_ne_nil_of_right_ne_nil _ (List.cons_ne_nil _ _)

theorem getLast? (h : PathTo R x v p) : p.getLast? = some v := by
  cases h with
  | here => rfl
  | step _ _ => exact List.getLast?_concat

theorem last_eq (h : PathTo R x v p) (h' : PathTo S u w p) : v = w :=
  Option.some.inj (h.getLast?.symm.trans h'.getLast?)

theorem eq_pair (h : PathTo R x v p) (hlength : p.length = 2) : p = [x, v] ∧ R x v := by
  cases h with
  | here => simp at hlength
  | step hq huv =>
    cases hq with
    | here => exact ⟨rfl, huv⟩
    | step hr _ =>
      have hpos := List.length_pos_iff.mpr hr.ne_nil
      simp only [List.length_append, List.length_singleton] at hlength
      omega

theorem imp (hRS : ∀ a b, R a b → S a b) (h : PathTo R x v p) : PathTo S x v p := by
  induction h with
  | here => exact .here
  | step _ huv ih => exact .step ih (hRS _ _ huv)

theorem map {S : β → β → Prop} (f : α → β) (hRS : ∀ a b, R a b → S (f a) (f b))
    (h : PathTo R x v p) : PathTo S (f x) (f v) (p.map f) := by
  induction h with
  | here => exact .here
  | step _ huv ih =>
    rw [List.map_append]
    exact .step ih (hRS _ _ huv)

/-- The vertices of a path keep to a set that the relation does not leave. -/
theorem forall_mem {P : α → Prop} (hx : P x) (hR : ∀ a b, R a b → P b) (h : PathTo R x v p) :
    ∀ a ∈ p, P a := by
  induction h with
  | here => exact List.forall_mem_singleton.mpr hx
  | step _ huv ih => exact List.forall_mem_append.mpr ⟨ih, List.forall_mem_singleton.mpr (hR _ _ huv)⟩

/-- A path in the image of a map comes from a path, if each step can be lifted. -/
theorem exists_lift {P : β → Prop} {f : β → α} {S : β → β → Prop} {i : β} (hi : P i)
    (hS : ∀ u, P u → ∀ b, R (f u) b → ∃ w, P w ∧ f w = b ∧ S u w) (h : PathTo R (f i) v p) :
    ∃ w q, P w ∧ f w = v ∧ PathTo S i w q ∧ q.map f = p := by
  induction h with
  | here => exact ⟨i, [i], hi, rfl, .here, rfl⟩
  | step _ huv ih =>
    obtain ⟨u, q, hu, rfl, hq, rfl⟩ := ih
    obtain ⟨w, hw, rfl, huw⟩ := hS u hu _ huv
    exact ⟨w, q ++ [w], hw, rfl, .step hq huw, by simp⟩

theorem head (hxu : R x u) (h : PathTo R u v p) : PathTo R x v (x :: p) := by
  induction h with
  | here => exact .step .here hxu
  | step _ hvw ih => exact .step ih hvw

theorem swap (h : PathTo R x v p) : PathTo (fun a b => R b a) v x p.reverse := by
  induction h with
  | here => exact .here
  | step _ huv ih =>
    rw [List.reverse_append]
    exact ih.head huv

/-- Where each vertex is entered from one other at most, the path to it is the only one. -/
theorem unique (h : PathTo R x v p) (h' : PathTo R x v q)
    (hR : ∀ a b c, R a c → R b c → a = b) (hx : ∀ a, ¬ R a x) : p = q := by
  induction h generalizing q with
  | here =>
    cases h' with
    | here => rfl
    | step _ hux => exact absurd hux (hx _)
  | step _ huv ih =>
    cases h' with
    | here => exact absurd huv (hx _)
    | step hq hwv =>
      rw [ih (hR _ _ _ hwv huv ▸ hq)]

theorem exists_of_mem (h : PathTo R x v p) (hu : u ∈ p) :
    ∃ q, PathTo R x u q ∧ q.length ≤ p.length := by
  induction h with
  | here =>
    rw [List.mem_singleton] at hu
    exact ⟨_, hu ▸ .here, Nat.le_refl _⟩
  | step hp hwv ih =>
    rcases List.mem_append.mp hu with hu | hu
    · obtain ⟨q, hq, hle⟩ := ih hu
      exact ⟨q, hq, by rw [List.length_append]; omega⟩
    · rw [List.mem_singleton.mp hu]
      exact ⟨_, .step hp hwv, Nat.le_refl _⟩

theorem nodup (h : PathTo R x v p) (hR : ∀ a b c, R a c → R b c → a = b) (hx : ∀ a, ¬ R a x) :
    p.Nodup := by
  induction h with
  | here => exact List.pairwise_singleton _ x
  | @step u v p hp huv ih =>
    refine List.nodup_append.mpr ⟨ih, List.pairwise_singleton _ v, fun a ha b hb hab => ?_⟩
    rw [List.mem_singleton.mp hb] at hab
    obtain ⟨q, hq, hle⟩ := hp.exists_of_mem (hab ▸ ha)
    have hlength := congrArg List.length (hq.unique (.step hp huv) hR hx)
    rw [List.length_append, List.length_singleton] at hlength
    omega

/-- Beyond its start a path without repeats enters each vertex from another one. -/
theorem exists_before (h : PathTo R x v p) (hn : p.Nodup) (hu : u ∈ p.tail) :
    ∃ a, a ≠ u ∧ R a u := by
  induction h with
  | here => exact absurd hu List.not_mem_nil
  | @step a v p hp hav ih =>
    obtain ⟨hnp, -, hdisjoint⟩ := List.nodup_append.mp hn
    rw [List.tail_append_of_ne_nil hp.ne_nil] at hu
    rcases List.mem_append.mp hu with hu | hu
    · exact ih hnp hu
    · obtain rfl := List.mem_singleton.mp hu
      exact ⟨a, hdisjoint a (List.mem_of_getLast? hp.getLast?) _ hu, hav⟩

theorem exists_after (h : PathTo R x v p) (hn : p.Nodup) (hu : u ∈ p.dropLast) :
    ∃ b, b ≠ u ∧ R u b := by
  apply h.swap.exists_before (List.nodup_reverse.mpr hn)
  rwa [List.tail_reverse, List.mem_reverse]

/-- Inside a path without repeats each vertex has another one on either side. -/
theorem exists_neighbours (h : PathTo R x v p) (hn : p.Nodup) (hu : u ∈ interior p) :
    (∃ a, a ≠ u ∧ R a u) ∧ ∃ b, b ≠ u ∧ R u b := by
  have htail : u ∈ p.tail := List.mem_of_mem_dropLast hu
  have hdropLast : u ∈ p.dropLast := by
    rw [interior, ← List.tail_dropLast] at hu
    exact List.mem_of_mem_tail hu
  exact ⟨h.exists_before hn htail, h.exists_after hn hdropLast⟩

end PathTo

theorem PathTo.reflTransGen (h : PathTo R x v p) : Relation.ReflTransGen R x v := by
  induction h with
  | here => exact .refl
  | step _ huv ih => exact ih.tail huv

theorem exists_path (h : Relation.ReflTransGen R x v) : ∃ p, PathTo R x v p := by
  induction h with
  | refl => exact ⟨[x], .here⟩
  | tail _ huv ih =>
    obtain ⟨p, hp⟩ := ih
    exact ⟨_, .step hp huv⟩

theorem interior_concat (hp : p ≠ []) (v : α) : interior (p ++ [v]) = p.tail := by
  rw [interior, List.tail_append_of_ne_nil hp, List.dropLast_concat]

/-- The shortest paths from one vertex to another take `n` steps. -/
def StepsApart (R : α → α → Prop) (x v : α) (n : Nat) : Prop :=
  IsLeast {k | ∃ p, PathTo R x v p ∧ p.length = k + 1} n

theorem StepsApart.unique {m n : Nat} (hm : StepsApart R x v m) (hn : StepsApart R x v n) : m = n :=
  IsLeast.unique hm hn

theorem exists_stepsApart (h : Relation.ReflTransGen R x v) : ∃ n, StepsApart R x v n := by
  obtain ⟨p, hp⟩ := exists_path h
  have hpos := List.length_pos_iff.mpr hp.ne_nil
  have hsteps : ∃ k, ∃ p, PathTo R x v p ∧ p.length = k + 1 := ⟨p.length - 1, p, hp, by omega⟩
  classical
  exact ⟨_, Nat.find_spec hsteps, fun _ hk => Nat.find_min' hsteps hk⟩

theorem StepsApart.length_eq {n : Nat} (hn : StepsApart R x v n) (h : PathTo R x v p)
    (hshortest : ∀ q, PathTo R x v q → p.length ≤ q.length) : p.length = n + 1 := by
  obtain ⟨q, hq, hlength⟩ := hn.1
  have hpos := List.length_pos_iff.mpr h.ne_nil
  have hle := hshortest q hq
  have hge := hn.2 ⟨p, h, (Nat.succ_pred_eq_of_pos hpos).symm⟩
  rw [Nat.pred_eq_sub_one] at hge
  omega

theorem stepsApart_congr {y z : β} {S : β → β → Prop}
    (h : ∀ k, (∃ p, PathTo R x v p ∧ p.length = k) ↔ ∃ q, PathTo S y z q ∧ q.length = k) (n : Nat) :
    StepsApart R x v n ↔ StepsApart S y z n := by
  simp only [StepsApart, h]

theorem stepsApart_swap (n : Nat) :
    StepsApart (fun a b => R b a) v x n ↔ StepsApart R x v n := by
  apply stepsApart_congr
  intro k
  constructor
  · rintro ⟨p, hp, rfl⟩
    exact ⟨p.reverse, hp.swap, List.length_reverse⟩
  · rintro ⟨p, hp, rfl⟩
    exact ⟨p.reverse, hp.swap, List.length_reverse⟩

section Order

variable [LinearOrder α]

theorem map_lt_map [LinearOrder β] {f : α → β} (hf : ∀ a ∈ p, ∀ b ∈ q, a < b → f a < f b)
    (h : p < q) : p.map f < q.map f := by
  induction p generalizing q with
  | nil =>
    cases q with
    | nil => exact absurd h (lt_irrefl _)
    | cons b q => exact List.nil_lt_cons _ _
  | cons a p ih =>
    cases q with
    | nil => exact absurd h (List.not_lt_nil _)
    | cons b q =>
      rw [List.map_cons, List.map_cons, List.cons_lt_cons_iff]
      rcases List.cons_lt_cons_iff.mp h with hab | ⟨rfl, hpq⟩
      · exact .inl (hf a List.mem_cons_self b List.mem_cons_self hab)
      · refine .inr ⟨rfl, ih (fun c hc d hd => ?_) hpq⟩
        exact hf c (List.mem_cons_of_mem a hc) d (List.mem_cons_of_mem a hd)

theorem concat_lt_concat (hlength : p.length = q.length) (h : p < q) (v w : α) :
    p ++ [v] < q ++ [w] := by
  induction p generalizing q with
  | nil =>
    rw [List.eq_nil_of_length_eq_zero hlength.symm] at h
    exact absurd h (lt_irrefl _)
  | cons a p ih =>
    cases q with
    | nil => exact absurd h (List.not_lt_nil _)
    | cons b q =>
      rw [List.cons_append, List.cons_append, List.cons_lt_cons_iff]
      rcases List.cons_lt_cons_iff.mp h with hab | ⟨rfl, hpq⟩
      · exact .inl hab
      · exact .inr ⟨rfl, ih (Nat.succ.inj hlength) hpq⟩

/-- Shorter lists come first, and lists of one length in the order of their members. -/
def rank (p : List α) : ℕ ×ₗ List α :=
  toLex (p.length, p)

theorem rank_lt_iff : rank p < rank q ↔ p.length < q.length ∨ p.length = q.length ∧ p < q :=
  Prod.Lex.toLex_lt_toLex

theorem rank_le_iff : rank p ≤ rank q ↔ p.length < q.length ∨ p.length = q.length ∧ p ≤ q :=
  Prod.Lex.toLex_le_toLex

theorem rank_concat_lt (h : rank p < rank q) (v w : α) : rank (p ++ [v]) < rank (q ++ [w]) := by
  rw [rank_lt_iff, List.length_append, List.length_append, List.length_singleton,
    List.length_singleton]
  rcases rank_lt_iff.mp h with hlength | ⟨hlength, hlt⟩
  · exact .inl (Nat.succ_lt_succ hlength)
  · exact .inr ⟨congrArg (· + 1) hlength, concat_lt_concat hlength hlt v w⟩

theorem rank_concat_le (h : rank p ≤ rank q) (v : α) : rank (p ++ [v]) ≤ rank (q ++ [v]) := by
  rcases lt_or_eq_of_le h with hlt | heq
  · exact (rank_concat_lt hlt v v).le
  · rw [show p = q from congrArg (fun r => (ofLex r).2) heq]

theorem rank_concat_lt_of_lt (p : List α) (h : v < w) : rank (p ++ [v]) < rank (p ++ [w]) := by
  refine rank_lt_iff.mpr (.inr ⟨by simp, List.append_left_lt ?_⟩)
  exact List.cons_lt_cons_iff.mpr (.inl h)

/-- The least path by rank is the first of the shortest ones. -/
theorem firstShortest_of_rank (h : PathTo R x v p) (hle : ∀ q, PathTo R x v q → rank p ≤ rank q) :
    FirstShortest R x v p := by
  refine ⟨h, fun q hq => ?_, fun q hq hlength => ?_⟩
  · rcases rank_le_iff.mp (hle q hq) with hlt | ⟨heq, -⟩
    · exact hlt.le
    · exact heq.le
  · rcases rank_le_iff.mp (hle q hq) with hlt | ⟨-, hpq⟩
    · exact absurd hlength hlt.ne'
    · exact not_lt_of_ge hpq

theorem FirstShortest.unique (h : FirstShortest R x v p) (h' : FirstShortest R x v q) : p = q := by
  have hlength := Nat.le_antisymm (h.shortest q h'.path) (h'.shortest p h.path)
  exact le_antisymm (le_of_not_gt (h.first q h'.path hlength.symm))
    (le_of_not_gt (h'.first p h.path hlength))

/-- The first path to one vertex comes before the first path to another one. -/
def ReachedBefore (R : α → α → Prop) (x u v : α) : Prop :=
  ∃ p q, FirstShortest R x u p ∧ FirstShortest R x v q ∧ rank p < rank q

theorem ReachedBefore.asymm (h : ReachedBefore R x u v) : ¬ ReachedBefore R x v u := by
  rintro ⟨q', p', hq', hp', hlt'⟩
  obtain ⟨p, q, hp, hq, hlt⟩ := h
  rw [hp'.unique hp, hq'.unique hq] at hlt'
  exact lt_asymm hlt hlt'

section Renaming

variable [LinearOrder β] {P : β → Prop} {S : β → β → Prop} {f : β → α} {i j k : β} {r r' : List β}

theorem rank_map_lt (hf : ∀ a ∈ r, ∀ b ∈ r', a < b → f a < f b) (h : rank r < rank r') :
    rank (r.map f) < rank (r'.map f) := by
  rw [rank_lt_iff, List.length_map, List.length_map]
  rcases rank_lt_iff.mp h with hlt | ⟨heq, hlt⟩
  · exact .inl hlt
  · exact .inr ⟨heq, map_lt_map hf hlt⟩

variable (hi : P i) (hP : ∀ u v, S u v → P v) (hf : ∀ a b, P a → P b → a < b → f a < f b)
  (hS : ∀ u v, S u v → R (f u) (f v)) (hR : ∀ u, P u → ∀ b, R (f u) b → ∃ w, f w = b ∧ S u w)

include hi hP hf hS hR

/-- Names that are ordered like the vertices have the same first paths. -/
theorem FirstShortest.map (h : FirstShortest S i j r) :
    FirstShortest R (f i) (f j) (r.map f) := by
  have hmem {v : β} {q : List β} (hq : PathTo S i v q) : ∀ a ∈ q, P a := hq.forall_mem hi hP
  have hinjective {a b : β} (ha : P a) (hb : P b) (he : f a = f b) : a = b := by
    rcases lt_trichotomy a b with hab | hab | hba
    · exact absurd he (hf a b ha hb hab).ne
    · exact hab
    · exact absurd he (hf b a hb ha hba).ne'
  have hlift {names : List α} (hnames : PathTo R (f i) (f j) names) :
      ∃ q, PathTo S i j q ∧ q.map f = names := by
    obtain ⟨w, q, hw, hwj, hq, hmap⟩ := hnames.exists_lift (P := P) hi fun u hu b hb => by
      obtain ⟨w, hwb, huw⟩ := hR u hu b hb
      exact ⟨w, hP u w huw, hwb, huw⟩
    have hj : P j := hmem h.path j (List.mem_of_getLast? h.path.getLast?)
    exact ⟨q, hinjective hw hj hwj ▸ hq, hmap⟩
  refine ⟨h.path.map f hS, fun names hnames => ?_, fun names hnames hlength => ?_⟩
  · obtain ⟨q, hq, rfl⟩ := hlift hnames
    rw [List.length_map, List.length_map]
    exact h.shortest q hq
  · obtain ⟨q, hq, rfl⟩ := hlift hnames
    rw [List.length_map, List.length_map] at hlength
    rcases eq_or_lt_of_le (le_of_not_gt (h.first q hq hlength)) with rfl | hlt
    · exact lt_irrefl _
    · refine not_lt_of_gt (map_lt_map (fun a ha b hb => ?_) hlt)
      exact hf a b (hmem h.path a ha) (hmem hq b hb)

theorem ReachedBefore.map (h : ReachedBefore S i j k) : ReachedBefore R (f i) (f j) (f k) := by
  obtain ⟨p, q, hp, hq, hlt⟩ := h
  refine ⟨p.map f, q.map f, hp.map hi hP hf hS hR, hq.map hi hP hf hS hR, rank_map_lt ?_ hlt⟩
  intro a ha b hb
  exact hf a b (hp.path.forall_mem hi hP a ha) (hq.path.forall_mem hi hP b hb)

end Renaming

end Order

end DependencyAtlas
