import Mathlib.Data.List.Chain

/-!
# Closed walks

A walk is the list of the vertices that it passes; its edges are the consecutive pairs. A relation
is acyclic when no walk of at least one edge returns to its start. The vertices of a closed walk can
all be reached from each other.
-/

namespace DependencyAtlas

variable {α β : Type} {R S : α → α → Prop} {a b x : α} {walk : List α}

def walkEdges (walk : List α) : List (α × α) :=
  walk.zip walk.tail

/-- A walk of at least one edge that ends where it starts. -/
structure ClosedWalk (R : α → α → Prop) (walk : List α) : Prop where
  two_le_length : 2 ≤ walk.length
  closed : walk.head? = walk.getLast?
  chain : walk.IsChain R

def Acyclic (R : α → α → Prop) : Prop :=
  ∀ walk : List α, ¬ ClosedWalk R walk

theorem walkEdges_cons_cons (a b : α) (l : List α) :
    walkEdges (a :: b :: l) = (a, b) :: walkEdges (b :: l) := rfl

theorem walkEdges_append_cons (l : List α) (a : α) (r : List α) :
    walkEdges (l ++ a :: r) = walkEdges (l ++ [a]) ++ walkEdges (a :: r) := by
  induction l with
  | nil => rfl
  | cons b l ih =>
    cases l with
    | nil => rfl
    | cons c l =>
      simp only [List.cons_append, walkEdges_cons_cons] at ih ⊢
      rw [ih]

theorem isChain_iff_forall_edges : walk.IsChain R ↔ ∀ e ∈ walkEdges walk, R e.1 e.2 := by
  induction walk with
  | nil => simp [walkEdges]
  | cons a l ih =>
    cases l with
    | nil => simp [walkEdges]
    | cons b l => rw [List.isChain_cons_cons, walkEdges_cons_cons, List.forall_mem_cons, ih]

theorem mem_of_mem_walkEdges (h : (a, b) ∈ walkEdges walk) : a ∈ walk ∧ b ∈ walk := by
  obtain ⟨ha, hb⟩ := List.of_mem_zip h
  exact ⟨ha, List.mem_of_mem_tail hb⟩

theorem walkEdges_map (f : α → β) (walk : List α) :
    walkEdges (walk.map f) = (walkEdges walk).map (Prod.map f f) := by
  rw [walkEdges, walkEdges, ← List.map_tail, List.zip_map]

theorem walkEdges_rotate_perm (before : List α) (m : α) (after : List α) {first : α}
    {rest : List α} (h : before ++ m :: after = first :: rest) :
    (walkEdges (m :: (after ++ before ++ [m]))).Perm (walkEdges (first :: (rest ++ [first]))) := by
  cases before with
  | nil =>
    obtain ⟨rfl, rfl⟩ := List.cons.inj h
    rw [List.append_nil]
  | cons y before =>
    have hfirst : first = y := (List.cons.inj h).1.symm
    have hrest : rest = before ++ m :: after := (List.cons.inj h).2.symm
    have hleft : m :: (after ++ y :: before ++ [m]) = (m :: after) ++ y :: (before ++ [m]) := by
      simp
    have hright : y :: (before ++ m :: after ++ [y]) = (y :: before) ++ m :: (after ++ [y]) := by
      simp
    rw [hfirst, hrest, hleft, hright, walkEdges_append_cons, walkEdges_append_cons (y :: before)]
    simp only [List.cons_append]
    exact List.perm_append_comm

theorem closedWalk_iff :
    ClosedWalk R walk ↔ ∃ x l, walk = x :: (l ++ [x]) ∧ (x :: (l ++ [x])).IsChain R := by
  constructor
  · rintro ⟨htwo, hclosed, hchain⟩
    cases walk with
    | nil => simp at htwo
    | cons x r =>
      cases hr : r.reverse with
      | nil => simp_all
      | cons y l =>
        obtain rfl : r = l.reverse ++ [y] := by
          rw [← List.reverse_reverse r, hr, List.reverse_cons]
        rw [← List.cons_append, List.getLast?_concat, List.cons_append, List.head?_cons,
          Option.some.injEq] at hclosed
        subst hclosed
        exact ⟨x, l.reverse, rfl, hchain⟩
  · rintro ⟨x, l, rfl, hchain⟩
    refine ⟨by simp, ?_, hchain⟩
    rw [← List.cons_append, List.getLast?_concat]
    rfl

namespace ClosedWalk

theorem imp (h : ClosedWalk R walk) (hRS : ∀ e ∈ walkEdges walk, S e.1 e.2) : ClosedWalk S walk :=
  ⟨h.two_le_length, h.closed, isChain_iff_forall_edges.mpr hRS⟩

theorem map {S : β → β → Prop} (f : α → β) (h : ClosedWalk R walk)
    (hRS : ∀ e ∈ walkEdges walk, S (f e.1) (f e.2)) : ClosedWalk S (walk.map f) := by
  refine ⟨by simpa using h.two_le_length, ?_, ?_⟩
  · rw [List.head?_map, List.getLast?_map, h.closed]
  · rw [isChain_iff_forall_edges, walkEdges_map, List.forall_mem_map]
    exact hRS

theorem reach_of_head {l : List α} (h : (x :: l).IsChain R) (ha : a ∈ x :: l) :
    Relation.ReflTransGen R x a := by
  apply h.induction (Relation.ReflTransGen R x) _ _ _ a ha
  · intro b c hbc hb
    exact hb.tail hbc
  · intro _
    exact Relation.ReflTransGen.refl

theorem reach_of_last {l : List α} (h : (l ++ [x]).IsChain R) (ha : a ∈ l ++ [x]) :
    Relation.ReflTransGen R a x := by
  apply h.backwards_induction (Relation.ReflTransGen R · x) _ _ _ a ha
  · intro b c hbc hc
    exact hc.head hbc
  · intro _
    rw [List.getLast_concat]

theorem reach (h : ClosedWalk R walk) (ha : a ∈ walk) (hb : b ∈ walk) :
    Relation.ReflTransGen R a b := by
  obtain ⟨x, l, rfl, hchain⟩ := closedWalk_iff.mp h
  have hax : Relation.ReflTransGen R a x := by
    rw [← List.cons_append] at ha hchain
    exact reach_of_last hchain ha
  exact hax.trans (reach_of_head hchain hb)

theorem transGen (h : ClosedWalk R walk) (ha : a ∈ walk) : Relation.TransGen R a a := by
  obtain ⟨x, y, l, rfl, hxy⟩ : ∃ x y l, walk = x :: y :: l ∧ R x y := by
    obtain ⟨x, l, rfl, hchain⟩ := closedWalk_iff.mp h
    cases l with
    | nil => exact ⟨x, x, [], rfl, List.isChain_pair.mp hchain⟩
    | cons y l => exact ⟨x, y, l ++ [x], rfl, (List.isChain_cons_cons.mp hchain).1⟩
  have hax := h.reach ha List.mem_cons_self
  have hya := h.reach (List.mem_cons_of_mem _ List.mem_cons_self) ha
  exact ((Relation.TransGen.single hxy).trans_right hax).trans_left hya

end ClosedWalk

theorem exists_closedWalk (h : Relation.TransGen R x x) : ∃ walk, ClosedWalk R walk ∧ x ∈ walk := by
  obtain ⟨y, hxy, hyx⟩ := Relation.TransGen.head'_iff.mp h
  obtain ⟨l, hchain, hlast⟩ := List.exists_isChain_cons_of_relationReflTransGen hyx
  refine ⟨x :: y :: l, ⟨by simp, ?_, List.isChain_cons_cons.mpr ⟨hxy, hchain⟩⟩, List.mem_cons_self⟩
  rw [List.getLast?_cons_cons, List.getLast?_eq_some_getLast (List.cons_ne_nil y l), hlast]
  rfl

theorem acyclic_iff : Acyclic R ↔ ∀ x, ¬ Relation.TransGen R x x := by
  constructor
  · intro h x hx
    obtain ⟨walk, hwalk, -⟩ := exists_closedWalk hx
    exact h walk hwalk
  · intro h walk hwalk
    obtain ⟨x, l, rfl, -⟩ := closedWalk_iff.mp hwalk
    exact h x (hwalk.transGen List.mem_cons_self)

theorem acyclic_of_rank (rank : α → Nat) (h : ∀ a b, R a b → rank b < rank a) : Acyclic R := by
  apply acyclic_iff.mpr
  intro x hx
  have hlt : ∀ {y}, Relation.TransGen R x y → rank y < rank x := by
    intro y hy
    induction hy with
    | single hxy => exact h _ _ hxy
    | tail _ hyz ih => exact Nat.lt_trans (h _ _ hyz) ih
  exact Nat.lt_irrefl _ (hlt hx)

end DependencyAtlas
