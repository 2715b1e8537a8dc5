import DependencyAtlas.Analysis.Bridges
import DependencyAtlas.Proofs.Analysis.Topology
import DependencyAtlas.Proofs.Search.BreadthFirst
import DependencyAtlas.Proofs.Search.Paths
import Mathlib.Data.List.Perm.Subperm

/-!
# First paths

A breadth-first search whose neighbours come in ascending order meets each vertex along the first of
the shortest paths to it: the paths along the parents leave the queue by rank. A search that stops
at a vertex has the same path to it as the search over all of the graph.
-/

namespace DependencyAtlas

namespace BreadthFirst

variable {s t : BreadthFirst} {w : Waiting} {source u v : Nat} {p q : List Nat}

/-- One vertex was first seen from another. -/
def Parent (s : BreadthFirst) (u v : Nat) : Prop :=
  s.parentOf v = some u

def Extends (s t : BreadthFirst) : Prop :=
  ∀ u v, s.Parent u v → t.Parent u v

theorem Parent.unique {u' : Nat} (h : s.Parent u v) (h' : s.Parent u' v) : u = u' :=
  Option.some.inj (h.symm.trans h')

theorem parent_meet_iff {size : Nat} (hs : s.Fits size) (hv : s.hasSeen v = false) {x : Nat} :
    (s.meet w v).Parent u x ↔ (x = v ∧ u = w.vertex) ∨ (x ≠ v ∧ s.Parent u x) := by
  have hlt : v < s.parent.size := hs.parent.trans hs.seen.symm ▸ lt_of_hasSeen_eq_false hv
  rw [Parent, parentOf, meet, if_neg (by simp [hv]), Array.getElem?_setIfInBounds]
  by_cases hx : v = x
  · rw [if_pos hx, if_pos (hx ▸ hlt), Option.getD_some, Option.some.injEq]
    simp [hx, eq_comm]
  · rw [if_neg hx, Parent, parentOf]
    simp [Ne.symm hx]

theorem extends_of_pop? (h : s.pop? = some (w, t)) : s.Extends t := by
  intro u v huv
  rwa [Parent, parentOf, parent_of_pop? h]

theorem walkBack?_of_path (hroot : s.parentOf source = none) (h : PathTo s.Parent source v p)
    {fuel : Nat} (hfuel : p.length ≤ fuel + 1) :
    s.walkBack? source fuel (some v) = some p.tail.reverse := by
  induction h generalizing fuel with
  | here =>
    cases fuel with
    | zero => exact if_pos rfl
    | succ fuel => exact if_pos rfl
  | @step u v p hp huv ih =>
    have hv : v ≠ source := by
      rintro rfl
      exact absurd (hroot.symm.trans huv) (by simp)
    have hpos := List.length_pos_iff.mpr hp.ne_nil
    rw [List.length_append, List.length_singleton] at hfuel
    cases fuel with
    | zero => omega
    | succ fuel =>
      rw [walkBack?, if_neg hv, show s.parentOf v = some u from huv, ih (by omega),
        List.tail_append_of_ne_nil hp.ne_nil, List.reverse_append]
      rfl

theorem interior?_of_path (hroot : s.parentOf source = none) (h : PathTo s.Parent source v p)
    (hv : v ≠ source) (hseen : s.seen[v]?.getD false = true)
    (hfuel : p.length ≤ s.parent.size + 2) :
    s.interior? source v = some (interior p).reverse := by
  cases h with
  | here => exact absurd rfl hv
  | step hp huv =>
    rw [List.length_append, List.length_singleton] at hfuel
    rw [interior?, if_pos hseen, show s.parentOf v = some _ from huv,
      walkBack?_of_path hroot hp (by omega), interior_concat hp.ne_nil]

theorem pairwise_of_forall₂ {α β : Type} {P : α → β → Prop} {R : β → β → Prop} {xs : List α}
    {ys : List β} (h : List.Forall₂ P xs ys) (hys : ys.Pairwise R) :
    xs.Pairwise fun a b => ∃ c d, P a c ∧ P b d ∧ R c d := by
  rw [List.pairwise_iff_getElem] at hys ⊢
  intro i j hi hj hij
  have hi' : i < ys.length := h.length_eq ▸ hi
  have hj' : j < ys.length := h.length_eq ▸ hj
  exact ⟨ys[i], ys[j], h.get hi hi', h.get hj hj', hys i j hi' hj' hij⟩

/-- The paths along the parents to all vertices seen, in the order in which they were seen: first
those to the vertices already taken from the queue, then those to the vertices in it. -/
structure Routes (next : Nat → List Nat) (size source : Nat) (s : BreadthFirst)
    (done waiting : List (List Nat)) : Prop where
  fits : s.Fits size
  lt : ∀ u, ∀ v ∈ next u, v < size
  root : s.parentOf source = none
  parent : ∀ {u v}, s.Parent u v → v ∈ next u ∧ s.hasSeen v = true
  queue : List.Forall₂ (fun w p => PathTo s.Parent source w.vertex p) s.queue waiting
  met : List.Forall₂ (fun v p => PathTo s.Parent source v p) (source :: s.discovered)
    (done ++ waiting)
  path : ∀ p ∈ done ++ waiting, ∃ v < size, PathTo s.Parent source v p
  seen : ∀ v < size, s.hasSeen v = true ↔ ∃ p ∈ done ++ waiting, PathTo s.Parent source v p
  origin : [source] ∈ done ++ waiting
  order : (done ++ waiting).Pairwise fun p q => rank p < rank q
  grown : ∀ p ∈ done ++ waiting, p = [source] ∨ ∃ q ∈ done, ∃ v, p = q ++ [v]

/-- Each neighbour of the last vertex of one of the `ends` has a path that does not come after the one
through this vertex. -/
def Settled (next : Nat → List Nat) (source : Nat) (s : BreadthFirst)
    (routes ends : List (List Nat)) : Prop :=
  ∀ q ∈ ends, ∀ u, q.getLast? = some u → ∀ v ∈ next u,
    ∃ p ∈ routes, PathTo s.Parent source v p ∧ rank p ≤ rank (q ++ [v])

variable {next : Nat → List Nat} {size : Nat} {done waiting routes ends : List (List Nat)}

theorem Settled.mono {routes' : List (List Nat)} (h : Settled next source s routes ends)
    (hst : s.Extends t) (hsub : routes ⊆ routes') : Settled next source t routes' ends := by
  intro q hq u hu v hv
  obtain ⟨p, hp, hpath, hle⟩ := h q hq u hu v hv
  exact ⟨p, hsub hp, hpath.imp hst, hle⟩

namespace Routes

theorem not_parent_source (h : Routes next size source s done waiting) (u : Nat) :
    ¬ s.Parent u source := by
  intro hu
  exact absurd (h.root.symm.trans hu) (by simp)

theorem path_unique (h : Routes next size source s done waiting) (hp : PathTo s.Parent source v p)
    (hq : PathTo s.Parent source v q) : p = q :=
  hp.unique hq (fun _ _ _ => Parent.unique) h.not_parent_source

theorem path_nodup (h : Routes next size source s done waiting) (hp : PathTo s.Parent source v p) :
    p.Nodup :=
  hp.nodup (fun _ _ _ => Parent.unique) h.not_parent_source

theorem start (hlt : ∀ u, ∀ v ∈ next u, v < size) (hsource : source < size) :
    Routes next size source (start size source) [] [[source]] := by
  have hparent (v : Nat) : (BreadthFirst.start size source).parentOf v = none := by
    simp only [parentOf, BreadthFirst.start, Array.getElem?_replicate]
    split <;> rfl
  have hpath (v : Nat) (p : List Nat) :
      PathTo (BreadthFirst.start size source).Parent source v p ↔ v = source ∧ p = [source] := by
    constructor
    · intro h
      cases h with
      | here => exact ⟨rfl, rfl⟩
      | step _ huv => exact absurd ((hparent _).symm.trans huv) (by simp)
    · rintro ⟨rfl, rfl⟩
      exact .here
  refine ⟨fits_start size source, hlt, hparent source,
    fun h => absurd ((hparent _).symm.trans h) (by simp), .cons .here .nil, .cons .here .nil, ?_,
    fun v hv => ?_, by simp, List.pairwise_singleton _ _, fun p hp => .inl (List.mem_singleton.mp hp)⟩
  · intro p hp
    exact ⟨source, hsource, (hpath _ _).mpr ⟨rfl, by simpa using hp⟩⟩
  · have hseen : (BreadthFirst.start size source).hasSeen v = true ↔ source = v := by
      rw [hasSeen, BreadthFirst.start, Array.getElem?_setIfInBounds, Array.size_replicate,
        if_pos hsource, Array.getElem?_replicate, if_pos hv]
      by_cases hvs : source = v <;> simp [hvs]
    simp [hseen, hpath, eq_comm]

theorem pop? (h : Routes next size source s done waiting) (hs : s.pop? = some (w, t)) :
    ∃ q rest, waiting = q :: rest ∧ PathTo t.Parent source w.vertex q ∧
      Routes next size source t (done ++ [q]) rest := by
  have hqueue := h.queue
  rw [queue_of_pop? hs] at hqueue
  cases hqueue with
  | @cons _ q _ rest hq hrest =>
    obtain ⟨hseen, hfound⟩ := seen_of_pop? hs
    have hdiscovered : t.discovered = s.discovered := by
      rw [discovered, discovered, hfound]
    have hparent : t.parentOf = s.parentOf := by
      funext v
      rw [parentOf, parentOf, parent_of_pop? hs]
    have hrel : t.Parent = s.Parent := by
      funext u v
      rw [Parent, Parent, hparent]
    have hhas : t.hasSeen = s.hasSeen := by
      funext v
      rw [hasSeen, hasSeen, hseen]
    have hroutes : done ++ [q] ++ rest = done ++ q :: rest := by simp
    refine ⟨q, rest, rfl, hrel ▸ hq, h.fits.pop? hs, h.lt, ?_, ?_, hrel ▸ hrest, ?_, ?_, ?_, ?_, ?_, ?_⟩
    · rw [hparent, h.root]
    · rw [hrel, hhas]
      exact h.parent
    · rw [hrel, hdiscovered, hroutes]
      exact h.met
    · rw [hrel, hroutes]
      exact h.path
    · rw [hrel, hhas, hroutes]
      exact h.seen
    · rw [hroutes]
      exact h.origin
    · rw [hroutes]
      exact h.order
    · rw [hroutes]
      intro p hp
      rcases h.grown p hp with hp | ⟨q', hq', v, rfl⟩
      · exact .inl hp
      · exact .inr ⟨q', List.mem_append_left _ hq', v, rfl⟩

/-- All paths to vertices in the queue come before the next ones through its first vertex. -/
theorem rank_lt (h : Routes next size source s done (q :: waiting)) (hp : p ∈ done ++ q :: waiting)
    (v : Nat) : rank p < rank (q ++ [v]) := by
  have hq : q ≠ [] := by
    obtain ⟨u, -, hu⟩ := h.path q (by simp)
    exact hu.ne_nil
  rcases h.grown p hp with rfl | ⟨q', hq', v', rfl⟩
  · have hpos := List.length_pos_iff.mpr hq
    refine rank_lt_iff.mpr (.inl ?_)
    rw [List.length_append, List.length_singleton, List.length_singleton]
    omega
  · exact rank_concat_lt ((List.pairwise_append.mp h.order).2.2 q' hq' q List.mem_cons_self) _ _

theorem extends_meet (h : Routes next size source s done waiting) (w : Waiting) (v : Nat) :
    s.Extends (s.meet w v) := by
  intro a b hab
  cases hv : s.hasSeen v with
  | true => rwa [meet_of_hasSeen hv]
  | false =>
    refine (parent_meet_iff h.fits hv).mpr (.inr ⟨?_, hab⟩)
    rintro rfl
    rw [(h.parent hab).2] at hv
    exact absurd hv (by simp)

theorem meet (h : Routes next size source s done waiting) (hq : q ∈ done)
    (hw : PathTo s.Parent source w.vertex q) (hv : v ∈ next w.vertex) (hseen : s.hasSeen v = false)
    (hbefore : ∀ p ∈ done ++ waiting, rank p < rank (q ++ [v])) :
    Routes next size source (s.meet w v) done (waiting ++ [q ++ [v]]) ∧
      PathTo (s.meet w v).Parent source v (q ++ [v]) := by
  have hparent {a b : Nat} : (s.meet w v).Parent a b ↔ _ :=
    parent_meet_iff h.fits hseen
  have hext := h.extends_meet w v
  have hnew : PathTo (s.meet w v).Parent source v (q ++ [v]) :=
    .step (hw.imp hext) (hparent.mpr (.inl ⟨rfl, rfl⟩))
  have hvsize : v < size := h.lt _ v hv
  have hsourceSeen : s.hasSeen source = true := by
    obtain ⟨a, ha, hpath⟩ := h.path _ h.origin
    rw [← hpath.last_eq (.here : PathTo s.Parent source source [source])]
    exact (h.seen a ha).mpr ⟨_, h.origin, hpath⟩
  have hroutes : done ++ (waiting ++ [q ++ [v]]) = done ++ waiting ++ [q ++ [v]] :=
    (List.append_assoc _ _ _).symm
  have hdiscovered : (s.meet w v).discovered = s.discovered ++ [v] := by
    rw [discovered, found_meet, hseen]
    exact List.reverse_cons
  refine ⟨⟨h.fits.meet w v, h.lt, ?_, ?_, ?_, ?_, ?_, fun x hx => ?_, ?_, ?_, ?_⟩, hnew⟩
  · cases hroot : (s.meet w v).parentOf source with
    | none => rfl
    | some a =>
      rcases hparent.mp hroot with ⟨rfl, -⟩ | ⟨-, ha⟩
      · exact absurd (hsourceSeen.symm.trans hseen) (by simp)
      · exact absurd (h.root.symm.trans ha) (by simp)
  · intro a b hab
    rw [hasSeen_meet, Bool.or_eq_true, beq_iff_eq]
    rcases hparent.mp hab with ⟨rfl, rfl⟩ | ⟨-, hab⟩
    · exact ⟨hv, .inr rfl⟩
    · exact ⟨(h.parent hab).1, .inl (h.parent hab).2⟩
  · rw [queue_meet, hseen]
    exact List.rel_append (h.queue.imp fun _ _ hp => hp.imp hext) (.cons hnew .nil)
  · rw [hroutes, hdiscovered, ← List.cons_append]
    exact List.rel_append (h.met.imp fun _ _ hp => hp.imp hext) (.cons hnew .nil)
  · rw [hroutes, List.forall_mem_append, List.forall_mem_singleton]
    refine ⟨fun p hp => ?_, v, hvsize, hnew⟩
    obtain ⟨a, ha, hpath⟩ := h.path p hp
    exact ⟨a, ha, hpath.imp hext⟩
  · rw [hasSeen_meet, Bool.or_eq_true, beq_iff_eq, h.seen x hx, hroutes]
    constructor
    · rintro (⟨p, hp, hpath⟩ | rfl)
      · exact ⟨p, List.mem_append_left _ hp, hpath.imp hext⟩
      · exact ⟨_, List.mem_append_right _ (List.mem_singleton.mpr rfl), hnew⟩
    · rintro ⟨p, hp, hpath⟩
      rcases List.mem_append.mp hp with hp | hp
      · obtain ⟨a, ha, hold⟩ := h.path p hp
        rw [hpath.last_eq hold]
        exact .inl ⟨p, hp, hold⟩
      · rw [List.mem_singleton.mp hp] at hpath
        exact .inr (hpath.last_eq hnew)
  · rw [hroutes]
    exact List.mem_append_left _ h.origin
  · rw [hroutes, List.pairwise_append]
    exact ⟨h.order, List.pairwise_singleton _ _, fun p hp p' hp' =>
      List.mem_singleton.mp hp' ▸ hbefore p hp⟩
  · rw [hroutes, List.forall_mem_append, List.forall_mem_singleton]
    exact ⟨h.grown, .inr ⟨q, hq, v, rfl⟩⟩

/-- The neighbours of a vertex taken from the queue, met in ascending order, are all reached no
later than through it. -/
theorem foldl_meet (h : Routes next size source s done waiting) (hq : q ∈ done)
    (hw : PathTo s.Parent source w.vertex q) {l : List Nat} (hl : ∀ v ∈ l, v ∈ next w.vertex)
    (hascending : l.Pairwise (· < ·))
    (hbefore : ∀ v ∈ l, ∀ p ∈ done ++ waiting, rank p < rank (q ++ [v])) :
    ∃ fresh, Routes next size source (l.foldl (BreadthFirst.meet w) s) done (waiting ++ fresh) ∧
      s.Extends (l.foldl (BreadthFirst.meet w) s) ∧
      ∀ v ∈ l, ∃ p ∈ done ++ (waiting ++ fresh),
        PathTo (l.foldl (BreadthFirst.meet w) s).Parent source v p ∧ rank p ≤ rank (q ++ [v]) := by
  induction l generalizing s waiting with
  | nil => exact ⟨[], by simpa using h, fun _ _ => id, by simp⟩
  | cons v l ih =>
    -- What is known of the queue before a neighbour carries over to the next one, whose path through
    -- `w` comes after all paths so far.
    obtain ⟨hvl, hascending⟩ := List.pairwise_cons.mp hascending
    obtain ⟨hv, hl⟩ := List.forall_mem_cons.mp hl
    obtain ⟨hvbefore, hbefore⟩ := List.forall_mem_cons.mp hbefore
    rw [List.foldl_cons]
    cases hseen : s.hasSeen v with
    | true =>
      obtain ⟨p, hp, hpath⟩ := (h.seen v (h.lt _ v hv)).mp hseen
      obtain ⟨fresh, hroutes, hext, hreached⟩ := ih h hw hl hascending hbefore
      rw [meet_of_hasSeen hseen]
      refine ⟨fresh, hroutes, hext, List.forall_mem_cons.mpr ⟨⟨p, ?_, hpath.imp hext, ?_⟩, hreached⟩⟩
      · rw [← List.append_assoc]
        exact List.mem_append_left _ hp
      · exact (hvbefore p hp).le
    | false =>
      obtain ⟨hmeet, hnew⟩ := h.meet hq hw hv hseen hvbefore
      have hfirst := h.extends_meet w v
      obtain ⟨fresh, hroutes, hext, hreached⟩ :=
        ih hmeet (hw.imp hfirst) hl hascending fun x hx p hp => by
          rw [← List.append_assoc] at hp
          rcases List.mem_append.mp hp with hp | hp
          · exact hbefore x hx p hp
          · rw [List.mem_singleton.mp hp]
            exact rank_concat_lt_of_lt q (hvl x hx)
      rw [List.append_assoc] at hroutes hreached
      refine ⟨[q ++ [v]] ++ fresh, hroutes, fun a b hab => hext a b (hfirst a b hab),
        List.forall_mem_cons.mpr ⟨⟨q ++ [v], by simp, hnew.imp hext, le_refl _⟩, hreached⟩⟩

theorem of_queue_eq_nil (h : Routes next size source s done waiting)
    (hsettled : Settled next source s (done ++ waiting) done) (hqueue : s.queue = []) :
    Routes next size source s done [] ∧ Settled next source s done done ∧ s.Extends s := by
  obtain rfl : waiting = [] := List.forall₂_nil_left_iff.mp (hqueue ▸ h.queue)
  rw [List.append_nil] at hsettled
  exact ⟨h, hsettled, fun _ _ => id⟩

section Run

variable (hascending : ∀ u, (next u).Pairwise (· < ·))
include hascending

theorem turn (h : Routes next size source s done waiting)
    (hsettled : Settled next source s (done ++ waiting) done) (hs : s.pop? = some (w, t)) :
    let s' := (next w.vertex).foldl (BreadthFirst.meet w) t
    ∃ done' waiting', Routes next size source s' done' waiting' ∧
      Settled next source s' (done' ++ waiting') done' ∧ t.Extends s' := by
  intro s'
  obtain ⟨q, rest, rfl, hq, ht⟩ := h.pop? hs
  have hsub : done ++ q :: rest ⊆ done ++ [q] ++ rest := by simp
  obtain ⟨fresh, hroutes, hext, hreached⟩ :=
    ht.foldl_meet (List.mem_append_right _ (List.mem_singleton.mpr rfl)) hq (fun _ => id)
      (hascending w.vertex) fun v _ p hp => h.rank_lt (by simpa using hp) v
  refine ⟨done ++ [q], rest ++ fresh, hroutes, fun q' hq' u hu => ?_, hext⟩
  -- Paths taken earlier stay settled; the neighbours of the last one were all met in this turn.
  rcases List.mem_append.mp hq' with hq' | hq'
  · have hst : s.Extends s' := fun a b hab => hext a b (extends_of_pop? hs a b hab)
    refine (hsettled.mono hst fun p hp => ?_) q' hq' u hu
    rw [← List.append_assoc]
    exact List.mem_append_left _ (hsub hp)
  · rw [List.mem_singleton.mp hq', hq.getLast?, Option.some.injEq] at hu
    rw [← hu, List.mem_singleton.mp hq']
    exact hreached

theorem run (h : Routes next size source s done waiting)
    (hsettled : Settled next source s (done ++ waiting) done) {fuel : Nat} (hfuel : s.turns ≤ fuel) :
    let s' := BreadthFirst.run (fun w => next w.vertex) never fuel s
    ∃ routes, Routes next size source s' routes [] ∧ Settled next source s' routes routes ∧
      s.Extends s' := by
  induction fuel generalizing s done waiting with
  | zero =>
    have hqueue : s.queue = [] := List.length_eq_zero_iff.mp (by rw [turns] at hfuel; omega)
    exact ⟨done, h.of_queue_eq_nil hsettled hqueue⟩
  | succ fuel ih =>
    cases hs : s.pop? with
    | none =>
      have hqueue := (pop?_eq_none_iff s).mp hs
      rw [run_of_queue_eq_nil hqueue]
      exact ⟨done, h.of_queue_eq_nil hsettled hqueue⟩
    | some p =>
      obtain ⟨w, t⟩ := p
      obtain ⟨done', waiting', hroutes, hsettled', hext⟩ := h.turn hascending hsettled hs
      have hturns := turns_of_turn hs (next w.vertex)
      obtain ⟨routes, hrun, hall, hfurther⟩ := ih hroutes hsettled' (by omega)
      rw [run_succ_of_pop? hs]
      exact ⟨routes, hrun, hall,
        fun a b hab => hfurther a b (hext a b (extends_of_pop? hs a b hab))⟩

/-- A search that stops at a vertex has a path to it which the whole search has too. -/
theorem run_stop (h : Routes next size source s done waiting)
    (hsettled : Settled next source s (done ++ waiting) done) {fuel : Nat} (hfuel : s.turns ≤ fuel)
    (stop : Nat → Bool) :
    let stopped := BreadthFirst.run (fun w => next w.vertex) stop fuel s
    let whole := BreadthFirst.run (fun w => next w.vertex) never fuel s
    stopped = whole ∨ ∃ v p done' waiting', stop v = true ∧ PathTo stopped.Parent source v p ∧
      Routes next size source stopped done' waiting' ∧ stopped.Extends whole := by
  induction fuel generalizing s done waiting with
  | zero => exact .inl rfl
  | succ fuel ih =>
    cases hs : s.pop? with
    | none =>
      have hqueue := (pop?_eq_none_iff s).mp hs
      rw [run_of_queue_eq_nil hqueue, run_of_queue_eq_nil hqueue]
      exact .inl rfl
    | some p =>
      obtain ⟨w, t⟩ := p
      obtain ⟨done', waiting', hroutes, hsettled', hext⟩ := h.turn hascending hsettled hs
      have hturns : ((next w.vertex).foldl (BreadthFirst.meet w) t).turns ≤ fuel := by
        have hone := turns_of_turn hs (next w.vertex)
        omega
      rw [run_succ_of_pop? hs, BreadthFirst.run, hs]
      cases hstop : stop w.vertex with
      | false => simpa only [hstop, Bool.false_eq_true, if_false] using ih hroutes hsettled' hturns
      | true =>
        -- Here the two searches part: the stopped one keeps the path that it took last.
        obtain ⟨q, rest, -, hq, ht⟩ := h.pop? hs
        obtain ⟨-, -, -, hfurther⟩ := hroutes.run hascending hsettled' hturns
        simp only [hstop, if_true]
        exact .inr ⟨w.vertex, q, done ++ [q], rest, hstop, hq, ht,
          fun a b hab => hfurther a b (hext a b hab)⟩

end Run

theorem exists_rank_le (h : Routes next size source s routes [])
    (hsettled : Settled next source s routes routes)
    (hp : PathTo (fun u v => v ∈ next u) source v p) :
    ∃ q ∈ routes, PathTo s.Parent source v q ∧ rank q ≤ rank p := by
  induction hp with
  | here => exact ⟨[source], by simpa using h.origin, .here, le_refl _⟩
  | @step u v p hp huv ih =>
    obtain ⟨q, hq, hpath, hle⟩ := ih
    obtain ⟨r, hr, hrpath, hrle⟩ := hsettled q hq u hpath.getLast? v huv
    exact ⟨r, hr, hrpath, hrle.trans (rank_concat_le hle v)⟩

theorem firstShortest (h : Routes next size source s routes [])
    (hsettled : Settled next source s routes routes) (hp : PathTo s.Parent source v p) :
    FirstShortest (fun u v => v ∈ next u) source v p := by
  refine firstShortest_of_rank (hp.imp fun _ _ huv => (h.parent huv).1) fun q hq => ?_
  obtain ⟨r, -, hr, hle⟩ := h.exists_rank_le hsettled hq
  rwa [h.path_unique hp hr]

/-- The vertices are found in the order of the first paths to them. -/
theorem pairwise_discovered (h : Routes next size source s routes [])
    (hsettled : Settled next source s routes routes) :
    s.discovered.Pairwise (ReachedBefore (fun u v => v ∈ next u) source) := by
  have hmet := h.met
  have horder := h.order
  rw [List.append_nil] at hmet horder
  apply (pairwise_of_forall₂ hmet horder).tail.imp
  rintro u v ⟨p, q, hp, hq, hlt⟩
  exact ⟨p, q, h.firstShortest hsettled hp, h.firstShortest hsettled hq, hlt⟩

theorem lt_of_path (h : Routes next size source s done waiting) (hp : PathTo s.Parent source v p)
    (hsource : source < size) : ∀ u ∈ p, u < size :=
  hp.forall_mem hsource fun a b hab => h.lt a b (h.parent hab).1

theorem interior?_of_path (h : Routes next size source s done waiting)
    (hsource : source < size) (hp : PathTo s.Parent source v p) (hv : v ≠ source) :
    s.interior? source v = some (interior p).reverse := by
  have hlt := h.lt_of_path hp hsource
  have hvlt : v < size := hlt v (List.mem_of_getLast? hp.getLast?)
  have hseen : s.hasSeen v = true := by
    cases hp with
    | here => exact absurd rfl hv
    | step _ huv => exact (h.parent huv).2
  refine BreadthFirst.interior?_of_path h.root hp hv ?_ ?_
  · have hvseen := h.fits.seen ▸ hvlt
    rw [hasSeen, Array.getElem?_eq_getElem hvseen] at hseen
    rwa [Array.getElem?_eq_getElem hvseen]
  · have hsub : p ⊆ List.range size := fun u hu => List.mem_range.mpr (hlt u hu)
    have hle := (List.subperm_of_subset (h.path_nodup hp) hsub).length_le
    rw [List.length_range] at hle
    rw [h.fits.parent]
    omega

theorem interior?_of_not_path (h : Routes next size source s done waiting) (hv : v < size)
    (hnone : ∀ p, ¬ PathTo s.Parent source v p) : s.interior? source v = some [] := by
  apply if_neg
  intro hseen
  have hvseen := h.fits.seen ▸ hv
  rw [Array.getElem?_eq_getElem hvseen] at hseen
  obtain ⟨p, -, hp⟩ := (h.seen v hv).mp (by rwa [hasSeen, Array.getElem?_eq_getElem hvseen])
  exact hnone p hp

end Routes

/-- A search whose neighbours come in ascending order finds the vertices in the order of the first
paths to them. -/
theorem reachedBefore_search (hlt : ∀ u, ∀ v ∈ next u, v < size)
    (hascending : ∀ u, (next u).Pairwise (· < ·)) (hsource : source < size) :
    (search size (fun w => next w.vertex) never source).discovered.Pairwise
      (ReachedBefore (fun u v => v ∈ next u) source) := by
  obtain ⟨routes, hroutes, hsettled, -⟩ := (Routes.start hlt hsource).run hascending
    (fun _ hq => absurd hq List.not_mem_nil) (turns_start size source)
  exact hroutes.pairwise_discovered hsettled

end BreadthFirst

namespace Topology

open BreadthFirst

variable {t : Topology} {buffers buffers' : BreadthFirst} {source target : Nat}

theorem fits_search (h : buffers.Fits t.size) (source : Nat) (stop : Nat → Bool) :
    (t.search buffers source stop).Fits t.size := by
  rw [search, restart_eq_start h]
  exact (fits_start t.size source).run _ stop _

theorem searchFrom_eq (h : buffers.Fits t.size) (source : Nat) :
    t.searchFrom buffers source =
      run (fun w => t.successors w.vertex) never (t.size + 1) (start t.size source) := by
  rw [searchFrom, search, restart_eq_start h]
  rfl

theorem Ordered.exists_settled (ht : t.Ordered) (hbuffers : buffers.Fits t.size)
    (hsource : source < t.size) :
    ∃ routes, Routes t.successors t.size source (t.searchFrom buffers source) routes [] ∧
      Settled t.successors source (t.searchFrom buffers source) routes routes := by
  obtain ⟨routes, hroutes, hsettled, -⟩ :=
    (Routes.start (fun _ _ hv => (ht.lt hv).2) hsource).run ht.ascending
      (fun _ hq => absurd hq List.not_mem_nil) (turns_start t.size source)
  rw [searchFrom_eq hbuffers]
  exact ⟨routes, hroutes, hsettled⟩

/-- The search from a unit has the first path to each other one that can be reached. -/
theorem Ordered.interior?_searchFrom (ht : t.Ordered) (hbuffers : buffers.Fits t.size)
    (hsource : source < t.size) (htarget : target < t.size) (hne : target ≠ source) :
    (∃ p, FirstShortest (fun u v => v ∈ t.successors u) source target p ∧ p.Nodup ∧
      (t.searchFrom buffers source).interior? source target = some (interior p).reverse) ∨
    (∀ p, ¬ PathTo (fun u v => v ∈ t.successors u) source target p) ∧
      (t.searchFrom buffers source).interior? source target = some [] := by
  obtain ⟨routes, hroutes, hsettled⟩ := ht.exists_settled hbuffers hsource
  by_cases hpath : ∃ p, PathTo (t.searchFrom buffers source).Parent source target p
  · obtain ⟨p, hp⟩ := hpath
    exact .inl ⟨p, hroutes.firstShortest hsettled hp, hroutes.path_nodup hp,
      hroutes.interior?_of_path hsource hp hne⟩
  · refine .inr ⟨fun p hp => hpath ?_, hroutes.interior?_of_not_path htarget (not_exists.mp hpath)⟩
    obtain ⟨q, -, hq, -⟩ := hroutes.exists_rank_le hsettled hp
    exact ⟨q, hq⟩

/-- The search that stops at a unit takes the same path to it as the search over all of the
graph. -/
theorem Ordered.interior?_searchTo (ht : t.Ordered) (hbuffers : buffers.Fits t.size)
    (hbuffers' : buffers'.Fits t.size) (hsource : source < t.size) (hne : target ≠ source) :
    (t.searchTo buffers source target).interior? source target =
      (t.searchFrom buffers' source).interior? source target := by
  have hstart : Routes t.successors t.size source (start t.size source) [] [[source]] :=
    Routes.start (fun _ _ hv => (ht.lt hv).2) hsource
  have hsettled : Settled t.successors source (start t.size source) [[source]] [] :=
    fun _ hq => absurd hq List.not_mem_nil
  obtain ⟨routes, hroutes, -⟩ := ht.exists_settled hbuffers' hsource
  rw [searchFrom_eq hbuffers'] at hroutes ⊢
  rw [searchTo, search, restart_eq_start hbuffers]
  rcases hstart.run_stop ht.ascending hsettled (turns_start t.size source)
    (fun v => v == target) with heq | ⟨v, p, done, waiting, hv, hp, hstopped, hext⟩
  · exact congrArg (fun s : BreadthFirst => s.interior? source target) heq
  · rw [beq_iff_eq] at hv
    subst hv
    exact (hstopped.interior?_of_path hsource hp hne).trans
      (hroutes.interior?_of_path hsource (hp.imp hext) hne).symm

end Topology

end DependencyAtlas
