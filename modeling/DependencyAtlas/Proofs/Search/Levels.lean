import DependencyAtlas.Proofs.Search.BreadthFirst
import DependencyAtlas.Proofs.Search.Paths
import Mathlib.Data.List.Nodup

/-!
# Levels of a search

A breadth-first search meets vertices in the order of their distances from its source. A limit keeps
it from following the vertices at that distance, so it finds those within the limit, and a search
with a greater limit finds the same vertices first.
-/

namespace DependencyAtlas

/-- The vertices within a limit from a source, each once and the nearest first. -/
structure NearestFirst {α : Type} (R : α → α → Prop) (limit : Option Nat) (source : α)
    (found : List α) : Prop where
  nodup : found.Nodup
  mem_iff : ∀ v, v ∈ found ↔
    v ≠ source ∧ ∃ n, StepsApart R source v n ∧ ∀ most ∈ limit, n ≤ most
  sorted : found.Pairwise fun u v =>
    ∀ m n, StepsApart R source u m → StepsApart R source v n → m ≤ n

namespace BreadthFirst

variable {s t : BreadthFirst} {w : Waiting} {v : Nat} {next : Nat → List Nat}
  {limit limit' : Option Nat}

/-- The neighbours to follow from a vertex: none from the limit on. -/
def bounded (limit : Option Nat) (next : Nat → List Nat) (w : Waiting) : List Nat :=
  if limit.any fun most => most ≤ w.distance then [] else next w.vertex

theorem bounded_of_le {most : Nat} (hmost : most ∈ limit) (h : most ≤ w.distance) :
    bounded limit next w = [] := by
  unfold bounded
  rw [Option.mem_def.mp hmost, Option.any_some, if_pos (decide_eq_true h)]

theorem bounded_of_lt (h : ∀ most ∈ limit, w.distance < most) :
    bounded limit next w = next w.vertex := by
  unfold bounded
  rw [if_neg]
  intro hany
  obtain ⟨most, hmost, hle⟩ := (Option.any_eq_true _ _).mp hany
  have hlt := h most hmost
  have hle := of_decide_eq_true hle
  omega

/-- Two neighbouring levels at most wait in a queue, the nearer one first. -/
structure Layered (queue : List Waiting) : Prop where
  sorted : queue.Pairwise fun w w' => w.distance ≤ w'.distance
  band : ∀ w ∈ queue, ∀ w' ∈ queue, w'.distance ≤ w.distance + 1

theorem Layered.tail {queue : List Waiting} (h : Layered (w :: queue)) : Layered queue :=
  ⟨h.sorted.tail, fun _ hu _ hu' =>
    h.band _ (List.mem_cons_of_mem w hu) _ (List.mem_cons_of_mem w hu')⟩

theorem Layered.concat {queue : List Waiting} (h : Layered (w :: queue)) (v : Nat) :
    Layered (w :: (queue ++ [⟨v, w.distance + 1⟩])) := by
  have hleast : ∀ u ∈ w :: queue, w.distance ≤ u.distance := by
    intro u hu
    rcases List.mem_cons.mp hu with rfl | hu
    · exact Nat.le_refl _
    · exact (List.pairwise_cons.mp h.sorted).1 u hu
  have hmost : ∀ u ∈ w :: queue, u.distance ≤ w.distance + 1 := h.band w List.mem_cons_self
  rw [← List.cons_append]
  constructor
  · rw [List.pairwise_append]
    refine ⟨h.sorted, List.pairwise_singleton _ _, ?_⟩
    intro u hu u' hu'
    rw [List.mem_singleton.mp hu']
    exact hmost u hu
  · intro u hu u' hu'
    rcases List.mem_append.mp hu with hu | hu
    · rcases List.mem_append.mp hu' with hu' | hu'
      · exact h.band u hu u' hu'
      · rw [List.mem_singleton.mp hu']
        exact Nat.succ_le_succ (hleast u hu)
    · rw [List.mem_singleton.mp hu]
      rcases List.mem_append.mp hu' with hu' | hu'
      · exact Nat.le_succ_of_le (hmost u' hu')
      · rw [List.mem_singleton.mp hu']
        exact Nat.le_succ _

theorem Layered.meet (h : Layered (w :: s.queue)) (v : Nat) :
    Layered (w :: (s.meet w v).queue) := by
  rw [queue_meet]
  split
  · exact h
  · exact h.concat v

theorem Layered.foldl_meet (h : Layered (w :: s.queue)) (l : List Nat) :
    Layered (w :: (l.foldl (BreadthFirst.meet w) s).queue) := by
  induction l generalizing s with
  | nil => exact h
  | cons v l ih => exact ih (h.meet v)

theorem Layered.turn (h : Layered s.queue) (hs : s.pop? = some (w, t)) (l : List Nat) :
    Layered (w :: (l.foldl (BreadthFirst.meet w) t).queue) := by
  rw [queue_of_pop? hs] at h
  exact h.foldl_meet l

theorem layered_start (size source : Nat) : Layered (start size source).queue := by
  have hqueue : (start size source).queue = [⟨source, 0⟩] := rfl
  rw [hqueue]
  refine ⟨List.pairwise_singleton _ _, ?_⟩
  intro w hw w' hw'
  rw [List.mem_singleton.mp hw, List.mem_singleton.mp hw']
  exact Nat.le_succ _

theorem found_foldl_meet (w : Waiting) (l : List Nat) (s : BreadthFirst) :
    s.found <:+ (l.foldl (meet w) s).found := by
  induction l generalizing s with
  | nil => exact List.suffix_refl _
  | cons v l ih =>
    have hmeet : s.found <:+ (s.meet w v).found := by
      rw [found_meet]
      split
      · exact List.suffix_refl _
      · exact List.suffix_cons v s.found
    exact hmeet.trans (ih _)

theorem found_run (neighbours : Waiting → List Nat) (fuel : Nat) (s : BreadthFirst) :
    s.found <:+ (run neighbours never fuel s).found := by
  induction fuel generalizing s with
  | zero => exact List.suffix_refl _
  | succ fuel ih =>
    cases hs : s.pop? with
    | none => rw [run_of_queue_eq_nil ((pop?_eq_none_iff s).mp hs)]
    | some p =>
      obtain ⟨w, t⟩ := p
      rw [run_succ_of_pop? hs, ← (seen_of_pop? hs).2]
      exact (found_foldl_meet w _ t).trans (ih _)

/-- A search whose queue has come to its limit finds nothing more. -/
theorem found_run_of_le {most : Nat} (hmost : most ∈ limit)
    (h : ∀ w ∈ s.queue, most ≤ w.distance) (fuel : Nat) :
    (run (bounded limit next) never fuel s).found = s.found := by
  induction fuel generalizing s with
  | zero => rfl
  | succ fuel ih =>
    cases hs : s.pop? with
    | none => rw [run_of_queue_eq_nil ((pop?_eq_none_iff s).mp hs)]
    | some p =>
      obtain ⟨w, t⟩ := p
      rw [queue_of_pop? hs] at h
      obtain ⟨hw, ht⟩ := List.forall_mem_cons.mp h
      rw [run_succ_of_pop? hs, bounded_of_le hmost hw, List.foldl_nil, ih ht, (seen_of_pop? hs).2]

/-- As long as the lesser limit lets both searches follow a vertex they do the same; afterwards only
the one with the greater limit goes on. -/
theorem found_run_mono (hle : ∀ most' ∈ limit', ∃ most ∈ limit, most ≤ most')
    (h : Layered s.queue) (fuel : Nat) :
    (run (bounded limit next) never fuel s).found <:+
      (run (bounded limit' next) never fuel s).found := by
  induction fuel generalizing s with
  | zero => exact List.suffix_refl _
  | succ fuel ih =>
    cases hs : s.pop? with
    | none =>
      have hqueue := (pop?_eq_none_iff s).mp hs
      rw [run_of_queue_eq_nil hqueue, run_of_queue_eq_nil hqueue]
    | some p =>
      obtain ⟨w, t⟩ := p
      by_cases hw : ∃ most ∈ limit, most ≤ w.distance
      · obtain ⟨most, hmost, hmw⟩ := hw
        have hqueue : ∀ u ∈ s.queue, most ≤ u.distance := by
          have hsorted := h.sorted
          rw [queue_of_pop? hs] at hsorted ⊢
          intro u hu
          rcases List.mem_cons.mp hu with rfl | hu
          · exact hmw
          · exact Nat.le_trans hmw ((List.pairwise_cons.mp hsorted).1 u hu)
        rw [found_run_of_le hmost hqueue]
        exact found_run _ _ s
      · have hlt : ∀ most ∈ limit, w.distance < most := by
          intro most hmost
          exact Nat.lt_of_not_le fun hmw => hw ⟨most, hmost, hmw⟩
        have hlt' : ∀ most' ∈ limit', w.distance < most' := by
          intro most' hmost'
          obtain ⟨most, hmost, hmm⟩ := hle most' hmost'
          exact Nat.lt_of_lt_of_le (hlt most hmost) hmm
        rw [run_succ_of_pop? hs, run_succ_of_pop? hs, bounded_of_lt hlt, bounded_of_lt hlt']
        exact ih (h.turn hs _).tail

theorem discovered_mono (hle : ∀ most' ∈ limit', ∃ most ∈ limit, most ≤ most') (size source : Nat) :
    (search size (bounded limit next) never source).discovered <+:
      (search size (bounded limit' next) never source).discovered :=
  List.reverse_prefix.mpr (found_run_mono hle (layered_start size source) _)

/-- The vertices met so far, first those already taken from the queue and then those in it, with
their distances along a path from the source. -/
structure Levels (next : Nat → List Nat) (limit : Option Nat) (size source : Nat)
    (s : BreadthFirst) (done : List Waiting) : Prop where
  met : (done ++ s.queue).map Waiting.vertex = source :: s.discovered
  nodup : ((done ++ s.queue).map Waiting.vertex).Nodup
  origin : ⟨source, 0⟩ ∈ done ++ s.queue
  lt : ∀ w ∈ done ++ s.queue, w.vertex < size
  seen : ∀ v < size, s.hasSeen v = true ↔ ∃ w ∈ done ++ s.queue, w.vertex = v
  path : ∀ w ∈ done ++ s.queue,
    ∃ p, PathTo (fun u v => v ∈ next u) source w.vertex p ∧ p.length = w.distance + 1
  within : ∀ w ∈ done ++ s.queue, ∀ most ∈ limit, w.distance ≤ most
  sorted : (done ++ s.queue).Pairwise fun w w' => w.distance ≤ w'.distance

/-- The neighbours of the `ends` within the limit were met one level further at the latest. -/
def Followed (next : Nat → List Nat) (limit : Option Nat) (met ends : List Waiting) : Prop :=
  ∀ w ∈ ends, (∀ most ∈ limit, w.distance < most) → ∀ v ∈ next w.vertex,
    ∃ w' ∈ met, w'.vertex = v ∧ w'.distance ≤ w.distance + 1

variable {size source : Nat} {done met ends : List Waiting}

theorem Followed.mono {met' : List Waiting} (h : Followed next limit met ends)
    (hsub : met ⊆ met') : Followed next limit met' ends := by
  intro w hw hlt v hv
  obtain ⟨w', hw', hfound⟩ := h w hw hlt v hv
  exact ⟨w', hsub hw', hfound⟩

theorem Followed.concat (h : Followed next limit met ends)
    (hw : (∀ most ∈ limit, w.distance < most) → ∀ v ∈ next w.vertex,
      ∃ w' ∈ met, w'.vertex = v ∧ w'.distance ≤ w.distance + 1) :
    Followed next limit met (ends ++ [w]) := by
  intro u hu
  rcases List.mem_append.mp hu with hu | hu
  · exact h u hu
  · rw [List.mem_singleton.mp hu]
    exact hw

theorem hasSeen_foldl_meet (w : Waiting) (l : List Nat) (s : BreadthFirst) (u : Nat) :
    (l.foldl (meet w) s).hasSeen u = true ↔ s.hasSeen u = true ∨ u ∈ l := by
  induction l generalizing s with
  | nil => simp
  | cons v l ih =>
    rw [List.foldl_cons, ih, hasSeen_meet, List.mem_cons, Bool.or_eq_true, beq_iff_eq, or_assoc]

theorem queue_foldl_meet (w : Waiting) (l : List Nat) (s : BreadthFirst) :
    s.queue <+: (l.foldl (meet w) s).queue := by
  induction l generalizing s with
  | nil => exact List.prefix_refl _
  | cons v l ih =>
    have hmeet : s.queue <+: (s.meet w v).queue := by
      rw [queue_meet]
      split
      · exact List.prefix_refl _
      · exact List.prefix_append _ _
    exact hmeet.trans (ih _)

namespace Levels

theorem start (hsource : source < size) :
    Levels next limit size source (start size source) [] := by
  have hqueue : (BreadthFirst.start size source).queue = [⟨source, 0⟩] := rfl
  refine ⟨rfl, ?_, ?_, ?_, ?_, ?_, ?_, ?_⟩ <;> rw [hqueue, List.nil_append]
  · exact List.nodup_singleton source
  · exact List.mem_singleton.mpr rfl
  · exact List.forall_mem_singleton.mpr hsource
  · intro v hv
    have hseen : (BreadthFirst.start size source).hasSeen v = true ↔ source = v := by
      rw [hasSeen, BreadthFirst.start, Array.getElem?_setIfInBounds, Array.size_replicate,
        if_pos hsource, Array.getElem?_replicate, if_pos hv]
      by_cases hvs : source = v <;> simp [hvs]
    rw [hseen]
    simp
  · exact List.forall_mem_singleton.mpr ⟨[source], .here, rfl⟩
  · exact List.forall_mem_singleton.mpr fun _ _ => Nat.zero_le _
  · exact List.pairwise_singleton _ _

theorem pop? (h : Levels next limit size source s done) (hs : s.pop? = some (w, t)) :
    Levels next limit size source t (done ++ [w]) := by
  obtain ⟨hseen, hfound⟩ := seen_of_pop? hs
  have hmet : done ++ [w] ++ t.queue = done ++ s.queue := by
    rw [queue_of_pop? hs, List.append_assoc, List.singleton_append]
  have hhas : t.hasSeen = s.hasSeen := by
    funext v
    rw [hasSeen, hasSeen, hseen]
  have hdiscovered : t.discovered = s.discovered := by
    rw [discovered, discovered, hfound]
  refine ⟨?_, ?_, ?_, ?_, ?_, ?_, ?_, ?_⟩ <;> rw [hmet]
  · rw [hdiscovered, h.met]
  · exact h.nodup
  · exact h.origin
  · exact h.lt
  · rw [hhas]
    exact h.seen
  · exact h.path
  · exact h.within
  · exact h.sorted

theorem meet (h : Levels next limit size source s done) (hw : w ∈ done)
    (hlimit : ∀ most ∈ limit, w.distance < most)
    (hmost : ∀ u ∈ done ++ s.queue, u.distance ≤ w.distance + 1) (hv : v ∈ next w.vertex)
    (hlt : v < size) (hseen : s.hasSeen v = false) :
    Levels next limit size source (s.meet w v) done := by
  have hqueue : done ++ (s.meet w v).queue = done ++ s.queue ++ [⟨v, w.distance + 1⟩] := by
    rw [queue_meet, hseen, List.append_assoc]
    rfl
  have hfound : (s.meet w v).discovered = s.discovered ++ [v] := by
    rw [discovered, found_meet, hseen]
    exact List.reverse_cons
  have hnew : v ∉ (done ++ s.queue).map Waiting.vertex := by
    intro hmem
    obtain ⟨u, hu, huv⟩ := List.mem_map.mp hmem
    rw [(h.seen v hlt).mpr ⟨u, hu, huv⟩] at hseen
    exact absurd hseen (by simp)
  refine ⟨?_, ?_, ?_, ?_, ?_, ?_, ?_, ?_⟩ <;> rw [hqueue]
  · rw [List.map_append, h.met, hfound]
    rfl
  · rw [List.map_append]
    refine List.nodup_append.mpr ⟨h.nodup, List.nodup_singleton v, ?_⟩
    intro u hu u' hu' heq
    rw [heq, List.mem_singleton.mp hu'] at hu
    exact hnew hu
  · exact List.mem_append_left _ h.origin
  · exact List.forall_mem_append.mpr ⟨h.lt, List.forall_mem_singleton.mpr hlt⟩
  · intro u hu
    rw [hasSeen_meet, Bool.or_eq_true, beq_iff_eq, h.seen u hu]
    simp only [List.mem_append (s := done ++ s.queue), or_and_right, exists_or, List.mem_singleton,
      exists_eq_left, eq_comm (a := v)]
  · refine List.forall_mem_append.mpr ⟨h.path, List.forall_mem_singleton.mpr ?_⟩
    obtain ⟨p, hp, hlength⟩ := h.path w (List.mem_append_left _ hw)
    exact ⟨p ++ [v], .step hp hv, by simp [hlength]⟩
  · exact List.forall_mem_append.mpr ⟨h.within, List.forall_mem_singleton.mpr hlimit⟩
  · refine List.pairwise_append.mpr ⟨h.sorted, List.pairwise_singleton _ _, ?_⟩
    intro u hu u' hu'
    rw [List.mem_singleton.mp hu']
    exact hmost u hu

theorem foldl_meet (h : Levels next limit size source s done) (hw : w ∈ done)
    (hlimit : ∀ most ∈ limit, w.distance < most)
    (hmost : ∀ u ∈ done ++ s.queue, u.distance ≤ w.distance + 1) {l : List Nat}
    (hl : ∀ v ∈ l, v ∈ next w.vertex ∧ v < size) :
    Levels next limit size source (l.foldl (BreadthFirst.meet w) s) done ∧
      ∀ u ∈ done ++ (l.foldl (BreadthFirst.meet w) s).queue, u.distance ≤ w.distance + 1 := by
  induction l generalizing s with
  | nil => exact ⟨h, hmost⟩
  | cons v l ih =>
    obtain ⟨⟨hv, hlt⟩, hl⟩ := List.forall_mem_cons.mp hl
    rw [List.foldl_cons]
    cases hseen : s.hasSeen v with
    | true =>
      rw [meet_of_hasSeen hseen]
      exact ih h hmost hl
    | false =>
      refine ih (h.meet hw hlimit hmost hv hlt hseen) ?_ hl
      rw [queue_meet, hseen]
      intro u hu
      rw [if_neg Bool.false_ne_true, ← List.append_assoc] at hu
      rcases List.mem_append.mp hu with hu | hu
      · exact hmost u hu
      · rw [List.mem_singleton.mp hu]

theorem distance_le (h : Levels next limit size source s done) (hlayered : Layered s.queue)
    (hs : s.pop? = some (w, t)) : ∀ u ∈ done ++ s.queue, u.distance ≤ w.distance + 1 := by
  have hsorted := (List.pairwise_append.mp h.sorted).2.2
  have hw : w ∈ s.queue := by
    rw [queue_of_pop? hs]
    exact List.mem_cons_self
  intro u hu
  rcases List.mem_append.mp hu with hu | hu
  · exact Nat.le_succ_of_le (hsorted u hu w hw)
  · exact hlayered.band w hw u hu

section Run

variable (hnext : ∀ u, ∀ v ∈ next u, v < size)
include hnext

theorem turn (h : Levels next limit size source s done) (hlayered : Layered s.queue)
    (hfollowed : Followed next limit (done ++ s.queue) done) (hs : s.pop? = some (w, t)) :
    let s' := (bounded limit next w).foldl (BreadthFirst.meet w) t
    Levels next limit size source s' (done ++ [w]) ∧
      Followed next limit (done ++ [w] ++ s'.queue) (done ++ [w]) := by
  intro s'
  have ht := h.pop? hs
  have hmet : done ++ s.queue = done ++ [w] ++ t.queue := by
    rw [queue_of_pop? hs, List.append_assoc, List.singleton_append]
  have hsub : done ++ s.queue ⊆ done ++ [w] ++ s'.queue := by
    rw [hmet]
    intro u hu
    rcases List.mem_append.mp hu with hu | hu
    · exact List.mem_append_left _ hu
    · exact List.mem_append_right _ ((queue_foldl_meet w _ t).mem hu)
  have hold := hfollowed.mono hsub
  by_cases hlimit : ∀ most ∈ limit, w.distance < most
  · have hmost := h.distance_le hlayered hs
    rw [hmet] at hmost
    have hlast : w ∈ done ++ [w] := List.mem_append_right _ List.mem_cons_self
    have hl : ∀ v ∈ bounded limit next w, v ∈ next w.vertex ∧ v < size := by
      rw [bounded_of_lt hlimit]
      exact fun v hv => ⟨hv, hnext w.vertex v hv⟩
    obtain ⟨hlevels, hmost'⟩ := ht.foldl_meet hlast hlimit hmost hl
    refine ⟨hlevels, hold.concat ?_⟩
    intro _ v hv
    -- All neighbours of `w` are seen now, and nothing is further than one level below it.
    have hseen : s'.hasSeen v = true := by
      rw [hasSeen_foldl_meet, bounded_of_lt hlimit]
      exact .inr hv
    obtain ⟨w', hw', hvertex⟩ := (hlevels.seen v (hnext _ v hv)).mp hseen
    exact ⟨w', hw', hvertex, hmost' w' hw'⟩
  · obtain ⟨most, hmost, hle⟩ : ∃ most ∈ limit, most ≤ w.distance := by
      simpa using hlimit
    have hs' : s' = t := by
      change (bounded limit next w).foldl _ t = t
      rw [bounded_of_le hmost hle, List.foldl_nil]
    rw [hs'] at hold ⊢
    exact ⟨ht, hold.concat fun hlt => absurd hlt hlimit⟩

theorem run (h : Levels next limit size source s done) (hlayered : Layered s.queue)
    (hfollowed : Followed next limit (done ++ s.queue) done) {fuel : Nat} (hfuel : s.turns ≤ fuel) :
    ∃ met, Levels next limit size source (run (bounded limit next) never fuel s) met ∧
      (BreadthFirst.run (bounded limit next) never fuel s).queue = [] ∧
        Followed next limit met met := by
  have hend : s.queue = [] → ∃ met, Levels next limit size source s met ∧ s.queue = [] ∧
      Followed next limit met met := by
    intro hqueue
    rw [hqueue, List.append_nil] at hfollowed
    exact ⟨done, h, hqueue, hfollowed⟩
  induction fuel generalizing s done with
  | zero =>
    apply hend
    rw [turns] at hfuel
    exact List.length_eq_zero_iff.mp (by omega)
  | succ fuel ih =>
    cases hs : s.pop? with
    | none =>
      have hqueue := (pop?_eq_none_iff s).mp hs
      rw [run_of_queue_eq_nil hqueue]
      exact hend hqueue
    | some p =>
      obtain ⟨w, t⟩ := p
      obtain ⟨hlevels, hfollowed'⟩ := h.turn hnext hlayered hfollowed hs
      have hturns := turns_of_turn hs (bounded limit next w)
      rw [run_succ_of_pop? hs]
      refine ih hlevels (hlayered.turn hs _).tail hfollowed' (by omega) ?_
      intro hqueue
      rw [hqueue, List.append_nil] at hfollowed'
      exact ⟨_, hlevels, hqueue, hfollowed'⟩

end Run

/-- A vertex within the limit was met at its distance from the source or before. -/
theorem exists_le (h : Levels next limit size source s met) (hqueue : s.queue = [])
    (hfollowed : Followed next limit met met) {p : List Nat}
    (hp : PathTo (fun u v => v ∈ next u) source v p) :
    ∀ {n : Nat}, p.length = n + 1 → (∀ most ∈ limit, n ≤ most) →
      ∃ w ∈ met, w.vertex = v ∧ w.distance ≤ n := by
  induction hp with
  | here =>
    intro n _ _
    have horigin := h.origin
    rw [hqueue, List.append_nil] at horigin
    exact ⟨_, horigin, rfl, Nat.zero_le n⟩
  | @step u v p hp huv ih =>
    intro n hlength hlimit
    have hpos := List.length_pos_iff.mpr hp.ne_nil
    rw [List.length_append, List.length_singleton] at hlength
    obtain ⟨w, hw, rfl, hle⟩ := ih (n := n - 1) (by omega) fun most hmost => by
      have hn := hlimit most hmost
      omega
    obtain ⟨w', hw', hvertex, hle'⟩ := hfollowed w hw (fun most hmost => by
      have hn := hlimit most hmost
      omega) v huv
    exact ⟨w', hw', hvertex, by omega⟩

theorem stepsApart (h : Levels next limit size source s met) (hqueue : s.queue = [])
    (hfollowed : Followed next limit met met) (hw : w ∈ met) :
    StepsApart (fun u v => v ∈ next u) source w.vertex w.distance := by
  have hpath := h.path
  have hwithin := h.within
  have hnodup := h.nodup
  rw [hqueue, List.append_nil] at hpath hwithin hnodup
  refine ⟨hpath w hw, ?_⟩
  rintro k ⟨p, hp, hk⟩
  apply Nat.le_of_not_lt
  intro hlt
  obtain ⟨w', hw', hvertex, hle⟩ := h.exists_le hqueue hfollowed hp hk fun most hmost =>
    Nat.le_trans (Nat.le_of_lt hlt) (hwithin w hw most hmost)
  rw [List.inj_on_of_nodup_map hnodup hw' hw hvertex] at hle
  omega

theorem nearestFirst (h : Levels next limit size source s met) (hqueue : s.queue = [])
    (hfollowed : Followed next limit met met) :
    NearestFirst (fun u v => v ∈ next u) limit source s.discovered := by
  have hmet := h.met
  have hnodup := h.nodup
  have hwithin := h.within
  have hsorted := h.sorted
  rw [hmet] at hnodup
  rw [hqueue, List.append_nil] at hmet hwithin hsorted
  have hmem (u : Nat) : u = source ∨ u ∈ s.discovered ↔ ∃ w ∈ met, w.vertex = u := by
    rw [← List.mem_cons, ← hmet, List.mem_map]
  obtain ⟨hsource, hdiscovered⟩ := List.nodup_cons.mp hnodup
  refine ⟨hdiscovered, fun v => ⟨fun hv => ?_, ?_⟩, ?_⟩
  · refine ⟨fun he => hsource (he ▸ hv), ?_⟩
    obtain ⟨w, hw, rfl⟩ := (hmem v).mp (.inr hv)
    exact ⟨w.distance, h.stepsApart hqueue hfollowed hw, hwithin w hw⟩
  · rintro ⟨hne, n, hn, hlimit⟩
    obtain ⟨p, hp, hlength⟩ := hn.1
    obtain ⟨w, hw, hvertex, -⟩ := h.exists_le hqueue hfollowed hp hlength hlimit
    exact ((hmem v).mpr ⟨w, hw, hvertex⟩).resolve_left hne
  · have hpairwise : (met.map Waiting.vertex).Pairwise fun u v => ∀ m n,
        StepsApart (fun u v => v ∈ next u) source u m →
          StepsApart (fun u v => v ∈ next u) source v n → m ≤ n := by
      rw [List.pairwise_map]
      apply hsorted.imp_of_mem
      intro w w' hw hw' hle m n hm hn
      rw [hm.unique (h.stepsApart hqueue hfollowed hw), hn.unique (h.stepsApart hqueue hfollowed hw')]
      exact hle
    rw [hmet] at hpairwise
    exact hpairwise.tail

end Levels

/-- A search with a limit finds the vertices within the limit, the nearest first. -/
theorem nearestFirst_search (hnext : ∀ u, ∀ v ∈ next u, v < size) (hsource : source < size)
    (limit : Option Nat) :
    NearestFirst (fun u v => v ∈ next u) limit source
      (search size (bounded limit next) never source).discovered := by
  obtain ⟨met, hlevels, hqueue, hfollowed⟩ := (Levels.start hsource).run hnext
    (layered_start size source) (fun _ hw => absurd hw List.not_mem_nil) (turns_start size source)
  exact hlevels.nearestFirst hqueue hfollowed

end BreadthFirst

end DependencyAtlas
