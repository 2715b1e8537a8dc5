import DependencyAtlas.Search.BreadthFirst
import Mathlib.Data.List.Forall2

/-!
# Searches that run alike

A search that never stops early takes every vertex it meets from the queue, so fuel beyond the size
of the graph changes nothing. Two searches whose vertices correspond, and whose vertices list
corresponding neighbours once repeats are dropped, find corresponding vertices in the same order.
-/

namespace DependencyAtlas

namespace BreadthFirst

variable {s t : BreadthFirst} {w : Waiting} {v : Nat}

theorem lt_of_hasSeen_eq_false (h : s.hasSeen v = false) : v < s.seen.size := by
  apply Classical.byContradiction
  intro hlt
  rw [hasSeen, Array.getElem?_eq_none (by omega)] at h
  exact absurd h (by simp)

theorem hasSeen_setIfInBounds (h : v < s.seen.size) (u : Nat) :
    (s.seen.setIfInBounds v true)[u]?.getD true = (s.hasSeen u || u == v) := by
  rw [hasSeen, Array.getElem?_setIfInBounds]
  by_cases hv : v = u
  · rw [if_pos hv, if_pos (hv ▸ h), hv]
    simp
  · rw [if_neg hv, beq_false_of_ne (Ne.symm hv), Bool.or_false]

theorem hasSeen_meet (w : Waiting) (s : BreadthFirst) (v u : Nat) :
    (s.meet w v).hasSeen u = (s.hasSeen u || u == v) := by
  cases hv : s.hasSeen v with
  | true =>
    rw [meet, if_pos hv]
    by_cases hu : u = v
    · rw [hu, hv, Bool.true_or]
    · rw [beq_false_of_ne hu, Bool.or_false]
  | false =>
    rw [meet, if_neg (by simp [hv]), ← hasSeen_setIfInBounds (lt_of_hasSeen_eq_false hv)]
    rfl

theorem meet_of_hasSeen (h : s.hasSeen v = true) : s.meet w v = s := by
  rw [meet, if_pos h]

theorem found_meet (w : Waiting) (s : BreadthFirst) (v : Nat) :
    (s.meet w v).found = if s.hasSeen v then s.found else v :: s.found := by
  rw [meet]
  split <;> rfl

theorem foldl_meet_filter {l : List Nat} (h : s.hasSeen v = true) :
    (l.filter fun u => !u == v).foldl (meet w) s = l.foldl (meet w) s := by
  induction l generalizing s with
  | nil => rfl
  | cons u l ih =>
    have hnext : (s.meet w u).hasSeen v = true := by
      rw [hasSeen_meet, h, Bool.true_or]
    by_cases hu : u = v
    · rw [List.filter_cons_of_neg (by simp [hu]), List.foldl_cons, hu, meet_of_hasSeen h, ih h]
    · rw [List.filter_cons_of_pos (by simpa using hu), List.foldl_cons, List.foldl_cons, ih hnext]

/-- A neighbour counts once, where it is first listed. -/
theorem foldl_meet_eraseDups :
    ∀ (l : List Nat) (s : BreadthFirst), l.eraseDups.foldl (meet w) s = l.foldl (meet w) s
  | [], _ => rfl
  | v :: l, s => by
    have hseen : (s.meet w v).hasSeen v = true := by
      rw [hasSeen_meet, beq_self_eq_true, Bool.or_true]
    rw [List.eraseDups_cons, List.foldl_cons, List.foldl_cons, foldl_meet_eraseDups,
      foldl_meet_filter hseen]
termination_by l => l.length
decreasing_by
  exact Nat.lt_succ_of_le (List.length_filter_le _ _)

theorem seen_of_pop? (h : s.pop? = some (w, t)) : t.seen = s.seen ∧ t.found = s.found := by
  unfold pop? at h
  split at h
  · simp only [Option.some.injEq, Prod.mk.injEq] at h
    obtain ⟨-, rfl⟩ := h
    exact ⟨rfl, rfl⟩
  · split at h
    · simp only [Option.some.injEq, Prod.mk.injEq] at h
      obtain ⟨-, rfl⟩ := h
      exact ⟨rfl, rfl⟩
    · exact absurd h (by simp)

theorem parent_of_pop? (h : s.pop? = some (w, t)) : t.parent = s.parent := by
  unfold pop? at h
  split at h
  · simp only [Option.some.injEq, Prod.mk.injEq] at h
    obtain ⟨-, rfl⟩ := h
    rfl
  · split at h
    · simp only [Option.some.injEq, Prod.mk.injEq] at h
      obtain ⟨-, rfl⟩ := h
      rfl
    · exact absurd h (by simp)

/-- The buffers are as large as the graph. -/
structure Fits (s : BreadthFirst) (size : Nat) : Prop where
  seen : s.seen.size = size
  parent : s.parent.size = size

theorem fits_idle (size : Nat) : (idle size).Fits size :=
  ⟨Array.size_replicate, Array.size_replicate⟩

theorem fits_start (size source : Nat) : (start size source).Fits size :=
  ⟨Array.size_setIfInBounds.trans Array.size_replicate, Array.size_replicate⟩

/-- Cleared buffers are as good as new ones. -/
theorem restart_eq_start {size : Nat} (h : s.Fits size) (source : Nat) :
    s.restart source = start size source := by
  rw [restart, start, Array.map_const', h.seen, Array.map_const', h.parent]

theorem Fits.meet {size : Nat} (h : s.Fits size) (w : Waiting) (v : Nat) :
    (s.meet w v).Fits size := by
  cases hv : s.hasSeen v with
  | true => rwa [meet_of_hasSeen hv]
  | false =>
    rw [BreadthFirst.meet, if_neg (by simp [hv])]
    exact ⟨Array.size_setIfInBounds.trans h.seen, Array.size_setIfInBounds.trans h.parent⟩

theorem Fits.foldl_meet {size : Nat} (h : s.Fits size) (w : Waiting) (l : List Nat) :
    (l.foldl (BreadthFirst.meet w) s).Fits size := by
  induction l generalizing s with
  | nil => exact h
  | cons v l ih => exact ih (h.meet w v)

theorem Fits.pop? {size : Nat} (h : s.Fits size) (hs : s.pop? = some (w, t)) : t.Fits size :=
  ⟨(seen_of_pop? hs).1 ▸ h.seen, parent_of_pop? hs ▸ h.parent⟩

theorem Fits.run {size : Nat} (h : s.Fits size) (neighbours : Waiting → List Nat)
    (stop : Nat → Bool) (fuel : Nat) : (run neighbours stop fuel s).Fits size := by
  induction fuel generalizing s with
  | zero => exact h
  | succ fuel ih =>
    cases hs : s.pop? with
    | none => rwa [BreadthFirst.run, hs]
    | some p =>
      obtain ⟨w, t⟩ := p
      rw [BreadthFirst.run, hs]
      simp only
      split
      · exact h.pop? hs
      · exact ih ((h.pop? hs).foldl_meet w _)

/-- A search that takes every vertex. -/
def never (_ : Nat) : Bool := false

def unseen (s : BreadthFirst) : Nat :=
  s.seen.toList.count false

/-- The turns that are left at most: vertices in the queue and vertices that may still enter it. -/
def turns (s : BreadthFirst) : Nat :=
  s.queue.length + s.unseen

theorem turns_meet (w : Waiting) (s : BreadthFirst) (v : Nat) : (s.meet w v).turns = s.turns := by
  cases hv : s.hasSeen v with
  | true => rw [meet_of_hasSeen hv]
  | false =>
    have hlt := lt_of_hasSeen_eq_false hv
    have hlist : v < s.seen.toList.length := by simpa using hlt
    have hat : s.seen.toList[v] = false := by
      rw [hasSeen, Array.getElem?_eq_getElem hlt] at hv
      simpa using hv
    have hpos : 0 < s.seen.toList.count false := List.count_pos_iff.mpr (hat ▸ List.getElem_mem hlist)
    have hunseen : (s.meet w v).unseen = s.unseen - 1 := by
      rw [unseen, meet, if_neg (by simp [hv]), Array.toList_setIfInBounds, List.count_set hlist, hat]
      simp [unseen]
    rw [turns, queue_meet, hunseen, hv, turns, unseen]
    simp only [Bool.false_eq_true, if_false, List.length_append, List.length_singleton]
    omega

theorem turns_foldl_meet (w : Waiting) (l : List Nat) (s : BreadthFirst) :
    (l.foldl (meet w) s).turns = s.turns := by
  induction l generalizing s with
  | nil => rfl
  | cons v l ih => rw [List.foldl_cons, ih, turns_meet]

theorem turns_of_pop? (h : s.pop? = some (w, t)) : s.turns = t.turns + 1 := by
  rw [turns, turns, queue_of_pop? h, unseen, unseen, (seen_of_pop? h).1, List.length_cons]
  omega

theorem turns_of_turn (h : s.pop? = some (w, t)) (l : List Nat) :
    s.turns = (l.foldl (meet w) t).turns + 1 := by
  rw [turns_foldl_meet, turns_of_pop? h]

variable {neighbours : Waiting → List Nat}

theorem run_of_queue_eq_nil {stop : Nat → Bool} (h : s.queue = []) (fuel : Nat) :
    run neighbours stop fuel s = s := by
  cases fuel with
  | zero => rfl
  | succ fuel => rw [run, (pop?_eq_none_iff s).mpr h]

theorem run_succ_of_pop? (h : s.pop? = some (w, t)) (fuel : Nat) :
    run neighbours never (fuel + 1) s =
      run neighbours never fuel ((neighbours w).foldl (meet w) t) := by
  rw [run, h]
  rfl

theorem queue_run {fuel : Nat} (h : s.turns ≤ fuel) : (run neighbours never fuel s).queue = [] := by
  induction fuel generalizing s with
  | zero =>
    rw [turns] at h
    exact List.length_eq_zero_iff.mp (by simp only [run]; omega)
  | succ fuel ih =>
    cases hp : s.pop? with
    | none =>
      have hq := (pop?_eq_none_iff s).mp hp
      rw [run_of_queue_eq_nil hq, hq]
    | some p =>
      obtain ⟨w, t⟩ := p
      rw [run_succ_of_pop? hp]
      apply ih
      have hturns := turns_of_turn hp (neighbours w)
      omega

theorem run_add {m : Nat} (n : Nat) (h : (run neighbours never m s).queue = []) :
    run neighbours never (m + n) s = run neighbours never m s := by
  induction m generalizing s with
  | zero => exact run_of_queue_eq_nil h _
  | succ m ih =>
    cases hp : s.pop? with
    | none =>
      have hq := (pop?_eq_none_iff s).mp hp
      rw [run_of_queue_eq_nil hq, run_of_queue_eq_nil hq]
    | some p =>
      obtain ⟨w, t⟩ := p
      rw [run_succ_of_pop? hp] at h ⊢
      rw [Nat.add_right_comm, run_succ_of_pop? hp, ih h]

theorem turns_start (size source : Nat) : (start size source).turns ≤ size + 1 := by
  have hcount : (start size source).unseen ≤ size := by
    have hle := List.count_le_length (a := false) (l := (start size source).seen.toList)
    simpa [unseen, start] using hle
  have hqueue : (start size source).queue.length = 1 := rfl
  rw [turns, hqueue]
  omega

/-- A search that takes every vertex ends with an empty queue, and more fuel changes nothing. -/
theorem run_start {size fuel : Nat} (h : size < fuel) (source : Nat) :
    run neighbours never fuel (start size source) = search size neighbours never source := by
  have hq : (run neighbours never (size + 1) (start size source)).queue = [] :=
    queue_run (turns_start size source)
  obtain ⟨n, rfl⟩ := Nat.exists_eq_add_of_le h
  exact run_add n hq

end BreadthFirst

variable {R : Nat → Nat → Prop}

/-- Two vertices of two queues correspond and are as far from their starts. -/
structure Waiting.Alike (R : Nat → Nat → Prop) (w w' : Waiting) : Prop where
  vertex : R w.vertex w'.vertex
  distance : w.distance = w'.distance

namespace BreadthFirst

/-- Two searches have found corresponding vertices in the same order, and corresponding vertices
wait in their queues in the same order. -/
structure Alike (R : Nat → Nat → Prop) (s t : BreadthFirst) : Prop where
  queue : List.Forall₂ (Waiting.Alike R) s.queue t.queue
  found : List.Forall₂ R s.found t.found
  seen : ∀ i j, R i j → s.hasSeen i = t.hasSeen j

namespace Alike

variable {s t : BreadthFirst} {w w' : Waiting}

theorem start {size size' i j : Nat} (hR : Relator.BiUnique R)
    (hlt : ∀ i j, R i j → i < size ∧ j < size') (hij : R i j) :
    Alike R (start size i) (start size' j) := by
  refine ⟨List.Forall₂.cons ⟨hij, rfl⟩ List.Forall₂.nil, List.Forall₂.nil, fun k l hkl => ?_⟩
  obtain ⟨hk, hl⟩ := hlt k l hkl
  obtain ⟨hi, hj⟩ := hlt i j hij
  have heq : i = k ↔ j = l := by
    constructor
    · rintro rfl
      exact hR.2 hij hkl
    · rintro rfl
      exact hR.1 hij hkl
  simp only [hasSeen, BreadthFirst.start, Array.getElem?_setIfInBounds, Array.size_replicate,
    Array.getElem?_replicate, hi, hj, hk, hl, heq, if_true]

theorem meet (hR : Relator.BiUnique R) (h : Alike R s t) (hw : w.Alike R w') {i j : Nat}
    (hij : R i j) : Alike R (s.meet w i) (t.meet w' j) := by
  refine ⟨?_, ?_, fun k l hkl => ?_⟩
  · rw [queue_meet, queue_meet, h.seen i j hij]
    split
    · exact h.queue
    · have hnew : Waiting.Alike R ⟨i, w.distance + 1⟩ ⟨j, w'.distance + 1⟩ :=
        ⟨hij, congrArg (· + 1) hw.distance⟩
      exact List.rel_append h.queue (List.Forall₂.cons hnew List.Forall₂.nil)
  · rw [found_meet, found_meet, h.seen i j hij]
    split
    · exact h.found
    · exact List.Forall₂.cons hij h.found
  · have heq : k = i ↔ l = j := by
      constructor
      · rintro rfl
        exact hR.2 hkl hij
      · rintro rfl
        exact hR.1 hkl hij
    rw [hasSeen_meet, hasSeen_meet, h.seen k l hkl, Bool.eq_iff_iff]
    simp only [Bool.or_eq_true, beq_iff_eq, heq]

theorem foldl_meet (hR : Relator.BiUnique R) (hw : w.Alike R w') {l l' : List Nat}
    (hl : List.Forall₂ R l l') (h : Alike R s t) :
    Alike R (l.foldl (BreadthFirst.meet w) s) (l'.foldl (BreadthFirst.meet w') t) := by
  induction hl generalizing s t with
  | nil => exact h
  | cons hij _ ih => exact ih (h.meet hR hw hij)

theorem pop? {rest : BreadthFirst} (h : Alike R s t) (hs : s.pop? = some (w, rest)) :
    ∃ w' rest', t.pop? = some (w', rest') ∧ w.Alike R w' ∧ Alike R rest rest' := by
  have hqueue := h.queue
  cases ht : t.pop? with
  | none =>
    rw [queue_of_pop? hs, (pop?_eq_none_iff t).mp ht] at hqueue
    nomatch hqueue
  | some p =>
    obtain ⟨w', rest'⟩ := p
    rw [queue_of_pop? hs, queue_of_pop? ht, List.forall₂_cons] at hqueue
    refine ⟨w', rest', rfl, hqueue.1, hqueue.2, ?_, fun i j hij => ?_⟩
    · rw [(seen_of_pop? hs).2, (seen_of_pop? ht).2]
      exact h.found
    · rw [hasSeen, hasSeen, (seen_of_pop? hs).1, (seen_of_pop? ht).1]
      exact h.seen i j hij

theorem run {neighbours neighbours' : Waiting → List Nat} (hR : Relator.BiUnique R)
    (hn : ∀ w w', w.Alike R w' →
      List.Forall₂ R (neighbours w).eraseDups (neighbours' w').eraseDups)
    (fuel : Nat) (h : Alike R s t) :
    Alike R (run neighbours never fuel s) (run neighbours' never fuel t) := by
  induction fuel generalizing s t with
  | zero => exact h
  | succ fuel ih =>
    cases hs : s.pop? with
    | none =>
      have hempty := (pop?_eq_none_iff s).mp hs
      have hqueue := h.queue
      rw [hempty, List.forall₂_nil_left_iff] at hqueue
      rwa [run_of_queue_eq_nil hempty, run_of_queue_eq_nil hqueue]
    | some p =>
      obtain ⟨w, rest⟩ := p
      obtain ⟨w', rest', ht, hw, hrest⟩ := h.pop? hs
      rw [run_succ_of_pop? hs, run_succ_of_pop? ht, ← foldl_meet_eraseDups,
        ← foldl_meet_eraseDups (neighbours' w')]
      exact ih (foldl_meet hR hw (hn w w' hw) hrest)

end Alike

theorem discovered_alike {neighbours neighbours' : Waiting → List Nat} {size size' i j : Nat}
    (hR : Relator.BiUnique R) (hlt : ∀ i j, R i j → i < size ∧ j < size')
    (hn : ∀ w w', w.Alike R w' →
      List.Forall₂ R (neighbours w).eraseDups (neighbours' w').eraseDups) (hij : R i j) :
    List.Forall₂ R (search size neighbours never i).discovered
      (search size' neighbours' never j).discovered := by
  let fuel := size + size' + 1
  rw [← run_start (show size < fuel by omega) i, ← run_start (show size' < fuel by omega) j]
  exact List.rel_reverse (Alike.run hR hn fuel (Alike.start hR hlt hij)).found

end BreadthFirst

end DependencyAtlas
