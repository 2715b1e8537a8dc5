import DependencyAtlas.Analysis.Cycles
import DependencyAtlas.Proofs.Analysis.CanonicalCycle
import DependencyAtlas.Proofs.Analysis.Topology
import Mathlib.Data.List.Perm.Basic

/-!
# The depth-first search for cycles

The stack is a path of grey vertices along edges that were looked at. Beside the search runs a
trace: the edges it looked at, those that closed a cycle, and the vertices it finished. Edges that
closed no cycle lead from a finished vertex to one that was finished before, and a reported cycle
takes exactly one closing edge, its own.
-/

namespace DependencyAtlas

/-- The edges of a topology, from the first unit on. -/
def Topology.edgeList (t : Topology) : List (Nat × Nat) :=
  t.vertices.flatMap fun v => (t.successors v).map (v, ·)

theorem Topology.Ordered.mem_edgeList {t : Topology} (ht : t.Ordered) {v w : Nat} :
    (v, w) ∈ t.edgeList ↔ w ∈ t.successors v := by
  simp only [edgeList, vertices, List.mem_flatMap, List.mem_range, List.mem_map, Prod.mk.injEq]
  constructor
  · rintro ⟨_, -, _, hw, rfl, rfl⟩
    exact hw
  · exact fun hw => ⟨v, (ht.lt hw).1, w, hw, rfl, rfl⟩

theorem Topology.Ordered.nodup_edgeList {t : Topology} (ht : t.Ordered) : t.edgeList.Nodup :=
  nodup_flatMap_pairs List.nodup_range fun v _ => (ht.ascending v).imp Nat.ne_of_lt

/-- A cycle along the edges of a topology that meets no vertex twice, from the least vertex round to
it again. -/
structure Topology.SimpleCycle (t : Topology) (cycle : List Nat) : Prop where
  closed : ∃ m r, cycle = m :: (r ++ [m]) ∧ r.Nodup ∧ ∀ v ∈ r, m < v
  linked : ∀ e ∈ walkEdges cycle, e.2 ∈ t.successors e.1

namespace CycleSearch

variable {t : Topology} {cap : Nat} {s s' : CycleSearch} {u v w : Nat}

def path (s : CycleSearch) : List Nat :=
  s.stack.map Frame.vertex

def advance (s : CycleSearch) (top : Frame) (below : List Frame) : CycleSearch :=
  { s with stack := { top with position := top.position + 1 } :: below }

/-- The ways in which a search goes on. -/
inductive Move (t : Topology) (cap : Nat) (s : CycleSearch) : CycleSearch → Prop
  | skip : s.stack = [] → s.root < t.size → s.colour s.root ≠ .white →
      Move t cap s { s with root := s.root + 1 }
  | plant : s.stack = [] → s.root < t.size → s.colour s.root = .white →
      Move t cap s { s.paint s.root .grey with root := s.root + 1, stack := [⟨s.root, 0⟩] }
  | finish {top : Frame} {below : List Frame} : s.stack = top :: below →
      (t.successors top.vertex)[top.position]? = none →
      Move t cap s { s.paint top.vertex .black with stack := below }
  | descend {top : Frame} {below : List Frame} {v : Nat} : s.stack = top :: below →
      (t.successors top.vertex)[top.position]? = some v → s.colour v = .white →
      Move t cap s
        { (s.advance top below).paint v .grey with stack := ⟨v, 0⟩ :: (s.advance top below).stack }
  | pass {top : Frame} {below : List Frame} {v : Nat} : s.stack = top :: below →
      (t.successors top.vertex)[top.position]? = some v → s.colour v = .black →
      Move t cap s (s.advance top below)
  | known {top : Frame} {below : List Frame} {v : Nat} {body : List Nat} :
      s.stack = top :: below → (t.successors top.vertex)[top.position]? = some v →
      s.colour v = .grey → stackFrom? v (s.advance top below).stack = some body →
      Cycle.canonicalize body ∈ s.found → Move t cap s (s.advance top below)
  | report {top : Frame} {below : List Frame} {v : Nat} {body : List Nat} :
      s.stack = top :: below → (t.successors top.vertex)[top.position]? = some v →
      s.colour v = .grey → stackFrom? v (s.advance top below).stack = some body →
      Cycle.canonicalize body ∉ s.found → s.found.length < cap →
      Move t cap s { s.advance top below with found := Cycle.canonicalize body :: s.found }
  | cut {top : Frame} {below : List Frame} {v : Nat} {body : List Nat} :
      s.stack = top :: below → (t.successors top.vertex)[top.position]? = some v →
      s.colour v = .grey → stackFrom? v (s.advance top below).stack = some body →
      Cycle.canonicalize body ∉ s.found → cap ≤ s.found.length →
      Move t cap s { s.advance top below with truncated := true }

section Step

variable {top : Frame} {below : List Frame}

theorem step_of_truncated (h : s.truncated = true) : s.step t cap = .ok none := by
  rw [step, if_pos h]

theorem step_of_stack_eq_nil (h : s.truncated = false) (hstack : s.stack = []) :
    s.step t cap = if s.root < t.size then
      .ok (some (if s.colour s.root = .white then
        { s.paint s.root .grey with root := s.root + 1, stack := [⟨s.root, 0⟩] }
      else { s with root := s.root + 1 })) else .ok none := by
  rw [step, if_neg (by simp [h]), hstack]
  cases s.colour s.root <;> rfl

theorem step_of_getElem?_eq_none (h : s.truncated = false) (hstack : s.stack = top :: below)
    (hv : (t.successors top.vertex)[top.position]? = none) :
    s.step t cap = .ok (some { s.paint top.vertex .black with stack := below }) := by
  rw [step, if_neg (by simp [h]), hstack]
  simp only [hv]

theorem step_of_getElem?_eq_some (h : s.truncated = false) (hstack : s.stack = top :: below)
    (hv : (t.successors top.vertex)[top.position]? = some v) :
    s.step t cap = ((s.advance top below).visit t cap v).map some := by
  rw [step, if_neg (by simp [h]), hstack]
  simp only [hv]
  rfl

theorem path_advance (hstack : s.stack = top :: below) : (s.advance top below).path = s.path := by
  rw [path, path, hstack]
  rfl

theorem stackFrom?_eq_none_iff {stack : List Frame} :
    stackFrom? v stack = none ↔ v ∉ stack.map Frame.vertex := by
  simp only [stackFrom?, ite_eq_right_iff, reduceCtorEq, imp_false]

/-- A search that is not cut short ends with an empty stack after the last root, goes on, or fails at
a grey vertex that is not on the stack. -/
theorem step_cases (t : Topology) (cap : Nat) (h : s.truncated = false) :
    (s.step t cap = .ok none ∧ s.stack = [] ∧ t.size ≤ s.root) ∨
    (∃ s', s.step t cap = .ok (some s') ∧ Move t cap s s') ∨
    ∃ v, s.step t cap = .error (missing t v) ∧ s.colour v = .grey ∧ v ∉ s.path := by
  cases hstack : s.stack with
  | nil =>
    rw [step_of_stack_eq_nil h hstack]
    by_cases hroot : s.root < t.size
    · rw [if_pos hroot]
      by_cases hc : s.colour s.root = .white
      · rw [if_pos hc]
        exact .inr (.inl ⟨_, rfl, .plant hstack hroot hc⟩)
      · rw [if_neg hc]
        exact .inr (.inl ⟨_, rfl, .skip hstack hroot hc⟩)
    · rw [if_neg hroot]
      exact .inl ⟨rfl, rfl, Nat.le_of_not_lt hroot⟩
  | cons top below =>
    cases hv : (t.successors top.vertex)[top.position]? with
    | none => exact .inr (.inl ⟨_, step_of_getElem?_eq_none h hstack hv, .finish hstack hv⟩)
    | some v =>
      rw [step_of_getElem?_eq_some h hstack hv, visit]
      have hcolour : (s.advance top below).colour v = s.colour v := rfl
      cases hc : s.colour v with
      | white =>
        rw [hcolour, hc]
        exact .inr (.inl ⟨_, rfl, .descend hstack hv hc⟩)
      | black =>
        rw [hcolour, hc]
        exact .inr (.inl ⟨_, rfl, .pass hstack hv hc⟩)
      | grey =>
        rw [hcolour, hc]
        cases hbody : stackFrom? v (s.advance top below).stack with
        | none =>
          refine .inr (.inr ⟨v, by simp only [close, hbody]; rfl, hc, ?_⟩)
          rw [← path_advance hstack]
          exact stackFrom?_eq_none_iff.mp hbody
        | some body =>
          refine .inr (.inl ?_)
          simp only [close, hbody, List.contains_eq_mem, decide_eq_true_eq]
          by_cases hknown : Cycle.canonicalize body ∈ s.found
          · rw [if_pos (show Cycle.canonicalize body ∈ (s.advance top below).found from hknown)]
            exact ⟨_, rfl, .known hstack hv hc hbody hknown⟩
          · rw [if_neg (show Cycle.canonicalize body ∉ (s.advance top below).found from hknown)]
            by_cases hcap : cap ≤ s.found.length
            · rw [if_pos (show cap ≤ (s.advance top below).found.length from hcap)]
              exact ⟨_, rfl, .cut hstack hv hc hbody hknown hcap⟩
            · rw [if_neg (show ¬ cap ≤ (s.advance top below).found.length from hcap)]
              exact ⟨_, rfl, .report hstack hv hc hbody hknown (Nat.lt_of_not_le hcap)⟩

theorem move_of_step (h : s.step t cap = .ok (some s')) : s.truncated = false ∧ Move t cap s s' := by
  have hs : s.truncated = false := by
    apply Bool.eq_false_iff.mpr
    intro hs
    rw [step_of_truncated hs] at h
    cases h
  rcases step_cases t cap hs with ⟨hstep, -⟩ | ⟨next, hstep, hmove⟩ | ⟨v, hstep, -⟩
  · rw [hstep] at h
    cases h
  · rw [hstep] at h
    cases h
    exact ⟨hs, hmove⟩
  · rw [hstep] at h
    cases h

end Step

theorem colour_paint {c : Colour} (h : v < s.colours.size) (u : Nat) :
    (s.paint v c).colour u = Function.update s.colour v c u := by
  unfold colour paint
  rw [Array.getElem?_setIfInBounds]
  by_cases hu : v = u
  · rw [if_pos hu, if_pos (hu ▸ h), ← hu, Function.update_self]
    rfl
  · rw [if_neg hu, Function.update_of_ne (Ne.symm hu)]

/-- Grey vertices are on the path, each once; black ones are finished or no units. -/
structure Coloured (t : Topology) (colour : Nat → Colour) (path finished : List Nat) : Prop where
  grey_iff : ∀ v, colour v = .grey ↔ v ∈ path
  black_iff : ∀ v, colour v = .black ↔ v ∈ finished ∨ t.size ≤ v
  nodup_path : path.Nodup
  nodup_finished : finished.Nodup
  finished_lt : ∀ v ∈ finished, v < t.size

namespace Coloured

variable {colour : Nat → Colour} {path finished : List Nat}

theorem not_mem_finished (h : Coloured t colour path finished) (hv : v ∈ path) : v ∉ finished := by
  intro hf
  have hgrey := (h.grey_iff v).mpr hv
  rw [(h.black_iff v).mpr (.inl hf)] at hgrey
  exact absurd hgrey (by simp)

theorem lt_of_ne_black (h : Coloured t colour path finished) (hv : colour v ≠ .black) :
    v < t.size := by
  apply Nat.lt_of_not_le
  intro hle
  exact hv ((h.black_iff v).mpr (.inr hle))

theorem lt_of_mem (h : Coloured t colour path finished) (hv : v ∈ path) : v < t.size := by
  apply h.lt_of_ne_black
  rw [(h.grey_iff v).mpr hv]
  simp

theorem push (h : Coloured t colour path finished) (hv : colour v = .white) :
    Coloured t (Function.update colour v .grey) (v :: path) finished := by
  have hpath : v ∉ path := by
    rw [← h.grey_iff, hv]
    simp
  have hfinished : ¬ (v ∈ finished ∨ t.size ≤ v) := by
    rw [← h.black_iff, hv]
    simp
  refine ⟨fun u => ?_, fun u => ?_, List.nodup_cons.mpr ⟨hpath, h.nodup_path⟩, h.nodup_finished,
    h.finished_lt⟩
  · by_cases hu : u = v
    · simp [hu]
    · rw [Function.update_of_ne hu, h.grey_iff, List.mem_cons, or_iff_right hu]
  · by_cases hu : u = v
    · rw [hu, Function.update_self, iff_false_intro hfinished]
      simp
    · rw [Function.update_of_ne hu, h.black_iff]

theorem pop (h : Coloured t colour (v :: path) finished) :
    Coloured t (Function.update colour v .black) path (v :: finished) := by
  obtain ⟨hpath, hnodup⟩ := List.nodup_cons.mp h.nodup_path
  have hfinished := h.not_mem_finished List.mem_cons_self
  refine ⟨fun u => ?_, fun u => ?_, hnodup, List.nodup_cons.mpr ⟨hfinished, h.nodup_finished⟩,
    fun u hu => ?_⟩
  · by_cases hu : u = v
    · rw [hu, Function.update_self, iff_false_intro hpath]
      simp
    · rw [Function.update_of_ne hu, h.grey_iff, List.mem_cons, or_iff_right hu]
  · by_cases hu : u = v
    · simp [hu]
    · rw [Function.update_of_ne hu, h.black_iff, List.mem_cons, or_iff_right hu]
  · rcases List.mem_cons.mp hu with rfl | hu
    · exact h.lt_of_mem List.mem_cons_self
    · exact h.finished_lt u hu

end Coloured

/-- The edges that were looked at, each once: all edges of finished vertices, and those of a vertex
on the stack up to its position. -/
structure Examined (t : Topology) (stack : List Frame) (finished : List Nat)
    (examined : List (Nat × Nat)) : Prop where
  mem_iff : ∀ v w, (v, w) ∈ examined ↔ (v ∈ finished ∧ w ∈ t.successors v) ∨
    ∃ p, ⟨v, p⟩ ∈ stack ∧ w ∈ (t.successors v).take p
  nodup : examined.Nodup

namespace Examined

variable {stack : List Frame} {finished : List Nat} {examined : List (Nat × Nat)} {p : Nat}

theorem mem_successors (h : Examined t stack finished examined) (hvw : (v, w) ∈ examined) :
    w ∈ t.successors v := by
  rcases (h.mem_iff v w).mp hvw with ⟨-, hw⟩ | ⟨p, -, hw⟩
  · exact hw
  · exact List.mem_of_mem_take hw

theorem push (h : Examined t stack finished examined) (v : Nat) :
    Examined t (⟨v, 0⟩ :: stack) finished examined := by
  refine ⟨fun u w => ?_, h.nodup⟩
  rw [h.mem_iff]
  apply or_congr_right
  constructor
  · rintro ⟨p, hp, hw⟩
    exact ⟨p, List.mem_cons_of_mem _ hp, hw⟩
  · rintro ⟨p, hp, hw⟩
    rcases List.mem_cons.mp hp with he | hp
    · rw [(Frame.mk.inj he).2] at hw
      exact absurd hw (by simp)
    · exact ⟨p, hp, hw⟩

theorem pop (h : Examined t (⟨v, p⟩ :: stack) finished examined)
    (hp : (t.successors v)[p]? = none) : Examined t stack (v :: finished) examined := by
  have hall : (t.successors v).take p = t.successors v :=
    List.take_of_length_le (List.getElem?_eq_none_iff.mp hp)
  refine ⟨fun u w => ?_, h.nodup⟩
  rw [h.mem_iff]
  constructor
  · rintro (⟨hu, hw⟩ | ⟨q, hq, hw⟩)
    · exact .inl ⟨List.mem_cons_of_mem _ hu, hw⟩
    · rcases List.mem_cons.mp hq with he | hq
      · obtain ⟨rfl, rfl⟩ := Frame.mk.inj he
        exact .inl ⟨List.mem_cons_self, List.mem_of_mem_take hw⟩
      · exact .inr ⟨q, hq, hw⟩
  · rintro (⟨hu, hw⟩ | ⟨q, hq, hw⟩)
    · rcases List.mem_cons.mp hu with rfl | hu
      · exact .inr ⟨p, List.mem_cons_self, by rwa [hall]⟩
      · exact .inl ⟨hu, hw⟩
    · exact .inr ⟨q, List.mem_cons_of_mem _ hq, hw⟩

variable (ht : t.Ordered) (h : Examined t (⟨v, p⟩ :: stack) finished examined)
  (hw : (t.successors v)[p]? = some w) (hfinished : v ∉ finished)
  (hstack : v ∉ stack.map Frame.vertex)

include ht h hw hfinished hstack

theorem not_mem_of_getElem? : (v, w) ∉ examined := by
  intro hmem
  rcases (h.mem_iff v w).mp hmem with ⟨hf, -⟩ | ⟨q, hq, htake⟩
  · exact hfinished hf
  · rcases List.mem_cons.mp hq with he | hq
    · rw [(Frame.mk.inj he).2] at htake
      obtain ⟨i, hi, hget⟩ := List.mem_take_iff_getElem.mp htake
      obtain ⟨hp, hget'⟩ := List.getElem?_eq_some_iff.mp hw
      have hlt := List.pairwise_iff_getElem.mp (ht.ascending v) i p (by omega) hp (by omega)
      omega
    · exact hstack (List.mem_map.mpr ⟨_, hq, rfl⟩)

theorem advance : Examined t (⟨v, p + 1⟩ :: stack) finished ((v, w) :: examined) := by
  refine ⟨fun u x => ?_, List.nodup_cons.mpr ⟨h.not_mem_of_getElem? ht hw hfinished hstack, h.nodup⟩⟩
  have htake : (t.successors v).take (p + 1) = (t.successors v).take p ++ [w] := by
    rw [List.take_add_one, hw]
    rfl
  rw [List.mem_cons, h.mem_iff, Prod.mk.injEq]
  constructor
  · rintro (⟨rfl, rfl⟩ | hu | ⟨q, hq, hx⟩)
    · exact .inr ⟨p + 1, List.mem_cons_self, by simp [htake]⟩
    · exact .inl hu
    · rcases List.mem_cons.mp hq with he | hq
      · obtain ⟨rfl, rfl⟩ := Frame.mk.inj he
        exact .inr ⟨q + 1, List.mem_cons_self, by simp [htake, hx]⟩
      · exact .inr ⟨q, List.mem_cons_of_mem _ hq, hx⟩
  · rintro (hu | ⟨q, hq, hx⟩)
    · exact .inr (.inl hu)
    · rcases List.mem_cons.mp hq with he | hq
      · obtain ⟨rfl, rfl⟩ := Frame.mk.inj he
        rw [htake, List.mem_append, List.mem_singleton] at hx
        rcases hx with hx | rfl
        · exact .inr (.inr ⟨p, List.mem_cons_self, hx⟩)
        · exact .inl ⟨rfl, rfl⟩
      · exact .inr (.inr ⟨q, List.mem_cons_of_mem _ hq, hx⟩)

end Examined

/-- The path runs along edges that closed no cycle. Every edge that was looked at closed a cycle,
leads to a finished vertex, or is one of the path; from a finished vertex it closed a cycle or leads
to one that was finished before. -/
structure Directed (path finished : List Nat) (examined closing : List (Nat × Nat)) : Prop where
  closing_sub : ∀ e ∈ closing, e ∈ examined
  nodup_closing : closing.Nodup
  tree : path.IsChain fun upper lower => (lower, upper) ∈ examined ∧ (lower, upper) ∉ closing
  resolved : ∀ v w, (v, w) ∈ examined → (v, w) ∈ closing ∨ w ∈ finished ∨ [w, v] <:+: path
  ordered : ∀ later v earlier w, finished = later ++ v :: earlier → (v, w) ∈ examined →
    (v, w) ∉ closing → w ∈ earlier

namespace Directed

variable {path finished : List Nat} {examined closing : List (Nat × Nat)}

theorem plant (h : Directed [] finished examined closing) (v : Nat) :
    Directed [v] finished examined closing := by
  refine ⟨h.closing_sub, h.nodup_closing, List.isChain_singleton v, fun u w hu => ?_, h.ordered⟩
  rcases h.resolved u w hu with hc | hf | hp
  · exact .inl hc
  · exact .inr (.inl hf)
  · exact .inr (.inr (List.infix_cons hp))

theorem pop (h : Directed (v :: path) finished examined closing) (hn : (v :: path).Nodup) :
    Directed path (v :: finished) examined closing := by
  obtain ⟨hv, -⟩ := List.nodup_cons.mp hn
  have hpair : ∀ {u w}, [w, u] <:+: v :: path → w = v ∧ u ∈ path ∨ [w, u] <:+: path := by
    intro u w hp
    rcases List.infix_cons_iff.mp hp with hp | hp
    · obtain ⟨hwv, hu⟩ := List.cons_prefix_cons.mp hp
      exact .inl ⟨hwv, hu.subset List.mem_cons_self⟩
    · exact .inr hp
  refine ⟨h.closing_sub, h.nodup_closing, h.tree.tail, fun u w hu => ?_, ?_⟩
  · rcases h.resolved u w hu with hc | hf | hp
    · exact .inl hc
    · exact .inr (.inl (List.mem_cons_of_mem _ hf))
    · rcases hpair hp with ⟨rfl, -⟩ | hp
      · exact .inr (.inl List.mem_cons_self)
      · exact .inr (.inr hp)
  · intro later u earlier w he hu hc
    cases later with
    | cons x later => exact h.ordered later u earlier w (List.cons.inj he).2 hu hc
    | nil =>
      obtain ⟨rfl, rfl⟩ := List.cons.inj he
      rcases h.resolved v w hu with hc' | hf | hp
      · exact absurd hc' hc
      · exact hf
      · rcases hpair hp with ⟨-, hv'⟩ | hp
        · exact absurd hv' hv
        · exact absurd (hp.subset (List.mem_cons_of_mem _ List.mem_cons_self)) hv

section Examine

variable (h : Directed (u :: path) finished examined closing) (hnew : (u, w) ∉ examined)
  (hu : u ∉ finished)

include h hnew hu

theorem ordered_examine {closing' : List (Nat × Nat)} (hc : ∀ e ∈ closing, e ∈ closing')
    (later : List Nat) (v : Nat) (earlier : List Nat) (x : Nat)
    (he : finished = later ++ v :: earlier) (hv : (v, x) ∈ (u, w) :: examined)
    (hcx : (v, x) ∉ closing') : x ∈ earlier := by
  rcases List.mem_cons.mp hv with heq | hv
  · obtain ⟨rfl, rfl⟩ := Prod.mk.inj heq
    exact absurd (he ▸ List.mem_append_right _ List.mem_cons_self) hu
  · exact h.ordered later v earlier x he hv fun hmem => hcx (hc _ hmem)

theorem descend : Directed (w :: u :: path) finished ((u, w) :: examined) closing := by
  refine ⟨fun e he => List.mem_cons_of_mem _ (h.closing_sub e he), h.nodup_closing, ?_,
    fun v x hv => ?_, h.ordered_examine hnew hu fun _ he => he⟩
  · refine List.isChain_cons_cons.mpr ⟨⟨List.mem_cons_self, fun hc => hnew (h.closing_sub _ hc)⟩, ?_⟩
    exact h.tree.imp fun _ _ he => ⟨List.mem_cons_of_mem _ he.1, he.2⟩
  · rcases List.mem_cons.mp hv with heq | hv
    · obtain ⟨rfl, rfl⟩ := Prod.mk.inj heq
      exact .inr (.inr ⟨[], path, rfl⟩)
    · rcases h.resolved v x hv with hc | hf | hp
      · exact .inl hc
      · exact .inr (.inl hf)
      · exact .inr (.inr (List.infix_cons hp))

theorem pass (hw : w ∈ finished) : Directed (u :: path) finished ((u, w) :: examined) closing := by
  refine ⟨fun e he => List.mem_cons_of_mem _ (h.closing_sub e he), h.nodup_closing, ?_,
    fun v x hv => ?_, h.ordered_examine hnew hu fun _ he => he⟩
  · exact h.tree.imp fun _ _ he => ⟨List.mem_cons_of_mem _ he.1, he.2⟩
  · rcases List.mem_cons.mp hv with heq | hv
    · obtain ⟨rfl, rfl⟩ := Prod.mk.inj heq
      exact .inr (.inl hw)
    · exact h.resolved v x hv

theorem close : Directed (u :: path) finished ((u, w) :: examined) ((u, w) :: closing) := by
  have hclosing : (u, w) ∉ closing := fun hc => hnew (h.closing_sub _ hc)
  refine ⟨List.forall_mem_cons.mpr ⟨List.mem_cons_self, fun e he => ?_⟩,
    List.nodup_cons.mpr ⟨hclosing, h.nodup_closing⟩, ?_, fun v x hv => ?_,
    h.ordered_examine hnew hu fun _ he => List.mem_cons_of_mem _ he⟩
  · exact List.mem_cons_of_mem _ (h.closing_sub e he)
  · refine h.tree.imp fun a b he => ⟨List.mem_cons_of_mem _ he.1, fun hc => ?_⟩
    rcases List.mem_cons.mp hc with heq | hc
    · exact hnew (heq ▸ he.1)
    · exact he.2 hc
  · rcases List.mem_cons.mp hv with heq | hv
    · exact .inl (heq ▸ List.mem_cons_self)
    · rcases h.resolved v x hv with hc | hf | hp
      · exact .inl (List.mem_cons_of_mem _ hc)
      · exact .inr (.inl hf)
      · exact .inr (.inr hp)

end Examine

/-- When every vertex is finished, the edges that closed no cycle lead to vertices that were
finished before. -/
theorem acyclic (h : Directed [] finished examined closing) {R : Nat → Nat → Prop}
    (hR : ∀ v w, R v w → (v, w) ∈ examined ∧ (v, w) ∉ closing ∧ v ∈ finished)
    (hn : finished.Nodup) : Acyclic R := by
  apply acyclic_of_rank fun v => finished.reverse.idxOf v
  intro v w hvw
  obtain ⟨hexamined, hclosing, hv⟩ := hR v w hvw
  obtain ⟨later, earlier, rfl⟩ := List.append_of_mem hv
  have hw := h.ordered later v earlier w rfl hexamined hclosing
  have hv' : v ∉ earlier := by
    have hcons := (List.nodup_append.mp hn).2.1
    exact (List.nodup_cons.mp hcons).1
  have hsplit : (later ++ v :: earlier).reverse = earlier.reverse ++ v :: later.reverse := by simp
  rw [hsplit, List.idxOf_append_of_mem (List.mem_reverse.mpr hw),
    List.idxOf_append_of_notMem (fun h => hv' (List.mem_reverse.mp h))]
  have hlt := List.idxOf_lt_length_of_mem (List.mem_reverse.mpr hw)
  omega

end Directed

/-- Reported cycles are simple and differ. Each takes one closing edge, its own; its other edges
were looked at as well. -/
structure Reported (t : Topology) (found : List (List Nat)) (examined closing : List (Nat × Nat)) :
    Prop where
  simple : ∀ c ∈ found, t.SimpleCycle c
  nodup : found.Nodup
  own : List.Forall₂ (fun c e => e ∈ walkEdges c ∧
    ∀ e' ∈ walkEdges c, e' ≠ e → e' ∈ examined ∧ e' ∉ closing) found closing

namespace Reported

variable {found : List (List Nat)} {examined closing : List (Nat × Nat)} {c : List Nat}
  {e : Nat × Nat}

theorem examine (h : Reported t found examined closing) (e : Nat × Nat) :
    Reported t found (e :: examined) closing := by
  refine ⟨h.simple, h.nodup, h.own.imp fun c e hc => ⟨hc.1, fun e' he' hne => ?_⟩⟩
  obtain ⟨hexamined, hclosing⟩ := hc.2 e' he' hne
  exact ⟨List.mem_cons_of_mem _ hexamined, hclosing⟩

theorem exists_own (h : Reported t found examined closing) (hc : c ∈ found) :
    ∃ e ∈ closing, e ∈ walkEdges c ∧ ∀ e' ∈ walkEdges c, e' ≠ e → e' ∈ examined := by
  obtain ⟨i, hi, rfl⟩ := List.mem_iff_getElem.mp hc
  have hlength := h.own.length_eq
  have hown := h.own.get hi (hlength ▸ hi)
  exact ⟨closing[i], List.getElem_mem _, hown.1, fun e' he' hne => (hown.2 e' he' hne).1⟩

section Close

variable (h : Reported t found examined closing) (hnew : e ∉ examined) (he : e ∈ walkEdges c)
  (hclosing : ∀ e ∈ closing, e ∈ examined)

include h hnew he hclosing

theorem not_mem_of_new : c ∉ found := by
  intro hc
  obtain ⟨own, hown, -, hothers⟩ := h.exists_own hc
  by_cases hne : e = own
  · exact hnew (hclosing e (hne ▸ hown))
  · exact hnew (hothers e he hne)

theorem close (hsimple : t.SimpleCycle c)
    (hothers : ∀ e' ∈ walkEdges c, e' ≠ e → e' ∈ examined ∧ e' ∉ closing) :
    Reported t (c :: found) (e :: examined) (e :: closing) := by
  have hkeep {e' : Nat × Nat} (h' : e' ∈ examined ∧ e' ∉ closing) :
      e' ∈ e :: examined ∧ e' ∉ e :: closing := by
    refine ⟨List.mem_cons_of_mem _ h'.1, fun hmem => ?_⟩
    rcases List.mem_cons.mp hmem with rfl | hmem
    · exact hnew h'.1
    · exact h'.2 hmem
  refine ⟨List.forall_mem_cons.mpr ⟨hsimple, h.simple⟩,
    List.nodup_cons.mpr ⟨h.not_mem_of_new hnew he hclosing, h.nodup⟩, ?_⟩
  refine List.Forall₂.cons ⟨he, fun e' he' hne => hkeep (hothers e' he' hne)⟩ ?_
  exact h.own.imp fun c e hc => ⟨hc.1, fun e' he' hne => hkeep (hc.2 e' he' hne)⟩

end Close

end Reported

/-- What a search has done: the edges it looked at, those of them that closed a cycle, and the
vertices it finished. The latest come first. -/
structure Trace where
  examined : List (Nat × Nat)
  closing : List (Nat × Nat)
  finished : List Nat

/-- A search that was not cut short, and its trace. -/
structure Follows (t : Topology) (s : CycleSearch) (trace : Trace) : Prop where
  size : s.colours.size = t.size
  root_le : s.root ≤ t.size
  tried : ∀ v < s.root, s.colour v ≠ .white
  coloured : Coloured t s.colour s.path trace.finished
  examined : Examined t s.stack trace.finished trace.examined
  directed : Directed s.path trace.finished trace.examined trace.closing
  reported : Reported t s.found trace.examined trace.closing

def Trace.steps (trace : Trace) (s : CycleSearch) : Nat :=
  s.root + trace.examined.length + trace.finished.length

namespace Follows

variable {trace : Trace} {top : Frame} {below : List Frame}

theorem start (t : Topology) : Follows t (start t.size) ⟨[], [], []⟩ := by
  have hcolour (v : Nat) : (CycleSearch.start t.size).colour v =
      if v < t.size then .white else .black := by
    unfold colour CycleSearch.start
    rw [Array.getElem?_replicate]
    split <;> rfl
  refine ⟨by simp [CycleSearch.start], Nat.zero_le _, fun v hv => absurd hv (Nat.not_lt_zero v),
    ⟨fun v => ?_, fun v => ?_, List.nodup_nil, List.nodup_nil, by simp⟩,
    ⟨by simp [CycleSearch.start], List.nodup_nil⟩,
    ⟨by simp, List.nodup_nil, List.isChain_nil, by simp, by simp⟩,
    ⟨by simp [CycleSearch.start], List.nodup_nil, List.Forall₂.nil⟩⟩
  · rw [hcolour]
    split <;> simp [path, CycleSearch.start]
  · rw [hcolour]
    split <;> simp <;> omega

theorem path_eq (hstack : s.stack = top :: below) :
    s.path = top.vertex :: below.map Frame.vertex := by
  rw [path, hstack, List.map_cons]

theorem top_not_mem_finished (h : Follows t s trace) (hstack : s.stack = top :: below) :
    top.vertex ∉ trace.finished := by
  apply h.coloured.not_mem_finished
  rw [path_eq hstack]
  exact List.mem_cons_self

theorem top_not_mem_below (h : Follows t s trace) (hstack : s.stack = top :: below) :
    top.vertex ∉ below.map Frame.vertex := by
  have hnodup := h.coloured.nodup_path
  rw [path_eq hstack] at hnodup
  exact (List.nodup_cons.mp hnodup).1

theorem examined_subset (ht : t.Ordered) (h : Follows t s trace) :
    trace.examined ⊆ t.edgeList := by
  intro e he
  exact ht.mem_edgeList.mpr (h.examined.mem_successors he)

theorem steps_lt (ht : t.Ordered) (h : Follows t s trace) : trace.steps s < stepBound t := by
  have hfinished : trace.finished.length ≤ t.size := by
    have hsub : trace.finished ⊆ List.range t.size := fun v hv =>
      List.mem_range.mpr (h.coloured.finished_lt v hv)
    simpa using (List.subperm_of_subset h.coloured.nodup_finished hsub).length_le
  have hexamined : trace.examined.length ≤ t.edgeList.length :=
    (List.subperm_of_subset h.examined.nodup (h.examined_subset ht)).length_le
  have hedges : t.edgeList.length = (t.vertices.flatMap t.successors).length := by
    simp only [Topology.edgeList, List.length_flatMap, List.length_map]
  have hroot := h.root_le
  unfold Trace.steps stepBound
  omega

theorem skip (h : Follows t s trace) (hroot : s.root < t.size) (hc : s.colour s.root ≠ .white) :
    Follows t { s with root := s.root + 1 } trace := by
  refine ⟨h.size, hroot, fun v hv => ?_, h.coloured, h.examined, h.directed, h.reported⟩
  rcases Nat.lt_succ_iff_lt_or_eq.mp hv with hv | rfl
  · exact h.tried v hv
  · exact hc

theorem colour_paint_of_ne_black (h : Follows t s trace) {c : Colour} (hv : s.colour v ≠ .black) :
    (s.paint v c).colour = Function.update s.colour v c :=
  funext (colour_paint (h.size ▸ h.coloured.lt_of_ne_black hv))

theorem size_paint (h : Follows t s trace) (v : Nat) (c : Colour) :
    (s.paint v c).colours.size = t.size := by
  rw [paint, Array.size_setIfInBounds, h.size]

theorem update_ne_white (h : Follows t s trace) {c : Colour} (hc : c ≠ .white) (u : Nat)
    (hu : u < s.root) : Function.update s.colour v c u ≠ .white := by
  by_cases huv : u = v
  · rw [huv, Function.update_self]
    exact hc
  · rw [Function.update_of_ne huv]
    exact h.tried u hu

theorem plant (h : Follows t s trace) (hstack : s.stack = []) (hroot : s.root < t.size)
    (hc : s.colour s.root = .white) :
    Follows t { s.paint s.root .grey with root := s.root + 1, stack := [⟨s.root, 0⟩] } trace := by
  have hpath : s.path = [] := by rw [path, hstack, List.map_nil]
  have hcolour : (s.paint s.root .grey).colour = Function.update s.colour s.root .grey :=
    h.colour_paint_of_ne_black (by simp [hc])
  have hcoloured := h.coloured.push hc
  have hexamined := h.examined.push s.root
  have hdirected := h.directed
  rw [hpath] at hcoloured hdirected
  rw [hstack] at hexamined
  refine ⟨h.size_paint _ _, hroot, fun v hv => ?_, ?_, hexamined, hdirected.plant s.root, h.reported⟩
  · change (s.paint s.root .grey).colour v ≠ .white
    rw [hcolour]
    rcases Nat.lt_succ_iff_lt_or_eq.mp hv with hv | rfl
    · exact h.update_ne_white (by simp) v hv
    · simp
  · change Coloured t (s.paint s.root .grey).colour [s.root] trace.finished
    rwa [hcolour]

theorem finish (h : Follows t s trace) (hstack : s.stack = top :: below)
    (hnone : (t.successors top.vertex)[top.position]? = none) :
    Follows t { s.paint top.vertex .black with stack := below }
      { trace with finished := top.vertex :: trace.finished } := by
  have hgrey : s.colour top.vertex = .grey := by
    rw [h.coloured.grey_iff, path_eq hstack]
    exact List.mem_cons_self
  have hcolour : (s.paint top.vertex .black).colour = Function.update s.colour top.vertex .black :=
    h.colour_paint_of_ne_black (by simp [hgrey])
  have hcoloured := h.coloured
  have hexamined := h.examined
  have hdirected := h.directed
  have hnodup := h.coloured.nodup_path
  rw [path_eq hstack] at hcoloured hdirected hnodup
  rw [hstack] at hexamined
  refine ⟨h.size_paint _ _, h.root_le, fun v hv => ?_, ?_, hexamined.pop hnone,
    hdirected.pop hnodup, h.reported⟩
  · change (s.paint top.vertex .black).colour v ≠ .white
    rw [hcolour]
    exact h.update_ne_white (by simp) v hv
  · change Coloured t (s.paint top.vertex .black).colour (below.map Frame.vertex)
      (top.vertex :: trace.finished)
    rw [hcolour]
    exact hcoloured.pop

section Edge

variable (ht : t.Ordered) (h : Follows t s trace) (hstack : s.stack = top :: below)
  (hv : (t.successors top.vertex)[top.position]? = some v)

include ht h hstack hv

theorem edge_not_mem : (top.vertex, v) ∉ trace.examined := by
  have hexamined := h.examined
  rw [hstack] at hexamined
  exact hexamined.not_mem_of_getElem? ht hv (h.top_not_mem_finished hstack)
    (h.top_not_mem_below hstack)

/-- While an edge is left to look at, there are more edges than reported cycles. -/
theorem found_lt : s.found.length < t.edgeList.length := by
  have hclosing : trace.closing.length ≤ trace.examined.length :=
    (List.subperm_of_subset h.directed.nodup_closing h.directed.closing_sub).length_le
  have hsub : (top.vertex, v) :: trace.examined ⊆ t.edgeList := by
    refine List.cons_subset.mpr ⟨?_, h.examined_subset ht⟩
    exact ht.mem_edgeList.mpr (List.mem_of_getElem? hv)
  have hnodup := List.nodup_cons.mpr ⟨h.edge_not_mem ht hstack hv, h.examined.nodup⟩
  have hexamined := (List.subperm_of_subset hnodup hsub).length_le
  have hfound := h.reported.own.length_eq
  rw [List.length_cons] at hexamined
  omega

theorem examined_advance : Examined t (s.advance top below).stack trace.finished
    ((top.vertex, v) :: trace.examined) := by
  have hexamined := h.examined
  rw [hstack] at hexamined
  exact hexamined.advance ht hv (h.top_not_mem_finished hstack) (h.top_not_mem_below hstack)

theorem descend (hc : s.colour v = .white) :
    Follows t
      { (s.advance top below).paint v .grey with stack := ⟨v, 0⟩ :: (s.advance top below).stack }
      { trace with examined := (top.vertex, v) :: trace.examined } := by
  have hcolour : (s.paint v .grey).colour = Function.update s.colour v .grey :=
    h.colour_paint_of_ne_black (by simp [hc])
  have hdirected := h.directed
  have hcoloured := h.coloured.push hc
  rw [path_eq hstack] at hdirected hcoloured
  refine ⟨h.size_paint _ _, h.root_le, fun u hu => ?_, ?_,
    (h.examined_advance ht hstack hv).push v,
    hdirected.descend (h.edge_not_mem ht hstack hv) (h.top_not_mem_finished hstack),
    h.reported.examine _⟩
  · change (s.paint v .grey).colour u ≠ .white
    rw [hcolour]
    exact h.update_ne_white (by simp) u hu
  · change Coloured t (s.paint v .grey).colour (v :: top.vertex :: below.map Frame.vertex)
      trace.finished
    rwa [hcolour]

theorem pass (hc : s.colour v = .black) : Follows t (s.advance top below)
    { trace with examined := (top.vertex, v) :: trace.examined } := by
  have hfinished : v ∈ trace.finished := by
    rcases (h.coloured.black_iff v).mp hc with hf | hle
    · exact hf
    · exact absurd (ht.lt (List.mem_of_getElem? hv)).2 (Nat.not_lt.mpr hle)
  have hdirected := h.directed
  have hcoloured := h.coloured
  rw [path_eq hstack] at hdirected hcoloured
  exact ⟨h.size, h.root_le, h.tried, hcoloured, h.examined_advance ht hstack hv,
    hdirected.pass (h.edge_not_mem ht hstack hv) (h.top_not_mem_finished hstack) hfinished,
    h.reported.examine _⟩

omit ht in
/-- An edge to a grey vertex closes a simple cycle whose other edges are those of the path. -/
theorem exists_cycle (hc : s.colour v = .grey) :
    ∃ body, stackFrom? v (s.advance top below).stack = some body ∧
      t.SimpleCycle (Cycle.canonicalize body) ∧
      (top.vertex, v) ∈ walkEdges (Cycle.canonicalize body) ∧
      ∀ e ∈ walkEdges (Cycle.canonicalize body), e ≠ (top.vertex, v) →
        e ∈ trace.examined ∧ e ∉ trace.closing := by
  have hpath : (s.advance top below).stack.map Frame.vertex = s.path := path_advance hstack
  obtain ⟨upper, lower, hsplit⟩ := List.append_of_mem ((h.coloured.grey_iff v).mp hc)
  have hnodup := h.coloured.nodup_path
  have htree := h.directed.tree
  rw [hsplit] at hnodup htree
  have hupper : ∀ u ∈ upper, decide (u ≠ v) = true := by
    intro u hu
    apply decide_eq_true
    exact (List.nodup_append.mp hnodup).2.2 u hu v List.mem_cons_self
  have hbody : stackFrom? v (s.advance top below).stack = some (v :: upper.reverse) := by
    rw [stackFrom?, hpath, hsplit, if_pos (by simp), List.takeWhile_append_of_pos hupper]
    simp
  obtain ⟨walk, hwalk⟩ : ∃ walk, v :: upper.reverse = walk ++ [top.vertex] := by
    have htop := path_eq hstack
    rw [hsplit] at htop
    cases upper with
    | nil => exact ⟨[], by rw [(List.cons.inj htop).1]; rfl⟩
    | cons u upper => exact ⟨v :: upper.reverse, by rw [(List.cons.inj htop).1]; simp⟩
  have hedges : walkEdges (v :: (upper.reverse ++ [v])) =
      walkEdges (v :: upper.reverse) ++ [(top.vertex, v)] := by
    rw [← List.cons_append, hwalk, List.append_assoc]
    exact walkEdges_append_cons walk top.vertex [v]
  have hchain : ∀ e ∈ walkEdges (v :: upper.reverse), e ∈ trace.examined ∧ e ∉ trace.closing := by
    have hrev : (v :: upper.reverse).reverse = upper ++ [v] := by simp
    rw [← isChain_iff_forall_edges (R := fun a b => (a, b) ∈ trace.examined ∧ (a, b) ∉ trace.closing),
      ← List.isChain_reverse, hrev]
    exact htree.prefix ⟨lower, by simp⟩
  have hbodyNodup : (v :: upper.reverse).Nodup := by
    have hperm : (v :: upper.reverse).Perm (upper ++ [v]) := by
      rw [← List.perm_reverse]
      simp
    exact hperm.symm.nodup (hnodup.sublist (by simp))
  obtain ⟨m, r, heq, hperm, hlt, hedgesPerm⟩ := Cycle.canonicalize_of_nodup hbodyNodup
  have hmem (e : Nat × Nat) : e ∈ walkEdges (Cycle.canonicalize (v :: upper.reverse)) ↔
      e ∈ walkEdges (v :: upper.reverse) ∨ e = (top.vertex, v) := by
    rw [hedgesPerm.mem_iff, hedges, List.mem_append, List.mem_singleton]
  refine ⟨_, hbody, ⟨⟨m, r, heq, ?_, hlt⟩, fun e he => ?_⟩, (hmem _).mpr (.inr rfl),
    fun e he hne => ?_⟩
  · exact (List.nodup_cons.mp (hperm.symm.nodup hbodyNodup)).2
  · rcases (hmem e).mp he with he | rfl
    · exact h.examined.mem_successors (hchain e he).1
    · exact List.mem_of_getElem? hv
  · exact hchain e (((hmem e).mp he).resolve_right hne)

theorem report (hc : s.colour v = .grey) :
    ∃ body, stackFrom? v (s.advance top below).stack = some body ∧
      Cycle.canonicalize body ∉ s.found ∧
      Follows t { s.advance top below with found := Cycle.canonicalize body :: s.found }
        { trace with
          examined := (top.vertex, v) :: trace.examined
          closing := (top.vertex, v) :: trace.closing } := by
  obtain ⟨body, hbody, hsimple, hown, hothers⟩ := h.exists_cycle hstack hv hc
  have hnew := h.edge_not_mem ht hstack hv
  have hclosing := h.directed.closing_sub
  have hdirected := h.directed
  have hcoloured := h.coloured
  rw [path_eq hstack] at hdirected hcoloured
  exact ⟨body, hbody, h.reported.not_mem_of_new hnew hown hclosing,
    ⟨h.size, h.root_le, h.tried, hcoloured, h.examined_advance ht hstack hv,
      hdirected.close hnew (h.top_not_mem_finished hstack),
      h.reported.close hnew hown hclosing hsimple hothers⟩⟩

end Edge

/-- Every way to go on keeps the trace up to date and is one step more, or cuts the search short. -/
theorem move (ht : t.Ordered) (h : Follows t s trace) (hs : s.truncated = false)
    (hmove : Move t cap s s') :
    (s'.truncated = true ∧ s'.found = s.found ∧ cap < t.edgeList.length) ∨
    (s'.truncated = false ∧
      ∃ trace' : Trace, Follows t s' trace' ∧ trace'.steps s' = trace.steps s + 1) := by
  cases hmove with
  | skip hstack hroot hc =>
    refine .inr ⟨hs, trace, h.skip hroot hc, ?_⟩
    simp only [Trace.steps]
    omega
  | plant hstack hroot hc =>
    refine .inr ⟨hs, trace, h.plant hstack hroot hc, ?_⟩
    simp only [Trace.steps]
    omega
  | finish hstack hnone =>
    refine .inr ⟨hs, _, h.finish hstack hnone, ?_⟩
    simp only [Trace.steps, paint, List.length_cons]
    omega
  | descend hstack hv hc =>
    refine .inr ⟨hs, _, h.descend ht hstack hv hc, ?_⟩
    simp only [Trace.steps, paint, advance, List.length_cons]
    omega
  | pass hstack hv hc =>
    refine .inr ⟨hs, _, h.pass ht hstack hv hc, ?_⟩
    simp only [Trace.steps, advance, List.length_cons]
    omega
  | known hstack hv hc hbody hknown =>
    obtain ⟨body', hbody', hnew, -⟩ := h.report ht hstack hv hc
    rw [hbody, Option.some.injEq] at hbody'
    exact absurd (hbody' ▸ hknown) hnew
  | report hstack hv hc hbody hnew hcap =>
    obtain ⟨body', hbody', -, hfollows⟩ := h.report ht hstack hv hc
    rw [hbody, Option.some.injEq] at hbody'
    subst hbody'
    refine .inr ⟨hs, _, hfollows, ?_⟩
    simp only [Trace.steps, advance, List.length_cons]
    omega
  | cut hstack hv hc hbody hnew hcap =>
    exact .inl ⟨rfl, rfl, Nat.lt_of_le_of_lt hcap (h.found_lt ht hstack hv)⟩

end Follows

/-- How a search ends: cut short because there are more edges than the cap, or with every root tried
and an empty stack. -/
structure Ended (t : Topology) (cap : Nat) (s : CycleSearch) : Prop where
  simple : ∀ c ∈ s.found, t.SimpleCycle c
  nodup : s.found.Nodup
  cut : s.truncated = true → cap < t.edgeList.length
  complete : s.truncated = false →
    ∃ trace : Trace, Follows t s trace ∧ s.stack = [] ∧ t.size ≤ s.root

namespace Follows

variable {trace : Trace}

theorem exists_run (ht : t.Ordered) (fuel : Nat) (h : Follows t s trace)
    (hs : s.truncated = false) (hfuel : stepBound t ≤ fuel + trace.steps s) :
    ∃ s', run t cap fuel s = .ok s' ∧ Ended t cap s' := by
  induction fuel generalizing s trace with
  | zero =>
    have hlt := h.steps_lt ht
    omega
  | succ fuel ih =>
    rcases step_cases t cap hs with ⟨hstep, hstack, hroot⟩ | ⟨s', hstep, hmove⟩ | ⟨v, -, hc, hv⟩
    · refine ⟨s, by rw [run, hstep], h.reported.simple, h.reported.nodup, fun hcut => ?_, fun _ => ?_⟩
      · rw [hs] at hcut
        exact absurd hcut (by simp)
      · exact ⟨trace, h, hstack, hroot⟩
    · rcases h.move ht hs hmove with ⟨hcut, hfound, hcap⟩ | ⟨hs', trace', h', hsteps⟩
      · refine ⟨s', ?_, hfound ▸ h.reported.simple, hfound ▸ h.reported.nodup, fun _ => hcap,
          fun hs' => ?_⟩
        · rw [run, hstep]
          cases fuel with
          | zero => rfl
          | succ fuel => simp only [run, step_of_truncated hcut]
        · rw [hcut] at hs'
          exact absurd hs' (by simp)
      · rw [run, hstep]
        exact ih h' hs' (by omega)
    · exact absurd ((h.coloured.grey_iff v).mp hc) hv

/-- At the end every edge was looked at, and those that closed no cycle form no cycle. -/
theorem acyclic_of_end (ht : t.Ordered) (h : Follows t s trace) (hstack : s.stack = [])
    (hroot : t.size ≤ s.root) :
    Acyclic fun v w => w ∈ t.successors v ∧ (v, w) ∉ trace.closing := by
  have hpath : s.path = [] := by rw [path, hstack, List.map_nil]
  have hfinished {v : Nat} (hv : v < t.size) : v ∈ trace.finished := by
    have hwhite := h.tried v (Nat.lt_of_lt_of_le hv hroot)
    have hgrey : s.colour v ≠ .grey := by
      rw [ne_eq, h.coloured.grey_iff, hpath]
      exact List.not_mem_nil
    have hblack : s.colour v = .black := by
      cases hc : s.colour v with
      | white => exact absurd hc hwhite
      | grey => exact absurd hc hgrey
      | black => rfl
    exact ((h.coloured.black_iff v).mp hblack).resolve_right (Nat.not_le.mpr hv)
  have hdirected := h.directed
  rw [hpath] at hdirected
  refine hdirected.acyclic (fun v w hvw => ?_) h.coloured.nodup_finished
  have hv := hfinished (ht.lt hvw.1).1
  exact ⟨(h.examined.mem_iff v w).mpr (.inl ⟨hv, hvw.1⟩), hvw.2, hv⟩

end Follows

theorem exists_final (ht : t.Ordered) (cap : Nat) : ∃ s, final t cap = .ok s ∧ Ended t cap s :=
  (Follows.start t).exists_run ht (stepBound t) rfl (Nat.le_add_right _ _)

end CycleSearch

end DependencyAtlas
