import DependencyAtlas.Proofs.Analysis.CycleCap

/-!
# States of the search for cycles

Whatever state a search comes through, its grey vertices are those on the stack, and the stack is a
path along edges that were looked at. Vertices turn from white to grey to black and never back, so a
vertex is put on the stack once and its successors are looked at one after the other, each once. A
finished vertex has no white successor.
-/

namespace DependencyAtlas

namespace CycleSearch

variable {t : Topology} {cap m n : Nat} {s s' : CycleSearch} {f f' : Frame} {u v w : Nat}

theorem run_of_step_eq_none (h : s.step t cap = .ok none) (n : Nat) : run t cap n s = .ok s := by
  cases n with
  | zero => rfl
  | succ n => rw [run, h]

theorem run_add (t : Topology) (cap m n : Nat) (s : CycleSearch) :
    run t cap (m + n) s = (run t cap m s).bind (run t cap n) := by
  induction m generalizing s with
  | zero =>
    rw [Nat.zero_add]
    rfl
  | succ m ih =>
    rw [Nat.succ_add, run, run]
    cases hstep : s.step t cap with
    | error e => rfl
    | ok next =>
      cases next with
      | none => exact (run_of_step_eq_none hstep n).symm
      | some next => exact ih next

/-- The search is in a state after a number of steps. Once it has ended it stays where it is. -/
def After (t : Topology) (cap n : Nat) (s : CycleSearch) : Prop :=
  run t cap n (start t.size) = .ok s

theorem After.run_eq (h : After t cap m s) (n : Nat) :
    run t cap (m + n) (CycleSearch.start t.size) = run t cap n s := by
  rw [run_add, h]
  rfl

theorem After.run_of_le (h : After t cap m s) (h' : After t cap n s') (hle : m ≤ n) :
    run t cap (n - m) s = .ok s' := by
  rw [← h.run_eq, Nat.add_sub_cancel' hle]
  exact h'

theorem lt_size_of_colour_ne_black (h : s.colour v ≠ .black) : v < s.colours.size := by
  apply Nat.lt_of_not_le
  intro hle
  apply h
  rw [colour, Array.getElem?_eq_none hle, Option.getD_none]

theorem colour_paint_of_white {c : Colour} (h : s.colour v = .white) :
    (s.paint v c).colour = Function.update s.colour v c := by
  have hne : s.colour v ≠ .black := by simp [h]
  exact funext (colour_paint (lt_size_of_colour_ne_black hne))

/-- Also a vertex without an entry is black. -/
theorem colour_paint_black (s : CycleSearch) (v : Nat) :
    (s.paint v .black).colour = Function.update s.colour v .black := by
  by_cases hv : v < s.colours.size
  · exact funext (colour_paint hv)
  · have hblack : s.colour v = .black := by
      rw [colour, Array.getElem?_eq_none (Nat.le_of_not_lt hv), Option.getD_none]
    have hsame : (s.paint v .black).colour = s.colour := by
      funext u
      rw [colour, paint, Array.setIfInBounds_eq_of_size_le (Nat.le_of_not_lt hv)]
      rfl
    rw [hsame, ← hblack, Function.update_eq_self]

theorem update_ne_white {colour : Nat → Colour} {c : Colour} (hc : c ≠ .white)
    (hw : colour w ≠ .white) : Function.update colour v c w ≠ .white := by
  rw [Function.update_apply]
  split
  · exact hc
  · exact hw

/-- What a step does to the stack and the colours. -/
inductive Shift (t : Topology) (s s' : CycleSearch) : Prop
  | rest : s.stack = [] → s'.stack = [] → s'.colour = s.colour → Shift t s s'
  | plant {v : Nat} : s.stack = [] → s.colour v = .white → s'.stack = [⟨v, 0⟩] →
      s'.colour = Function.update s.colour v .grey → Shift t s s'
  | finish {v p : Nat} {below : List Frame} : s.stack = ⟨v, p⟩ :: below →
      (t.successors v)[p]? = none → s'.stack = below →
      s'.colour = Function.update s.colour v .black → Shift t s s'
  | look {v p w : Nat} {below : List Frame} : s.stack = ⟨v, p⟩ :: below →
      (t.successors v)[p]? = some w → s.colour w ≠ .white → s'.stack = ⟨v, p + 1⟩ :: below →
      s'.colour = s.colour → Shift t s s'
  | descend {v p w : Nat} {below : List Frame} : s.stack = ⟨v, p⟩ :: below →
      (t.successors v)[p]? = some w → s.colour w = .white →
      s'.stack = ⟨w, 0⟩ :: ⟨v, p + 1⟩ :: below →
      s'.colour = Function.update s.colour w .grey → Shift t s s'

theorem shift_of_move (h : Move t cap s s') : Shift t s s' := by
  cases h with
  | skip hstack => exact .rest hstack hstack rfl
  | plant hstack _ hc => exact .plant hstack hc rfl (colour_paint_of_white hc)
  | finish hstack hv => exact .finish hstack hv rfl (colour_paint_black s _)
  | descend hstack hv hc => exact .descend hstack hv hc rfl (colour_paint_of_white hc)
  | pass hstack hv hc => exact .look hstack hv (by simp [hc]) rfl rfl
  | known hstack hv hc => exact .look hstack hv (by simp [hc]) rfl rfl
  | report hstack hv hc => exact .look hstack hv (by simp [hc]) rfl rfl
  | cut hstack hv hc => exact .look hstack hv (by simp [hc]) rfl rfl

theorem Shift.black (h : Shift t s s') (hv : s.colour v = .black) : s'.colour v = .black := by
  cases h with
  | rest _ _ hcolour => rwa [hcolour]
  | look _ _ _ _ hcolour => rwa [hcolour]
  | finish _ _ _ hcolour =>
    rw [hcolour, Function.update_apply]
    split
    · rfl
    · exact hv
  | plant _ hc _ hcolour | descend _ _ hc _ hcolour =>
    rw [hcolour, Function.update_of_ne]
    · exact hv
    · rintro rfl
      rw [hv] at hc
      cases hc

theorem Shift.ne_white (h : Shift t s s') (hv : s.colour v ≠ .white) : s'.colour v ≠ .white := by
  cases h with
  | rest _ _ hcolour => rwa [hcolour]
  | look _ _ _ _ hcolour => rwa [hcolour]
  | finish _ _ _ hcolour | plant _ _ _ hcolour | descend _ _ _ _ hcolour =>
    rw [hcolour]
    exact update_ne_white (by simp) hv

/-- Each vertex on the stack was reached from the one below it, by the successor that this one looked
at last. No successor that was looked at is white, and a finished vertex has no others. -/
structure Explored (t : Topology) (colour : Nat → Colour) (stack : List Frame) : Prop where
  linked : stack.IsChain fun upper lower =>
    ∃ p, lower.position = p + 1 ∧ (t.successors lower.vertex)[p]? = some upper.vertex
  looked : ∀ f ∈ stack, ∀ w ∈ (t.successors f.vertex).take f.position, colour w ≠ .white
  finished : ∀ v w, colour v = .black → w ∈ t.successors v → colour w ≠ .white

namespace Explored

variable {colour : Nat → Colour} {stack : List Frame} {p : Nat}

theorem paint (h : Explored t colour stack) (v : Nat) :
    Explored t (Function.update colour v .grey) stack := by
  refine ⟨h.linked, fun f hf w hw => update_ne_white (by simp) (h.looked f hf w hw),
    fun u w hu hw => ?_⟩
  rw [Function.update_apply] at hu
  split at hu
  · cases hu
  · exact update_ne_white (by simp) (h.finished u w hu hw)

theorem push (h : Explored t colour stack) (hlink : ∀ lower ∈ stack.head?,
    ∃ p, lower.position = p + 1 ∧ (t.successors lower.vertex)[p]? = some v) :
    Explored t colour (⟨v, 0⟩ :: stack) := by
  refine ⟨List.isChain_cons.mpr ⟨hlink, h.linked⟩, List.forall_mem_cons.mpr ⟨?_, h.looked⟩,
    h.finished⟩
  simp

theorem pop (h : Explored t colour (⟨v, p⟩ :: stack)) (hp : (t.successors v)[p]? = none) :
    Explored t (Function.update colour v .black) stack := by
  have hall : (t.successors v).take p = t.successors v :=
    List.take_of_length_le (List.getElem?_eq_none_iff.mp hp)
  refine ⟨h.linked.tail, fun f hf w hw => ?_, fun u w hu hw => ?_⟩
  · exact update_ne_white (by simp) (h.looked f (List.mem_cons_of_mem _ hf) w hw)
  · apply update_ne_white (by simp)
    by_cases huv : u = v
    · apply h.looked _ List.mem_cons_self
      rwa [hall, ← huv]
    · rw [Function.update_of_ne huv] at hu
      exact h.finished u w hu hw

theorem look (h : Explored t colour (⟨v, p⟩ :: stack)) (hw : (t.successors v)[p]? = some w)
    (hc : colour w ≠ .white) : Explored t colour (⟨v, p + 1⟩ :: stack) := by
  have hlooked := List.forall_mem_cons.mp h.looked
  obtain ⟨hlink, hlinked⟩ := List.isChain_cons.mp h.linked
  refine ⟨List.isChain_cons.mpr ⟨hlink, hlinked⟩,
    List.forall_mem_cons.mpr ⟨fun x hx => ?_, hlooked.2⟩, h.finished⟩
  rw [List.take_add_one, hw, List.mem_append] at hx
  rcases hx with hx | hx
  · exact hlooked.1 x hx
  · obtain rfl : x = w := by simpa using hx
    exact hc

theorem start (ht : t.Ordered) : Explored t (start t.size).colour [] := by
  refine ⟨List.isChain_nil, by simp, fun v w hv hw => ?_⟩
  rw [((Follows.start t).coloured.black_iff v)] at hv
  have hlt := (ht.lt hw).1
  simp only [List.not_mem_nil, false_or] at hv
  omega

theorem shift (h : Explored t s.colour s.stack) (hshift : Shift t s s') :
    Explored t s'.colour s'.stack := by
  cases hshift with
  | rest hstack hstack' hcolour =>
    rw [hstack', hcolour, ← hstack]
    exact h
  | plant hstack hv hstack' hcolour =>
    rw [hstack', hcolour, ← hstack]
    apply (h.paint _).push
    simp [hstack]
  | finish hstack hp hstack' hcolour =>
    rw [hstack', hcolour]
    rw [hstack] at h
    exact h.pop hp
  | look hstack hw hc hstack' hcolour =>
    rw [hstack', hcolour]
    rw [hstack] at h
    exact h.look hw hc
  | @descend v p w below hstack hw hc hstack' hcolour =>
    rw [hstack', hcolour]
    rw [hstack] at h
    have hgrey : Function.update s.colour w .grey w ≠ .white := by simp
    apply ((h.paint w).look hw hgrey).push
    rintro lower ⟨⟩
    exact ⟨p, rfl, hw⟩

end Explored

/-- What holds of a state whatever comes next. -/
structure Sound (t : Topology) (s : CycleSearch) : Prop where
  coloured : ∃ finished, Coloured t s.colour s.path finished
  explored : Explored t s.colour s.stack
  follows : s.truncated = false → ∃ trace, Follows t s trace

/-- A step that cuts the search short changes nothing but the position of the top. -/
theorem colour_of_truncated (h : Move t cap s s') (hs : s.truncated = false)
    (hs' : s'.truncated = true) : s'.colour = s.colour ∧ s'.path = s.path := by
  have hsame (h : s'.truncated = s.truncated) : s'.colour = s.colour ∧ s'.path = s.path := by
    rw [h, hs] at hs'
    cases hs'
  cases h with
  | cut hstack => exact ⟨rfl, path_advance hstack⟩
  | skip | plant | finish | descend | pass | known | report => exact hsame rfl

namespace Sound

theorem start (ht : t.Ordered) : Sound t (start t.size) :=
  ⟨⟨_, (Follows.start t).coloured⟩, Explored.start ht, fun _ => ⟨_, Follows.start t⟩⟩

theorem move (ht : t.Ordered) (h : Sound t s) (hs : s.truncated = false)
    (hmove : Move t cap s s') : Sound t s' := by
  have hexplored := h.explored.shift (shift_of_move hmove)
  obtain ⟨trace, hfollows⟩ := h.follows hs
  rcases hfollows.move ht hs hmove with ⟨hs', -, -⟩ | ⟨-, trace', hfollows', -⟩
  · obtain ⟨hcolour, hpath⟩ := colour_of_truncated hmove hs hs'
    obtain ⟨finished, hcoloured⟩ := h.coloured
    refine ⟨⟨finished, ?_⟩, hexplored, fun hrunning => ?_⟩
    · rwa [hcolour, hpath]
    · rw [hs'] at hrunning
      cases hrunning
  · exact ⟨⟨_, hfollows'.coloured⟩, hexplored, fun _ => ⟨trace', hfollows'⟩⟩

theorem exists_run (ht : t.Ordered) (h : Sound t s) (cap n : Nat) :
    ∃ s', run t cap n s = .ok s' ∧ Sound t s' := by
  induction n generalizing s with
  | zero => exact ⟨s, rfl, h⟩
  | succ n ih =>
    rw [run]
    cases hs : s.truncated with
    | true =>
      rw [step_of_truncated hs]
      exact ⟨s, rfl, h⟩
    | false =>
      rcases step_cases t cap hs with ⟨hstep, -⟩ | ⟨next, hstep, hmove⟩ | ⟨v, -, hc, hv⟩
      · rw [hstep]
        exact ⟨s, rfl, h⟩
      · rw [hstep]
        exact ih (h.move ht hs hmove)
      · obtain ⟨finished, hcoloured⟩ := h.coloured
        exact absurd ((hcoloured.grey_iff v).mp hc) hv

end Sound

theorem After.sound (ht : t.Ordered) (h : After t cap n s) : Sound t s := by
  obtain ⟨s', hrun, hsound⟩ := (Sound.start ht).exists_run ht cap n
  obtain rfl : s' = s := Except.ok.inj (hrun.symm.trans h)
  exact hsound

theorem black_of_run (h : s.colour v = .black) (hrun : run t cap n s = .ok s') :
    s'.colour v = .black :=
  run_induction (P := fun s => s.colour v = .black)
    (fun _ _ hstep hv => (shift_of_move (move_of_step hstep).2).black hv) h hrun

/-- A search ends by itself, within its bound. -/
theorem exists_end (ht : t.Ordered) (cap : Nat) :
    ∃ s, s.step t cap = .ok none ∧ ∀ n, stepBound t ≤ n → After t cap n s := by
  obtain ⟨s, hfinal, hended⟩ := exists_final ht cap
  have hstep : s.step t cap = .ok none := by
    cases hs : s.truncated with
    | true => exact step_of_truncated hs
    | false =>
      obtain ⟨-, -, hstack, hroot⟩ := hended.complete hs
      rw [step_of_stack_eq_nil hs hstack, if_neg (Nat.not_lt.mpr hroot)]
  refine ⟨s, hstep, fun n hn => ?_⟩
  have hafter : After t cap (stepBound t) s := hfinal
  rw [After, ← Nat.add_sub_cancel' hn, hafter.run_eq]
  exact run_of_step_eq_none hstep _

/-- The next step looks at the successor `v` of the top of the stack. -/
structure Examines (t : Topology) (s : CycleSearch) (f : Frame) (v : Nat) : Prop where
  running : s.truncated = false
  top : s.stack.head? = some f
  successor : (t.successors f.vertex)[f.position]? = some v

theorem Examines.stack_eq (h : Examines t s f v) : ∃ below, s.stack = f :: below := by
  obtain ⟨below, hstack⟩ := List.head?_eq_some_iff.mp h.top
  exact ⟨below, hstack⟩

/-- The position `f` is behind the search: its vertex was visited, and where this is on the stack its
frame has moved on. -/
structure Passed (f : Frame) (s : CycleSearch) : Prop where
  visited : s.colour f.vertex ≠ .white
  moved : ∀ g ∈ s.stack, g.vertex = f.vertex → f.position < g.position

theorem Passed.shift (h : Passed f s) (hshift : Shift t s s') : Passed f s' := by
  refine ⟨hshift.ne_white h.visited, ?_⟩
  have hnew {v : Nat} (hv : s.colour v = .white) : v = f.vertex → f.position < 0 := by
    rintro rfl
    exact absurd hv h.visited
  have hmoved := h.moved
  cases hshift with
  | rest _ hstack' =>
    rw [hstack']
    simp
  | plant _ hv hstack' =>
    rw [hstack']
    exact List.forall_mem_singleton.mpr (hnew hv)
  | finish hstack _ hstack' =>
    rw [hstack']
    rw [hstack] at hmoved
    exact (List.forall_mem_cons.mp hmoved).2
  | look hstack _ _ hstack' =>
    rw [hstack']
    rw [hstack] at hmoved
    obtain ⟨htop, hbelow⟩ := List.forall_mem_cons.mp hmoved
    exact List.forall_mem_cons.mpr ⟨fun he => Nat.lt_succ_of_lt (htop he), hbelow⟩
  | descend hstack _ hw hstack' =>
    rw [hstack']
    rw [hstack] at hmoved
    obtain ⟨htop, hbelow⟩ := List.forall_mem_cons.mp hmoved
    exact List.forall_mem_cons.mpr
      ⟨hnew hw, List.forall_mem_cons.mpr ⟨fun he => Nat.lt_succ_of_lt (htop he), hbelow⟩⟩

theorem Passed.run (h : Passed f s) (hrun : run t cap n s = .ok s') : Passed f s' :=
  run_induction (P := Passed f)
    (fun _ _ hstep hpassed => hpassed.shift (shift_of_move (move_of_step hstep).2)) h hrun

theorem Examines.passed (h : Examines t s f v) (hs : Sound t s)
    (hstep : s.step t cap = .ok (some s')) : Passed f s' := by
  obtain ⟨below, hstack⟩ := h.stack_eq
  obtain ⟨finished, hcoloured⟩ := hs.coloured
  have hpath : s.path = f.vertex :: below.map Frame.vertex := Follows.path_eq hstack
  have hgrey : s.colour f.vertex = .grey := by
    rw [hcoloured.grey_iff, hpath]
    exact List.mem_cons_self
  have hbelow : ∀ g ∈ below, g.vertex = f.vertex → f.position < g.position := by
    intro g hg he
    have hnodup := hcoloured.nodup_path
    rw [hpath, ← he] at hnodup
    exact absurd (List.mem_map_of_mem hg) (List.nodup_cons.mp hnodup).1
  have hshift := shift_of_move (move_of_step hstep).2
  refine ⟨hshift.ne_white (by simp [hgrey]), ?_⟩
  cases hshift with
  | rest hempty | plant hempty =>
    rw [hstack] at hempty
    cases hempty
  | finish hstack' hnone =>
    obtain ⟨rfl, -⟩ := List.cons.inj (hstack.symm.trans hstack')
    rw [h.successor] at hnone
    cases hnone
  | look hstack' _ _ hnext =>
    obtain ⟨rfl, rfl⟩ := List.cons.inj (hstack.symm.trans hstack')
    rw [hnext]
    exact List.forall_mem_cons.mpr ⟨fun _ => Nat.lt_succ_self _, hbelow⟩
  | @descend u p w _ hstack' _ hw hnext =>
    obtain ⟨rfl, rfl⟩ := List.cons.inj (hstack.symm.trans hstack')
    rw [hnext]
    refine List.forall_mem_cons.mpr ⟨fun he => ?_, List.forall_mem_cons.mpr
      ⟨fun _ => Nat.lt_succ_self _, hbelow⟩⟩
    obtain rfl : w = u := he
    rw [hgrey] at hw
    cases hw

theorem Examines.exists_step (h : Examines t s f v) (hs : Sound t s) (cap : Nat) :
    ∃ s', s.step t cap = .ok (some s') := by
  obtain ⟨below, hstack⟩ := h.stack_eq
  rcases step_cases t cap h.running with ⟨-, hempty, -⟩ | ⟨s', hstep, -⟩ | ⟨w, -, hc, hw⟩
  · rw [hstack] at hempty
    cases hempty
  · exact ⟨s', hstep⟩
  · obtain ⟨finished, hcoloured⟩ := hs.coloured
    exact absurd ((hcoloured.grey_iff w).mp hc) hw

/-- The successors of a vertex are looked at in their order, each once. -/
theorem Examines.position_lt (ht : t.Ordered) (hs : After t cap m s) (hs' : After t cap n s')
    (hlt : m < n) (h : Examines t s f v) (h' : Examines t s' f' w) (he : f.vertex = f'.vertex) :
    f.position < f'.position ∧ v < w := by
  obtain ⟨next, hstep⟩ := h.exists_step (hs.sound ht) cap
  have hrun : run t cap (n - (m + 1)) next = .ok s' := by
    have hwhole := hs.run_of_le hs' (Nat.le_of_lt hlt)
    rw [← Nat.sub_add_cancel (Nat.sub_pos_of_lt hlt), run, hstep] at hwhole
    rwa [Nat.sub_add_eq]
  obtain ⟨below, hstack⟩ := h'.stack_eq
  have hpassed := (h.passed (hs.sound ht) hstep).run hrun
  have hposition : f.position < f'.position := by
    apply hpassed.moved f' _ he.symm
    rw [hstack]
    exact List.mem_cons_self
  refine ⟨hposition, ?_⟩
  have hv := h.successor
  rw [he] at hv
  obtain ⟨hi, rfl⟩ := List.getElem?_eq_some_iff.mp hv
  obtain ⟨hj, rfl⟩ := List.getElem?_eq_some_iff.mp h'.successor
  exact List.pairwise_iff_getElem.mp (ht.ascending _) _ _ hi hj hposition

/-- A grey successor is on the stack, and the cycle that it closes was not found before. -/
theorem Examines.exists_body (ht : t.Ordered) (hs : Sound t s) (h : Examines t s f v)
    (hc : s.colour v = .grey) :
    ∃ body, stackFrom? v s.stack = some body ∧ Cycle.canonicalize body ∉ s.found := by
  obtain ⟨below, hstack⟩ := h.stack_eq
  obtain ⟨trace, hfollows⟩ := hs.follows h.running
  obtain ⟨body, hbody, hnew, -⟩ := hfollows.report ht hstack h.successor hc
  have hsame : stackFrom? v (s.advance f below).stack = stackFrom? v s.stack := by
    have hpath : (s.advance f below).stack.map Frame.vertex = s.stack.map Frame.vertex :=
      path_advance hstack
    rw [stackFrom?, stackFrom?, hpath]
  exact ⟨body, hsame ▸ hbody, hnew⟩

/-- The colours and the stack of a search agree, the stack is a path along edges that were looked at,
and a finished vertex has no white successor. -/
structure Bookkept (t : Topology) (s : CycleSearch) : Prop where
  grey_iff : ∀ v, s.colour v = .grey ↔ v ∈ s.path
  nodup : s.path.Nodup
  linked : s.stack.IsChain fun upper lower =>
    ∃ p, lower.position = p + 1 ∧ (t.successors lower.vertex)[p]? = some upper.vertex
  black : ∀ v w, s.colour v = .black → w ∈ t.successors v → s.colour w ≠ .white

theorem Sound.bookkept (h : Sound t s) : Bookkept t s := by
  obtain ⟨finished, hcoloured⟩ := h.coloured
  exact ⟨hcoloured.grey_iff, hcoloured.nodup_path, h.explored.linked, h.explored.finished⟩

end CycleSearch

namespace Graph

open CycleSearch (After Examines Bookkept stackFrom? stepBound)

/-- After any number of steps the search has not failed and its books are in order, and what was
finished stays finished. A grey successor is found on the stack and closes a cycle that is new. The
successors of a vertex are looked at in ascending order, so none is looked at twice, and the search
ends by itself. -/
theorem search_bookkept (calls : List Call) (cap : Nat) :
    let t := Topology.ofGraph (afterCalls calls)
    (∀ n, ∃ s, After t cap n s ∧ Bookkept t s) ∧
      (∀ m n s s', m ≤ n → After t cap m s → After t cap n s' →
        ∀ v, s.colour v = .black → s'.colour v = .black) ∧
      (∀ n s f v, After t cap n s → Examines t s f v → s.colour v = .grey →
        ∃ body, stackFrom? v s.stack = some body ∧ Cycle.canonicalize body ∉ s.found) ∧
      (∀ m n s s' f f' v w, m < n → After t cap m s → After t cap n s' → Examines t s f v →
        Examines t s' f' w → f.vertex = f'.vertex → f.position < f'.position ∧ v < w) ∧
      ∃ s, s.step t cap = .ok none ∧ ∀ n, stepBound t ≤ n → After t cap n s := by
  intro t
  have ht : t.Ordered :=
    (Topology.numbers_ofGraph (represents_afterCalls calls).wellFormed.toIndexed).ordered
  refine ⟨fun n => ?_, ?_, ?_, ?_, CycleSearch.exists_end ht cap⟩
  · obtain ⟨s, hrun, hsound⟩ := (CycleSearch.Sound.start ht).exists_run ht cap n
    exact ⟨s, hrun, hsound.bookkept⟩
  · intro m n s s' hle hs hs' v hv
    exact CycleSearch.black_of_run hv (hs.run_of_le hs' hle)
  · intro n s f v hs h hc
    exact h.exists_body ht (hs.sound ht) hc
  · intro m n s s' f f' v w hlt hs hs' h h' he
    exact h.position_lt ht hs hs' hlt h' he

end Graph

end DependencyAtlas
