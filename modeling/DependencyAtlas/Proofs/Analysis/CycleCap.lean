import DependencyAtlas.Proofs.Analysis.Cycles
import Mathlib.Data.List.Sort

/-!
# The cap on reported cycles

Searches that differ only in their caps take the same steps until the lower cap is met. The search
that meets it ends there with exactly as many cycles as its cap, and the other one goes on from that
point with one cycle more. So the cap decides how many of the cycles are reported, and nothing else.
-/

namespace DependencyAtlas

namespace CycleSearch

variable {t : Topology} {cap cap' fuel : Nat} {s s' r r' : CycleSearch}

theorem run_induction {P : CycleSearch → Prop}
    (hstep : ∀ s s', s.step t cap = .ok (some s') → P s → P s') (h : P s)
    (hrun : run t cap fuel s = .ok r) : P r := by
  induction fuel generalizing s with
  | zero =>
    cases hrun
    exact h
  | succ fuel ih =>
    rw [run] at hrun
    split at hrun
    · cases hrun
    · cases hrun
      exact h
    · next next hnext => exact ih (hstep s next hnext h) hrun

theorem run_of_truncated (h : s.truncated = true) : run t cap fuel s = .ok s := by
  cases fuel with
  | zero => rfl
  | succ fuel => rw [run, step_of_truncated h]

/-- A step keeps the cycles and the flag, finds a cycle below the cap, or cuts the search short at
it. -/
theorem found_of_step (h : s.step t cap = .ok (some s')) :
    (s'.found = s.found ∧ s'.truncated = false) ∨
    (∃ cycle, s'.found = cycle :: s.found ∧ s'.truncated = false ∧ s.found.length < cap) ∨
    (s'.found = s.found ∧ s'.truncated = true ∧ cap ≤ s.found.length) := by
  obtain ⟨hs, hmove⟩ := move_of_step h
  cases hmove with
  | skip => exact .inl ⟨rfl, hs⟩
  | plant => exact .inl ⟨rfl, hs⟩
  | finish => exact .inl ⟨rfl, hs⟩
  | descend => exact .inl ⟨rfl, hs⟩
  | pass => exact .inl ⟨rfl, hs⟩
  | known => exact .inl ⟨rfl, hs⟩
  | report _ _ _ _ _ hcap => exact .inr (.inl ⟨_, rfl, hs, hcap⟩)
  | cut _ _ _ _ _ hcap => exact .inr (.inr ⟨rfl, rfl, hcap⟩)

/-- No more cycles than the cap, and just as many once the search is cut short. -/
structure Within (cap : Nat) (s : CycleSearch) : Prop where
  length_le : s.found.length ≤ cap
  cut : s.truncated = true → s.found.length = cap

theorem Within.start (cap size : Nat) : Within cap (CycleSearch.start size) :=
  ⟨Nat.zero_le cap, fun h => by cases h⟩

theorem Within.step (h : Within cap s) (hstep : s.step t cap = .ok (some s')) : Within cap s' := by
  have hlength := h.length_le
  rcases found_of_step hstep with ⟨hfound, hs'⟩ | ⟨cycle, hfound, hs', hcap⟩ | ⟨hfound, hs', hcap⟩
  · exact ⟨hfound ▸ hlength, fun hcut => by simp [hs'] at hcut⟩
  · exact ⟨by rw [hfound]; exact hcap, fun hcut => by simp [hs'] at hcut⟩
  · exact ⟨hfound ▸ hlength, fun _ => by rw [hfound]; omega⟩

theorem Within.run (h : Within cap s) (hrun : run t cap fuel s = .ok r) : Within cap r :=
  run_induction (fun _ _ hstep h => h.step hstep) h hrun

theorem found_suffix_run (hrun : run t cap fuel s = .ok r) : s.found <:+ r.found := by
  refine run_induction (P := fun r => s.found <:+ r.found) (fun u u' hstep h => ?_)
    (List.suffix_refl _) hrun
  rcases found_of_step hstep with ⟨hfound, -⟩ | ⟨cycle, hfound, -⟩ | ⟨hfound, -⟩
  · rwa [hfound]
  · rw [hfound]
    exact h.trans (List.suffix_cons cycle _)
  · rwa [hfound]

theorem close_of_le (hcap : cap ≤ cap') (v : Nat) (s : CycleSearch) :
    s.close t cap v = s.close t cap' v ∨
    (s.close t cap v = .ok { s with truncated := true } ∧
      ∃ cycle, s.close t cap' v = .ok { s with found := cycle :: s.found }) := by
  unfold close
  cases stackFrom? v s.stack with
  | none => exact .inl rfl
  | some body =>
    by_cases hknown : s.found.contains (Cycle.canonicalize body) = true
    · exact .inl (by simp only [if_pos hknown])
    · simp only [if_neg hknown]
      by_cases hlow : cap ≤ s.found.length
      · rw [if_pos hlow]
        by_cases hhigh : cap' ≤ s.found.length
        · exact .inl (by rw [if_pos hhigh])
        · rw [if_neg hhigh]
          exact .inr ⟨rfl, _, rfl⟩
      · rw [if_neg hlow, if_neg (fun hhigh => hlow (Nat.le_trans hcap hhigh))]
        exact .inl rfl

theorem visit_of_le (hcap : cap ≤ cap') (v : Nat) (s : CycleSearch) :
    s.visit t cap v = s.visit t cap' v ∨
    (s.visit t cap v = .ok { s with truncated := true } ∧
      ∃ cycle, s.visit t cap' v = .ok { s with found := cycle :: s.found }) := by
  unfold visit
  cases s.colour v with
  | white => exact .inl rfl
  | grey => exact close_of_le hcap v s
  | black => exact .inl rfl

/-- A step is the same at both caps, or cuts the search short at the lower one and finds a cycle at
the higher one. -/
theorem step_of_le (hcap : cap ≤ cap') (s : CycleSearch) :
    s.step t cap = s.step t cap' ∨
    ∃ next : CycleSearch, s.step t cap = .ok (some { next with truncated := true }) ∧
      ∃ cycle, s.step t cap' = .ok (some { next with found := cycle :: next.found }) := by
  cases hs : s.truncated with
  | true => exact .inl (by rw [step_of_truncated hs, step_of_truncated hs])
  | false =>
    cases hstack : s.stack with
    | nil => exact .inl (by rw [step_of_stack_eq_nil hs hstack, step_of_stack_eq_nil hs hstack])
    | cons top below =>
      cases hv : (t.successors top.vertex)[top.position]? with
      | none =>
        left
        rw [step_of_getElem?_eq_none hs hstack hv, step_of_getElem?_eq_none hs hstack hv]
      | some v =>
        rw [step_of_getElem?_eq_some hs hstack hv, step_of_getElem?_eq_some hs hstack hv]
        rcases visit_of_le (t := t) hcap v (s.advance top below) with heq | ⟨hlow, cycle, hhigh⟩
        · exact .inl (by rw [heq])
        · exact .inr ⟨s.advance top below, by rw [hlow]; rfl, cycle, by rw [hhigh]; rfl⟩

/-- A run at a lower cap is the same, or was cut short and misses cycles that the other one found
after those it shares. -/
theorem run_of_le (hcap : cap ≤ cap') (hrun : run t cap fuel s = .ok r)
    (hrun' : run t cap' fuel s = .ok r') :
    r = r' ∨ (r.truncated = true ∧ r.found <:+ r'.found ∧ r.found.length < r'.found.length) := by
  induction fuel generalizing s with
  | zero =>
    cases hrun
    cases hrun'
    exact .inl rfl
  | succ fuel ih =>
    rw [run] at hrun hrun'
    rcases step_of_le (t := t) hcap s with heq | ⟨next, hlow, cycle, hhigh⟩
    · rw [heq] at hrun
      split at hrun
      · cases hrun
      · next hnext =>
        rw [hnext] at hrun'
        cases hrun
        cases hrun'
        exact .inl rfl
      · next next hnext =>
        rw [hnext] at hrun'
        exact ih hrun hrun'
    · rw [hlow] at hrun
      rw [hhigh] at hrun'
      simp only [run_of_truncated] at hrun
      cases hrun
      have hsuffix : cycle :: next.found <:+ r'.found := found_suffix_run hrun'
      exact .inr ⟨rfl, (List.suffix_cons cycle _).trans hsuffix, hsuffix.length_le⟩

/-- A cap of as many cycles as there are edges cuts no search short. Any other search agrees with
that one, or stops at its own cap with some of the cycles. -/
theorem exists_whole (ht : t.Ordered) : ∃ whole, Ended t t.edgeList.length whole ∧
    whole.truncated = false ∧ ∀ cap s, final t cap = .ok s →
      (s = whole ∧ whole.found.length ≤ cap) ∨
      (s.truncated = true ∧ s.found.length = cap ∧ cap < whole.found.length ∧
        s.found ⊆ whole.found) := by
  obtain ⟨whole, hwhole, hend⟩ := exists_final ht t.edgeList.length
  have hcomplete : whole.truncated = false := by
    apply Bool.eq_false_iff.mpr
    intro hcut
    exact Nat.lt_irrefl _ (hend.cut hcut)
  refine ⟨whole, hend, hcomplete, fun cap s hs => ?_⟩
  have hwithin : Within cap s := (Within.start cap t.size).run hs
  rcases Nat.le_total cap t.edgeList.length with hcap | hcap
  · rcases run_of_le hcap hs hwhole with rfl | ⟨hcut, hsuffix, hlt⟩
    · exact .inl ⟨rfl, hwithin.length_le⟩
    · have hlength := hwithin.cut hcut
      exact .inr ⟨hcut, hlength, hlength ▸ hlt, hsuffix.subset⟩
  · rcases run_of_le hcap hwhole hs with rfl | ⟨hcut, -, -⟩
    · exact .inl ⟨rfl, hwithin.length_le⟩
    · rw [hcomplete] at hcut
      cases hcut

end CycleSearch

namespace Topology

variable {t : Topology} {g : Graph} {s s' : CycleSearch} {cap cap' : Nat}

theorem length_named (t : Topology) (s : CycleSearch) :
    (t.named s).cycles.length = s.found.length := by
  rw [named, List.length_map, List.length_mergeSort]

theorem Numbers.named_sublist (hn : t.Numbers g) (hs : CycleSearch.Ended t cap s)
    (hs' : CycleSearch.Ended t cap' s') (h : s.found ⊆ s'.found) :
    (t.named s).cycles.Sublist (t.named s').cycles := by
  have hsorted := hn.pairwise_named hs.simple hs.nodup
  have hsorted' := hn.pairwise_named hs'.simple hs'.nodup
  apply List.sublist_of_subperm_of_pairwise _ hsorted hsorted'
  apply List.subperm_of_subset hsorted.nodup
  intro names hnames
  obtain ⟨c, hc, rfl⟩ := mem_named.mp hnames
  exact mem_named.mpr ⟨c, h hc, rfl⟩

end Topology

namespace Graph

/-- There is a list of cycles from which every cap reports as many as it allows: the flag tells
whether there were more, a cap that allows all of them reports the list itself, and a higher cap
keeps what a lower one reports. -/
theorem tryCycles_capped (calls : List Call) : ∃ all : List (List String),
    all.Pairwise (· < ·) ∧
    (∀ cap, all.length ≤ cap →
      (Topology.ofGraph (afterCalls calls)).tryCycles cap = .ok ⟨all, false⟩) ∧
    ∀ cap, ∃ report, (Topology.ofGraph (afterCalls calls)).tryCycles cap = .ok report ∧
      report.cycles.length = min cap all.length ∧ report.cycles.Sublist all ∧
      (report.truncated = true ↔ cap < all.length) ∧
      ∀ cap', cap ≤ cap' → ∃ report',
        (Topology.ofGraph (afterCalls calls)).tryCycles cap' = .ok report' ∧
        report.cycles.Sublist report'.cycles := by
  have hn := Topology.numbers_ofGraph (represents_afterCalls calls).wellFormed.toIndexed
  generalize Topology.ofGraph (afterCalls calls) = t at hn
  obtain ⟨whole, hend, hcomplete, hother⟩ := CycleSearch.exists_whole hn.ordered
  refine ⟨(t.named whole).cycles, hn.pairwise_named hend.simple hend.nodup, fun cap hcap => ?_,
    fun cap => ?_⟩
  · obtain ⟨s, hs, -⟩ := CycleSearch.exists_final hn.ordered cap
    rw [Topology.length_named] at hcap
    rcases hother cap s hs with ⟨rfl, -⟩ | ⟨-, -, hlt, -⟩
    · rw [Topology.tryCycles_of_final hs, Topology.named, hcomplete]
    · omega
  · obtain ⟨s, hs, hends⟩ := CycleSearch.exists_final hn.ordered cap
    refine ⟨_, Topology.tryCycles_of_final hs, ?_⟩
    rw [Topology.length_named, Topology.length_named]
    have hhigher {cap' : Nat} (hcap : cap ≤ cap') : ∃ report', t.tryCycles cap' = .ok report' ∧
        (t.named s).cycles.Sublist report'.cycles := by
      obtain ⟨s', hs', hends'⟩ := CycleSearch.exists_final hn.ordered cap'
      refine ⟨_, Topology.tryCycles_of_final hs', hn.named_sublist hends hends' ?_⟩
      rcases CycleSearch.run_of_le hcap hs hs' with rfl | ⟨-, hsuffix, -⟩
      · exact List.Subset.refl _
      · exact hsuffix.subset
    rcases hother cap s hs with ⟨rfl, hle⟩ | ⟨hcut, hlength, hlt, hsub⟩
    · refine ⟨(Nat.min_eq_right hle).symm, List.Sublist.refl _, ?_, fun cap' => hhigher⟩
      rw [Topology.named, hcomplete]
      simp only [Bool.false_eq_true, false_iff, Nat.not_lt]
      exact hle
    · refine ⟨?_, hn.named_sublist hends hend hsub, iff_of_true hcut hlt, fun cap' => hhigher⟩
      rw [hlength, Nat.min_eq_left (Nat.le_of_lt hlt)]

end Graph

end DependencyAtlas
