import DependencyAtlas.Proofs.Analysis.DepthFirst
import DependencyAtlas.Proofs.Graph.History
import DependencyAtlas.Proofs.Search.Paths
import DependencyAtlas.Proofs.Sorting
import Mathlib.Data.Set.Card
import Mathlib.Data.String.Basic

/-!
# Reported cycles

The search never fails. Every reported cycle is a closed walk along dependencies that meets no unit
twice, in canonical form, and the cycles come in ascending order. Unless the cap cut the search
short, deleting one edge of its own from each reported cycle leaves no cycle in the graph.
-/

namespace DependencyAtlas

/-- A cycle in canonical form: a closed walk along dependencies from the least of its units, which
are registered and differ, round to it again. -/
structure Graph.CanonicalCycle (g : Graph) (cycle : List String) : Prop where
  walk : ClosedWalk (fun x y => y ∈ g.dependenciesOf x) cycle
  registered : ∀ x ∈ cycle.dropLast, g.contains x = true
  nodup : cycle.dropLast.Nodup
  least : ∀ first rest, cycle.dropLast = first :: rest → ∀ x ∈ rest, first < x
  canonical : Cycle.canonicalize cycle = cycle

/-- Cycles that break all others: an edge of its own can be deleted from each of them so that no
cycle is left. -/
structure Graph.FeedbackCycles (g : Graph) (cycles : List (List String)) : Prop where
  exists_feedback : ∃ feedback : List (String × String),
    List.Forall₂ (fun cycle e => e ∈ walkEdges cycle) cycles feedback ∧ feedback.Nodup ∧
      Acyclic fun x y => g.Links x y ∧ (x, y) ∉ feedback
  eq_nil_iff : cycles = [] ↔ Acyclic g.Links
  shared : ∀ walk, ClosedWalk g.Links walk →
    ∃ cycle ∈ cycles, ∃ e ∈ walkEdges walk, e ∈ walkEdges cycle
  /-- The strongly connected component of a unit on a cycle contains a reported cycle. -/
  component : ∀ x, Relation.TransGen g.Links x x → ∃ cycle ∈ cycles, ∀ y ∈ cycle,
    Relation.ReflTransGen g.Links x y ∧ Relation.ReflTransGen g.Links y x
  length_le : cycles.length ≤ {p : String × String | g.Links p.1 p.2}.ncard

namespace Topology

variable {t : Topology} {g : Graph} {cycle cycle' : List Nat}

theorem SimpleCycle.closedWalk (h : t.SimpleCycle cycle) :
    ClosedWalk (fun v w => w ∈ t.successors v) cycle := by
  obtain ⟨m, r, rfl, -, -⟩ := h.closed
  exact closedWalk_iff.mpr ⟨m, r, rfl, isChain_iff_forall_edges.mpr h.linked⟩

theorem SimpleCycle.lt_size (ht : t.Ordered) (h : t.SimpleCycle cycle) : ∀ v ∈ cycle, v < t.size := by
  intro v hv
  obtain ⟨w, hvw, -⟩ := Relation.TransGen.head'_iff.mp (h.closedWalk.transGen hv)
  exact (ht.lt hvw).1

theorem Numbers.closedWalk_map (h : t.Numbers g)
    (hc : ClosedWalk (fun v w => w ∈ t.successors v) cycle) :
    ClosedWalk g.Links (cycle.map t.id) :=
  hc.map t.id fun e he => h.links_of_mem (isChain_iff_forall_edges.mp hc.chain e he)

theorem lt_of_compare_eq_lt (h : compare cycle cycle' = .lt) : cycle < cycle' := by
  induction cycle generalizing cycle' with
  | nil =>
    cases cycle' with
    | nil => simp at h
    | cons w cycle' => exact List.nil_lt_cons _ _
  | cons v cycle ih =>
    cases cycle' with
    | nil => simp at h
    | cons w cycle' =>
      rw [List.compare_cons_cons, Ordering.then_eq_lt] at h
      rw [List.cons_lt_cons_iff]
      rcases h with hvw | ⟨hvw, h⟩
      · exact .inl (Nat.compare_eq_lt.mp hvw)
      · exact .inr ⟨Nat.compare_eq_eq.mp hvw, ih h⟩

theorem Numbers.canonicalCycle (h : t.Numbers g) (hc : t.SimpleCycle cycle) :
    g.CanonicalCycle (cycle.map t.id) := by
  have hlt := hc.lt_size h.ordered
  have hwalk := h.closedWalk_map hc.closedWalk
  obtain ⟨m, r, rfl, hnodup, hleast⟩ := hc.closed
  have hm := hlt m List.mem_cons_self
  have hr : ∀ v ∈ r, v < t.size := fun v hv => hlt v (by simp [hv])
  have hmap : (m :: (r ++ [m])).map t.id = t.id m :: (r.map t.id ++ [t.id m]) := by simp
  have hdrop : (t.id m :: (r.map t.id ++ [t.id m])).dropLast = t.id m :: r.map t.id := by
    rw [← List.cons_append, List.dropLast_concat]
  have hfirst : ∀ x ∈ r.map t.id, t.id m < x :=
    List.forall_mem_map.mpr fun v hv => h.id_lt (hleast v hv) (hr v hv)
  rw [hmap] at hwalk ⊢
  refine ⟨hwalk.imp fun e he => (isChain_iff_forall_edges.mp hwalk.chain e he).2.2, ?_, ?_, ?_,
    Cycle.canonicalize_closed fun x hx => le_of_lt (hfirst x hx)⟩
  · rw [hdrop, ← List.map_cons, List.forall_mem_map]
    intro v hv
    have hmem : v ∈ m :: r ++ [m] := List.mem_append_left _ hv
    exact (h.contains_iff _).mpr ⟨v, hlt v hmem, rfl⟩
  · rw [hdrop]
    refine List.nodup_cons.mpr ⟨fun hmem => String.lt_irrefl _ (hfirst _ hmem), ?_⟩
    apply List.Nodup.map_on _ hnodup
    exact fun v hv w hw he => h.id_injective (hr v hv) (hr w hw) he
  · intro first rest he x hx
    rw [hdrop] at he
    obtain ⟨rfl, rfl⟩ := List.cons.inj he
    exact hfirst x hx

theorem Numbers.pairwise_named (h : t.Numbers g) {s : CycleSearch}
    (hsimple : ∀ c ∈ s.found, t.SimpleCycle c) (hnodup : s.found.Nodup) :
    (t.named s).cycles.Pairwise (· < ·) := by
  have hperm := List.mergeSort_perm s.found fun a b => (compare a b).isLE
  have hlt (c : List Nat) (hc : c ∈ s.found.mergeSort fun a b => (compare a b).isLE) :
      ∀ v ∈ c, v < t.size :=
    (hsimple c (hperm.mem_iff.mp hc)).lt_size h.ordered
  apply List.pairwise_map.mpr
  apply (pairwise_mergeSort_lt hnodup).imp_of_mem
  intro c c' _ hc' hcompare
  apply map_lt_map _ (lt_of_compare_eq_lt hcompare)
  exact fun v _ w hw hvw => h.id_lt hvw (hlt c' hc' w hw)

theorem tryCycles_of_final {cap : Nat} {s : CycleSearch} (hs : CycleSearch.final t cap = .ok s) :
    t.tryCycles cap = .ok (t.named s) := by
  rw [tryCycles, hs]
  rfl

theorem mem_named {s : CycleSearch} {names : List String} :
    names ∈ (t.named s).cycles ↔ ∃ c ∈ s.found, c.map t.id = names := by
  simp only [named, List.mem_map, List.mem_mergeSort]

theorem Numbers.exists_feedback (h : t.Numbers g) {s : CycleSearch} {trace : CycleSearch.Trace}
    (hs : CycleSearch.Follows t s trace) (hstack : s.stack = []) (hroot : t.size ≤ s.root) :
    ∃ feedback : List (String × String),
      List.Forall₂ (fun cycle e => e ∈ walkEdges cycle) (t.named s).cycles feedback ∧
        feedback.Nodup ∧ Acyclic fun x y => g.Links x y ∧ (x, y) ∉ feedback := by
  have hperm := List.mergeSort_perm s.found fun a b => (compare a b).isLE
  obtain ⟨closing, hown, hclosing⟩ := List.perm_comp_forall₂ hperm
    (hs.reported.own.imp fun _ _ hc => hc.1)
  have hedge (e : Nat × Nat) (he : e ∈ closing) : e.2 ∈ t.successors e.1 :=
    hs.examined.mem_successors (hs.directed.closing_sub e (hclosing.mem_iff.mp he))
  refine ⟨closing.map (Prod.map t.id t.id), ?_, ?_, ?_⟩
  · rw [named, List.forall₂_map_left_iff, List.forall₂_map_right_iff]
    exact hown.imp fun c e he => by
      rw [walkEdges_map]
      exact List.mem_map_of_mem he
  · apply List.Nodup.map_on _ (hclosing.symm.nodup hs.directed.nodup_closing)
    exact fun e he e' he' heq =>
      h.pair_injective (h.ordered.lt (hedge e he)) (h.ordered.lt (hedge e' he')) heq
  · -- A closed walk that is left would be one by number.
    intro walk hwalk
    let number (x : String) : Nat := (t.position? x).getD 0
    have hnumber {x : String} (hx : g.contains x = true) : number x < t.size ∧ t.id (number x) = x := by
      obtain ⟨i, hi, hix⟩ := (h.contains_iff x).mp hx
      have hposition : number x = i := by
        simp only [number, (h.position_iff x i).mpr ⟨hi, hix⟩, Option.getD_some]
      rw [hposition]
      exact ⟨hi, hix⟩
    refine hs.acyclic_of_end h.ordered hstack hroot (walk.map number) (hwalk.map number ?_)
    intro e he
    obtain ⟨hlinks, hout⟩ := isChain_iff_forall_edges.mp hwalk.chain e he
    obtain ⟨hi, hix⟩ := hnumber hlinks.1
    obtain ⟨hj, hjx⟩ := hnumber hlinks.2.1
    refine ⟨(h.links_iff hi hj).mp (by rwa [hix, hjx]), fun hmem => hout ?_⟩
    refine List.mem_map.mpr ⟨(number e.1, number e.2), hclosing.mem_iff.mpr hmem, ?_⟩
    rw [Prod.map_apply, hix, hjx]

end Topology

namespace Graph

variable {g : Graph} {cycles : List (List String)} {cycle : List String}

theorem Links.mem_names {x y : String} (hg : g.Indexed) (h : g.Links x y) :
    x ∈ Topology.names g ∧ y ∈ Topology.names g :=
  ⟨(Topology.contains_iff_mem_names hg).mp h.1, (Topology.contains_iff_mem_names hg).mp h.2.1⟩

theorem finite_links (hg : g.Indexed) : {p : String × String | g.Links p.1 p.2}.Finite := by
  have hnames := List.finite_toSet (Topology.names g)
  exact (hnames.prod hnames).subset fun p hp => hp.mem_names hg

theorem length_edgeList_le (hg : g.Indexed) {t : Topology} (h : t.Numbers g) :
    t.edgeList.length ≤ {p : String × String | g.Links p.1 p.2}.ncard := by
  have hlt {e : Nat × Nat} (he : e ∈ t.edgeList) : e.1 < t.size ∧ e.2 < t.size :=
    h.ordered.lt (h.ordered.mem_edgeList.mp he)
  have hnodup : (t.edgeList.map (Prod.map t.id t.id)).Nodup := by
    apply List.Nodup.map_on _ h.ordered.nodup_edgeList
    exact fun e he e' he' heq => h.pair_injective (hlt he) (hlt he') heq
  rw [← List.length_map (Prod.map t.id t.id), ← List.toFinset_card_of_nodup hnodup,
    ← Set.ncard_coe_finset]
  apply Set.ncard_le_ncard _ (finite_links hg)
  intro p hp
  obtain ⟨e, he, rfl⟩ := List.mem_map.mp (List.mem_toFinset.mp hp)
  exact h.links_of_mem (h.ordered.mem_edgeList.mp he)

theorem feedbackCycles_of (hg : g.Indexed) (hwalk : ∀ cycle ∈ cycles, ClosedWalk g.Links cycle)
    {feedback : List (String × String)}
    (hown : List.Forall₂ (fun cycle e => e ∈ walkEdges cycle) cycles feedback)
    (hnodup : feedback.Nodup) (hacyclic : Acyclic fun x y => g.Links x y ∧ (x, y) ∉ feedback) :
    g.FeedbackCycles cycles := by
  have hmem : ∀ e ∈ feedback, ∃ cycle ∈ cycles, e ∈ walkEdges cycle := by
    intro e he
    obtain ⟨i, hi, rfl⟩ := List.mem_iff_getElem.mp he
    have hi' : i < cycles.length := hown.length_eq ▸ hi
    exact ⟨cycles[i], List.getElem_mem _, hown.get hi' hi⟩
  have hshared : ∀ walk, ClosedWalk g.Links walk →
      ∃ cycle ∈ cycles, ∃ e ∈ walkEdges walk, e ∈ walkEdges cycle := by
    intro walk hclosed
    apply Classical.byContradiction
    intro hnone
    refine hacyclic walk (hclosed.imp fun e he => ?_)
    refine ⟨isChain_iff_forall_edges.mp hclosed.chain e he, fun hf => hnone ?_⟩
    obtain ⟨cycle, hcycle, hcommon⟩ := hmem e hf
    exact ⟨cycle, hcycle, e, he, hcommon⟩
  refine ⟨⟨feedback, hown, hnodup, hacyclic⟩, ?_, hshared, fun x hx => ?_, ?_⟩
  · constructor
    · rintro rfl walk hclosed
      obtain ⟨cycle, hcycle, -⟩ := hshared walk hclosed
      exact List.not_mem_nil hcycle
    · intro h
      apply List.eq_nil_iff_forall_not_mem.mpr
      exact fun cycle hcycle => h cycle (hwalk cycle hcycle)
  · obtain ⟨walk, hclosed, hxw⟩ := exists_closedWalk hx
    obtain ⟨cycle, hcycle, ⟨a, b⟩, hab, hcommon⟩ := hshared walk hclosed
    have haw := (mem_of_mem_walkEdges hab).1
    have hac := (mem_of_mem_walkEdges hcommon).1
    refine ⟨cycle, hcycle, fun y hy => ⟨?_, ?_⟩⟩
    · exact (hclosed.reach hxw haw).trans ((hwalk cycle hcycle).reach hac hy)
    · exact ((hwalk cycle hcycle).reach hy hac).trans (hclosed.reach haw hxw)
  · rw [hown.length_eq, ← List.toFinset_card_of_nodup hnodup, ← Set.ncard_coe_finset]
    apply Set.ncard_le_ncard _ (finite_links hg)
    intro e he
    obtain ⟨cycle, hcycle, hcommon⟩ := hmem e (by simpa using he)
    exact isChain_iff_forall_edges.mp (hwalk cycle hcycle).chain e hcommon

/-- The search answers at every cap, with simple cycles in canonical form and ascending order. -/
theorem tryCycles_canonical (calls : List Call) (cap : Nat) :
    ∃ report, (Topology.ofGraph (afterCalls calls)).tryCycles cap = .ok report ∧
      (∀ cycle ∈ report.cycles, (afterCalls calls).CanonicalCycle cycle) ∧
      report.cycles.Pairwise (· < ·) := by
  have hn := Topology.numbers_ofGraph (represents_afterCalls calls).wellFormed.toIndexed
  obtain ⟨s, hfinal, hend⟩ := CycleSearch.exists_final hn.ordered cap
  refine ⟨_, by rw [Topology.tryCycles, hfinal]; rfl, fun cycle hcycle => ?_,
    hn.pairwise_named hend.simple hend.nodup⟩
  obtain ⟨c, hc, rfl⟩ := Topology.mem_named.mp hcycle
  exact hn.canonicalCycle (hend.simple c hc)

/-- Where the cap leaves no cycle out, the reported cycles break all cycles. A cap of as many cycles
as there are dependencies between registered units leaves none out. -/
theorem tryCycles_feedback (calls : List Call) (cap : Nat) :
    ∃ report, (Topology.ofGraph (afterCalls calls)).tryCycles cap = .ok report ∧
      (report.truncated = false → (afterCalls calls).FeedbackCycles report.cycles) ∧
      ({p : String × String | (afterCalls calls).Links p.1 p.2}.ncard ≤ cap →
        report.truncated = false) := by
  have hg := (represents_afterCalls calls).wellFormed.toIndexed
  have hn := Topology.numbers_ofGraph hg
  obtain ⟨s, hfinal, hend⟩ := CycleSearch.exists_final hn.ordered cap
  refine ⟨_, by rw [Topology.tryCycles, hfinal]; rfl, fun htruncated => ?_, fun hcap => ?_⟩
  · obtain ⟨trace, hfollows, hstack, hroot⟩ := hend.complete htruncated
    obtain ⟨feedback, hown, hnodup, hacyclic⟩ := hn.exists_feedback hfollows hstack hroot
    apply feedbackCycles_of hg _ hown hnodup hacyclic
    intro cycle hcycle
    obtain ⟨c, hc, rfl⟩ := Topology.mem_named.mp hcycle
    exact (hend.simple c hc).closedWalk.map _ fun e he =>
      hn.links_of_mem ((hend.simple c hc).linked e he)
  · apply Bool.eq_false_iff.mpr
    intro htruncated
    have hlt := hend.cut htruncated
    have hle := length_edgeList_le hg hn
    omega

end Graph

end DependencyAtlas
