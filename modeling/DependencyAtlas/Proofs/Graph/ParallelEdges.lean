import DependencyAtlas.Proofs.Graph.Agreement
import DependencyAtlas.Proofs.Graph.DeclarationOrder

/-!
# Parallel edges

The edges of one unit come by target, relationship and `via`. In which order parallel edges come,
which agree in all three, is left to an unstable sort. It is given them newest first, while a
snapshot has them by their target kinds and forgets the order in which they were declared. So graphs
with one snapshot have the same edges under each unit, in the same order of labels, but parallel
edges may come in another order. Where the sort leaves the ties of a short list as they are, they do
so after an import unless they were declared by ascending kinds.
-/

namespace DependencyAtlas

open DependencyEdge (LabelSort labelOrder)

def DependencyEdge.withoutKind (e : DependencyEdge) : DependencyEdge :=
  { e with targetKind := "" }

/-- The target kinds that a unit declares under one target, relationship and `via`, in the order of
their declaration. -/
def parallelKinds (units : List CodeUnit) (x target relationship : String) (via : Option String) :
    List String :=
  ((lastDependencies units x).filter fun d =>
    d.target == target && d.relationship == relationship && d.via == via).map Dependency.kind

/-- Parallel edges of a unit have the same target kind. -/
def OneKind (units : List CodeUnit) (x : String) : Prop :=
  ∀ target relationship via, ∀ kind ∈ parallelKinds units x target relationship via,
    ∀ kind' ∈ parallelKinds units x target relationship via, kind = kind'

section ParallelKinds

variable {units units' : List CodeUnit} {x : String}

theorem filter_lastEdges (units : List CodeUnit) (x : String) (a : DependencyEdge) :
    ((lastEdges units x).filter fun b => labelOrder a b == .eq) =
      (parallelKinds units x a.target a.relationship a.via).map fun kind =>
        ⟨x, a.target, a.relationship, a.via, kind⟩ := by
  have hlabels : ∀ d : Dependency, (labelOrder a (d.edgeFrom x) == .eq) =
      (d.target == a.target && d.relationship == a.relationship && d.via == a.via) := by
    intro d
    rw [Bool.eq_iff_iff, beq_iff_eq, DependencyEdge.labelOrder_eq_iff]
    simp only [Dependency.edgeFrom, Bool.and_eq_true, beq_iff_eq, and_assoc, @eq_comm _ a.target,
      @eq_comm _ a.relationship, @eq_comm _ a.via]
  rw [lastEdges, parallelKinds, List.filter_map, List.map_map]
  simp only [Function.comp_def, hlabels]
  apply List.map_congr_left
  intro d hd
  have hsame := (List.mem_filter.mp hd).2
  simp only [Bool.and_eq_true, beq_iff_eq] at hsame
  obtain ⟨⟨htarget, hrelationship⟩, hvia⟩ := hsame
  rw [Dependency.edgeFrom, htarget, hrelationship, hvia]

theorem parallelKinds_eq_map (units : List CodeUnit) (x target relationship : String)
    (via : Option String) :
    parallelKinds units x target relationship via =
      ((lastEdges units x).filter fun b => labelOrder
        ⟨x, target, relationship, via, ""⟩ b == .eq).map DependencyEdge.targetKind := by
  rw [filter_lastEdges, List.map_map]
  exact (List.map_id _).symm

theorem withoutKind_eq {a b : DependencyEdge} (ha : a ∈ lastEdges units x)
    (hb : b ∈ lastEdges units x) (hab : labelOrder a b = .eq) : a.withoutKind = b.withoutKind := by
  obtain ⟨d, -, rfl⟩ := List.mem_map.mp ha
  obtain ⟨d', -, rfl⟩ := List.mem_map.mp hb
  obtain ⟨htarget, hrelationship, hvia⟩ := DependencyEdge.labelOrder_eq_iff.mp hab
  rw [DependencyEdge.withoutKind, DependencyEdge.withoutKind, htarget, hrelationship, hvia]
  rfl

theorem mem_parallelKinds_iff {a b : DependencyEdge} :
    b ∈ lastEdges units x ∧ labelOrder a b = .eq ↔
      ∃ kind ∈ parallelKinds units x a.target a.relationship a.via,
        ⟨x, a.target, a.relationship, a.via, kind⟩ = b := by
  rw [← List.mem_map, ← filter_lastEdges, List.mem_filter, beq_iff_eq]

theorem oneKind_iff :
    OneKind units x ↔ ∀ a ∈ lastEdges units x, ∀ b ∈ lastEdges units x,
      labelOrder a b = .eq → a.targetKind = b.targetKind := by
  constructor
  · intro h a ha b hb hab
    obtain ⟨kind, hkind, heq⟩ := mem_parallelKinds_iff.mp ⟨ha, Std.ReflCmp.compare_self⟩
    obtain ⟨kind', hkind', heq'⟩ := mem_parallelKinds_iff.mp ⟨hb, hab⟩
    rw [← congrArg DependencyEdge.targetKind heq, ← congrArg DependencyEdge.targetKind heq']
    exact h _ _ _ kind hkind kind' hkind'
  · intro h target relationship via kind hkind kind' hkind'
    let a (kind : String) : DependencyEdge := ⟨x, target, relationship, via, kind⟩
    have hmem : ∀ k ∈ parallelKinds units x target relationship via, a k ∈ lastEdges units x :=
      fun k hk => ((mem_parallelKinds_iff (a := a kind)).mpr ⟨k, hk, rfl⟩).1
    exact h (a kind) (hmem kind hkind) (a kind') (hmem kind' hkind')
      (DependencyEdge.labelOrder_eq_iff.mpr ⟨rfl, rfl, rfl⟩)

theorem stable_reverse_lastEdges_eq_iff :
    LabelSort.stable.sort (lastEdges units x).reverse =
        LabelSort.stable.sort (lastEdges units' x).reverse ↔
      ∀ target relationship via,
        parallelKinds units x target relationship via =
          parallelKinds units' x target relationship via := by
  simp only [LabelSort.sort_stable_eq_iff, List.filter_reverse, List.reverse_inj,
    filter_lastEdges]
  constructor
  · intro h target relationship via
    rw [parallelKinds_eq_map, parallelKinds_eq_map, filter_lastEdges, h, filter_lastEdges]
  · intro h a
    rw [h]

end ParallelKinds

theorem Snapshot.pairwise_parallelKinds_units {s : Snapshot}
    (hs : s.edges.Pairwise fun a b => (DependencyEdge.order a b).isLE = true)
    (x target relationship : String) (via : Option String) :
    (parallelKinds s.units x target relationship via).Pairwise (· ≤ ·) := by
  have hlast : (lastEdges s.units x).Pairwise fun a b =>
      (DependencyEdge.order a b).isLE = true := by
    cases hu : lastUnit? s.units x with
    | none => simp [lastEdges, lastDependencies, hu]
    | some u =>
      obtain ⟨p, -, rfl⟩ := List.mem_map.mp (mem_of_lastUnit? hu)
      rw [lastEdges_of_lastUnit? hu, edges_unitOf]
      exact hs.filter _
  have hgroup := hlast.filter fun b => labelOrder ⟨x, target, relationship, via, ""⟩ b == .eq
  rw [filter_lastEdges, List.pairwise_map] at hgroup
  exact hgroup.imp (DependencyEdge.isLE_order_of_parallel _ _ _ _).mp

namespace Graph

variable {g h : Graph} {units units' : List CodeUnit}

theorem Records.pairwise_edgesOf (hg : g.Records units) (x : String) (labelSort : LabelSort) :
    (g.edgesOf x labelSort).Pairwise fun a b => (labelOrder a b).isLE = true := by
  rw [hg.edgesOf_eq]
  exact labelSort.ordered _

theorem Records.edgesOf_perm (hg : g.Records units) (x : String) (labelSort : LabelSort) :
    (g.edgesOf x labelSort).Perm (lastEdges units x) := by
  rw [hg.edgesOf_eq]
  exact (labelSort.perm _).trans (List.reverse_perm _)

theorem Records.pairwise_map_withoutKind (hg : g.Records units) (x : String)
    (labelSort : LabelSort) :
    ((g.edgesOf x labelSort).map DependencyEdge.withoutKind).Pairwise fun a b =>
      (labelOrder a b).isLE = true :=
  List.pairwise_map.mpr (hg.pairwise_edgesOf x labelSort)

theorem Records.mem_edgesOf (hg : g.Records units) {labelSort : LabelSort} {e : DependencyEdge} :
    e ∈ g.edgesOf x labelSort ↔ e ∈ lastEdges units x :=
  (hg.edgesOf_perm x labelSort).mem_iff

theorem Records.edgesOf_eq_stable (hg : g.Records units) {labelSort : LabelSort}
    (hkeeps : labelSort.KeepsShort)
    (hfew : (lastDependencies units x).length ≤ LabelSort.insertionLimit) :
    g.edgesOf x labelSort = g.edgesOf x .stable := by
  rw [hg.edgesOf_eq, hg.edgesOf_eq]
  apply hkeeps
  rwa [List.length_reverse, lastEdges, List.length_map]

/-- Among edges of two kinds, ascending and descending kinds are not the same order. -/
theorem Records.oneKind_of_edgesOf_eq (hg : g.Records units)
    (hall : ∀ labelSort labelSort' : LabelSort, g.edgesOf x labelSort = g.edgesOf x labelSort') :
    OneKind units x := by
  let up (a b : DependencyEdge) : Ordering := compare a.targetKind b.targetKind
  have htrans : Std.TransCmp up :=
    inferInstanceAs (Std.TransCmp (compareOn DependencyEdge.targetKind))
  have heq : g.edgesOf x (.refined up) = g.edgesOf x (.refined fun a b => up b a) := hall _ _
  have hup : (g.edgesOf x (.refined up)).Pairwise fun a b =>
      labelOrder a b = .eq → (up a b).isLE = true := by
    rw [hg.edgesOf_eq]
    exact LabelSort.pairwise_sort_refined _
  have hdown : (g.edgesOf x (.refined up)).Pairwise fun a b =>
      labelOrder a b = .eq → (up b a).isLE = true := by
    rw [heq, hg.edgesOf_eq]
    exact LabelSort.pairwise_sort_refined _
  have hkinds : (g.edgesOf x (.refined up)).Pairwise fun a b =>
      labelOrder a b = .eq → a.targetKind = b.targetKind := by
    apply (hup.and hdown).imp
    rintro a b ⟨hab, hba⟩ htie
    exact Std.compare_eq_iff_eq.mp (Std.OrientedCmp.isLE_antisymm (hab htie) (hba htie))
  rw [oneKind_iff]
  intro a ha b hb
  apply List.Pairwise.forall_of_forall_of_flip (fun _ _ _ => rfl) hkinds _
    (hg.mem_edgesOf.mpr ha) (hg.mem_edgesOf.mpr hb)
  exact hkinds.imp fun h htie => (h (Std.OrientedCmp.eq_symm htie)).symm

section SameContent

variable (hc : g.SameContent h) (hg : g.Records units) (hh : h.Records units') (x : String)

include hc hg hh

theorem SameContent.lastEdges_perm : (lastEdges units x).Perm (lastEdges units' x) :=
  ((hg.lastEdges_perm x).trans (hc.declarations.filter _)).trans (hh.lastEdges_perm x).symm

theorem SameContent.edgesOf_perm (labelSort labelSort' : LabelSort) :
    (g.edgesOf x labelSort).Perm (h.edgesOf x labelSort') :=
  ((hg.edgesOf_perm x labelSort).trans (hc.lastEdges_perm hg hh x)).trans
    (hh.edgesOf_perm x labelSort').symm

theorem SameContent.edgesOf_withoutKind (labelSort labelSort' : LabelSort) :
    (g.edgesOf x labelSort).map DependencyEdge.withoutKind =
      (h.edgesOf x labelSort').map DependencyEdge.withoutKind := by
  -- Without the kinds the order of labels tells all edges of one unit apart.
  apply eq_of_perm_of_isLE ((hc.edgesOf_perm hg hh x _ _).map _)
    (hg.pairwise_map_withoutKind x labelSort) (hh.pairwise_map_withoutKind x labelSort')
  intro _ hmem _ hmem' hab
  obtain ⟨a, ha, rfl⟩ := List.mem_map.mp hmem
  obtain ⟨b, hb, rfl⟩ := List.mem_map.mp hmem'
  exact withoutKind_eq (hg.mem_edgesOf.mp ha) (hg.mem_edgesOf.mp hb) hab

/-- Where parallel edges are of one kind, nothing is left to the sort. -/
theorem SameContent.edgesOf_eq_of_kind_eq (hkind : OneKind units x)
    (labelSort labelSort' : LabelSort) : g.edgesOf x labelSort = h.edgesOf x labelSort' := by
  apply eq_of_perm_of_isLE (hc.edgesOf_perm hg hh x _ _) (hg.pairwise_edgesOf x labelSort)
    (hh.pairwise_edgesOf x labelSort')
  intro a ha b hb hab
  have ha := hg.mem_edgesOf.mp ha
  have hb := hg.mem_edgesOf.mp hb
  have hlabels := withoutKind_eq ha hb hab
  have hkinds := oneKind_iff.mp hkind a ha b hb hab
  cases a
  cases b
  simp_all [DependencyEdge.withoutKind]

theorem SameContent.parallelKinds_perm (target relationship : String) (via : Option String) :
    (parallelKinds units x target relationship via).Perm
      (parallelKinds units' x target relationship via) := by
  rw [parallelKinds_eq_map, parallelKinds_eq_map]
  exact ((hc.lastEdges_perm hg hh x).filter _).map _

end SameContent

theorem Records.edgesOf_stable_eq_iff (hg : g.Records units) (hh : h.Records units') (x : String) :
    g.edgesOf x .stable = h.edgesOf x .stable ↔ ∀ target relationship via,
      parallelKinds units x target relationship via =
        parallelKinds units' x target relationship via := by
  rw [hg.edgesOf_eq, hh.edgesOf_eq]
  exact stable_reverse_lastEdges_eq_iff

theorem Records.edgesOf_ofSnapshot_stable_eq_iff (hg : g.Records units)
    (hh : h.Records g.toSnapshot.units) (hc : g.SameContent h) (x : String) :
    h.edgesOf x .stable = g.edgesOf x .stable ↔ ∀ target relationship via,
      (parallelKinds units x target relationship via).Pairwise (· ≤ ·) := by
  have hascending := Snapshot.pairwise_parallelKinds_units (s := g.toSnapshot)
    (DependencyEdge.pairwise_sorted _) x
  rw [hh.edgesOf_stable_eq_iff hg]
  refine forall_congr' fun target => forall_congr' fun relationship => forall_congr' fun via => ?_
  constructor
  · intro hkinds
    exact hkinds ▸ hascending target relationship via
  · -- The same kinds, ascending in both graphs, are in the same order.
    intro hkinds
    apply (hc.parallelKinds_perm hg hh x target relationship via).symm.eq_of_pairwise _
      (hascending target relationship via) hkinds
    intro kind kind' _ _ hle hge
    exact String.le_antisymm hle hge

/-- Graphs with one snapshot have the same edges under a unit and the same order of labels, whatever
their sorts do. The sorts cannot make a difference exactly when parallel edges are of one kind. Where
ties of a few edges stay as they come, the answers are equal when parallel edges were declared in the
same order of kinds, and for an imported graph that is the ascending one. -/
theorem edgesOf_of_toSnapshot_eq {calls calls' : List Call}
    (hs : (afterCalls calls).toSnapshot = (afterCalls calls').toSnapshot) (x : String) :
    let units := calls.flatMap Call.accepted
    let units' := calls'.flatMap Call.accepted
    (∀ labelSort labelSort' : LabelSort,
      ((afterCalls calls).edgesOf x labelSort).Perm ((afterCalls calls').edgesOf x labelSort') ∧
        ((afterCalls calls).edgesOf x labelSort).map DependencyEdge.withoutKind =
          ((afterCalls calls').edgesOf x labelSort').map DependencyEdge.withoutKind) ∧
      ((∀ labelSort labelSort' : LabelSort,
          (afterCalls calls).edgesOf x labelSort = (afterCalls calls').edgesOf x labelSort') ↔
        OneKind units x) ∧
      ∃ h, ofSnapshot (afterCalls calls).toSnapshot = .ok h ∧
        ∀ labelSort : LabelSort, labelSort.KeepsShort →
          (lastDependencies units x).length ≤ LabelSort.insertionLimit →
          ((afterCalls calls).edgesOf x labelSort = (afterCalls calls').edgesOf x labelSort ↔
            ∀ target relationship via, parallelKinds units x target relationship via =
              parallelKinds units' x target relationship via) ∧
          (h.edgesOf x labelSort = (afterCalls calls).edgesOf x labelSort ↔
            ∀ target relationship via,
              (parallelKinds units x target relationship via).Pairwise (· ≤ ·)) := by
  intro units units'
  have hg : (afterCalls calls).Records units := records_afterCalls calls
  have hg' : (afterCalls calls').Records units' := records_afterCalls calls'
  have hc := sameContent_of_toSnapshot hg.wellFormed.toIndexed hg'.wellFormed.toIndexed hs
  have hvalid : ∀ u ∈ units, u.isValid = true := by
    intro u hu
    obtain ⟨c, -, hc⟩ := List.mem_flatMap.mp hu
    exact Call.isValid_of_mem_accepted hc
  obtain ⟨h, himport, -, -, hc'⟩ := hg.ofSnapshot_toSnapshot hvalid
  have hh : h.Records (afterCalls calls).toSnapshot.units := by
    rw [(ofSnapshot_eq_ok_iff.mp himport).2]
    exact records_foldl_insert _
  refine ⟨fun labelSort labelSort' => ⟨hc.edgesOf_perm hg hg' x _ _,
    hc.edgesOf_withoutKind hg hg' x _ _⟩, ⟨fun hall => ?_, hc.edgesOf_eq_of_kind_eq hg hg' x⟩,
    h, himport, fun labelSort hkeeps hfew => ?_⟩
  · exact hg.oneKind_of_edgesOf_eq fun labelSort labelSort' =>
      (hall labelSort .stable).trans (hall labelSort' .stable).symm
  · have hfew' {units'' : List CodeUnit} (hperm : (lastEdges units x).Perm (lastEdges units'' x)) :
        (lastDependencies units'' x).length ≤ LabelSort.insertionLimit := by
      have hlength := hperm.length_eq
      rw [lastEdges, lastEdges, List.length_map, List.length_map] at hlength
      exact hlength ▸ hfew
    rw [hg.edgesOf_eq_stable hkeeps hfew,
      hg'.edgesOf_eq_stable hkeeps (hfew' (hc.lastEdges_perm hg hg' x)),
      hh.edgesOf_eq_stable hkeeps (hfew' (hc'.lastEdges_perm hg hh x))]
    exact ⟨hg.edgesOf_stable_eq_iff hg' x, hg.edgesOf_ofSnapshot_stable_eq_iff hh hc' x⟩

/-- A unit that declares two parallel edges, of these kinds. -/
def twofold (kind kind' : String) : CodeUnit :=
  ⟨"reader", .service, "", [⟨"store", Dependency.defaultRelationship, none, kind⟩,
    ⟨"store", Dependency.defaultRelationship, none, kind'⟩]⟩

/-- Parallel edges that are declared by descending kinds come in another order than those declared
by ascending ones, and in another order after an import. -/
theorem edgesOf_of_toSnapshot_eq_twofold :
    (afterCalls [.register (twofold "view" "model")]).toSnapshot =
        (afterCalls [.register (twofold "model" "view")]).toSnapshot ∧
      (afterCalls [.register (twofold "view" "model")]).edgesOf "reader" .stable ≠
        (afterCalls [.register (twofold "model" "view")]).edgesOf "reader" .stable ∧
      ∃ h, ofSnapshot (afterCalls [.register (twofold "view" "model")]).toSnapshot = .ok h ∧
        h.edgesOf "reader" .stable ≠
          (afterCalls [.register (twofold "view" "model")]).edgesOf "reader" .stable := by
  have hs : (afterCalls [.register (twofold "view" "model")]).toSnapshot =
      (afterCalls [.register (twofold "model" "view")]).toSnapshot := by
    have hg := represents_afterCalls [.register (twofold "view" "model")]
    have hh := represents_afterCalls [.register (twofold "model" "view")]
    have hunits : List.Forall₂ CodeUnit.Reordered
        ([.register (twofold "view" "model")].flatMap Call.accepted)
        ([.register (twofold "model" "view")].flatMap Call.accepted) :=
      .cons ⟨rfl, rfl, rfl, .swap _ _ _⟩ .nil
    exact (hg.sameContent hh (historiesAgree_of_forall₂ (fun _ _ => CodeUnit.Reordered.identifier)
      hunits)).toSnapshot_eq hg.wellFormed.toIndexed hh.wellFormed.toIndexed
  obtain ⟨-, -, h, himport, hshort⟩ := edgesOf_of_toSnapshot_eq hs "reader"
  obtain ⟨hiff, hagain⟩ := hshort .stable LabelSort.keepsShort_stable (by decide)
  refine ⟨hs, fun heq => ?_, h, himport, fun heq => ?_⟩
  · exact absurd (hiff.mp heq "store" Dependency.defaultRelationship none) (by decide)
  · exact absurd (hagain.mp heq "store" Dependency.defaultRelationship none) (by decide)

end Graph

end DependencyAtlas
