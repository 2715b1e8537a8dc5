import DependencyAtlas.Proofs.Analysis.Histories
import DependencyAtlas.Proofs.Analysis.Sections
import DependencyAtlas.Proofs.Graph.Distances
import DependencyAtlas.Proofs.Graph.ImpactClosure

/-!
# Dangling dependencies

A dependency on an identifier under which nothing is registered keeps its unit from being a dead
end, and makes no other difference: graphs of units that differ in such dependencies only have the
same units with the same dependencies between them. No result names a placeholder.
-/

namespace DependencyAtlas

/-- Two units that differ at most in dependencies on identifiers outside of some names. -/
structure CodeUnit.SameWithin (names : List String) (u v : CodeUnit) : Prop where
  identifier : u.identifier = v.identifier
  kind : u.kind = v.kind
  file : u.file = v.file
  dependencies : (u.dependencies.filter fun d => names.contains d.target) =
    v.dependencies.filter fun d => names.contains d.target

namespace CodeUnit

variable {names : List String} {u v : CodeUnit}

theorem SameWithin.registered_eq (h : u.SameWithin names v) : u.registered = v.registered := by
  rw [registered, registered, h.identifier, h.kind, h.file]

theorem SameWithin.target_iff (h : u.SameWithin names v) {t : String} (ht : t ∈ names) :
    (∃ d ∈ u.dependencies, d.target = t) ↔ ∃ d ∈ v.dependencies, d.target = t := by
  have hfilter (w : CodeUnit) : (∃ d ∈ w.dependencies, d.target = t) ↔
      ∃ d ∈ w.dependencies.filter fun d => names.contains d.target, d.target = t := by
    simp only [List.mem_filter, List.contains_iff_mem]
    constructor
    · rintro ⟨d, hd, rfl⟩
      exact ⟨d, ⟨hd, ht⟩, rfl⟩
    · rintro ⟨d, ⟨hd, -⟩, rfl⟩
      exact ⟨d, hd, rfl⟩
  rw [hfilter u, hfilter v, h.dependencies]

end CodeUnit

namespace Graph

variable {g h : Graph} {history history' : List CodeUnit} {x y : String}

theorem Represents.links_iff (hg : g.Represents history) :
    g.Links x y ↔ (lastUnit? history y).isSome = true ∧
      ∃ u, lastUnit? history x = some u ∧ ∃ d ∈ u.dependencies, d.target = y := by
  have hi := hg.wellFormed.toIndexed
  rw [← mem_filter_dependenciesOf_iff_links hi, List.mem_filter, mem_dependenciesOf_iff_declares hi,
    hg.declares_iff, hg.contains_eq, and_comm]

theorem Represents.sameLinks (hg : g.Represents history) (hh : h.Represents history')
    (ha : HistoriesAgree (CodeUnit.SameWithin (history.map CodeUnit.identifier)) history history') :
    g.SameLinks h := by
  refine ⟨fun x => ?_, fun x y => ?_⟩
  · rw [hg.unit?, hh.unit?]
    rcases optionRel_cases (ha x) with ⟨hu, hv⟩ | ⟨u, v, hu, hv, huv⟩
    · rw [hu, hv]
    · rw [hu, hv, Option.map_some, Option.map_some, huv.registered_eq]
  · rw [hg.links_iff, hh.links_iff, ha.isSome_eq]
    apply and_congr_right
    intro hy
    rw [← ha.isSome_eq, isSome_lastUnit?_iff] at hy
    rcases optionRel_cases (ha x) with ⟨hu, hv⟩ | ⟨u, v, hu, hv, huv⟩
    · simp only [hu, hv]
    · simp only [hu, hv, Option.some.injEq, exists_eq_left', huv.target_iff hy]

/-- The identifiers that the results of the analyses and the questions about changes name. -/
inductive Reported (g : Graph) (x : String) : Prop where
  | orphan : x ∈ (Topology.ofGraph g).orphans → Reported g x
  | deadEnd : x ∈ (Topology.ofGraph g).deadEnds → Reported g x
  | hub (limit : Nat) : x ∈ ((Topology.ofGraph g).hubs limit).map Hub.identifier → Reported g x
  | cycle (cap : Nat) (report : CycleReport) (cycle : List String) :
    (Topology.ofGraph g).tryCycles cap = .ok report → cycle ∈ report.cycles → x ∈ cycle →
      Reported g x
  | bridge {σ : Type} [Generator σ] (random : σ) (limit sampleSize minNodes : Nat)
    (bridges : List Bridge) :
    (Topology.ofGraph g).tryBridges limit sampleSize minNodes random = .ok bridges →
      x ∈ bridges.map Bridge.identifier → Reported g x
  | ranked {α : Type} [Scalar α] (damping tolerance : α) (maxIterations : Nat) :
    x ∈ ((Topology.ofGraph g).pageRank damping tolerance maxIterations).ranks.map
      RankedUnit.identifier → Reported g x
  | dependent (start : String) (limit : Option Nat) :
    x ∈ g.transitiveDependents start limit → Reported g x
  | affected (files : List String) : x ∈ g.affectedBy files → Reported g x

theorem contains_of_mem_ranks {α : Type} [Scalar α] {t : Topology} (hn : t.Numbers g)
    {damping tolerance : α} {maxIterations : Nat}
    (hx : x ∈ (t.pageRank damping tolerance maxIterations).ranks.map RankedUnit.identifier) :
    g.contains x = true := by
  rw [Topology.pageRank] at hx
  split at hx
  · exact absurd hx List.not_mem_nil
  · rw [List.map_map, List.mem_map] at hx
    obtain ⟨v, hv, rfl⟩ := hx
    rw [PageRank.ranked, List.mem_mergeSort] at hv
    exact (hn.contains_iff _).mpr ⟨v, List.mem_range.mp hv, rfl⟩

theorem contains_of_mem_transitiveDependents (hg : g.Indexed) {limit : Option Nat}
    (hx : x ∈ g.transitiveDependents y limit) : g.contains x = true :=
  (((dependentsWithin hg y limit).mem_iff x).mp hx).1

theorem contains_of_mem_affectedBy (hg : g.Indexed) {files : List String}
    (hx : x ∈ g.affectedBy files) : g.contains x = true :=
  (impactClosed_affectedBy hg files).registered x hx

theorem Reported.contains (hg : g.Indexed) (hx : g.Reported x) : g.contains x = true := by
  have hn := Topology.numbers_ofGraph hg
  have hd := Topology.degrees_ofGraph hg
  cases hx with
  | orphan h =>
    obtain ⟨u, hu, -⟩ := (hd.mem_orphans hn).mp h
    exact Option.isSome_of_eq_some hu
  | deadEnd h => exact ((hd.mem_deadEnds hn).mp h).1
  | hub limit h => exact (hd.eligibleHub_of_mem_hubs hn h).1
  | cycle cap report cycle hok hcycle hmem =>
    obtain ⟨report', hok', hwalks⟩ := hn.exists_tryCycles cap
    rw [hok, Except.ok.injEq] at hok'
    subst hok'
    obtain ⟨y, hxy, -⟩ := Relation.TransGen.head'_iff.mp ((hwalks cycle hcycle).transGen hmem)
    exact hxy.1
  | bridge random limit sampleSize minNodes bridges hok hmem =>
    obtain ⟨bridges', hok', hbetween⟩ := hn.exists_tryBridges limit sampleSize minNodes random
    rw [hok, Except.ok.injEq] at hok'
    subst hok'
    obtain ⟨b, hb, rfl⟩ := List.mem_map.mp hmem
    obtain ⟨-, y, -, hxy⟩ := hbetween b hb
    exact hxy.1
  | ranked damping tolerance maxIterations h => exact contains_of_mem_ranks hn h
  | dependent start limit h => exact contains_of_mem_transitiveDependents hg h
  | affected files h => exact contains_of_mem_affectedBy hg h

/-- The dead ends are the units without any dependency, on whatever, and no result names a
placeholder. -/
structure ReportsUnits (g : Graph) (units : List CodeUnit) : Prop where
  deadEnds : ∀ x, x ∈ (Topology.ofGraph g).deadEnds ↔
    ∃ u, lastUnit? units x = some u ∧ u.dependencies = []
  contains : ∀ x, g.Reported x → g.contains x = true
  isPlaceholder : ∀ x, g.isPlaceholder x = true → ¬ g.Reported x

theorem Represents.dependenciesOf_eq_nil_iff (hg : g.Represents history) {u : CodeUnit}
    (hu : lastUnit? history x = some u) : g.dependenciesOf x = [] ↔ u.dependencies = [] := by
  simp only [List.eq_nil_iff_forall_not_mem,
    mem_dependenciesOf_iff_declares hg.wellFormed.toIndexed, hg.declares_iff, hu,
    Option.some.injEq, exists_eq_left', not_exists, not_and]
  constructor
  · intro hnone d hd
    exact hnone d.target d hd rfl
  · intro hnone y d hd
    exact absurd hd (hnone d)

theorem Represents.reportsUnits (hg : g.Represents history) : g.ReportsUnits history := by
  have hi := hg.wellFormed.toIndexed
  refine ⟨fun x => ?_, fun x hx => hx.contains hi, fun x hp hx => ?_⟩
  · rw [(Topology.degrees_ofGraph hi).mem_deadEnds (Topology.numbers_ofGraph hi), hg.contains_eq,
      Option.isSome_iff_exists, exists_and_right.symm]
    exact exists_congr fun u => and_congr_right fun hu => hg.dependenciesOf_eq_nil_iff hu
  · have hnone := (hg.wellFormed.isPlaceholder_iff.mp hp).1
    have hsome := hx.contains hi
    rw [Graph.contains, hnone] at hsome
    exact absurd hsome (by simp)

/-- Nothing tells two graphs apart but what they say of dependencies and dead ends. -/
structure AlikeButForDangling (g h : Graph) : Prop extends g.LinksAnalysedAlike h where
  contains : ∀ x, g.contains x = h.contains x
  transitiveDependents : ∀ x, g.contains x = true →
    ∀ limit, g.transitiveDependents x limit = h.transitiveDependents x limit
  affectedBy : ∀ files, g.affectedBy files = h.affectedBy files

theorem SameLinks.alikeButForDangling (hs : g.SameLinks h) (hg : g.Indexed) (hh : h.Indexed) :
    g.AlikeButForDangling h :=
  ⟨hs.linksAnalysedAlike hg hh, hs.contains_eq,
    fun _ hx limit => hs.transitiveDependents_eq hg hh hx limit, hs.affectedBy_eq hg hh⟩

/-- Lists of valid units that differ in dependencies on identifiers that are never registered make
graphs that only these dependencies and their dead ends tell apart. -/
theorem registerAll_alikeButForDangling {units units' : List CodeUnit}
    (hunits : List.Forall₂ (CodeUnit.SameWithin (units.map CodeUnit.identifier)) units units')
    (hvalid : ∀ u ∈ units, u.isValid = true) (hvalid' : ∀ u ∈ units', u.isValid = true) :
    (empty.registerAll units).2 = .ok units.length ∧
      (empty.registerAll units').2 = .ok units'.length ∧
        (empty.registerAll units).1.AlikeButForDangling (empty.registerAll units').1 ∧
          (empty.registerAll units).1.ReportsUnits units ∧
            (empty.registerAll units').1.ReportsUnits units' := by
  rw [registerAll_of_isValid hvalid, registerAll_of_isValid hvalid']
  have hg := represents_foldl_insert units
  have hh := represents_foldl_insert units'
  have hlinks := hg.sameLinks hh
    (historiesAgree_of_forall₂ (fun _ _ => CodeUnit.SameWithin.identifier) hunits)
  exact ⟨rfl, rfl, hlinks.alikeButForDangling hg.wellFormed.toIndexed hh.wellFormed.toIndexed,
    hg.reportsUnits, hh.reportsUnits⟩

/-- A unit registered twice and one that nothing dangles from. -/
def settledUnits : List CodeUnit :=
  [⟨"reader", .service, "", [plainDependency "disk"]⟩, ⟨"store", .model, "", []⟩,
    ⟨"reader", .service, "", [plainDependency "store"]⟩]

/-- The same units: one dependency that dangles is gone, and others came in. -/
def danglingUnits : List CodeUnit :=
  [⟨"reader", .service, "", []⟩, ⟨"store", .model, "", [plainDependency "log"]⟩,
    ⟨"reader", .service, "",
      [plainDependency "log", plainDependency "store", plainDependency "net"]⟩]

theorem registerAll_alikeButForDangling_settled :
    List.Forall₂ (CodeUnit.SameWithin (settledUnits.map CodeUnit.identifier)) settledUnits
        danglingUnits ∧
      (∀ u ∈ settledUnits, u.isValid = true) ∧ (∀ u ∈ danglingUnits, u.isValid = true) ∧
        (empty.registerAll settledUnits).2 = .ok settledUnits.length ∧
          (empty.registerAll danglingUnits).2 = .ok danglingUnits.length ∧
            (empty.registerAll settledUnits).1.AlikeButForDangling
              (empty.registerAll danglingUnits).1 ∧
              (empty.registerAll settledUnits).1.ReportsUnits settledUnits ∧
                (empty.registerAll danglingUnits).1.ReportsUnits danglingUnits := by
  have hunits : List.Forall₂ (CodeUnit.SameWithin (settledUnits.map CodeUnit.identifier))
      settledUnits danglingUnits :=
    .cons ⟨rfl, rfl, rfl, by decide⟩ (.cons ⟨rfl, rfl, rfl, by decide⟩
      (.cons ⟨rfl, rfl, rfl, by decide⟩ .nil))
  have hvalid : ∀ u ∈ settledUnits, u.isValid = true := by decide
  have hvalid' : ∀ u ∈ danglingUnits, u.isValid = true := by decide
  exact ⟨hunits, hvalid, hvalid', registerAll_alikeButForDangling hunits hvalid hvalid'⟩

end Graph

end DependencyAtlas
