import DependencyAtlas.Analysis.Report
import DependencyAtlas.Proofs.Analysis.Cycles
import DependencyAtlas.Proofs.Analysis.TopRanked

/-!
# Sections of a report

What a section says of a unit is a matter of the units before and behind it: orphans have none
before them, dead ends none behind them, hubs some before them, the members of cycles and bridges
some on either side. So the sections of a report agree with each other and with its counts.
-/

namespace DependencyAtlas

namespace Topology

variable {t : Topology} {g : Graph} {x : String}

theorem mem_map_filter {p : Nat → Bool} :
    x ∈ (t.vertices.filter p).map t.id ↔ ∃ i < t.size, t.id i = x ∧ p i = true := by
  simp only [List.mem_map, List.mem_filter, vertices, List.mem_range]
  constructor
  · rintro ⟨i, ⟨hi, hp⟩, hid⟩
    exact ⟨i, hi, hid, hp⟩
  · rintro ⟨i, hi, hid, hp⟩
    exact ⟨i, ⟨hi, hp⟩, hid⟩

theorem Degrees.isVendoredAt_eq (hd : t.Degrees g) {i : Nat} (hi : i < t.size) :
    t.isVendoredAt i = (g.unit? (t.id i)).any fun u => u.kind.isVendored := by
  rw [isVendoredAt, hd.kind? i hi, Option.any_map]

theorem Degrees.mem_orphans (hd : t.Degrees g) (hn : t.Numbers g) :
    x ∈ t.orphans ↔
      ∃ u, g.unit? x = some u ∧ u.kind.isVendored = false ∧ g.dependentsOf x = [] := by
  rw [orphans, mem_map_filter]
  simp only [Bool.and_eq_true, beq_iff_eq, Bool.not_eq_true']
  constructor
  · rintro ⟨i, hi, rfl, hcount, hkind⟩
    obtain ⟨u, hu⟩ := Option.isSome_iff_exists.mp ((hn.contains_iff _).mpr ⟨i, hi, rfl⟩)
    rw [hd.dependentCount i hi, List.length_eq_zero_iff] at hcount
    rw [hd.isVendoredAt_eq hi, hu, Option.any_some] at hkind
    exact ⟨u, hu, hkind, hcount⟩
  · rintro ⟨u, hu, hkind, hnone⟩
    obtain ⟨i, hi, rfl⟩ := (hn.contains_iff x).mp (Option.isSome_iff_exists.mpr ⟨u, hu⟩)
    refine ⟨i, hi, rfl, ?_, ?_⟩
    · rw [hd.dependentCount i hi, hnone, List.length_nil]
    · rw [hd.isVendoredAt_eq hi, hu, Option.any_some, hkind]

theorem Degrees.mem_deadEnds (hd : t.Degrees g) (hn : t.Numbers g) :
    x ∈ t.deadEnds ↔ g.contains x = true ∧ g.dependenciesOf x = [] := by
  rw [deadEnds, mem_map_filter]
  constructor
  · rintro ⟨i, hi, rfl, hcount⟩
    rw [beq_iff_eq, hd.outDegree i hi, List.length_eq_zero_iff] at hcount
    exact ⟨(hn.contains_iff _).mpr ⟨i, hi, rfl⟩, hcount⟩
  · rintro ⟨hx, hnone⟩
    obtain ⟨i, hi, rfl⟩ := (hn.contains_iff x).mp hx
    refine ⟨i, hi, rfl, ?_⟩
    rw [beq_iff_eq, hd.outDegree i hi, hnone, List.length_nil]

end Topology

def Graph.UnusedVendored (g : Graph) (x : String) : Prop :=
  ∃ u, g.unit? x = some u ∧ u.kind.isVendored = true ∧ g.dependentsOf x = []

namespace Topology

variable {t : Topology} {g : Graph}

theorem Numbers.exists_tryCycles (hn : t.Numbers g) (cap : Nat) :
    ∃ report, t.tryCycles cap = .ok report ∧ ∀ cycle ∈ report.cycles, ClosedWalk g.Links cycle := by
  obtain ⟨s, hfinal, hend⟩ := CycleSearch.exists_final hn.ordered cap
  refine ⟨_, tryCycles_of_final hfinal, fun names hnames => ?_⟩
  obtain ⟨cycle, hcycle, rfl⟩ := mem_named.mp hnames
  exact hn.closedWalk_map (hend.simple cycle hcycle).closedWalk

/-- Each reported bridge leads on from one other unit to another one. -/
theorem Numbers.exists_tryBridges {σ : Type} [Generator σ] (hn : t.Numbers g)
    (limit sampleSize minNodes : Nat) (random : σ) :
    ∃ bridges, t.tryBridges limit sampleSize minNodes random = .ok bridges ∧
      ∀ b ∈ bridges, (∃ y, y ≠ b.identifier ∧ g.Links y b.identifier) ∧
        ∃ y, y ≠ b.identifier ∧ g.Links b.identifier y := by
  obtain ⟨bridges, hok, hinside⟩ :=
    Bridges.exists_tryBridges hn.ordered limit sampleSize minNodes random
  refine ⟨bridges, hok, fun b hb => ?_⟩
  obtain ⟨pair, ⟨hsource, htarget, hne⟩, v, hv, hid⟩ := hinside b hb
  have hother {a : Nat} (hav : a ≠ v) (ha : a < t.size) (hvlt : v < t.size) : t.id a ≠ t.id v :=
    fun he => hav (hn.id_injective ha hvlt he)
  rcases hn.ordered.interior?_searchFrom (BreadthFirst.fits_idle t.size) hsource htarget
    (Ne.symm hne) with ⟨p, hp, hnodup, heq⟩ | ⟨-, heq⟩
  · rw [inner, heq, Option.getD_some, List.mem_reverse] at hv
    obtain ⟨⟨a, hav, hbefore⟩, c, hcv, hafter⟩ := hp.path.exists_neighbours hnodup hv
    obtain ⟨ha, hvlt⟩ := hn.ordered.lt hbefore
    obtain ⟨-, hc⟩ := hn.ordered.lt hafter
    rw [hid]
    exact ⟨⟨_, hother hav ha hvlt, hn.links_of_mem hbefore⟩,
      _, hother hcv hc hvlt, hn.links_of_mem hafter⟩
  · rw [inner, heq, Option.getD_some] at hv
    exact absurd hv List.not_mem_nil

end Topology

/-- How a unit stands to those that depend on it. -/
inductive Standing where
  | orphan
  | unusedVendored
  | eligibleHub

/-- How a unit stands by a report, or by the graph where a report does not say. -/
def Report.Shows (r : Report) (g : Graph) (x : String) : Standing → Prop
  | .orphan => x ∈ r.orphans
  | .unusedVendored => g.UnusedVendored x
  | .eligibleHub => g.EligibleHub x

/-- The sections of a report agree with each other and with its counts, and no section is missing. -/
structure Report.Consistent (r : Report) (g : Graph) (hubLimit : Nat) : Prop where
  errors : r.errors = []
  counts : r.counts =
    { nodes := g.unitCount
      edges := g.edgeCount
      danglingEdges := g.danglingEdgeCount
      orphans := r.orphans.length
      deadEnds := r.deadEnds.length
      hubs := r.hubs.length
      cycles := some r.cycles.length
      bridges := some r.bridges.length
      cyclesTruncated := r.counts.cyclesTruncated }
  standing : ∀ x, g.contains x = true → ∃! standing, r.Shows g x standing
  hubs : ∀ h ∈ r.hubs, g.EligibleHub h.identifier
  /-- With no less room than there are units, the hubs are all units that are neither orphans nor
  unused vendored units. -/
  hubs_all : g.unitCount ≤ hubLimit → ∀ x, x ∈ r.hubs.map Hub.identifier ↔
    g.contains x = true ∧ x ∉ r.orphans ∧ ¬ g.UnusedVendored x
  cycles : ∀ cycle ∈ r.cycles, ∀ x ∈ cycle,
    (∃ y, y ∈ g.dependentsOf x) ∧ (∃ y ∈ g.dependenciesOf x, g.contains y = true) ∧
      x ∉ r.orphans ∧ x ∉ r.deadEnds
  bridges : ∀ b ∈ r.bridges,
    (∃ y ∈ g.dependentsOf b.identifier, y ≠ b.identifier) ∧
      (∃ y ∈ g.dependenciesOf b.identifier, g.contains y = true ∧ y ≠ b.identifier) ∧
        b.identifier ∉ r.orphans ∧ b.identifier ∉ r.deadEnds

section Consistency

variable {t : Topology} {g : Graph} {x : String}

theorem Topology.Degrees.not_mem_of_links (hd : t.Degrees g) (hn : t.Numbers g) (hg : g.Indexed)
    {y z : String} (hyx : g.Links y x) (hxz : g.Links x z) : x ∉ t.orphans ∧ x ∉ t.deadEnds := by
  rw [hd.mem_orphans hn, hd.mem_deadEnds hn]
  constructor
  · rintro ⟨-, -, -, hnone⟩
    have hmem := (Graph.mem_dependenciesOf_iff_mem_dependentsOf hg).mp hyx.2.2
    rw [hnone] at hmem
    exact List.not_mem_nil hmem
  · rintro ⟨-, hnone⟩
    exact List.not_mem_nil (hnone ▸ hxz.2.2)

theorem Topology.Degrees.existsUnique_standing (hd : t.Degrees g) (hn : t.Numbers g) {r : Report}
    (hr : r.orphans = t.orphans) (hx : g.contains x = true) :
    ∃! standing, r.Shows g x standing := by
  obtain ⟨u, hu⟩ := Option.isSome_iff_exists.mp hx
  have horphan : r.Shows g x .orphan ↔ u.kind.isVendored = false ∧ g.dependentsOf x = [] := by
    rw [Report.Shows, hr, hd.mem_orphans hn, hu]
    simp
  have hvendored : r.Shows g x .unusedVendored ↔
      u.kind.isVendored = true ∧ g.dependentsOf x = [] := by
    rw [Report.Shows, Graph.UnusedVendored, hu]
    simp
  have hhub : r.Shows g x .eligibleHub ↔ g.dependentsOf x ≠ [] :=
    and_iff_right hx
  by_cases hnone : g.dependentsOf x = []
  · cases hkind : u.kind.isVendored with
    | false =>
      refine ⟨.orphan, horphan.mpr ⟨hkind, hnone⟩, fun standing hs => ?_⟩
      cases standing with
      | orphan => rfl
      | unusedVendored => simp [hvendored.mp hs] at hkind
      | eligibleHub => exact absurd hnone (hhub.mp hs)
    | true =>
      refine ⟨.unusedVendored, hvendored.mpr ⟨hkind, hnone⟩, fun standing hs => ?_⟩
      cases standing with
      | orphan => simp [horphan.mp hs] at hkind
      | unusedVendored => rfl
      | eligibleHub => exact absurd hnone (hhub.mp hs)
  · refine ⟨.eligibleHub, hhub.mpr hnone, fun standing hs => ?_⟩
    cases standing with
    | orphan => exact absurd (horphan.mp hs).2 hnone
    | unusedVendored => exact absurd (hvendored.mp hs).2 hnone
    | eligibleHub => rfl

theorem Graph.eligibleHub_iff_of_existsUnique {r : Report}
    (h : g.contains x = true → ∃! standing, r.Shows g x standing) :
    g.EligibleHub x ↔ g.contains x = true ∧ x ∉ r.orphans ∧ ¬ g.UnusedVendored x := by
  constructor
  · intro hhub
    have honly (standing : Standing) (hs : r.Shows g x standing) : standing = .eligibleHub :=
      (h hhub.1).unique hs hhub
    exact ⟨hhub.1, fun horphan => Standing.noConfusion (honly .orphan horphan),
      fun hvendored => Standing.noConfusion (honly .unusedVendored hvendored)⟩
  · rintro ⟨hx, horphan, hvendored⟩
    obtain ⟨standing, hshows, -⟩ := h hx
    cases standing with
    | orphan => exact absurd hshows horphan
    | unusedVendored => exact absurd hshows hvendored
    | eligibleHub => exact hshows

end Consistency

/-- Whatever calls made a graph, whatever the settings and the random numbers, the sections of its
report agree. -/
theorem Graph.report_consistent (calls : List Call) (c : Config) {σ : Type} [Generator σ]
    (random : σ) :
    ((Topology.ofGraph (afterCalls calls)).report c random).Consistent (afterCalls calls)
      c.hubLimit := by
  have hg := (represents_afterCalls calls).wellFormed.toIndexed
  have hn := Topology.numbers_ofGraph hg
  have hd := Topology.degrees_ofGraph hg
  obtain ⟨cycles, hcycles, hwalks⟩ := hn.exists_tryCycles c.maxCycles
  obtain ⟨bridges, hbridges, hbetween⟩ :=
    hn.exists_tryBridges c.bridgeLimit c.bridgeSampleSize c.bridgeMinNodes random
  rw [Topology.report, hcycles, hbridges]
  have hstanding : ∀ x, (afterCalls calls).contains x = true → ∃! standing,
      ((Topology.ofGraph (afterCalls calls)).assemble c (.ok cycles) (.ok bridges)).Shows
        (afterCalls calls) x standing :=
    fun x => hd.existsUnique_standing hn rfl
  refine ⟨rfl, ?_, hstanding, fun h hh => ?_, fun hlimit x => ?_, fun cycle hcycle x hx => ?_,
    fun b hb => ?_⟩
  · rw [← hn.size]
    rfl
  · exact hd.eligibleHub_of_mem_hubs hn (List.mem_map_of_mem hh)
  · rw [← eligibleHub_iff_of_existsUnique (hstanding x)]
    exact hd.mem_hubs_iff hn (hn.size.trans_le hlimit)
  · have hround := (hwalks cycle hcycle).transGen hx
    obtain ⟨y, hxy, -⟩ := Relation.TransGen.head'_iff.mp hround
    obtain ⟨z, -, hzx⟩ := Relation.TransGen.tail'_iff.mp hround
    exact ⟨⟨z, (mem_dependenciesOf_iff_mem_dependentsOf hg).mp hzx.2.2⟩, ⟨y, hxy.2.2, hxy.2.1⟩,
      hd.not_mem_of_links hn hg hzx hxy⟩
  · obtain ⟨⟨y, hy, hyx⟩, z, hz, hxz⟩ := hbetween b hb
    exact ⟨⟨y, (mem_dependenciesOf_iff_mem_dependentsOf hg).mp hyx.2.2, hy⟩,
      ⟨z, hxz.2.2, hxz.2.1, hz⟩, hd.not_mem_of_links hn hg hyx hxz⟩

end DependencyAtlas
