import DependencyAtlas.Proofs.Graph.Pruning

/-!
# Registration

Registering a unit puts it under its identifier, replaces the edges that start at it, and changes
nothing else that a graph says. The graph stays in order.
-/

namespace DependencyAtlas

namespace CodeUnit

def registered (u : CodeUnit) : RegisteredUnit :=
  ⟨u.identifier, u.kind, u.file⟩

def edges (u : CodeUnit) : List DependencyEdge :=
  u.dependencies.map (Dependency.edgeFrom u.identifier)

theorem source_of_mem_edges {u : CodeUnit} {d : DependencyEdge} (h : d ∈ u.edges) :
    d.source = u.identifier := by
  obtain ⟨_, -, rfl⟩ := List.mem_map.mp h
  rfl

end CodeUnit

namespace Graph

variable {g h : Graph} {i : Nat} {n : Node}

theorem nodup_eraseDups {α : Type} [BEq α] [LawfulBEq α] : ∀ xs : List α, xs.eraseDups.Nodup
  | [] => List.Pairwise.nil
  | x :: xs => by
    rw [List.eraseDups_cons, List.nodup_cons, List.mem_eraseDups]
    exact ⟨by simp, nodup_eraseDups _⟩
termination_by xs => xs.length
decreasing_by exact Nat.lt_succ_of_le (List.length_filter_le _ _)

theorem mem_descending {positions : List Nat} : i ∈ descending positions ↔ i ∈ positions := by
  rw [descending, List.mem_mergeSort, List.mem_eraseDups]

theorem pairwise_descending (positions : List Nat) :
    (descending positions).Pairwise (· > ·) := by
  let above (a b : Nat) : Bool := decide (b ≤ a)
  have hsort : (positions.eraseDups.mergeSort above).Pairwise fun a b => above a b := by
    apply List.pairwise_mergeSort
    · intro a b c hab hbc
      exact decide_eq_true (Nat.le_trans (of_decide_eq_true hbc) (of_decide_eq_true hab))
    · intro a b
      simp only [above, Bool.or_eq_true, decide_eq_true_eq]
      exact Nat.le_total b a
  have hnodup : (positions.eraseDups.mergeSort above).Nodup :=
    (List.mergeSort_perm _ _).symm.nodup (nodup_eraseDups positions)
  apply (hsort.and hnodup).imp
  rintro a b ⟨hab, hne⟩
  have hle : b ≤ a := of_decide_eq_true hab
  omega

theorem Indexed.withEdges (hg : g.Indexed) {edges : Array Edge}
    (h : ∀ e ∈ edges.toList, e ∈ g.edges.toList) : { g with edges := edges }.Indexed :=
  ⟨hg.index, fun e he => hg.source e (h e he), fun e he => hg.target e (h e he)⟩

def remaining (g : Graph) (i : Nat) : Array Edge :=
  (g.outgoing i).foldl swapRemove g.edges

theorem remaining_perm (g : Graph) (i : Nat) :
    (g.remaining i).toList.Perm (g.edges.toList.filter fun e => !(e.source == i)) :=
  swapRemove_all_perm (fun e : Edge => e.source == i) g.edges

theorem mem_remaining {e : Edge} :
    e ∈ (g.remaining i).toList ↔ e ∈ g.edges.toList ∧ e.source ≠ i := by
  rw [(g.remaining_perm i).mem_iff, List.mem_filter]
  simp

theorem mem_targets_outgoing {t : Nat} :
    t ∈ ((g.outgoing i).filterMap fun p => g.edges[p]?.map (·.target)) ↔
      ∃ e ∈ g.edges.toList, e.source = i ∧ e.target = t := by
  simp only [outgoing, List.mem_filterMap, List.mem_filter, List.mem_reverse, List.mem_range,
    Option.map_eq_some_iff, Option.any_eq_true, beq_iff_eq]
  constructor
  · rintro ⟨p, ⟨-, e, he, hs⟩, e', he', ht⟩
    rw [he] at he'
    rw [← Option.some.inj he'] at ht
    exact ⟨e, Array.mem_toList_iff.mpr (Array.mem_of_getElem? he), hs, ht⟩
  · rintro ⟨e, he, hs, ht⟩
    obtain ⟨p, hp⟩ := Array.mem_iff_getElem?.mp (Array.mem_toList_iff.mp he)
    exact ⟨p, ⟨(Array.getElem?_eq_some_iff.mp hp).1, e, hp, hs⟩, e, hp, ht⟩

/-- The graph when the edges of a unit are gone and the placeholders it leaves behind are not. -/
def withoutOutgoing (g : Graph) (i : Nat) : Graph :=
  { g with edges := g.remaining i }

/-- A placeholder that is abandoned once the edges of a unit are gone was among their targets. -/
theorem WellFormed.target_of_abandoned (hg : g.WellFormed) {t : Nat}
    (ha : (g.withoutOutgoing i).isAbandoned t = true) :
    ∃ e ∈ g.edges.toList, e.source = i ∧ e.target = t := by
  obtain ⟨hp, hnone⟩ := isAbandoned_iff.mp ha
  obtain ⟨e, he, ht⟩ := hg.exists_edge hp
  refine ⟨e, he, Classical.byContradiction fun hs => ?_, ht⟩
  exact hnone e (mem_remaining.mpr ⟨he, hs⟩) ht

def abandonedTargets (g : Graph) (i : Nat) : List Nat :=
  descending (((g.outgoing i).filterMap fun p => g.edges[p]?.map (·.target)).filter
    (g.withoutOutgoing i).isAbandoned)

theorem clearOutgoing_eq (g : Graph) (i : Nat) :
    g.clearOutgoing i = (g.abandonedTargets i).foldl removePlaceholder (g.withoutOutgoing i) :=
  rfl

theorem Indexed.withoutOutgoing (hg : g.Indexed) (i : Nat) : (g.withoutOutgoing i).Indexed :=
  hg.withEdges fun _ he => (mem_remaining.mp he).1

theorem WellFormed.mem_abandonedTargets (hg : g.WellFormed) {t : Nat} :
    t ∈ g.abandonedTargets i ↔ (g.withoutOutgoing i).isAbandoned t = true := by
  rw [abandonedTargets, mem_descending, List.mem_filter, mem_targets_outgoing]
  exact ⟨fun h => h.2, fun h => ⟨hg.target_of_abandoned h, h⟩⟩

theorem WellFormed.clearOutgoing (hg : g.WellFormed) (hn : g.nodes[i]? = some n) :
    (g.clearOutgoing i).WellFormed ∧ (∀ x, (g.clearOutgoing i).unit? x = g.unit? x) ∧
      (g.clearOutgoing i).ledger.Perm
        (g.ledger.filter fun p => !(p.1.source == n.identifier)) ∧
      (g.clearOutgoing i).declared = g.declared := by
  obtain ⟨hwell, hunit, hledger, hdeclared⟩ := foldl_removePlaceholder _
    (hg.toIndexed.withoutOutgoing i) (pairwise_descending _) fun _ => hg.mem_abandonedTargets
  refine ⟨hwell, hunit, ?_, hdeclared⟩
  have hkept := (g.remaining_perm i).map fun e => (g.shown e, e.serial)
  rw [← hg.toIndexed.filter_ledger hn not] at hkept
  exact hledger ▸ hkept

theorem getElem?_setUnit (g : Graph) (i : Nat) (r : Registration) (j : Nat) :
    (g.setUnit i r).nodes[j]? =
      if i = j then g.nodes[j]?.map fun m => { m with unit := some r } else g.nodes[j]? :=
  Array.getElem?_modify

theorem getElem?_setUnit_of_node (hn : g.nodes[i]? = some n) (r : Registration) :
    (g.setUnit i r).nodes[i]? = some ⟨n.identifier, some r⟩ := by
  rw [getElem?_setUnit, if_pos rfl, hn, Option.map_some]

theorem identifierAt_setUnit (g : Graph) (i : Nat) (r : Registration) (j : Nat) :
    (g.setUnit i r).identifierAt j = g.identifierAt j := by
  simp only [identifierAt, getElem?_setUnit]
  split
  · rw [Option.map_map]
    rfl
  · rfl

theorem ledger_setUnit (g : Graph) (i : Nat) (r : Registration) :
    (g.setUnit i r).ledger = g.ledger := by
  apply List.map_congr_left
  intro e _
  simp only [shown, identifierAt_setUnit]

theorem Indexed.setUnit (hg : g.Indexed) (r : Registration) : (g.setUnit i r).Indexed := by
  refine ⟨fun x j => ?_, fun e he => ?_, fun e he => ?_⟩
  · rw [getElem?_setUnit]
    refine (hg.index x j).trans ?_
    split
    · constructor
      · rintro ⟨m, hm, hx⟩
        exact ⟨_, Option.map_eq_some_iff.mpr ⟨m, hm, rfl⟩, hx⟩
      · rintro ⟨_, hm', hx⟩
        obtain ⟨m, hm, rfl⟩ := Option.map_eq_some_iff.mp hm'
        exact ⟨m, hm, hx⟩
    · exact Iff.rfl
  · obtain ⟨m, hm, hu⟩ := hg.source e he
    rw [getElem?_setUnit]
    split
    · exact ⟨_, Option.map_eq_some_iff.mpr ⟨m, hm, rfl⟩, rfl⟩
    · exact ⟨m, hm, hu⟩
  · obtain ⟨m, hm⟩ := hg.target e he
    rw [getElem?_setUnit]
    split
    · exact ⟨_, Option.map_eq_some_iff.mpr ⟨m, hm, rfl⟩⟩
    · exact ⟨m, hm⟩

theorem Indexed.unit?_setUnit (hg : g.Indexed) (hn : g.nodes[i]? = some n) (r : Registration)
    (x : String) :
    (g.setUnit i r).unit? x =
      if x = n.identifier then some ⟨n.identifier, r.kind, r.file⟩ else g.unit? x := by
  split
  · rename_i hx
    rw [hx]
    exact (hg.setUnit r).unit?_of_node (getElem?_setUnit_of_node hn r)
  · rename_i hx
    have hpos : (g.setUnit i r).position? x = g.position? x := rfl
    rw [unit?, unit?, hpos]
    cases hj : g.position? x with
    | none => rfl
    | some j =>
      obtain ⟨m, hm, hmx⟩ := (hg.index x j).mp hj
      have hij : i ≠ j := by
        rintro rfl
        rw [hn] at hm
        exact hx (by rw [Option.some.inj hm, hmx])
      simp only [Option.bind_some, getElem?_setUnit, if_neg hij]

theorem isAbandoned_setUnit {r : Registration} {j : Nat}
    (ha : (g.setUnit i r).isAbandoned j = true) : g.isAbandoned j = true ∧ j ≠ i := by
  obtain ⟨hp, hedges⟩ := isAbandoned_iff.mp ha
  obtain ⟨m, hm, hu⟩ := isPlaceholderAt_iff.mp hp
  rw [getElem?_setUnit] at hm
  split at hm
  · obtain ⟨m', -, rfl⟩ := Option.map_eq_some_iff.mp hm
    exact absurd hu (by simp)
  · rename_i hij
    exact ⟨isAbandoned_iff.mpr ⟨isPlaceholderAt_iff.mpr ⟨m, hm, hu⟩, hedges⟩, fun h => hij h.symm⟩

theorem Interned.setUnit {x : String} (hi : Interned g x i h) (hg : g.WellFormed)
    (r : Registration) : (h.setUnit i r).WellFormed := by
  refine ⟨hi.indexed.setUnit r, fun j => Bool.eq_false_iff.mpr fun ha => ?_⟩
  obtain ⟨hold, hne⟩ := isAbandoned_setUnit ha
  rcases hi.isAbandoned hold with ha | hj
  · rw [hg.referred] at ha
    exact absurd ha (by simp)
  · exact hne hj

/-- What registering a valid unit does, as far as a graph can tell. -/
structure Inserted (g : Graph) (u : CodeUnit) (h : Graph) : Prop where
  wellFormed : h.WellFormed
  unit? : ∀ x, h.unit? x = if x = u.identifier then some u.registered else g.unit? x
  ledger : h.ledger.Perm
    ((g.ledger.filter fun p => !(p.1.source == u.identifier)) ++ u.edges.zipIdx g.declared)
  declared : h.declared = g.declared + u.dependencies.length

theorem Inserted.declarations {u : CodeUnit} (hi : Inserted g u h) : h.declarations.Perm
    ((g.declarations.filter fun d => !(d.source == u.identifier)) ++ u.edges) := by
  have hperm := hi.ledger.map Prod.fst
  rw [List.map_append, List.zipIdx_map_fst, map_fst_ledger] at hperm
  rwa [← map_fst_ledger g, List.filter_map]

/-- A graph whose unit at `i` was just put there, without its former edges. -/
def placed (g : Graph) (u : CodeUnit) : Graph :=
  let (i, g) := g.intern u.identifier
  let placed := g.setUnit i ⟨u.kind, u.file⟩
  if g.isPlaceholderAt i then placed else placed.clearOutgoing i

theorem insert_eq (g : Graph) (u : CodeUnit) :
    g.insert u = u.dependencies.foldl
      (addDependency ((g.placed u).intern u.identifier).1) ((g.placed u).intern u.identifier).2 := by
  simp only [insert, placed]
  cases ((g.intern u.identifier).2.isPlaceholderAt (g.intern u.identifier).1) <;> rfl

theorem WellFormed.placed (hg : g.WellFormed) (u : CodeUnit) :
    (g.placed u).WellFormed ∧
      (∀ x, (g.placed u).unit? x = if x = u.identifier then some u.registered else g.unit? x) ∧
      (g.placed u).ledger.Perm
        (g.ledger.filter fun p => !(p.1.source == u.identifier)) ∧
      (g.placed u).declared = g.declared := by
  have hi := hg.toIndexed.intern u.identifier
  obtain ⟨n, hn, hx⟩ := hi.node
  let r : Registration := ⟨u.kind, u.file⟩
  let put := (g.intern u.identifier).2.setUnit (g.intern u.identifier).1 r
  have hput : put.WellFormed := hi.setUnit hg r
  have hunit : ∀ x, put.unit? x =
      if x = u.identifier then some u.registered else g.unit? x := by
    intro x
    rw [hi.indexed.unit?_setUnit hn, hx, hi.unit? hg.toIndexed]
    rfl
  have hledger : put.ledger = g.ledger := by
    rw [ledger_setUnit, hi.ledger hg.toIndexed]
  have hnode := getElem?_setUnit_of_node hn r
  simp only [Graph.placed]
  split
  · rename_i hp
    refine ⟨hput, hunit, ?_, hi.declared⟩
    -- Nothing goes, as no edge starts at what was a placeholder.
    have hall : (g.ledger.filter fun p => !(p.1.source == u.identifier)) = g.ledger := by
      rw [List.filter_eq_self, ← hi.ledger hg.toIndexed]
      intro p hmem
      obtain ⟨e, he, rfl⟩ := List.mem_map.mp hmem
      have hne := hi.indexed.source_ne_of_isPlaceholderAt he hp
      rw [ne_eq, ← hi.indexed.source_eq_iff he hn, hx] at hne
      simpa using hne
    rw [hall]
    exact List.Perm.of_eq hledger
  · obtain ⟨hwell, hsame, hperm, hdeclared⟩ := hput.clearOutgoing hnode
    refine ⟨hwell, fun x => (hsame x).trans (hunit x), ?_, hdeclared.trans hi.declared⟩
    simpa only [hledger, hx] using hperm

theorem Indexed.node_of_unit? (hg : g.Indexed) {x : String} {u : RegisteredUnit}
    (h : g.unit? x = some u) :
    ∃ i, g.index[x]? = some i ∧ g.nodes[i]? = some ⟨x, some ⟨u.kind, u.file⟩⟩ := by
  obtain ⟨i, hi⟩ := List.mem_iff_getElem?.mp (hg.unit?_eq_some_iff.mp h).2
  rw [Array.getElem?_toList] at hi
  exact ⟨i, hg.index_of_node hi, hi⟩

theorem WellFormed.insert (hg : g.WellFormed) (u : CodeUnit) : Inserted g u (g.insert u) := by
  obtain ⟨hwell, hunit, hledger, hdeclared⟩ := hg.placed u
  have hplaced : (g.placed u).unit? u.identifier = some u.registered := by
    rw [hunit, if_pos rfl]
  obtain ⟨i, hindex, hnode⟩ := hwell.toIndexed.node_of_unit? hplaced
  rw [insert_eq, intern_of_index hindex]
  obtain ⟨hwell', hunit', hledger', hdeclared'⟩ :=
    WellFormed.foldl_addDependency (by rfl) u.dependencies hwell hnode
  rw [hdeclared] at hledger' hdeclared'
  refine ⟨hwell', fun x => (hunit' x).trans (hunit x), ?_, hdeclared'⟩
  rw [hledger']
  exact hledger.append_right _

end Graph

end DependencyAtlas
