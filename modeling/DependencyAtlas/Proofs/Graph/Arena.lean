import DependencyAtlas.Graph.Query

/-!
# The store in order

Positions are an implementation matter: a graph is in order when its index leads to exactly the
nodes and its edges join nodes that exist and start at registered units. What a graph says is told
without positions, by the registered unit of each identifier and by the edges as they are shown.
Interning an identifier and declaring a dependency keep a graph in order and say no more than they
should.
-/

namespace DependencyAtlas

/-- The edge that a dependency of a unit makes. -/
def Dependency.edgeFrom (source : String) (d : Dependency) : DependencyEdge where
  source := source
  target := d.target
  relationship := d.relationship
  via := d.via
  targetKind := d.kind

namespace Graph

variable {g h : Graph}

/-- The index leads from an identifier to the one node that carries it; every edge starts at a
registered unit and ends at a node. -/
structure Indexed (g : Graph) : Prop where
  index : ∀ (x : String) (i : Nat),
    g.index[x]? = some i ↔ ∃ n : Node, g.nodes[i]? = some n ∧ n.identifier = x
  source : ∀ e ∈ g.edges.toList, ∃ n : Node, g.nodes[e.source]? = some n ∧ n.unit.isSome = true
  target : ∀ e ∈ g.edges.toList, ∃ n : Node, g.nodes[e.target]? = some n

/-- Between two registrations some edge leads to every placeholder. -/
structure WellFormed (g : Graph) : Prop extends Indexed g where
  referred : ∀ i : Nat, g.isAbandoned i = false

/-- The edges by the identifiers of their ends. -/
def declarations (g : Graph) : List DependencyEdge :=
  g.edges.toList.map g.shown

/-- The edges by the identifiers of their ends, each with its serial number. -/
def ledger (g : Graph) : List (DependencyEdge × Nat) :=
  g.edges.toList.map fun e => (g.shown e, e.serial)

theorem map_fst_ledger (g : Graph) : g.ledger.map Prod.fst = g.declarations := by
  rw [ledger, List.map_map]
  rfl

theorem isPlaceholderAt_iff {i : Nat} :
    g.isPlaceholderAt i = true ↔ ∃ n : Node, g.nodes[i]? = some n ∧ n.unit = none := by
  simp only [isPlaceholderAt, Option.any_eq_true, Option.isNone_iff_eq_none]

theorem isAbandoned_iff {i : Nat} :
    g.isAbandoned i = true ↔
      g.isPlaceholderAt i = true ∧ ∀ e ∈ g.edges.toList, e.target ≠ i := by
  simp only [isAbandoned, Bool.and_eq_true, Bool.not_eq_true', Array.any_eq_false',
    Array.mem_toList_iff, ne_eq, beq_iff_eq]

theorem identifierAt_of_node {i : Nat} {n : Node} (h : g.nodes[i]? = some n) :
    g.identifierAt i = n.identifier := by
  simp only [identifierAt, h, Option.map_some, Option.getD_some]

namespace Indexed

theorem unique (hg : g.Indexed) {i j : Nat} {n m : Node} (hi : g.nodes[i]? = some n)
    (hj : g.nodes[j]? = some m) (h : n.identifier = m.identifier) : i = j := by
  have hin := (hg.index m.identifier i).mpr ⟨n, hi, h⟩
  have hjm := (hg.index m.identifier j).mpr ⟨m, hj, rfl⟩
  rw [hin] at hjm
  exact Option.some.inj hjm

theorem index_of_node (hg : g.Indexed) {i : Nat} {n : Node} (hi : g.nodes[i]? = some n) :
    g.index[n.identifier]? = some i :=
  (hg.index _ i).mpr ⟨n, hi, rfl⟩

theorem identifier_eq_iff (hg : g.Indexed) {i : Nat} {n : Node} (hi : g.nodes[i]? = some n)
    {x : String} : n.identifier = x ↔ g.index[x]? = some i := by
  constructor
  · rintro rfl
    exact hg.index_of_node hi
  · intro hx
    obtain ⟨m, hm, rfl⟩ := (hg.index x i).mp hx
    rw [hi] at hm
    rw [Option.some.inj hm]

theorem unit?_of_node (hg : g.Indexed) {i : Nat} {n : Node} (hi : g.nodes[i]? = some n) :
    g.unit? n.identifier = n.registered? := by
  simp only [unit?, position?, hg.index_of_node hi, Option.bind_some, hi]

theorem unit?_eq_some_iff (hg : g.Indexed) {x : String} {u : RegisteredUnit} :
    g.unit? x = some u ↔
      u.identifier = x ∧ (⟨x, some ⟨u.kind, u.file⟩⟩ : Node) ∈ g.nodes.toList := by
  constructor
  · intro h
    obtain ⟨i, hi, h⟩ := Option.bind_eq_some_iff.mp h
    obtain ⟨n, hn, h⟩ := Option.bind_eq_some_iff.mp h
    obtain ⟨m, hm, hx⟩ := (hg.index x i).mp hi
    rw [hn] at hm
    obtain rfl := Option.some.inj hm
    obtain ⟨r, hr, rfl⟩ := Option.map_eq_some_iff.mp h
    subst hx
    refine ⟨rfl, List.mem_iff_getElem?.mpr ⟨i, ?_⟩⟩
    rw [Array.getElem?_toList, hn]
    cases n
    simp_all
  · rintro ⟨rfl, h⟩
    obtain ⟨i, hi⟩ := List.mem_iff_getElem?.mp h
    rw [Array.getElem?_toList] at hi
    exact hg.unit?_of_node hi

theorem unit?_congr (hg : g.Indexed) (hh : h.Indexed)
    (hnodes : ∀ x r, (⟨x, some r⟩ : Node) ∈ g.nodes.toList ↔ (⟨x, some r⟩ : Node) ∈ h.nodes.toList)
    (x : String) : g.unit? x = h.unit? x := by
  apply Option.ext
  intro u
  rw [hg.unit?_eq_some_iff, hh.unit?_eq_some_iff, hnodes]

theorem source_lt (hg : g.Indexed) {e : Edge} (he : e ∈ g.edges.toList) :
    e.source < g.nodes.size := by
  obtain ⟨n, hn, _⟩ := hg.source e he
  exact (Array.getElem?_eq_some_iff.mp hn).1

theorem source_eq_iff (hg : g.Indexed) {i : Nat} {n : Node} {e : Edge} (he : e ∈ g.edges.toList)
    (hn : g.nodes[i]? = some n) : (g.shown e).source = n.identifier ↔ e.source = i := by
  obtain ⟨m, hm, -⟩ := hg.source e he
  simp only [shown, identifierAt_of_node hm]
  constructor
  · exact hg.unique hm hn
  · intro h
    rw [h, hn] at hm
    rw [Option.some.inj hm]

theorem target_eq_iff (hg : g.Indexed) {i : Nat} {n : Node} {e : Edge} (he : e ∈ g.edges.toList)
    (hn : g.nodes[i]? = some n) : (g.shown e).target = n.identifier ↔ e.target = i := by
  obtain ⟨m, hm⟩ := hg.target e he
  simp only [shown, identifierAt_of_node hm]
  constructor
  · exact hg.unique hm hn
  · intro h
    rw [h, hn] at hm
    rw [Option.some.inj hm]

theorem filter_ledger (hg : g.Indexed) {i : Nat} {n : Node} (hn : g.nodes[i]? = some n)
    (p : Bool → Bool) :
    (g.ledger.filter fun q => p (q.1.source == n.identifier)) =
      (g.edges.toList.filter fun e => p (e.source == i)).map fun e => (g.shown e, e.serial) := by
  rw [ledger, List.filter_map]
  congr 1
  apply List.filter_congr
  intro e he
  have hsource : ((g.shown e).source == n.identifier) = (e.source == i) := by
    rw [Bool.eq_iff_iff, beq_iff_eq, beq_iff_eq, hg.source_eq_iff he hn]
  rw [Function.comp_apply, hsource]

theorem source_ne_of_isPlaceholderAt (hg : g.Indexed) {i : Nat} {e : Edge}
    (he : e ∈ g.edges.toList) (hp : g.isPlaceholderAt i = true) : e.source ≠ i := by
  rintro rfl
  obtain ⟨n, hn, hu⟩ := isPlaceholderAt_iff.mp hp
  obtain ⟨m, hm, hmu⟩ := hg.source e he
  rw [hn] at hm
  rw [← Option.some.inj hm, hu] at hmu
  exact absurd hmu (by simp)

end Indexed

theorem WellFormed.exists_edge (hg : g.WellFormed) {i : Nat} (hp : g.isPlaceholderAt i = true) :
    ∃ e ∈ g.edges.toList, e.target = i := by
  apply Classical.byContradiction
  intro hnone
  have ha : g.isAbandoned i = true :=
    isAbandoned_iff.mpr ⟨hp, fun e he ht => hnone ⟨e, he, ht⟩⟩
  rw [hg.referred] at ha
  exact absurd ha (by simp)

/-- `h` has the nodes of `g` where they are in `g`, and perhaps more. -/
def Extends (g h : Graph) : Prop :=
  ∀ (i : Nat) (n : Node), g.nodes[i]? = some n → h.nodes[i]? = some n

theorem Extends.shown (hext : g.Extends h) (hg : g.Indexed) {e : Edge}
    (he : e ∈ g.edges.toList) : h.shown e = g.shown e := by
  obtain ⟨n, hn, _⟩ := hg.source e he
  obtain ⟨m, hm⟩ := hg.target e he
  simp only [Graph.shown, identifierAt_of_node hn, identifierAt_of_node hm,
    identifierAt_of_node (hext _ _ hn), identifierAt_of_node (hext _ _ hm)]

theorem Extends.ledger (hext : g.Extends h) (hg : g.Indexed) (hedges : h.edges = g.edges) :
    h.ledger = g.ledger := by
  simp only [Graph.ledger, hedges]
  exact List.map_congr_left fun e he => by rw [hext.shown hg he]

/-- What interning an identifier does: its node is at `i`, and either it was there or it is a new
placeholder at the end. -/
structure Interned (g : Graph) (x : String) (i : Nat) (h : Graph) : Prop where
  indexed : h.Indexed
  node : ∃ n : Node, h.nodes[i]? = some n ∧ n.identifier = x
  extends_ : g.Extends h
  edges : h.edges = g.edges
  declared : h.declared = g.declared
  new : ∀ (j : Nat) (n : Node), h.nodes[j]? = some n → g.nodes[j]? = some n ∨ j = i ∧ n = ⟨x, none⟩

theorem intern_of_index {x : String} {i : Nat} (hx : g.index[x]? = some i) :
    g.intern x = (i, g) := by
  simp only [intern, hx]

theorem intern_of_unknown {x : String} (hx : g.index[x]? = none) :
    g.intern x = (g.nodes.size, { g with
      nodes := g.nodes.push ⟨x, none⟩
      index := g.index.insert x g.nodes.size }) := by
  simp only [intern, hx]

theorem getElem?_push_eq_some_iff {α : Type} {xs : Array α} {a b : α} {i : Nat} :
    (xs.push a)[i]? = some b ↔ xs[i]? = some b ∨ i = xs.size ∧ b = a := by
  rw [Array.getElem?_push]
  split
  · rename_i hi
    rw [hi, Array.getElem?_eq_none (Nat.le_refl _)]
    simp [eq_comm]
  · rename_i hi
    simp [hi]

theorem Indexed.index_insert (hg : g.Indexed) {x : String} (hx : g.index[x]? = none) (y : String)
    (i : Nat) :
    (g.index.insert x g.nodes.size)[y]? = some i ↔
      ∃ n : Node, (g.nodes.push ⟨x, none⟩)[i]? = some n ∧ n.identifier = y := by
  simp only [Std.HashMap.getElem?_insert, getElem?_push_eq_some_iff]
  by_cases hy : x = y
  · subst hy
    rw [if_pos (by simp)]
    constructor
    · intro h
      exact ⟨⟨x, none⟩, Or.inr ⟨(Option.some.inj h).symm, rfl⟩, rfl⟩
    · rintro ⟨n, hold | ⟨rfl, -⟩, hnx⟩
      · have hknown := (hg.index x i).mpr ⟨n, hold, hnx⟩
        rw [hx] at hknown
        exact absurd hknown (by simp)
      · rfl
  · rw [if_neg (by simpa using hy), hg.index]
    constructor
    · rintro ⟨n, hn, hny⟩
      exact ⟨n, Or.inl hn, hny⟩
    · rintro ⟨n, hold | ⟨-, rfl⟩, hny⟩
      · exact ⟨n, hold, hny⟩
      · exact absurd hny hy

theorem Indexed.intern (hg : g.Indexed) (x : String) :
    Interned g x (g.intern x).1 (g.intern x).2 := by
  cases hx : g.index[x]? with
  | some i =>
    rw [intern_of_index hx]
    exact ⟨hg, (hg.index x i).mp hx, fun _ _ h => h, rfl, rfl, fun _ _ h => Or.inl h⟩
  | none =>
    rw [intern_of_unknown hx]
    have hext : ∀ (i : Nat) (n : Node), g.nodes[i]? = some n →
        (g.nodes.push ⟨x, none⟩)[i]? = some n :=
      fun _ _ hi => getElem?_push_eq_some_iff.mpr (Or.inl hi)
    refine ⟨⟨hg.index_insert hx, ?_, ?_⟩, ⟨⟨x, none⟩, by simp, rfl⟩, hext, rfl, rfl,
      fun _ _ => getElem?_push_eq_some_iff.mp⟩
    · intro e he
      obtain ⟨n, hn, hu⟩ := hg.source e he
      exact ⟨n, hext _ n hn, hu⟩
    · intro e he
      obtain ⟨n, hn⟩ := hg.target e he
      exact ⟨n, hext _ n hn⟩

namespace Interned

variable {x : String} {i : Nat}

theorem unit? (hi : Interned g x i h) (hg : g.Indexed) (y : String) : h.unit? y = g.unit? y := by
  apply hi.indexed.unit?_congr hg
  intro z r
  simp only [List.mem_iff_getElem?, Array.getElem?_toList]
  constructor
  · rintro ⟨j, hj⟩
    rcases hi.new j _ hj with hold | ⟨-, hn⟩
    · exact ⟨j, hold⟩
    · exact absurd hn (by simp)
  · rintro ⟨j, hj⟩
    exact ⟨j, hi.extends_ j _ hj⟩

theorem ledger (hi : Interned g x i h) (hg : g.Indexed) : h.ledger = g.ledger :=
  hi.extends_.ledger hg hi.edges

theorem isAbandoned (hi : Interned g x i h) {j : Nat} (hj : h.isAbandoned j = true) :
    g.isAbandoned j = true ∨ j = i := by
  obtain ⟨hp, hedges⟩ := isAbandoned_iff.mp hj
  obtain ⟨n, hn, hu⟩ := isPlaceholderAt_iff.mp hp
  rw [hi.edges] at hedges
  rcases hi.new j n hn with hold | ⟨hji, -⟩
  · exact Or.inl (isAbandoned_iff.mpr ⟨isPlaceholderAt_iff.mpr ⟨n, hold, hu⟩, hedges⟩)
  · exact Or.inr hji

end Interned

section Declaring

variable {source : Nat} {n : Node}

theorem edges_addDependency (g : Graph) (source : Nat) (d : Dependency) :
    (addDependency source g d).edges = (g.intern d.target).2.edges.push
      ⟨source, (g.intern d.target).1, d.relationship, d.via, d.kind,
        (g.intern d.target).2.declared⟩ :=
  rfl

theorem extends_addDependency (hg : g.Indexed) (source : Nat) (d : Dependency) :
    g.Extends (addDependency source g d) :=
  (hg.intern d.target).extends_

theorem unit?_addDependency (hg : g.Indexed) (source : Nat) (d : Dependency) (x : String) :
    (addDependency source g d).unit? x = g.unit? x :=
  (hg.intern d.target).unit? hg x

theorem declared_addDependency (hg : g.Indexed) (source : Nat) (d : Dependency) :
    (addDependency source g d).declared = g.declared + 1 :=
  congrArg (· + 1) (hg.intern d.target).declared

theorem ledger_addDependency (hg : g.Indexed) (hs : g.nodes[source]? = some n) (d : Dependency) :
    (addDependency source g d).ledger = g.ledger ++ [(d.edgeFrom n.identifier, g.declared)] := by
  have hi := hg.intern d.target
  obtain ⟨m, hm, hx⟩ := hi.node
  have hsource : (addDependency source g d).identifierAt source = n.identifier :=
    identifierAt_of_node (hi.extends_ _ _ hs)
  have htarget : (addDependency source g d).identifierAt (g.intern d.target).1 = m.identifier :=
    identifierAt_of_node hm
  have hnew : (addDependency source g d).shown ⟨source, (g.intern d.target).1, d.relationship,
      d.via, d.kind, (g.intern d.target).2.declared⟩ = d.edgeFrom n.identifier := by
    simp only [shown, Dependency.edgeFrom, hsource, htarget, hx]
  rw [← hi.ledger hg, ← hi.declared]
  simp only [ledger, edges_addDependency, Array.toList_push, List.map_append, List.map_cons,
    List.map_nil, hnew]
  rfl

theorem WellFormed.addDependency (hg : g.WellFormed) (hs : g.nodes[source]? = some n)
    (hn : n.unit.isSome = true) (d : Dependency) : (addDependency source g d).WellFormed := by
  have hi := hg.toIndexed.intern d.target
  have hmem : ∀ e ∈ (Graph.addDependency source g d).edges.toList,
      e ∈ g.edges.toList ∨ e.source = source ∧ e.target = (g.intern d.target).1 := by
    intro e he
    simp only [edges_addDependency, hi.edges, Array.toList_push, List.mem_append,
      List.mem_singleton] at he
    rcases he with he | rfl
    · exact Or.inl he
    · exact Or.inr ⟨rfl, rfl⟩
  refine ⟨⟨hi.indexed.index, ?_, ?_⟩, ?_⟩
  · intro e he
    rcases hmem e he with hold | ⟨rfl, -⟩
    · obtain ⟨m, hm, hu⟩ := hg.source e hold
      exact ⟨m, hi.extends_ _ _ hm, hu⟩
    · exact ⟨n, hi.extends_ _ _ hs, hn⟩
  · intro e he
    rcases hmem e he with hold | ⟨-, htarget⟩
    · obtain ⟨m, hm⟩ := hg.target e hold
      exact ⟨m, hi.extends_ _ _ hm⟩
    · obtain ⟨m, hm, -⟩ := hi.node
      exact ⟨m, htarget ▸ hm⟩
  · intro i
    apply Bool.eq_false_iff.mpr
    intro ha
    obtain ⟨hp, hedges⟩ := isAbandoned_iff.mp ha
    simp only [edges_addDependency, Array.toList_push, List.mem_append, List.mem_singleton] at hedges
    have hold : (g.intern d.target).2.isAbandoned i = true :=
      isAbandoned_iff.mpr ⟨hp, fun e he => hedges e (Or.inl he)⟩
    rcases hi.isAbandoned hold with ha | rfl
    · rw [hg.referred] at ha
      exact absurd ha (by simp)
    · exact hedges _ (Or.inr rfl) rfl

/-- Declaring the dependencies of a registered unit adds their edges, numbered on from the last
declaration, and nothing else. -/
theorem WellFormed.foldl_addDependency {n : Node} (hn : n.unit.isSome = true)
    (ds : List Dependency) :
    ∀ {g : Graph}, g.WellFormed → g.nodes[source]? = some n →
      (ds.foldl (Graph.addDependency source) g).WellFormed ∧
      (∀ x, (ds.foldl (Graph.addDependency source) g).unit? x = g.unit? x) ∧
      (ds.foldl (Graph.addDependency source) g).ledger =
        g.ledger ++ (ds.map (Dependency.edgeFrom n.identifier)).zipIdx g.declared ∧
      (ds.foldl (Graph.addDependency source) g).declared = g.declared + ds.length := by
  induction ds with
  | nil => exact fun hg _ => ⟨hg, fun _ => rfl, by simp, rfl⟩
  | cons d ds ih =>
    intro g hg hs
    obtain ⟨hwell, hunit, hledger, hdeclared⟩ :=
      ih (hg.addDependency hs hn d) (extends_addDependency hg.toIndexed source d _ _ hs)
    rw [declared_addDependency hg.toIndexed] at hledger hdeclared
    refine ⟨hwell, fun x => ?_, ?_, ?_⟩
    · exact (hunit x).trans (unit?_addDependency hg.toIndexed source d x)
    · rw [List.foldl_cons, hledger, ledger_addDependency hg.toIndexed hs, List.append_assoc]
      rfl
    · rw [List.foldl_cons, hdeclared, List.length_cons, Nat.add_assoc, Nat.add_comm 1]

end Declaring

end Graph

end DependencyAtlas
