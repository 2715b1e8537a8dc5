import DependencyAtlas.Graph.Snapshot
import DependencyAtlas.Proofs.Graph.Contents
import DependencyAtlas.Proofs.Graph.History
import DependencyAtlas.Proofs.Graph.LastUnits
import Mathlib.Data.List.TakeWhile

/-!
# Import of snapshots

A snapshot is imported exactly when every edge starts at one of its nodes and neither an identifier
nor a target is blank. The graph then exports the same nodes, the edges in order and the hash of
both. Otherwise the first edge from an unknown unit is reported, or the smallest unit at fault.
-/

namespace DependencyAtlas

namespace NodeMap

theorem contains_iff {m : NodeMap} {x : String} :
    m.contains x = true ↔ ∃ p ∈ m.entries, p.1 = x := by
  simp only [contains, List.any_eq_true, beq_iff_eq]

end NodeMap

namespace Snapshot

/-- The unit of every node, in ascending order of the identifiers. -/
def units (s : Snapshot) : List CodeUnit :=
  s.nodes.entries.map (unitOf s.edges)

/-- Every edge starts at a node of the snapshot. -/
def SourcesKnown (s : Snapshot) : Prop :=
  ∀ e ∈ s.edges, s.nodes.contains e.source = true

variable {s : Snapshot} {edges : List DependencyEdge}

theorem find?_unknown_eq_none_iff :
    (s.edges.find? fun e => !s.nodes.contains e.source) = none ↔ s.SourcesKnown := by
  rw [List.find?_eq_none]
  simp only [Bool.not_eq_true', Bool.not_eq_false, SourcesKnown]

theorem pairwise_units (s : Snapshot) :
    s.units.Pairwise fun u v => u.identifier < v.identifier := by
  rw [units, List.pairwise_map]
  exact s.nodes.ascending

theorem edges_unitOf (edges : List DependencyEdge) (p : String × Registration) :
    (unitOf edges p).edges = edges.filter fun e => e.source == p.1 := by
  have hedge : ∀ e ∈ edges.filter fun e => e.source == p.1,
      (dependencyOf e).edgeFrom p.1 = e := by
    intro e he
    have hsource : e.source = p.1 := by simpa using (List.mem_filter.mp he).2
    rw [← hsource]
    rfl
  rw [CodeUnit.edges, unitOf, List.map_map]
  exact (List.map_congr_left hedge).trans (List.map_id _)

/-- Edges that are collected by source are the same edges, each as often as before. -/
theorem flatMap_filter_source_perm {keys : List String} (hk : keys.Nodup) :
    ∀ {edges : List DependencyEdge}, (∀ e ∈ edges, e.source ∈ keys) →
      (keys.flatMap fun x => edges.filter fun e => e.source == x).Perm edges := by
  induction keys with
  | nil =>
    intro edges h
    rw [List.eq_nil_iff_forall_not_mem.mpr fun e he => absurd (h e he) (by simp)]
    exact List.Perm.refl _
  | cons k keys ih =>
    intro edges h
    obtain ⟨hk, hkeys⟩ := List.nodup_cons.mp hk
    let others := edges.filter fun e => !(e.source == k)
    have hothers : ∀ e ∈ others, e.source ∈ keys := by
      intro e he
      obtain ⟨he, hne⟩ := List.mem_filter.mp he
      rcases List.mem_cons.mp (h e he) with heq | hmem
      · simp [heq] at hne
      · exact hmem
    have hsame : (keys.flatMap fun x => edges.filter fun e => e.source == x) =
        keys.flatMap fun x => others.filter fun e => e.source == x := by
      rw [List.flatMap_def, List.flatMap_def]
      congr 1
      apply List.map_congr_left
      intro x hx
      rw [List.filter_filter]
      apply List.filter_congr
      intro e _
      by_cases hex : e.source = x
      · have hxk : x ≠ k := fun he => hk (he ▸ hx)
        simp [hex, hxk]
      · simp [hex]
    rw [List.flatMap_cons, hsame]
    exact ((ih hkeys hothers).append_left _).trans (List.filter_append_perm _ edges)

theorem flatMap_edges_units (hs : s.SourcesKnown) :
    (s.units.flatMap CodeUnit.edges).Perm s.edges := by
  have hkeys : (s.nodes.entries.map Prod.fst).Nodup :=
    Text.nodup_of_ascending Prod.fst s.nodes.ascending
  have hsources : ∀ e ∈ s.edges, e.source ∈ s.nodes.entries.map Prod.fst := by
    intro e he
    exact List.mem_map.mpr (NodeMap.contains_iff.mp (hs e he))
  have hunits : s.units.flatMap CodeUnit.edges =
      (s.nodes.entries.map Prod.fst).flatMap fun x => s.edges.filter fun e => e.source == x := by
    rw [units, List.flatMap_map, List.flatMap_map]
    simp only [edges_unitOf]
  rw [hunits]
  exact flatMap_filter_source_perm hkeys hsources

structure Acceptable (s : Snapshot) : Prop where
  source : s.SourcesKnown
  identifier : ∀ p ∈ s.nodes.entries, Text.trim p.1 ≠ ""
  target : ∀ e ∈ s.edges, Text.trim e.target ≠ ""

/-- What is exported after an import: the edges in order and the hash of what is there. -/
def normalized (s : Snapshot) : Snapshot :=
  ⟨s.nodes, DependencyEdge.sorted s.edges, hashOf s.nodes s.edges⟩

theorem isValid_unitOf_iff {p : String × Registration} :
    (unitOf s.edges p).isValid = true ↔
      Text.trim p.1 ≠ "" ∧ ∀ e ∈ s.edges, e.source = p.1 → Text.trim e.target ≠ "" := by
  rw [CodeUnit.isValid_iff]
  apply and_congr_right
  intro _
  simp only [unitOf, List.forall_mem_map, List.mem_filter, beq_iff_eq, and_imp, dependencyOf]

theorem acceptable_iff :
    s.Acceptable ↔ s.SourcesKnown ∧ ∀ u ∈ s.units, u.isValid = true := by
  simp only [units, List.forall_mem_map, isValid_unitOf_iff]
  constructor
  · intro h
    exact ⟨h.source, fun p hp => ⟨h.identifier p hp, fun e he _ => h.target e he⟩⟩
  · rintro ⟨hs, h⟩
    refine ⟨hs, fun p hp => (h p hp).1, fun e he => ?_⟩
    obtain ⟨p, hp, hx⟩ := NodeMap.contains_iff.mp (hs e he)
    exact (h p hp).2 e he hx.symm

theorem hashOf_congr (nodes : NodeMap) {edges edges' : List DependencyEdge}
    (h : edges.Perm edges') : hashOf nodes edges = hashOf nodes edges' := by
  rw [hashOf, hashOf, hashInput, hashInput, DependencyEdge.byFields_eq_sorted,
    DependencyEdge.byFields_eq_sorted, DependencyEdge.sorted_congr h]

theorem verifyHash_iff : s.verifyHash = true ↔ s.contentHash = s.normalized.contentHash := by
  rw [verifyHash, beq_iff_eq]
  exact eq_comm

theorem normalized_normalized (s : Snapshot) : s.normalized.normalized = s.normalized := by
  simp only [normalized, DependencyEdge.sorted_sorted,
    hashOf_congr s.nodes (DependencyEdge.sorted_perm s.edges)]

theorem normalized_congr {s t : Snapshot} (hn : s.nodes = t.nodes) (he : s.edges.Perm t.edges) :
    s.normalized = t.normalized := by
  simp only [normalized, hn, DependencyEdge.sorted_congr he, hashOf_congr t.nodes he]

theorem Acceptable.congr {t : Snapshot} (hs : s.Acceptable) (hn : s.nodes = t.nodes)
    (he : s.edges.Perm t.edges) : t.Acceptable := by
  refine ⟨fun e h => ?_, fun p hp => ?_, fun e h => ?_⟩
  · rw [← hn]
    exact hs.source e (he.mem_iff.mpr h)
  · exact hs.identifier p (hn ▸ hp)
  · exact hs.target e (he.mem_iff.mpr h)

theorem Acceptable.normalized (hs : s.Acceptable) : s.normalized.Acceptable :=
  hs.congr rfl (DependencyEdge.sorted_perm s.edges).symm

/-- A node whose identifier is blank or one of whose edges has a blank target. -/
def AtFault (s : Snapshot) (x : String) : Prop :=
  s.nodes.contains x = true ∧
    (Text.trim x = "" ∨ ∃ e ∈ s.edges, e.source = x ∧ Text.trim e.target = "")

def FirstAtFault (s : Snapshot) (x : String) : Prop :=
  s.AtFault x ∧ ∀ y, s.AtFault y → x ≤ y

/-- Why a snapshot is refused. Edges from unknown units go before units at fault, and a blank
identifier goes before blank targets. -/
inductive Refused (s : Snapshot) : GraphError → Prop where
  | unknownSource {before after : List DependencyEdge} {e : DependencyEdge} :
      s.edges = before ++ e :: after → (∀ d ∈ before, s.nodes.contains d.source = true) →
        s.nodes.contains e.source = false → Refused s (.unknownSource e.source)
  | blankIdentifier {x : String} :
      s.SourcesKnown → s.FirstAtFault x → Text.trim x = "" →
        Refused s (.invalidUnit x .blankIdentifier)
  /-- The position counts the edges of the node in their order in the snapshot. -/
  | blankTarget {x : String} {before after : List DependencyEdge} {e : DependencyEdge} :
      s.SourcesKnown → s.FirstAtFault x → Text.trim x ≠ "" →
        (s.edges.filter fun d => d.source == x) = before ++ e :: after →
          (∀ d ∈ before, Text.trim d.target ≠ "") → Text.trim e.target = "" →
            Refused s (.invalidUnit x (.blankTarget before.length))

theorem fault?_unitOf_eq_some_iff {p : String × Registration} {err : GraphError} :
    (unitOf edges p).fault? = some err ↔
      Text.trim p.1 = "" ∧ err = .invalidUnit p.1 .blankIdentifier ∨
        Text.trim p.1 ≠ "" ∧ ∃ before e after,
          (edges.filter fun d => d.source == p.1) = before ++ e :: after ∧
            (∀ d ∈ before, Text.trim d.target ≠ "") ∧ Text.trim e.target = "" ∧
              err = .invalidUnit p.1 (.blankTarget before.length) := by
  rw [CodeUnit.fault?_eq_some_iff]
  apply or_congr_right
  apply and_congr_right
  intro _
  constructor
  · rintro ⟨_, _, _, hdeps, hbefore, he, herr⟩
    obtain ⟨before, rest, hsplit, rfl, hrest⟩ := List.map_eq_append_iff.mp hdeps
    obtain ⟨e, after, rfl, rfl, rfl⟩ := List.map_eq_cons_iff.mp hrest
    rw [List.length_map] at herr
    refine ⟨before, e, after, hsplit, fun d hd => ?_, he, herr⟩
    exact hbefore (dependencyOf d) (List.mem_map_of_mem hd)
  · rintro ⟨before, e, after, hsplit, hbefore, he, rfl⟩
    refine ⟨before.map dependencyOf, dependencyOf e, after.map dependencyOf, ?_, ?_, he, ?_⟩
    · rw [unitOf, hsplit, List.map_append, List.map_cons]
    · intro p hp
      obtain ⟨d, hd, rfl⟩ := List.mem_map.mp hp
      exact hbefore d hd
    · rw [List.length_map]
      rfl

theorem atFault_iff {p : String × Registration} (hp : p ∈ s.nodes.entries) :
    s.AtFault p.1 ↔ (unitOf s.edges p).fault? ≠ none := by
  have hvalid := isValid_unitOf_iff (s := s) (p := p)
  rw [ne_eq, ← CodeUnit.isValid_eq_true_iff_fault?, hvalid, AtFault,
    NodeMap.contains_iff.mpr ⟨p, hp, rfl⟩]
  by_cases hx : Text.trim p.1 = ""
  · simp [hx]
  · simp [hx]

theorem findSome?_fault?_eq_some_iff {err : GraphError} :
    s.units.findSome? CodeUnit.fault? = some err ↔
      ∃ p ∈ s.nodes.entries, s.FirstAtFault p.1 ∧ (unitOf s.edges p).fault? = some err := by
  rw [Text.findSome?_eq_some_iff_of_ascending CodeUnit.identifier (pairwise_units s)]
  constructor
  · rintro ⟨u, hu, hf, hleast⟩
    obtain ⟨p, hp, rfl⟩ := List.mem_map.mp hu
    refine ⟨p, hp, ⟨(atFault_iff hp).mpr (by simp [hf]), fun y hy => ?_⟩, hf⟩
    obtain ⟨q, hq, rfl⟩ := NodeMap.contains_iff.mp hy.1
    exact hleast _ (List.mem_map_of_mem hq) ((atFault_iff hq).mp hy)
  · rintro ⟨p, hp, ⟨-, hleast⟩, hf⟩
    refine ⟨_, List.mem_map_of_mem hp, hf, fun v hv hne => ?_⟩
    obtain ⟨q, hq, rfl⟩ := List.mem_map.mp hv
    exact hleast q.1 ((atFault_iff hq).mpr hne)

end Snapshot

namespace Graph

variable {s : Snapshot} {g h : Graph}

theorem ofSnapshot_of_unknown {e : DependencyEdge}
    (he : (s.edges.find? fun e => !s.nodes.contains e.source) = some e) :
    ofSnapshot s = .error (.unknownSource e.source) := by
  rw [ofSnapshot, Snapshot.toUnits, he]

theorem ofSnapshot_of_toUnits {us : List CodeUnit} (hs : s.toUnits = .ok us) :
    ofSnapshot s =
      match us.findSome? CodeUnit.fault? with
      | none => .ok (us.foldl insert .empty)
      | some e => .error e := by
  rw [ofSnapshot, hs]
  cases hf : us.findSome? CodeUnit.fault? with
  | none => simp only [registerAll_of_isValid (CodeUnit.findSome?_fault?_eq_none_iff.mp hf)]
  | some e =>
    have hresult := snd_registerAll us .empty
    rcases hr : registerAll .empty us with ⟨g, r⟩
    rw [hr, hf] at hresult
    obtain rfl : r = .error e := hresult
    simp only [hr]

theorem ofSnapshot_of_known (hs : s.SourcesKnown) :
    ofSnapshot s =
      match s.units.findSome? CodeUnit.fault? with
      | none => .ok (s.units.foldl insert .empty)
      | some e => .error e := by
  apply ofSnapshot_of_toUnits
  rw [Snapshot.toUnits, Snapshot.find?_unknown_eq_none_iff.mpr hs]
  rfl

theorem ofSnapshot_eq_ok_iff :
    ofSnapshot s = .ok h ↔ s.Acceptable ∧ h = s.units.foldl insert .empty := by
  rw [Snapshot.acceptable_iff]
  constructor
  · intro hok
    have hs : s.SourcesKnown := by
      cases hu : s.edges.find? fun e => !s.nodes.contains e.source with
      | none => exact Snapshot.find?_unknown_eq_none_iff.mp hu
      | some e =>
        rw [ofSnapshot_of_unknown hu] at hok
        exact absurd hok (by simp)
    rw [ofSnapshot_of_known hs] at hok
    cases hf : s.units.findSome? CodeUnit.fault? with
    | some e => simp [hf] at hok
    | none =>
      rw [hf] at hok
      exact ⟨⟨hs, CodeUnit.findSome?_fault?_eq_none_iff.mp hf⟩, (Except.ok.inj hok).symm⟩
  · rintro ⟨⟨hs, hvalid⟩, rfl⟩
    rw [ofSnapshot_of_known hs, CodeUnit.findSome?_fault?_eq_none_iff.mpr hvalid]

theorem ofSnapshot_of_acceptable (hs : s.Acceptable) :
    ofSnapshot s = .ok (s.units.foldl insert .empty) :=
  ofSnapshot_eq_ok_iff.mpr ⟨hs, rfl⟩

theorem represents_of_ofSnapshot (hs : ofSnapshot s = .ok h) : h.Represents s.units := by
  rw [(ofSnapshot_eq_ok_iff.mp hs).2]
  exact represents_foldl_insert s.units

theorem declarations_of_ofSnapshot (hs : ofSnapshot s = .ok h) : h.declarations.Perm s.edges := by
  have hd := (represents_of_ofSnapshot hs).declarations
  rw [lastUnits_of_pairwise (Snapshot.pairwise_units s)] at hd
  exact hd.trans (Snapshot.flatMap_edges_units (ofSnapshot_eq_ok_iff.mp hs).1.source)

theorem nodeMap_of_ofSnapshot (hs : ofSnapshot s = .ok h) : h.nodeMap = s.nodes := by
  apply NodeMap.ext
  have hunits := (represents_of_ofSnapshot hs).units_eq
  rw [lastUnits_of_pairwise (Snapshot.pairwise_units s)] at hunits
  have hentries : (h.units.map fun u => (u.identifier, (⟨u.kind, u.file⟩ : Registration))) =
      s.nodes.entries := by
    rw [hunits, Snapshot.units, List.map_map, List.map_map]
    exact List.map_id _
  rw [nodeMap, NodeMap.ofList, hentries]
  exact Text.byKey_of_pairwise s.nodes.ascending

theorem toSnapshot_of_ofSnapshot (hs : ofSnapshot s = .ok h) : h.toSnapshot = s.normalized := by
  have hperm := declarations_of_ofSnapshot hs
  rw [toSnapshot, nodeMap_of_ofSnapshot hs, allEdges_eq, DependencyEdge.sorted_congr hperm,
    Snapshot.normalized, Snapshot.hashOf_congr s.nodes (DependencyEdge.sorted_perm s.edges)]

theorem refused_of_unknown {e : DependencyEdge}
    (hu : (s.edges.find? fun e => !s.nodes.contains e.source) = some e) {err : GraphError} :
    s.Refused err ↔ err = .unknownSource e.source := by
  have hunknown : ¬ s.SourcesKnown := by
    rw [← Snapshot.find?_unknown_eq_none_iff, hu]
    simp
  constructor
  · intro hr
    cases hr with
    | unknownSource hsplit hbefore hd =>
      have hfirst : (s.edges.find? fun e => !s.nodes.contains e.source) = some _ :=
        List.find?_eq_some_iff_append.mpr
          ⟨by simpa using hd, _, _, hsplit, fun d hmem => by simpa using hbefore d hmem⟩
      rw [hu] at hfirst
      rw [Option.some.inj hfirst]
    | blankIdentifier hs => exact absurd hs hunknown
    | blankTarget hs => exact absurd hs hunknown
  · rintro rfl
    obtain ⟨he, before, after, hsplit, hbefore⟩ := List.find?_eq_some_iff_append.mp hu
    refine .unknownSource hsplit (fun d hd => ?_) (by simpa using he)
    simpa using hbefore d hd

theorem refused_of_known (hs : s.SourcesKnown) {err : GraphError} :
    s.Refused err ↔ s.units.findSome? CodeUnit.fault? = some err := by
  simp only [Snapshot.findSome?_fault?_eq_some_iff, Snapshot.fault?_unitOf_eq_some_iff]
  constructor
  · intro hr
    cases hr with
    | unknownSource hsplit _ he =>
      have hknown := hs _ (hsplit ▸ List.mem_append_right _ List.mem_cons_self)
      rw [he] at hknown
      exact absurd hknown (by simp)
    | blankIdentifier _ hx hblank =>
      obtain ⟨p, hp, rfl⟩ := NodeMap.contains_iff.mp hx.1.1
      exact ⟨p, hp, hx, Or.inl ⟨hblank, rfl⟩⟩
    | blankTarget _ hx hne hsplit hbefore he =>
      obtain ⟨p, hp, rfl⟩ := NodeMap.contains_iff.mp hx.1.1
      exact ⟨p, hp, hx, Or.inr ⟨hne, _, _, _, hsplit, hbefore, he, rfl⟩⟩
  · rintro ⟨p, hp, hx, ⟨hblank, rfl⟩ | ⟨hne, before, e, after, hsplit, hbefore, he, rfl⟩⟩
    · exact .blankIdentifier hs hx hblank
    · exact .blankTarget hs hx hne hsplit hbefore he

theorem ofSnapshot_eq_error_iff {err : GraphError} : ofSnapshot s = .error err ↔ s.Refused err := by
  cases hu : s.edges.find? fun e => !s.nodes.contains e.source with
  | some e =>
    rw [ofSnapshot_of_unknown hu, refused_of_unknown hu, Except.error.injEq, eq_comm]
  | none =>
    have hs := Snapshot.find?_unknown_eq_none_iff.mp hu
    rw [ofSnapshot_of_known hs, refused_of_known hs]
    cases s.units.findSome? CodeUnit.fault? with
    | none => simp
    | some e => simp

structure Exports (s : Snapshot) (h : Graph) : Prop where
  nodes : h.toSnapshot.nodes = s.nodes
  edges_perm : h.toSnapshot.edges.Perm s.edges
  edges_sorted : h.toSnapshot.edges.Pairwise fun a b => (DependencyEdge.order a b).isLE = true
  verifyHash : s.verifyHash = true ↔ s.contentHash = h.toSnapshot.contentHash
  verified : h.toSnapshot.verifyHash = true
  /-- Importing what is exported exports the same again. -/
  again : ∃ k, ofSnapshot h.toSnapshot = .ok k ∧ k.toSnapshot = h.toSnapshot

theorem exports_of_ofSnapshot (hs : ofSnapshot s = .ok h) : Exports s h := by
  have hnormal := toSnapshot_of_ofSnapshot hs
  have hagain := ofSnapshot_of_acceptable (ofSnapshot_eq_ok_iff.mp hs).1.normalized
  have hexport := toSnapshot_of_ofSnapshot hagain
  rw [Snapshot.normalized_normalized, ← hnormal] at hexport
  rw [← hnormal] at hagain
  refine ⟨?_, ?_, ?_, ?_, ?_, _, hagain, hexport⟩
  · rw [hnormal, Snapshot.normalized]
  · rw [hnormal]
    exact DependencyEdge.sorted_perm s.edges
  · rw [hnormal]
    exact DependencyEdge.pairwise_sorted s.edges
  · rw [hnormal]
    exact Snapshot.verifyHash_iff
  · rw [hnormal, Snapshot.verifyHash_iff, Snapshot.normalized_normalized]

theorem ofSnapshot_congr {t : Snapshot} (hn : s.nodes = t.nodes) (he : s.edges.Perm t.edges)
    (hs : ofSnapshot s = .ok h) : ∃ k, ofSnapshot t = .ok k ∧ k.toSnapshot = h.toSnapshot := by
  have ht := ofSnapshot_of_acceptable ((ofSnapshot_eq_ok_iff.mp hs).1.congr hn he)
  refine ⟨_, ht, ?_⟩
  rw [toSnapshot_of_ofSnapshot ht, toSnapshot_of_ofSnapshot hs, Snapshot.normalized_congr hn he]

/-- A snapshot is imported exactly when it is acceptable, and what is exported then is its normal
form, which the order of its edges does not change. Otherwise the first cause is reported. -/
theorem ofSnapshot_normalizes (s : Snapshot) :
    ((∃ h, ofSnapshot s = .ok h) ↔ s.Acceptable) ∧
      (∀ h, ofSnapshot s = .ok h → Exports s h) ∧
      (∀ t : Snapshot, s.nodes = t.nodes → s.contentHash = t.contentHash → s.edges.Perm t.edges →
        s.verifyHash = t.verifyHash ∧
          ∀ h, ofSnapshot s = .ok h → ∃ k, ofSnapshot t = .ok k ∧ k.toSnapshot = h.toSnapshot) ∧
      ∀ err, ofSnapshot s = .error err ↔ s.Refused err := by
  refine ⟨?_, fun h => exports_of_ofSnapshot, fun t hn hc he => ⟨?_, fun h => ?_⟩, fun err => ?_⟩
  · constructor
    · rintro ⟨h, hs⟩
      exact (ofSnapshot_eq_ok_iff.mp hs).1
    · intro hs
      exact ⟨_, ofSnapshot_of_acceptable hs⟩
  · rw [Snapshot.verifyHash, Snapshot.verifyHash, hn, hc, Snapshot.hashOf_congr t.nodes he]
  · exact ofSnapshot_congr hn he
  · exact ofSnapshot_eq_error_iff

end Graph

end DependencyAtlas
