import DependencyAtlas.Proofs.Graph.RoundTrip
import DependencyAtlas.Proofs.Text.Bytes

/-!
# What the content hash identifies

The bytes that are hashed are texts ended by zero, three of each node and five of each edge. As long
as no text holds the character NUL they determine the snapshot: `via` is marked by a byte with which
no name of a kind begins, so the texts of nodes cannot be taken for those of edges. A NUL in any one
of the six places for texts breaks this.
-/

namespace DependencyAtlas

namespace Snapshot

open Text

def nodeTokens (p : String × Registration) : List (List UInt8) :=
  [bytes p.1, bytes p.2.kind.name, bytes p.2.file]

def edgeTokens (e : DependencyEdge) : List (List UInt8) :=
  [bytes e.source, bytes e.target, bytes e.relationship, viaBytes e.via, bytes e.targetKind]

theorem nodeBytes_eq (p : String × Registration) : nodeBytes p = joined (nodeTokens p) := by
  simp [nodeBytes, terminated, joined, nodeTokens, bytes]

theorem edgeBytes_eq (e : DependencyEdge) : edgeBytes e = joined (edgeTokens e) := by
  simp [edgeBytes, terminated, joined, edgeTokens, bytes]

theorem hashInput_eq (nodes : NodeMap) (edges : List DependencyEdge) :
    hashInput nodes edges = joined (nodes.entries.flatMap nodeTokens) ++
      1 :: joined ((DependencyEdge.sorted edges).flatMap edgeTokens) := by
  have hnodes : nodeBytes = fun p => joined (nodeTokens p) := funext nodeBytes_eq
  have hedges : edgeBytes = fun e => joined (edgeTokens e) := funext edgeBytes_eq
  rw [hashInput, DependencyEdge.byFields_eq_sorted, hnodes, hedges, List.append_assoc,
    List.singleton_append, joined, joined, List.flatMap_assoc, List.flatMap_assoc]
  rfl

theorem length_flatMap_nodeTokens (ps : List (String × Registration)) :
    (ps.flatMap nodeTokens).length = 3 * ps.length := by
  induction ps with
  | nil => rfl
  | cons p ps ih =>
    rw [List.flatMap_cons, List.length_append, ih, List.length_cons, nodeTokens]
    simp only [List.length_cons, List.length_nil]
    omega

theorem length_flatMap_edgeTokens (es : List DependencyEdge) :
    (es.flatMap edgeTokens).length = 5 * es.length := by
  induction es with
  | nil => rfl
  | cons e es ih =>
    rw [List.flatMap_cons, List.length_append, ih, List.length_cons, edgeTokens]
    simp only [List.length_cons, List.length_nil]
    omega

theorem name_injective {k l : UnitKind} (h : k.name = l.name) : k = l := by
  have hk := UnitKind.ofName_name k
  rw [h, UnitKind.ofName_name] at hk
  exact (Except.ok.inj hk).symm

theorem viaBytes_injective {v w : Option String} (h : viaBytes v = viaBytes w) : v = w := by
  cases v with
  | none =>
    cases w with
    | none => rfl
    | some w => simp [viaBytes] at h
  | some v =>
    cases w with
    | none => simp [viaBytes] at h
    | some w => rw [bytes_injective (List.cons.inj h).2]

theorem flatMap_nodeTokens_injective {ps qs : List (String × Registration)}
    (h : ps.flatMap nodeTokens = qs.flatMap nodeTokens) : ps = qs := by
  induction ps generalizing qs with
  | nil =>
    cases qs with
    | nil => rfl
    | cons q qs => simp [nodeTokens] at h
  | cons p ps ih =>
    cases qs with
    | nil => simp [nodeTokens] at h
    | cons q qs =>
      simp only [List.flatMap_cons, nodeTokens, List.cons_append, List.nil_append,
        List.cons.injEq] at h
      obtain ⟨hx, hkind, hfile, hrest⟩ := h
      have hp : p = q := by
        obtain ⟨x, k, f⟩ := p
        obtain ⟨y, l, f'⟩ := q
        simp only [Prod.mk.injEq, Registration.mk.injEq]
        exact ⟨bytes_injective hx, name_injective (bytes_injective hkind), bytes_injective hfile⟩
      rw [hp, ih hrest]

theorem flatMap_edgeTokens_injective {ds es : List DependencyEdge}
    (h : ds.flatMap edgeTokens = es.flatMap edgeTokens) : ds = es := by
  induction ds generalizing es with
  | nil =>
    cases es with
    | nil => rfl
    | cons e es => simp [edgeTokens] at h
  | cons d ds ih =>
    cases es with
    | nil => simp [edgeTokens] at h
    | cons e es =>
      simp only [List.flatMap_cons, edgeTokens, List.cons_append, List.nil_append,
        List.cons.injEq] at h
      obtain ⟨hsource, htarget, hrelationship, hvia, hkind, hrest⟩ := h
      have hd : d = e := by
        cases d
        cases e
        simp only [DependencyEdge.mk.injEq]
        exact ⟨bytes_injective hsource, bytes_injective htarget, bytes_injective hrelationship,
          viaBytes_injective hvia, bytes_injective hkind⟩
      rw [hd, ih hrest]

/-- The bytes that mark `via` stand at the front of no name of a kind. -/
theorem bytes_name_ne_viaBytes (k : UnitKind) (v : Option String) :
    bytes k.name ≠ viaBytes v := by
  intro h
  have hhead : (bytes k.name).head? ≠ some 2 ∧ (bytes k.name).head? ≠ some 3 := by
    rw [bytes_eq]
    cases k <;> decide
  rw [h] at hhead
  cases v with
  | none => exact hhead.2 rfl
  | some v => exact hhead.1 rfl

/-- Edge texts behind the separator, which ends up at the front of the first one. -/
def marked (tokens : List (List UInt8)) : List (List UInt8) :=
  tokens.modifyHead (1 :: ·)

theorem joined_marked {tokens : List (List UInt8)} (h : tokens ≠ []) :
    joined (marked tokens) = 1 :: joined tokens := by
  cases tokens with
  | nil => exact absurd rfl h
  | cons t ts => rfl

theorem marked_injective {ts us : List (List UInt8)} (h : marked ts = marked us) : ts = us := by
  cases ts with
  | nil =>
    cases us with
    | nil => rfl
    | cons u us => simp [marked] at h
  | cons t ts =>
    cases us with
    | nil => simp [marked] at h
    | cons u us =>
      simp only [marked, List.modifyHead_cons, List.cons.injEq, true_and] at h
      rw [h.1, h.2]

theorem getElem?_flatMap_nodeTokens (ps : List (String × Registration)) (i : Nat) :
    (ps.flatMap nodeTokens)[3 * i + 1]? = ps[i]?.map fun p => bytes p.2.kind.name := by
  induction ps generalizing i with
  | nil => rfl
  | cons p ps ih =>
    cases i with
    | zero => rfl
    | succ i => exact ih i

theorem getElem?_flatMap_edgeTokens (es : List DependencyEdge) (i : Nat) :
    (es.flatMap edgeTokens)[5 * i + 3]? = es[i]?.map fun e => viaBytes e.via := by
  induction es generalizing i with
  | nil => rfl
  | cons e es ih =>
    cases i with
    | zero => rfl
    | succ i => exact ih i

/-- Edges cannot be read as nodes and fewer edges. By their number, at least five nodes would be
read from at least three edges, and the kind of the fifth node would be the `via` of the third
edge. -/
theorem eq_nil_of_marked_eq {ps : List (String × Registration)} {ds es : List DependencyEdge}
    (h : marked (ds.flatMap edgeTokens) = ps.flatMap nodeTokens ++ marked (es.flatMap edgeTokens)) :
    ps = [] := by
  have hlength := congrArg List.length h
  simp only [marked, List.length_append, List.length_modifyHead, length_flatMap_nodeTokens,
    length_flatMap_edgeTokens] at hlength
  apply Classical.byContradiction
  intro hne
  have hpos := List.length_pos_iff.mpr hne
  have hp : 4 < ps.length := by omega
  have hd : 2 < ds.length := by omega
  have hvia : (marked (ds.flatMap edgeTokens))[13]? = some (viaBytes ds[2].via) := by
    have hunmarked := getElem?_flatMap_edgeTokens ds 2
    rw [List.getElem?_eq_getElem hd] at hunmarked
    cases htokens : ds.flatMap edgeTokens with
    | nil => simp [htokens] at hunmarked
    | cons t ts => simpa [marked, htokens] using hunmarked
  have hkind : (ps.flatMap nodeTokens)[13]? = some (bytes ps[4].2.kind.name) := by
    have hnames := getElem?_flatMap_nodeTokens ps 4
    rwa [List.getElem?_eq_getElem hp] at hnames
  rw [h, List.getElem?_append_left (by rw [length_flatMap_nodeTokens]; omega), hkind] at hvia
  exact bytes_name_ne_viaBytes _ _ (Option.some.inj hvia)

/-- The places of a snapshot in which any text may stand. -/
inductive Place where
  | identifier
  | file
  | target
  | relationship
  | via
  | targetKind
deriving DecidableEq

/-- The texts of nodes and edges in a place. The sources of edges are identifiers of nodes. -/
def textsOf (entries : List (String × Registration)) (edges : List DependencyEdge) :
    Place → List String
  | .identifier => entries.map Prod.fst ++ edges.map DependencyEdge.source
  | .file => entries.map fun p => p.2.file
  | .target => edges.map DependencyEdge.target
  | .relationship => edges.map DependencyEdge.relationship
  | .via => edges.filterMap DependencyEdge.via
  | .targetKind => edges.map DependencyEdge.targetKind

def textsAt (s : Snapshot) : Place → List String :=
  textsOf s.nodes.entries s.edges

/-- No text holds NUL except perhaps in the places that are exempt. -/
def NulFreeBut (exempt : Place → Prop) (s : Snapshot) : Prop :=
  ∀ p, ¬ exempt p → ∀ t ∈ s.textsAt p, NulFree t

theorem nulFree_name (k : UnitKind) : NulFree k.name := by
  cases k <;> decide

section NulFree

variable {s t : Snapshot}

theorem zero_not_mem_nodeTokens (hs : s.NulFreeBut fun _ => False) :
    ∀ t ∈ s.nodes.entries.flatMap nodeTokens, 0 ∉ t := by
  intro t ht
  obtain ⟨p, hp, ht⟩ := List.mem_flatMap.mp ht
  simp only [nodeTokens, List.mem_cons, List.not_mem_nil, or_false] at ht
  rcases ht with rfl | rfl | rfl
  · exact (hs .identifier id _ (List.mem_append_left _ (List.mem_map_of_mem hp))).zero_not_mem
  · exact (nulFree_name _).zero_not_mem
  · exact (hs .file id _ (List.mem_map.mpr ⟨p, hp, rfl⟩)).zero_not_mem

theorem zero_not_mem_edgeTokens (hs : s.NulFreeBut fun _ => False) :
    ∀ t ∈ (DependencyEdge.sorted s.edges).flatMap edgeTokens, 0 ∉ t := by
  intro t ht
  obtain ⟨e, he, ht⟩ := List.mem_flatMap.mp ht
  have he := (DependencyEdge.sorted_perm s.edges).mem_iff.mp he
  simp only [edgeTokens, List.mem_cons, List.not_mem_nil, or_false] at ht
  rcases ht with rfl | rfl | rfl | rfl | rfl
  · exact (hs .identifier id _ (List.mem_append_right _ (List.mem_map_of_mem he))).zero_not_mem
  · exact (hs .target id _ (List.mem_map_of_mem he)).zero_not_mem
  · exact (hs .relationship id _ (List.mem_map_of_mem he)).zero_not_mem
  · cases hv : e.via with
    | none =>
      rw [viaBytes]
      decide
    | some v =>
      have hfree := (hs .via id v (List.mem_filterMap.mpr ⟨e, he, hv⟩)).zero_not_mem
      rw [viaBytes, List.mem_cons, not_or]
      exact ⟨by decide, hfree⟩
  · exact (hs .targetKind id _ (List.mem_map_of_mem he)).zero_not_mem

theorem zero_not_mem_marked {tokens : List (List UInt8)} (h : ∀ t ∈ tokens, 0 ∉ t) :
    ∀ t ∈ marked tokens, 0 ∉ t := by
  cases tokens with
  | nil => exact h
  | cons u us =>
    obtain ⟨hu, hus⟩ := List.forall_mem_cons.mp h
    refine List.forall_mem_cons.mpr ⟨?_, hus⟩
    simp [hu]

theorem eq_of_tokens_eq_of_le {ps qs : List (String × Registration)} {ds es : List DependencyEdge}
    (hle : ps.length ≤ qs.length)
    (h : ps.flatMap nodeTokens ++ marked (ds.flatMap edgeTokens) =
      qs.flatMap nodeTokens ++ marked (es.flatMap edgeTokens)) : ps = qs ∧ ds = es := by
  have hsplit := List.take_append_drop ps.length qs
  rw [← hsplit, List.flatMap_append, List.append_assoc] at h
  have hlength : (ps.flatMap nodeTokens).length = ((qs.take ps.length).flatMap nodeTokens).length := by
    rw [length_flatMap_nodeTokens, length_flatMap_nodeTokens, List.length_take_of_le hle]
  obtain ⟨hnodes, hrest⟩ := List.append_inj h hlength
  have hnil := eq_nil_of_marked_eq hrest
  rw [hnil, List.append_nil] at hsplit
  rw [hnil, List.flatMap_nil, List.nil_append] at hrest
  exact ⟨(flatMap_nodeTokens_injective hnodes).trans hsplit,
    flatMap_edgeTokens_injective (marked_injective hrest)⟩

theorem eq_of_tokens_eq {ps qs : List (String × Registration)} {ds es : List DependencyEdge}
    (h : ps.flatMap nodeTokens ++ marked (ds.flatMap edgeTokens) =
      qs.flatMap nodeTokens ++ marked (es.flatMap edgeTokens)) : ps = qs ∧ ds = es := by
  rcases Nat.le_total ps.length qs.length with hle | hle
  · exact eq_of_tokens_eq_of_le hle h
  · obtain ⟨hnodes, hedges⟩ := eq_of_tokens_eq_of_le hle h.symm
    exact ⟨hnodes.symm, hedges.symm⟩

theorem getLast?_hashInput (x : List UInt8) (tokens : List (List UInt8)) :
    (x ++ 1 :: joined tokens).getLast? = if tokens = [] then some 1 else some 0 := by
  by_cases h : tokens = []
  · rw [if_pos h, h]
    simp [joined]
  · rw [if_neg h, List.getLast?_append, List.getLast?_cons, getLast?_joined h]
    rfl

theorem nodes_eq_and_sorted_eq_of_hashInput_eq (hs : s.NulFreeBut fun _ => False)
    (ht : t.NulFreeBut fun _ => False)
    (h : hashInput s.nodes s.edges = hashInput t.nodes t.edges) :
    s.nodes = t.nodes ∧ DependencyEdge.sorted s.edges = DependencyEdge.sorted t.edges := by
  rw [hashInput_eq, hashInput_eq] at h
  have hlast := congrArg List.getLast? h
  rw [getLast?_hashInput, getLast?_hashInput] at hlast
  have hnodes := zero_not_mem_nodeTokens hs
  have hedges := zero_not_mem_edgeTokens hs
  have hnodes' := zero_not_mem_nodeTokens ht
  have hedges' := zero_not_mem_edgeTokens ht
  suffices htokens : s.nodes.entries.flatMap nodeTokens ++
      marked ((DependencyEdge.sorted s.edges).flatMap edgeTokens) =
        t.nodes.entries.flatMap nodeTokens ++
          marked ((DependencyEdge.sorted t.edges).flatMap edgeTokens) by
    obtain ⟨hn, he⟩ := eq_of_tokens_eq htokens
    exact ⟨NodeMap.ext hn, he⟩
  by_cases hnone : (DependencyEdge.sorted s.edges).flatMap edgeTokens = []
  · have hnone' : (DependencyEdge.sorted t.edges).flatMap edgeTokens = [] := by
      apply Classical.byContradiction
      intro hsome
      rw [if_pos hnone, if_neg hsome] at hlast
      exact absurd hlast (by decide)
    rw [hnone, hnone'] at h ⊢
    rw [joined_injective hnodes hnodes' (List.append_cancel_right h)]
  · have hsome : (DependencyEdge.sorted t.edges).flatMap edgeTokens ≠ [] := by
      intro hnone'
      rw [if_neg hnone, if_pos hnone'] at hlast
      exact absurd hlast (by decide)
    rw [← joined_marked hnone, ← joined_marked hsome, ← joined_append, ← joined_append] at h
    apply joined_injective _ _ h
    · exact List.forall_mem_append.mpr ⟨hnodes, zero_not_mem_marked hedges⟩
    · exact List.forall_mem_append.mpr ⟨hnodes', zero_not_mem_marked hedges'⟩

end NulFree

/-- Two units, or one unit with the same dependency twice. -/
def spread : Place → List CodeUnit
  | .identifier | .file => [⟨"a", .model, "", []⟩, ⟨"b", .model, "", []⟩]
  | .via => [⟨"a", .model, "", [⟨"b", "", some "", ""⟩, ⟨"b", "", some "", ""⟩]⟩]
  | .target | .relationship | .targetKind =>
    [⟨"a", .model, "", [⟨"b", "", none, ""⟩, ⟨"b", "", none, ""⟩]⟩]

/-- One unit, with one dependency at most. The text in the given place has swallowed the rest. -/
def gathered : Place → List CodeUnit
  | .identifier => [⟨"a\x00model\x00\x00b", .model, "", []⟩]
  | .file => [⟨"a", .model, "\x00b\x00model\x00", []⟩]
  | .target => [⟨"a", .model, "", [⟨"b\x00\x00\x03\x00\x00a\x00b", "", none, ""⟩]⟩]
  | .relationship => [⟨"a", .model, "", [⟨"b", "\x00\x03\x00\x00a\x00b\x00", none, ""⟩]⟩]
  | .via => [⟨"a", .model, "", [⟨"b", "", some "\x00\x00a\x00b\x00\x00\x02", ""⟩]⟩]
  | .targetKind => [⟨"a", .model, "", [⟨"b", "", none, "\x00a\x00b\x00\x00\x03\x00"⟩]⟩]

end Snapshot

def CodeUnit.entry (u : CodeUnit) : String × Registration :=
  (u.identifier, ⟨u.kind, u.file⟩)

namespace Snapshot

open Text

/-- What is gathered in one text is hashed like what is spread over several. -/
theorem joined_spread (p : Place) :
    joined (((spread p).map CodeUnit.entry).flatMap nodeTokens) ++
        1 :: joined (((spread p).flatMap CodeUnit.edges).flatMap edgeTokens) =
      joined (((gathered p).map CodeUnit.entry).flatMap nodeTokens) ++
        1 :: joined (((gathered p).flatMap CodeUnit.edges).flatMap edgeTokens) := by
  have hvia : ∀ v, viaBytes (some v) = 2 :: bytes v := fun _ => rfl
  have hnone : viaBytes none = [3] := rfl
  cases p <;>
    simp only [spread, gathered, CodeUnit.entry, CodeUnit.edges, Dependency.edgeFrom, List.map_cons,
      List.map_nil, List.flatMap_cons, List.flatMap_nil, List.cons_append, List.nil_append,
      nodeTokens, edgeTokens, hvia, hnone, bytes_eq] <;>
    decide

theorem spread_ne_gathered (p : Place) :
    (spread p).map CodeUnit.entry ≠ (gathered p).map CodeUnit.entry ∨
      (spread p).flatMap CodeUnit.edges ≠ (gathered p).flatMap CodeUnit.edges := by
  cases p <;> decide

theorem nulFree_spread (p : Place) :
    ∀ q, q ≠ p → ∀ t ∈ textsOf ((spread p).map CodeUnit.entry)
      ((spread p).flatMap CodeUnit.edges) q, NulFree t := by
  intro q hq
  cases p <;> cases q <;> first | exact absurd rfl hq | decide

theorem nulFree_gathered (p : Place) :
    ∀ q, q ≠ p → ∀ t ∈ textsOf ((gathered p).map CodeUnit.entry)
      ((gathered p).flatMap CodeUnit.edges) q, NulFree t := by
  intro q hq
  cases p <;> cases q <;> first | exact absurd rfl hq | decide

end Snapshot

namespace Graph

open Snapshot Text

/-- Units that are valid and in order are exported as they are. -/
structure Exported (us : List CodeUnit) (s : Snapshot) : Prop where
  entries : s.nodes.entries = us.map CodeUnit.entry
  edges : s.edges = us.flatMap CodeUnit.edges

theorem sorted_edges_toSnapshot (g : Graph) :
    DependencyEdge.sorted g.toSnapshot.edges = g.toSnapshot.edges :=
  DependencyEdge.sorted_sorted _

theorem exported_registerAll {us : List CodeUnit} (hv : ∀ u ∈ us, u.isValid = true)
    (hx : us.Pairwise fun u v => u.identifier < v.identifier)
    (he : (us.flatMap CodeUnit.edges).Pairwise fun d e => (DependencyEdge.order d e).isLE = true) :
    Exported us (afterCalls [.registerAll us]).toSnapshot := by
  have hr := represents_afterCalls [.registerAll us]
  rw [List.flatMap_singleton, Call.accepted, List.takeWhile_eq_self_iff.mpr hv] at hr
  have hedges := hr.declarations
  rw [lastUnits_of_pairwise hx] at hedges
  refine ⟨?_, ?_⟩
  · rw [toSnapshot, entries_nodeMap hr.wellFormed.toIndexed, hr.units_eq, lastUnits_of_pairwise hx,
      List.map_map]
    rfl
  · rw [toSnapshot, allEdges_eq, DependencyEdge.sorted_congr hedges]
    exact List.mergeSort_of_pairwise he

theorem exported_spread (p : Place) :
    Exported (spread p) (afterCalls [.registerAll (spread p)]).toSnapshot := by
  apply exported_registerAll <;> cases p <;> decide

theorem exported_gathered (p : Place) :
    Exported (gathered p) (afterCalls [.registerAll (gathered p)]).toSnapshot := by
  apply exported_registerAll <;> cases p <;> decide

/-- The hashed bytes tell graphs apart exactly as long as NUL is kept out of every place. -/
theorem hashInput_identifies_iff (exempt : Place → Prop) :
    (∀ a b : List Call,
      NulFreeBut exempt (afterCalls a).toSnapshot → NulFreeBut exempt (afterCalls b).toSnapshot →
        hashInput (afterCalls a).toSnapshot.nodes (afterCalls a).toSnapshot.edges =
          hashInput (afterCalls b).toSnapshot.nodes (afterCalls b).toSnapshot.edges →
        (afterCalls a).toSnapshot.nodes = (afterCalls b).toSnapshot.nodes ∧
          (afterCalls a).toSnapshot.edges = (afterCalls b).toSnapshot.edges) ↔
      ∀ p, ¬ exempt p := by
  constructor
  · intro h p hp
    have hs := exported_spread p
    have hg := exported_gathered p
    have hkept : ∀ {us : List CodeUnit} {s : Snapshot}, Exported us s →
        (∀ q, q ≠ p → ∀ t ∈ textsOf (us.map CodeUnit.entry) (us.flatMap CodeUnit.edges) q,
          NulFree t) → NulFreeBut exempt s := by
      intro us s hus hfree q hq t ht
      rw [textsAt, hus.entries, hus.edges] at ht
      exact hfree q (fun he => hq (he ▸ hp)) t ht
    obtain ⟨hnodes, hedges⟩ := h _ _ (hkept hs (nulFree_spread p)) (hkept hg (nulFree_gathered p))
      (by
        rw [hashInput_eq, hashInput_eq, sorted_edges_toSnapshot, sorted_edges_toSnapshot,
          hs.entries, hs.edges, hg.entries, hg.edges, joined_spread])
    have hentries := congrArg NodeMap.entries hnodes
    rw [hs.entries, hg.entries] at hentries
    rw [hs.edges, hg.edges] at hedges
    rcases spread_ne_gathered p with hne | hne
    · exact hne hentries
    · exact hne hedges
  · intro hnone a b ha hb h
    have hfree : ∀ {s : Snapshot}, NulFreeBut exempt s → NulFreeBut (fun _ => False) s :=
      fun hs p _ => hs p (hnone p)
    obtain ⟨hnodes, hedges⟩ := nodes_eq_and_sorted_eq_of_hashInput_eq (hfree ha) (hfree hb) h
    rw [sorted_edges_toSnapshot, sorted_edges_toSnapshot] at hedges
    exact ⟨hnodes, hedges⟩

end Graph

end DependencyAtlas
