import DependencyAtlas.CommandLine.Run
import DependencyAtlas.Proofs.Graph.ImpactClosure
import DependencyAtlas.Proofs.Graph.RoundTrip
import DependencyAtlas.Proofs.Loading.Reload
import DependencyAtlas.Proofs.Output.Lines
import DependencyAtlas.Proofs.Unit.RoundTrip

/-!
# Reading text output

In text form an impact has a line for each affected unit, and an export has a row of values for the
hash, for each unit and for each edge. Values are printed as they are, and units may have tabs and
line feeds in their texts. The lines and rows are read back exactly when these texts have none.
-/

namespace DependencyAtlas

namespace Graph

variable {g : Graph}

def rows (g : Graph) : List (List String) :=
  ["hash", g.toSnapshot.contentHash] ::
  g.units.map (fun u => ["node", u.identifier, u.kind.name, u.file]) ++
  g.allEdges.map (fun e => ["edge", e.source, e.target, e.relationship])

/-- Every text of an export can stand between tabs on a line. -/
structure HasCells (g : Graph) : Prop where
  identifier : ∀ u ∈ g.units, Text.IsCell u.identifier
  file : ∀ u ∈ g.units, Text.IsCell u.file
  target : ∀ e ∈ g.allEdges, Text.IsCell e.target
  relationship : ∀ e ∈ g.allEdges, Text.IsCell e.relationship

theorem text_toSnapshot (hg : g.Indexed) : g.toSnapshot.text = g.rows.map Page.tabbed := by
  have hentries := entries_nodeMap hg
  simp only [Snapshot.text, toSnapshot, hentries, rows, List.map_cons, List.map_append,
    List.map_map]
  rfl

theorem forall_mem_rows {p : List String → Prop} :
    (∀ row ∈ g.rows, p row) ↔ p ["hash", g.toSnapshot.contentHash] ∧
      (∀ u ∈ g.units, p ["node", u.identifier, u.kind.name, u.file]) ∧
        ∀ e ∈ g.allEdges, p ["edge", e.source, e.target, e.relationship] := by
  simp only [rows, List.cons_append, List.forall_mem_cons, List.forall_mem_append,
    List.forall_mem_map]

theorem isCell_name (k : UnitKind) : Text.IsCell k.name := by
  cases k <;> decide

theorem isCell_hexDigest (bytes : List UInt8) :
    Text.IsCell (Digest.Blake3.hexDigest bytes) := by
  have hdigit : ∀ n < 16, Nat.digitChar n ≠ '\t' ∧ Nat.digitChar n ≠ '\n' := by decide
  have hdigits : ∀ c ∈ (Digest.Blake3.digest bytes).flatMap Digest.Blake3.hexByte,
      c ≠ '\t' ∧ c ≠ '\n' := by
    intro c hc
    obtain ⟨b, -, hc⟩ := List.mem_flatMap.mp hc
    have hb := b.toNat_lt
    simp only [Digest.Blake3.hexByte, List.mem_cons, List.not_mem_nil, or_false] at hc
    rcases hc with rfl | rfl
    · exact hdigit _ (by omega)
    · exact hdigit _ (by omega)
  rw [Text.IsCell, Digest.Blake3.hexDigest, String.toList_ofList]
  exact ⟨fun hmem => (hdigits _ hmem).1 rfl, fun hmem => (hdigits _ hmem).2 rfl⟩

theorem isCell_contentHash (g : Graph) : Text.IsCell g.toSnapshot.contentHash :=
  Text.IsCell.append (by decide) (isCell_hexDigest _)

theorem forall_isCell_rows_iff (hg : g.Indexed) :
    (∀ row ∈ g.rows, ∀ v ∈ row, Text.IsCell v) ↔ g.HasCells := by
  have hhash : Text.IsCell "hash" := by decide
  have hnode : Text.IsCell "node" := by decide
  have hedge : Text.IsCell "edge" := by decide
  simp only [forall_mem_rows, List.forall_mem_cons, List.not_mem_nil, false_imp_iff, implies_true,
    hhash, hnode, hedge, isCell_name, isCell_contentHash, true_and, and_true]
  constructor
  · rintro ⟨hunits, hedges⟩
    exact ⟨fun u hu => (hunits u hu).1, fun u hu => (hunits u hu).2,
      fun e he => (hedges e he).2.1, fun e he => (hedges e he).2.2⟩
  · intro h
    refine ⟨fun u hu => ⟨h.identifier u hu, h.file u hu⟩,
      fun e he => ⟨?_, h.target e he, h.relationship e he⟩⟩
    -- An edge starts at a registered unit, so its source is one of the identifiers.
    have hd : e ∈ g.declarations := (DependencyEdge.sorted_perm _).mem_iff.mp he
    obtain ⟨u, hu⟩ := Option.isSome_iff_exists.mp (hg.unit?_source hd)
    obtain ⟨hx, hmem⟩ := hg.unit?_eq_some_iff_mem_units.mp hu
    exact hx ▸ h.identifier u hmem

theorem rows_text_toSnapshot_eq_iff (hg : g.Indexed) :
    Text.rows (g.toSnapshot.page.render .text) = g.rows ↔ g.HasCells := by
  have hne : ∀ row ∈ g.rows, row ≠ [] := by simp [forall_mem_rows]
  rw [← forall_isCell_rows_iff hg, ← Page.rows_joinLines_eq_iff hne, ← text_toSnapshot hg]
  rfl

end Graph

/-- The unit that a row tells of. -/
def unitOfRow? : List String → Option RegisteredUnit
  | ["node", identifier, kind, file] =>
    (UnitKind.ofName kind).toOption.map fun k => ⟨identifier, k, file⟩
  | _ => none

/-- The source, the target and the relationship of the edge that a row tells of. -/
def linkOfRow? : List String → Option (String × String × String)
  | ["edge", source, target, relationship] => some (source, target, relationship)
  | _ => none

namespace Graph

variable {g : Graph}

theorem filterMap_rows {β : Type} {f : List String → Option β}
    (hhash : f ["hash", g.toSnapshot.contentHash] = none) :
    g.rows.filterMap f =
      (g.units.filterMap fun u => f ["node", u.identifier, u.kind.name, u.file]) ++
        g.allEdges.filterMap fun e => f ["edge", e.source, e.target, e.relationship] := by
  rw [rows, List.cons_append, List.filterMap_cons, hhash, List.filterMap_append,
    List.filterMap_map, List.filterMap_map]
  rfl

theorem filterMap_unitOfRow?_rows (g : Graph) : g.rows.filterMap unitOfRow? = g.units := by
  have hunit : ∀ u : RegisteredUnit,
      unitOfRow? ["node", u.identifier, u.kind.name, u.file] = some u := by
    intro u
    simp only [unitOfRow?, UnitKind.ofName_name]
    rfl
  have hlink : ∀ e : DependencyEdge,
      unitOfRow? ["edge", e.source, e.target, e.relationship] = none := fun _ => rfl
  rw [filterMap_rows rfl]
  simp only [hunit, hlink, List.filterMap_some, List.filterMap_none, List.append_nil]

theorem filterMap_linkOfRow?_rows (g : Graph) :
    g.rows.filterMap linkOfRow? = g.allEdges.map fun e => (e.source, e.target, e.relationship) := by
  have hunit : ∀ u : RegisteredUnit,
      linkOfRow? ["node", u.identifier, u.kind.name, u.file] = none := fun _ => rfl
  have hlink : ∀ e : DependencyEdge, linkOfRow? ["edge", e.source, e.target, e.relationship] =
      some (e.source, e.target, e.relationship) := fun _ => rfl
  rw [filterMap_rows rfl]
  simp only [hunit, hlink, List.filterMap_none, List.nil_append, List.filterMap_eq_map']

end Graph

variable {env : Environment} {config : Config}

/-- The lines of an impact in text form are those of the affected identifiers, hence one for each
exactly when none of them has a line feed. The rows of an export are those of its values exactly
when none of these has a tab or a line feed, and then the units and the ends and relationships of
the edges are read back. -/
theorem Command.text_exact {paths : List String} {loaded : Loaded}
    (hload : Loaded.ofFiles env.files paths = .ok loaded) :
    (∀ path, paths = [path] → ∀ (changed : List String) (kind : Option UnitKind),
      ∃ page, (impact path changed kind).page env config = .ok page ∧
        Text.lines (page.render .text) =
          (loaded.graph.affectedOfKind changed kind).flatMap (Text.split '\n') ∧
        (Text.lines (page.render .text) = loaded.graph.affectedOfKind changed kind ↔
          ∀ x ∈ loaded.graph.affectedOfKind changed kind, '\n' ∉ x.toList)) ∧
      ∃ page, (snapshot paths).page env config = .ok page ∧
        (Text.rows (page.render .text) = loaded.graph.rows ↔ loaded.graph.HasCells) ∧
          (loaded.graph.HasCells →
            (Text.rows (page.render .text)).filterMap unitOfRow? = loaded.graph.units ∧
              (Text.rows (page.render .text)).filterMap linkOfRow? =
                loaded.graph.allEdges.map fun e => (e.source, e.target, e.relationship)) := by
  obtain ⟨units, hrepresents⟩ := Loaded.represents_of_ofFiles hload
  have hrows := Graph.rows_text_toSnapshot_eq_iff hrepresents.wellFormed.toIndexed
  refine ⟨?_, loaded.graph.toSnapshot.page, ?_, hrows, fun hcells => ?_⟩
  · rintro path rfl changed kind
    refine ⟨(Impact.ofGraph loaded.graph changed kind).page, ?_, Page.lines_joinLines _,
      Page.lines_joinLines_eq_iff⟩
    simp only [page, hload]
    rfl
  · simp only [page, hload]
    rfl
  · rw [hrows.mpr hcells]
    exact ⟨Graph.filterMap_unitOfRow?_rows _, Graph.filterMap_linkOfRow?_rows _⟩

/-- A unit whose identifier takes two lines. -/
def twoLines : CodeUnit :=
  ⟨"reader\nwriter", .service, "reader.rb", []⟩

def twoLinesFile : Environment :=
  holding "units" ((Json.list [twoLines.toJson]).print ++ "\n")

theorem Command.text_exact_twoLinesFile :
    ∃ loaded, Loaded.ofFiles twoLinesFile.files ["units"] = .ok loaded ∧
      (∃ page, (impact "units" ["reader.rb"] none).page twoLinesFile {} = .ok page ∧
        Text.lines (page.render .text) ≠ loaded.graph.affectedOfKind ["reader.rb"] none) ∧
      ∃ page, (snapshot ["units"]).page twoLinesFile {} = .ok page ∧
        Text.rows (page.render .text) ≠ loaded.graph.rows := by
  have hobject : Json.Shallow 126 twoLines.toJson :=
    .object (by simp [twoLines, UnitKind.toJson, Json.Shallow.text, Json.Shallow.list])
  have hshallow : Json.Shallow 127 (.list [twoLines.toJson]) := .list (by simp [hobject])
  have hread : Input.read twoLinesFile.files "units" =
      .ok (.units [twoLines.toJson.keyed]) := by
    rw [twoLinesFile, Loaded.read_printed hshallow (files_holding _ _), Json.keyed_list]
    rfl
  have hrecords : (Input.units [twoLines.toJson.keyed]).records = [twoLines] := by
    have hvalid : twoLines.validate = .ok () := by rfl
    rw [Input.records, List.filterMap_cons,
      CodeUnit.ofValue_of_spells twoLines.spells_keyed_toJson, hvalid]
    rfl
  have hload := Loaded.ofFiles_of_read hread
  simp only [Input.failure?, hrecords] at hload
  have hrepresents := Graph.represents_foldl_insert [twoLines]
  have hg := hrepresents.wellFormed.toIndexed
  have hunit : ([twoLines].foldl Graph.insert .empty).unit? "reader\nwriter" =
      some twoLines.registered := hrepresents.unit? _
  obtain ⟨himpact, page, hpage, hrows, -⟩ := text_exact hload
  obtain ⟨page', hpage', -, hlines⟩ := himpact "units" rfl ["reader.rb"] none
  refine ⟨_, hload, ⟨page', hpage', fun heq => ?_⟩, page, hpage, fun heq => ?_⟩
  · have hmem : "reader\nwriter" ∈
        ([twoLines].foldl Graph.insert .empty).affectedBy ["reader.rb"] := by
      apply (Graph.mem_affectedBy hg).mpr
      exact ⟨_, ⟨_, hunit, by decide, "reader.rb", by decide, rfl⟩, .refl⟩
    exact absurd (hlines.mp heq _ hmem) (by decide)
  · have hmem := (hg.unit?_eq_some_iff_mem_units.mp hunit).2
    exact absurd ((hrows.mp heq).identifier _ hmem) (by decide)

end DependencyAtlas
