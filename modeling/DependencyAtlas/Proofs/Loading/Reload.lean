import DependencyAtlas.CommandLine.Run
import DependencyAtlas.Proofs.Analysis.EdgeCounts
import DependencyAtlas.Proofs.Graph.SnapshotJson
import DependencyAtlas.Proofs.Loading.Inputs

/-!
# Loading what was exported

A file that holds a printed snapshot is loaded as that snapshot, with nothing set aside, and loading
a snapshot comes to the same as importing it. So every command does with an export what it does with
the file that was exported.
-/

namespace DependencyAtlas

theorem Graph.ofSnapshot_eq (s : Snapshot) :
    ofSnapshot s =
      match (Input.snapshot s).failure? with
      | some e => .error e
      | none => .ok ((Input.snapshot s).records.foldl insert .empty) := by
  simp only [Input.failure?, Input.records]
  cases hs : s.toUnits with
  | error e => rw [ofSnapshot, hs]
  | ok us =>
    rw [ofSnapshot_of_toUnits hs]
    simp only
    cases us.findSome? CodeUnit.fault? <;> rfl

namespace Loaded

variable {files : String → FileEntry} {path : String} {loaded : Loaded}

theorem ofFiles_of_read {input : Input} (h : Input.read files path = .ok input) :
    ofFiles files [path] =
      match input.failure? with
      | some e => .error (.graph e)
      | none => .ok ⟨input.records.foldl Graph.insert .empty, input.rejects path⟩ := by
  have hinputs : ([path].mapM fun path => (Input.read files path).map fun input => (path, input)) =
      .ok [(path, input)] := by
    rw [List.mapM_cons, h]
    rfl
  rw [ofFiles, hinputs]
  simp only [bind, Except.bind, Input.registerAll_eq, List.findSome?_cons, List.findSome?_nil]
  cases hfailure : input.failure? with
  | some e => rfl
  | none =>
    simp only [List.flatMap_cons, List.flatMap_nil, List.append_nil]
    rfl

theorem exists_input_of_ofFiles (h : ofFiles files [path] = .ok loaded) :
    ∃ input, Input.read files path = .ok input ∧ input.failure? = none ∧
      loaded.graph = input.records.foldl Graph.insert .empty := by
  cases hread : Input.read files path with
  | error e =>
    rw [ofFiles, List.mapM_cons, hread] at h
    exact absurd h (by simp [bind, Except.bind, Except.map])
  | ok input =>
    rw [ofFiles_of_read hread] at h
    cases hfailure : input.failure? with
    | some e => simp [hfailure] at h
    | none =>
      simp only [hfailure, Except.ok.injEq] at h
      exact ⟨input, rfl, hfailure, h ▸ rfl⟩

theorem ofFiles_of_snapshot {s : Snapshot} (h : Input.read files path = .ok (.snapshot s)) :
    ofFiles files [path] =
      match Graph.ofSnapshot s with
      | .ok g => .ok ⟨g, []⟩
      | .error e => .error (.graph e) := by
  rw [ofFiles_of_read h, Graph.ofSnapshot_eq]
  cases (Input.snapshot s).failure? <;> rfl

theorem read_of_text {content : String} {v : Json} (hfile : (files path).text = .ok content)
    (hread : Json.read content = .ok v) : Input.read files path = Input.ofJson path v := by
  simp only [Input.read, hfile, hread]

theorem read_printed {v : Json} (h : v.Shallow 127)
    (hfile : files path = .content (v.print ++ "\n").toUTF8) :
    Input.read files path = Input.ofJson path v.keyed := by
  have htext : (files path).text = .ok (v.print ++ "\n") := by
    simp only [hfile, FileEntry.text, Text.fromUTF8?_toUTF8]
  exact read_of_text htext (Json.read_printedLine h)

theorem read_page {s : Snapshot} (h : files path = .content (s.page.render .json).toUTF8) :
    Input.read files path = .ok (.snapshot s) := by
  have hnodes : s.toJson.keyed.field? "nodes" = some s.nodes.toJson.keyed := by
    rw [Snapshot.keyed_toJson]
    rfl
  rw [read_printed (s.shallow_toJson 124) h]
  simp only [Input.ofJson, hnodes, Snapshot.ofJson_keyed_toJson]

end Loaded

variable {env env' : Environment} {path path' : String} {page : Page} {config : Config}

theorem Graph.AnswersAlike.affectedOfKind_eq {g h : Graph} (ha : g.AnswersAlike h)
    (files : List String) (kind : Option UnitKind) :
    g.affectedOfKind files kind = h.affectedOfKind files kind := by
  cases kind with
  | none => exact ha.affectedBy files
  | some k => simp only [affectedOfKind, ha.affectedBy, ha.unitsOfKind]

/-- What is exported is loaded as a graph with the same content, and nothing is set aside. -/
theorem exists_reload (hexport : (Command.snapshot [path]).page env config = .ok page)
    (hfile : env'.files path' = .content (page.render .json).toUTF8) :
    ∃ loaded g, Loaded.ofFiles env.files [path] = .ok loaded ∧
      Loaded.ofFiles env'.files [path'] = .ok ⟨g, []⟩ ∧ page = g.toSnapshot.page ∧
        loaded.graph.AnswersAlike g ∧ loaded.graph.AnalysedAlike g := by
  cases hload : Loaded.ofFiles env.files [path] with
  | error e => simp [Command.page, hload, bind, Except.bind] at hexport
  | ok loaded =>
    have hpage : page = loaded.graph.toSnapshot.page := by
      simpa [Command.page, hload, bind, Except.bind, pure, Except.pure, eq_comm] using hexport
    obtain ⟨input, -, hfailure, hgraph⟩ := Loaded.exists_input_of_ofFiles hload
    have hrepresents : loaded.graph.Represents input.records := by
      rw [hgraph]
      exact Graph.represents_foldl_insert input.records
    obtain ⟨g, himport, hwell, hsnapshot, hsame⟩ :=
      hrepresents.ofSnapshot_toSnapshot (Input.isValid_of_mem_records hfailure)
    have hreload := Loaded.ofFiles_of_snapshot (Loaded.read_page (hpage ▸ hfile))
    rw [himport] at hreload
    exact ⟨loaded, g, rfl, hreload, by rw [hpage, hsnapshot],
      hsame.answersAlike hrepresents.wellFormed hwell,
      hsame.analysedAlike hrepresents.wellFormed.toIndexed hwell.toIndexed⟩

/-- Every command does with an export what it does with the file that was exported: nothing of it
is set aside, it is exported as it is, and with a fixed seed its analysis differs in nothing but
what was set aside. And what becomes of a snapshot that is loaded is what becomes of it when it is
imported. -/
theorem Command.page_reloaded (hexport : (snapshot [path]).page env config = .ok page)
    (hfile : env'.files path' = .content (page.render .json).toUTF8) :
    (∃ g, Loaded.ofFiles env'.files [path'] = .ok ⟨g, []⟩) ∧
      (∀ config', (snapshot [path']).page env' config' = .ok page) ∧
        (∀ (config' : Config) (options : AnalysisOptions) (seed : Nat),
          (options.apply config').seed = some seed →
            ∃ result : AnalysisResult,
              (analyze [path] options).page env config' = .ok result.page ∧
                (analyze [path'] options).page env' config' =
                  .ok { result with rejected := [] }.page) ∧
          (∀ (config' : Config) (files : List String) (kind : Option UnitKind),
            (impact path' files kind).page env' config' =
              (impact path files kind).page env config') ∧
            ∀ (files : String → FileEntry) (path : String) (s : Snapshot),
              Input.read files path = .ok (.snapshot s) →
                Loaded.ofFiles files [path] =
                  match Graph.ofSnapshot s with
                  | .ok g => .ok ⟨g, []⟩
                  | .error e => .error (.graph e) := by
  obtain ⟨loaded, g, hload, hreload, hpage, hanswers, hanalysed⟩ := exists_reload hexport hfile
  refine ⟨⟨g, hreload⟩, fun config' => ?_, fun config' options seed hseed => ?_,
    fun config' files kind => ?_, fun files path s => Loaded.ofFiles_of_snapshot⟩
  · simp only [Command.page, hreload, hpage]
    rfl
  · have hreport := hanalysed.report (options.apply config') seed env.chance env'.chance hseed
    have hranks := hanalysed.rankedUnits (options.apply config')
    simp only [Command.page, hload, hreload, bind, Except.bind, pure, Except.pure, ← hreport,
      ← hranks]
    exact ⟨_, rfl, rfl⟩
  · simp only [Command.page, hload, hreload, bind, Except.bind, Impact.ofGraph,
      hanswers.affectedOfKind_eq]

def holding (path content : String) : Environment where
  files p := if p = path then .content content.toUTF8 else .noSuchFile
  userConfig := none

theorem files_holding (path content : String) :
    (holding path content).files path = .content content.toUTF8 :=
  if_pos rfl

/-- A unit that depends on an unknown one, and a value that is no unit. -/
def someValues : List Json :=
  [.object [("identifier", .text "reader"), ("kind", .text "service"),
    ("dependencies", .list [.object [("target", .text "store")]])], .null]

theorem shallow_someValues (n : Nat) : Json.Shallow (n + 4) (.list someValues) := by
  have hdependency : Json.Shallow (n + 1) (.object [("target", .text "store")]) :=
    .object (by simp [Json.Shallow.text])
  have hunit : Json.Shallow (n + 3) (.object [("identifier", .text "reader"), ("kind", .text "service"),
      ("dependencies", .list [.object [("target", .text "store")]])]) :=
    .object (by simp [Json.Shallow.text, Json.Shallow.list, hdependency])
  exact .list (by simp [someValues, hunit, Json.Shallow.null])

def someFile : Environment :=
  holding "units" ((Json.list someValues).print ++ "\n")

theorem Command.page_reloaded_someFile :
    ∃ page, (snapshot ["units"]).page someFile {} = .ok page ∧
      (∃ g, Loaded.ofFiles (holding "export" (page.render .json)).files ["export"] = .ok ⟨g, []⟩) ∧
        (snapshot ["export"]).page (holding "export" (page.render .json)) {} = .ok page := by
  have hread : Input.read someFile.files "units" = .ok (.units (someValues.map Json.keyed)) := by
    rw [someFile, Loaded.read_printed (shallow_someValues 123) (files_holding _ _), Json.keyed_list]
    rfl
  obtain ⟨page, hexport⟩ : ∃ page, (snapshot ["units"]).page someFile {} = .ok page := by
    simp only [Command.page, Loaded.ofFiles_of_read hread, Input.failure?]
    exact ⟨_, rfl⟩
  have hreloaded := page_reloaded hexport (files_holding "export" (page.render .json))
  exact ⟨page, hexport, hreloaded.1, hreloaded.2.1 {}⟩

end DependencyAtlas
