import DependencyAtlas.Proofs.Graph.Agreement
import DependencyAtlas.Proofs.Loading.Reload

/-!
# Values that are set aside

A file that holds a list of values is always loaded. Whether a value is registered or set aside is a
matter of that value alone, and the graph is the one that the registered units make without the
others among them.
-/

namespace DependencyAtlas

namespace CodeUnit

/-- The valid units among some values, in their order. -/
def accepted (values : List Json) : List CodeUnit :=
  values.filterMap fun v => (ofValue v).toOption

theorem mem_accepted {values : List Json} {u : CodeUnit} :
    u ∈ accepted values ↔ ∃ v ∈ values, ofValue v = .ok u := by
  have hunit (v : Json) : (ofValue v).toOption = some u ↔ ofValue v = .ok u := by
    cases ofValue v with
    | ok w => simp [Except.toOption]
    | error e => simp [Except.toOption]
  simp only [accepted, List.mem_filterMap, hunit]

theorem refusal?_eq_some_iff {v : Json} {e : GraphError} :
    refusal? v = some e ↔ ofValue v = .error e := by
  rw [refusal?]
  cases ofValue v with
  | ok u => simp
  | error e' => simp

end CodeUnit

/-- How a load goes over the values of a file. -/
structure Loaded.Sifts (loaded : Loaded) (source : String) (values : List Json) : Prop where
  /-- Registering the valid units alone, in their order, succeeds and makes the same graph. -/
  graph : Graph.empty.registerAll (CodeUnit.accepted values) =
    (loaded.graph, .ok (CodeUnit.accepted values).length)
  /-- The values set aside are those that are no valid units, with the reason. -/
  mem_rejected_iff : ∀ r, r ∈ loaded.rejected ↔
    r.source = source ∧ ∃ v, values[r.index]? = some v ∧ CodeUnit.ofValue v = .error r.error
  ascending : loaded.rejected.Pairwise fun r s => r.index < s.index
  contains_iff : ∀ x, loaded.graph.contains x = true ↔
    ∃ v ∈ values, ∃ u, CodeUnit.ofValue v = .ok u ∧ u.identifier = x
  registered_or_rejected : ∀ index v, values[index]? = some v →
    Xor (∃ u, CodeUnit.ofValue v = .ok u ∧ loaded.graph.contains u.identifier = true)
      (∃ r ∈ loaded.rejected, r.index = index)
  /-- A unit that was decoded is not refused, whatever it is registered in. -/
  not_refused : ∀ v ∈ values, ∀ u, CodeUnit.ofValue v = .ok u →
    ∀ b : SharedBuild, b.register u = .ok ⟨b.inner.insert u⟩

theorem Input.mem_rejects_iff {source : String} {values : List Json} {r : Rejected} :
    r ∈ (units values).rejects source ↔
      r.source = source ∧ ∃ v, values[r.index]? = some v ∧ CodeUnit.ofValue v = .error r.error := by
  simp only [rejects, List.mem_filterMap, Option.map_eq_some_iff, CodeUnit.refusal?_eq_some_iff]
  constructor
  · rintro ⟨⟨v, index⟩, hv, e, he, rfl⟩
    exact ⟨rfl, v, List.mem_zipIdx_iff_getElem?.mp hv, he⟩
  · rintro ⟨rfl, v, hv, he⟩
    exact ⟨(v, r.index), List.mem_zipIdx_iff_getElem?.mpr hv, r.error, he, rfl⟩

namespace Loaded

variable {files files' : String → FileEntry} {path content content' : String} {v : Json}
  {values : List Json}

theorem contains_foldl_accepted (values : List Json) (x : String) :
    ((CodeUnit.accepted values).foldl Graph.insert .empty).contains x = true ↔
      ∃ v ∈ values, ∃ u, CodeUnit.ofValue v = .ok u ∧ u.identifier = x := by
  rw [(Graph.represents_foldl_insert _).contains_eq, isSome_lastUnit?_iff, List.mem_map]
  simp only [CodeUnit.mem_accepted]
  constructor
  · rintro ⟨u, ⟨v, hv, hu⟩, hx⟩
    exact ⟨v, hv, u, hu, hx⟩
  · rintro ⟨v, hv, u, hu, hx⟩
    exact ⟨u, ⟨v, hv, hu⟩, hx⟩

theorem sifts_of_units (path : String) (values : List Json) :
    Sifts ⟨(CodeUnit.accepted values).foldl Graph.insert .empty,
      (Input.units values).rejects path⟩ path values := by
  let input := Input.units values
  have hcontains := contains_foldl_accepted values
  refine ⟨Graph.registerAll_of_isValid (input.isValid_of_mem_records rfl) _,
    fun r => Input.mem_rejects_iff, input.pairwise_rejects path, hcontains,
    fun index v hv => ?_, fun v hv u hu b => ?_⟩
  · cases hu : CodeUnit.ofValue v with
    | ok u =>
      refine .inl ⟨⟨u, rfl, (hcontains _).mpr ⟨v, List.mem_of_getElem? hv, u, hu, rfl⟩⟩, ?_⟩
      rintro ⟨r, hr, rfl⟩
      obtain ⟨-, w, hw, he⟩ := Input.mem_rejects_iff.mp hr
      rw [hv] at hw
      rw [← Option.some.inj hw, hu] at he
      cases he
    | error e =>
      refine .inr ⟨⟨⟨path, index, e⟩, Input.mem_rejects_iff.mpr ⟨rfl, v, hv, hu⟩, rfl⟩, ?_⟩
      rintro ⟨u, he, -⟩
      cases he
  · rw [SharedBuild.register_eq, CodeUnit.fault?_of_ofValue hu]

theorem ofFiles_of_units (h : Input.read files path = .ok (.units values)) :
    ofFiles files [path] = .ok ⟨(CodeUnit.accepted values).foldl Graph.insert .empty,
      (Input.units values).rejects path⟩ :=
  ofFiles_of_read h

theorem ofJson_of_units (hnodes : v.field? "nodes" = none)
    (hunits : v.field? "units" = some (.list values)) :
    Input.ofJson path v = .ok (.units values) := by
  cases v with
  | object fields =>
    rw [Input.ofJson, hnodes]
    simp only [hunits]
  | _ => cases hunits

/-- A file that holds a list of values is loaded, and an object with the list under `units` is
loaded in the same way. -/
theorem ofFiles_values (hfile : (files path).text = .ok content)
    (hread : Json.read content = .ok (.list values)) :
    ∃ loaded, ofFiles files [path] = .ok loaded ∧ loaded.Sifts path values ∧
      ∀ files' content' v, (files' path).text = .ok content' → Json.read content' = .ok v →
        v.field? "nodes" = none → v.field? "units" = some (.list values) →
          ofFiles files' [path] = .ok loaded := by
  refine ⟨_, ofFiles_of_units (read_of_text hfile hread), sifts_of_units path values, ?_⟩
  intro files' content' v hfile' hread' hnodes hunits
  apply ofFiles_of_units
  rw [read_of_text hfile' hread', ofJson_of_units hnodes hunits]

def wrappedFile : Environment :=
  holding "units" ((Json.object [("units", .list someValues)]).print ++ "\n")

theorem ofFiles_values_someFile : ∃ loaded, ofFiles someFile.files ["units"] = .ok loaded ∧
    (∃ r ∈ loaded.rejected, r.index = 1) ∧ ofFiles wrappedFile.files ["units"] = .ok loaded := by
  have htext {s : String} : ((holding "units" s).files "units").text = .ok s := by
    rw [files_holding, FileEntry.text, Text.fromUTF8?_toUTF8]
  have hread := Json.read_printedLine (shallow_someValues 123)
  have hshallow : Json.Shallow 127 (.object [("units", .list someValues)]) :=
    .object (List.forall_mem_singleton.mpr (shallow_someValues 122))
  have hwrapped := Json.read_printedLine hshallow
  rw [Json.keyed_list] at hread
  rw [Json.keyed_object, List.map_singleton, Json.keyed_list,
    Text.byKey_of_pairwise (List.pairwise_singleton _ _)] at hwrapped
  obtain ⟨loaded, hload, hsifts, hother⟩ := ofFiles_values htext hread
  have hnull : (someValues.map Json.keyed)[1]? = some .null := by simp [someValues]
  have hrejected := (hsifts.mem_rejected_iff ⟨"units", 1, _⟩).mpr ⟨rfl, .null, hnull, rfl⟩
  exact ⟨loaded, hload, ⟨_, hrejected, rfl⟩, hother _ _ _ htext hwrapped rfl rfl⟩

end Loaded

end DependencyAtlas
