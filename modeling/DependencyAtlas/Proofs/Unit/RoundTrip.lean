import DependencyAtlas.Proofs.Json.RoundTrip
import DependencyAtlas.Proofs.Text.Ascending
import DependencyAtlas.Proofs.Unit.Spelling

/-!
# Units through their JSON form

The JSON form of a unit spells the unit, as it is written and as it is read with the fields of its
objects in order. So decoding it gives the unit back or says what is wrong with it, and decoding once
and encoding gives a value that is decoded in the same way.
-/

namespace DependencyAtlas

open Decoding

namespace Dependency

variable {d : Dependency} {fields fields' : List (String × Json)}

theorem Spells.perm (h : Spells (.object fields) d) (hp : fields.Perm fields') :
    Spells (.object fields') d := by
  cases h with
  | object hkind htarget hrelationship hvia =>
    refine .object (hkind.perm (under_perm hp _)) ?_ (hrelationship.perm (under_perm hp _))
      (hvia.perm (under_perm hp _))
    exact List.perm_singleton.mp (htarget ▸ (under_perm hp _).symm)

theorem spells_toJson (d : Dependency) : Spells d.toJson d := by
  obtain ⟨target, relationship, via, kind⟩ := d
  cases via with
  | none => exact .object (.given rfl) rfl (.given rfl) .missing
  | some via => exact .object (.given rfl) rfl (.given rfl) (.given (.text via))

theorem spells_keyed_toJson (d : Dependency) : Spells d.toJson.keyed d := by
  have hspells := spells_toJson d
  obtain ⟨target, relationship, via, kind⟩ := d
  rw [toJson] at hspells ⊢
  rw [Json.keyed_object]
  apply Spells.perm _ (Text.byKey_perm _).symm
  · cases via with
    | none => simpa using hspells
    | some via => simpa using hspells
  · cases via with
    | none => exact (by decide : ["type", "target", "relationship"].Nodup)
    | some via => exact (by decide : ["type", "target", "relationship", "via"].Nodup)

end Dependency

namespace CodeUnit

variable {u : CodeUnit} {fields fields' : List (String × Json)}

theorem Spells.perm (h : Spells (.object fields) u) (hp : fields.Perm fields') :
    Spells (.object fields') u := by
  cases h with
  | object hidentifier hkind hv hfile hdependencies =>
    refine .object ?_ ?_ hv (hfile.perm (under_perm hp _)) (hdependencies.perm (under_perm hp _))
    · exact List.perm_singleton.mp (hidentifier ▸ (under_perm hp _).symm)
    · exact List.perm_singleton.mp (hkind ▸ (under_perm hp _).symm)

theorem spells_fields {encode : Dependency → Json} (h : ∀ d, Dependency.Spells (encode d) d)
    (u : CodeUnit) :
    Spells (.object [("identifier", .text u.identifier), ("kind", u.kind.toJson),
      ("file_path", .text u.file), ("dependencies", .list (u.dependencies.map encode))]) u := by
  refine .object rfl rfl (.word List.mem_cons_self) (.given rfl) (.given ⟨_, rfl, ?_⟩)
  rw [List.forall₂_map_left_iff, List.forall₂_same]
  exact fun d _ => h d

theorem spells_toJson (u : CodeUnit) : Spells u.toJson u :=
  spells_fields Dependency.spells_toJson u

theorem spells_keyed_toJson (u : CodeUnit) : Spells u.toJson.keyed u := by
  rw [toJson, Json.keyed_object]
  apply Spells.perm _ (Text.byKey_perm _).symm
  · simp only [List.map_cons, List.map_nil, UnitKind.toJson, Json.keyed_text, Json.keyed_list,
      List.map_map]
    exact spells_fields Dependency.spells_keyed_toJson u
  · exact (by decide : ["identifier", "kind", "file_path", "dependencies"].Nodup)

theorem ofValue_of_spells {v : Json} (h : Spells v u) : ofValue v = u.validate.map fun _ => u := by
  rw [ofValue, (ofJson_eq_ok_iff v u).mpr h]

theorem ofValue_eq_ok_iff_spells {v : Json} :
    ofValue v = .ok u ↔ Spells v u ∧ u.validate = .ok () := by
  constructor
  · intro h
    cases hv : ofJson v with
    | error m =>
      rw [ofValue, hv] at h
      cases h
    | ok u' =>
      have hspells := (ofJson_eq_ok_iff v u').mp hv
      rw [ofValue_of_spells hspells] at h
      obtain ⟨_, hvalid, rfl⟩ := map_eq_ok_iff.mp h
      exact ⟨hspells, hvalid⟩
  · rintro ⟨hspells, hvalid⟩
    rw [ofValue_of_spells hspells, hvalid]
    rfl

/-- Decoding the JSON form of a unit gives the unit, or the error for which it is not valid. The
values that are decoded to a unit are those that spell it, and so decoding a value, encoding the unit
and decoding again gives the unit once more. -/
theorem ofValue_serialized :
    (∀ u : CodeUnit, ofValue u.toJson = (u.validate.map fun _ => u) ∧
        ofValue u.toJson.keyed = u.validate.map fun _ => u) ∧
      (∀ v u, ofValue v = .ok u ↔ Spells v u ∧ u.validate = .ok ()) ∧
        ∀ v u, ofValue v = .ok u → ofValue u.toJson = .ok u ∧ ofValue u.toJson.keyed = .ok u := by
  refine ⟨fun u => ⟨ofValue_of_spells (spells_toJson u), ofValue_of_spells (spells_keyed_toJson u)⟩,
    fun v u => ofValue_eq_ok_iff_spells, fun v u h => ?_⟩
  have hvalid := (ofValue_eq_ok_iff_spells.mp h).2
  exact ⟨ofValue_eq_ok_iff_spells.mpr ⟨spells_toJson u, hvalid⟩,
    ofValue_eq_ok_iff_spells.mpr ⟨spells_keyed_toJson u, hvalid⟩⟩

/-- A unit under other names, with fields that say nothing and fields that are left out. -/
def looseUnit : Json :=
  .object [("dependencies", .list [.object [("target", .text "store"), ("via", .null)],
      .list [.text "model", .text "cart"]]),
    ("identifier", .text "reader"), ("line", .int 7), ("type", .object [("vendored", .null)])]

def strictUnit : CodeUnit :=
  ⟨"reader", .framework, "",
    [⟨"store", "dependency", none, ""⟩, ⟨"cart", "dependency", none, "model"⟩]⟩

theorem ofValue_serialized_looseUnit : ofValue looseUnit = .ok strictUnit ∧
    ofValue strictUnit.toJson = .ok strictUnit ∧ ofValue strictUnit.toJson.keyed = .ok strictUnit := by
  have h : ofValue looseUnit = .ok strictUnit := by rfl
  exact ⟨h, ofValue_serialized.2.2 looseUnit strictUnit h⟩

end CodeUnit

end DependencyAtlas
