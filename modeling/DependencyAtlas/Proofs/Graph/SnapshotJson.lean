import DependencyAtlas.Graph.SnapshotJson
import DependencyAtlas.Proofs.Json.Records
import DependencyAtlas.Proofs.Json.RoundTrip
import DependencyAtlas.Proofs.Text.Ascending

/-!
# Decoding snapshots

A snapshot is decoded from its JSON form, as it is written and as it is read with the fields of its
objects in order, although writing has left out the labels of edges that say nothing.
-/

namespace DependencyAtlas

open Decoding

namespace Registration

theorem keyed_toJson (r : Registration) :
    r.toJson.keyed = .object [("file_path", .text r.file), ("kind", r.kind.toJson)] := by
  rw [toJson, Json.keyed_object]
  congr 1
  apply Text.byKey_of_mem_iff
  · exact (by decide : ["kind", "file_path"].Nodup)
  · exact (by decide : ["file_path", "kind"].Pairwise (· < ·))
  · intro f
    simp [UnitKind.toJson, or_comm]

theorem ofJson_toJson (r : Registration) : ofJson r.toJson = .ok r := by
  rw [toJson]
  simp only [ofJson, ofFields, visitFields, List.foldlM_cons, List.foldlM_nil, Draft.visit, fill,
    UnitKind.ofJson_toJson]
  rfl

theorem ofJson_keyed_toJson (r : Registration) : ofJson r.toJson.keyed = .ok r := by
  rw [keyed_toJson]
  simp only [ofJson, ofFields, visitFields, List.foldlM_cons, List.foldlM_nil, Draft.visit, fill,
    UnitKind.ofJson_toJson]
  rfl

theorem shallow_toJson (r : Registration) (n : Nat) : Json.Shallow (n + 1) r.toJson := by
  apply Json.Shallow.object
  intro f hf
  simp only [List.mem_cons, List.not_mem_nil, or_false] at hf
  rcases hf with rfl | rfl
  · exact .text _
  · exact .text _

end Registration

namespace DependencyEdge

/-- The fields of the labels of an edge that are printed only if they say something. -/
def kindField (e : DependencyEdge) : List (String × Json) :=
  if e.targetKind.isEmpty then [] else [("type", .text e.targetKind)]

def viaField (e : DependencyEdge) : List (String × Json) :=
  match e.via with
  | none => []
  | some via => [("via", .text via)]

theorem keys_kindField (e : DependencyEdge) :
    e.kindField.map Prod.fst = [] ∨ e.kindField.map Prod.fst = ["type"] := by
  rw [kindField]
  split
  · exact .inl rfl
  · exact .inr rfl

theorem keys_viaField (e : DependencyEdge) :
    e.viaField.map Prod.fst = [] ∨ e.viaField.map Prod.fst = ["via"] := by
  rw [viaField]
  cases e.via with
  | none => exact .inl rfl
  | some via => exact .inr rfl

theorem shallow_of_mem_labels {e : DependencyEdge} {f : String × Json}
    (h : f ∈ e.viaField ++ e.kindField) (n : Nat) : Json.Shallow n f.2 := by
  rw [viaField, kindField, List.mem_append] at h
  rcases h with h | h
  · split at h
    · exact absurd h List.not_mem_nil
    · exact List.mem_singleton.mp h ▸ .text _
  · split at h
    · exact absurd h List.not_mem_nil
    · exact List.mem_singleton.mp h ▸ .text _

theorem keyed_kindField (e : DependencyEdge) :
    (e.kindField.map fun f => (f.1, f.2.keyed)) = e.kindField := by
  rw [kindField]
  split <;> simp

theorem keyed_viaField (e : DependencyEdge) :
    (e.viaField.map fun f => (f.1, f.2.keyed)) = e.viaField := by
  rw [viaField]
  cases e.via <;> simp

theorem toJson_eq (e : DependencyEdge) :
    e.toJson = .object ([("source", .text e.source), ("target", .text e.target),
      ("relationship", .text e.relationship)] ++ (e.viaField ++ e.kindField)) := by
  rw [toJson, List.append_assoc]
  rfl

theorem shallow_toJson (e : DependencyEdge) (n : Nat) : Json.Shallow (n + 1) e.toJson := by
  rw [toJson_eq]
  apply Json.Shallow.object
  intro f hf
  rcases List.mem_append.mp hf with hf | hf
  · simp only [List.mem_cons, List.not_mem_nil, or_false] at hf
    rcases hf with rfl | rfl | rfl
    · exact .text _
    · exact .text _
    · exact .text _
  · exact shallow_of_mem_labels hf n

theorem keyed_toJson (e : DependencyEdge) :
    e.toJson.keyed = .object ([("relationship", .text e.relationship), ("source", .text e.source),
      ("target", .text e.target)] ++ (e.kindField ++ e.viaField)) := by
  rw [toJson_eq, Json.keyed_object, List.map_append, List.map_append, keyed_kindField,
    keyed_viaField]
  congr 1
  simp only [List.map_cons, List.map_nil, Json.keyed_text]
  apply Text.byKey_of_mem_iff
  · rw [List.map_append, List.map_append]
    change (["source", "target", "relationship"] ++ (_ ++ _)).Nodup
    rcases e.keys_kindField with hkind | hkind <;> rcases e.keys_viaField with hvia | hvia <;>
      rw [hkind, hvia] <;> decide
  · rw [List.map_append, List.map_append]
    change (["relationship", "source", "target"] ++ (_ ++ _)).Pairwise (· < ·)
    rcases e.keys_kindField with hkind | hkind <;> rcases e.keys_viaField with hvia | hvia <;>
      rw [hkind, hvia] <;> decide
  · intro f
    simp only [List.mem_append, List.mem_cons, List.not_mem_nil, or_false]
    grind

theorem ofJson_forms (e : DependencyEdge) :
    ofJson e.toJson = .ok e ∧ ofJson e.toJson.keyed = .ok e := by
  rw [keyed_toJson, toJson_eq, kindField, viaField]
  obtain ⟨source, target, relationship, via, targetKind⟩ := e
  by_cases hkind : targetKind.isEmpty = true
  · simp only [hkind, if_true]
    obtain rfl := String.isEmpty_iff.mp hkind
    cases via <;> exact ⟨rfl, rfl⟩
  · simp only [hkind, Bool.false_eq_true, if_false]
    cases via <;> exact ⟨rfl, rfl⟩

end DependencyEdge

namespace NodeMap

theorem keyed_toJson (m : NodeMap) :
    m.toJson.keyed = .object (m.entries.map fun e => (e.1, e.2.toJson.keyed)) := by
  rw [toJson, Json.keyed_object, List.map_map]
  congr 1
  apply Text.byKey_of_pairwise
  rw [List.pairwise_map]
  exact m.ascending

theorem ofJson_entries {encode : Registration → Json}
    (h : ∀ r, Registration.ofJson (encode r) = .ok r) (m : NodeMap) :
    ofJson (.object (m.entries.map fun e => (e.1, encode e.2))) = .ok m := by
  have hentry : ∀ e : String × Registration, entryOfField (e.1, encode e.2) = .ok e := by
    intro e
    rw [entryOfField, h]
    rfl
  rw [ofJson, mapM_map_eq_ok hentry]
  exact congrArg Except.ok (NodeMap.ext (Text.byKey_of_pairwise m.ascending))

theorem ofJson_toJson (m : NodeMap) : ofJson m.toJson = .ok m :=
  ofJson_entries Registration.ofJson_toJson m

theorem ofJson_keyed_toJson (m : NodeMap) : ofJson m.toJson.keyed = .ok m := by
  rw [keyed_toJson]
  exact ofJson_entries Registration.ofJson_keyed_toJson m

end NodeMap

namespace Snapshot

theorem keyed_toJson (s : Snapshot) :
    s.toJson.keyed = .object [("content_hash", .text s.contentHash),
      ("edges", .list (s.edges.map fun e => e.toJson.keyed)), ("nodes", s.nodes.toJson.keyed)] := by
  rw [toJson, Json.keyed_object]
  congr 1
  apply Text.byKey_of_mem_iff
  · exact (by decide : ["nodes", "edges", "content_hash"].Nodup)
  · exact (by decide : ["content_hash", "edges", "nodes"].Pairwise (· < ·))
  · intro f
    simp only [List.map_cons, List.map_nil, Json.keyed_list, Json.keyed_text, List.map_map,
      Function.comp_def, List.mem_cons, List.not_mem_nil, or_false]
    grind

theorem ofJson_toJson (s : Snapshot) : ofJson s.toJson = .ok s := by
  have hedges : listOf DependencyEdge.ofJson (.list (s.edges.map DependencyEdge.toJson)) =
      .ok s.edges :=
    mapM_map_eq_ok (fun e => (DependencyEdge.ofJson_forms e).1) s.edges
  rw [toJson]
  simp only [ofJson, ofFields, visitFields, List.foldlM_cons, List.foldlM_nil, Draft.visit, fill,
    hedges, NodeMap.ofJson_toJson]
  rfl

theorem ofJson_keyed_toJson (s : Snapshot) : ofJson s.toJson.keyed = .ok s := by
  have hedges : listOf DependencyEdge.ofJson (.list (s.edges.map fun e => e.toJson.keyed)) =
      .ok s.edges :=
    mapM_map_eq_ok (fun e => (DependencyEdge.ofJson_forms e).2) s.edges
  rw [keyed_toJson]
  simp only [ofJson, ofFields, visitFields, List.foldlM_cons, List.foldlM_nil, Draft.visit, fill,
    hedges, NodeMap.ofJson_keyed_toJson]
  rfl

theorem shallow_toJson (s : Snapshot) (n : Nat) : Json.Shallow (n + 3) s.toJson := by
  apply Json.Shallow.object
  intro f hf
  simp only [List.mem_cons, List.not_mem_nil, or_false] at hf
  rcases hf with rfl | rfl | rfl
  · apply Json.Shallow.object
    intro f hf
    obtain ⟨e, -, rfl⟩ := List.mem_map.mp hf
    exact e.2.shallow_toJson n
  · apply Json.Shallow.list
    intro v hv
    obtain ⟨e, -, rfl⟩ := List.mem_map.mp hv
    exact e.shallow_toJson n
  · exact .text _

theorem read_print_toJson (s : Snapshot) : Json.read s.toJson.print = .ok s.toJson.keyed := by
  have hempty : ∀ b ∈ Text.bytes "", Json.isBlankByte b = true := by
    rw [Text.bytes_eq_flatMap]
    exact List.forall_mem_nil _
  have h := Json.read_print (s.shallow_toJson 124) hempty
  rwa [String.append_empty] at h

/-- A snapshot is decoded from its JSON form, and the form is read from the text that it is printed
as; so decoding a value, encoding the snapshot and decoding again gives the snapshot once more. -/
theorem ofJson_serialized :
    (∀ s : Snapshot, ofJson s.toJson = .ok s ∧ ofJson s.toJson.keyed = .ok s ∧
        Json.read s.toJson.print = .ok s.toJson.keyed) ∧
      ∀ v s, ofJson v = .ok s → ofJson s.toJson = .ok s ∧ ofJson s.toJson.keyed = .ok s :=
  ⟨fun s => ⟨s.ofJson_toJson, s.ofJson_keyed_toJson, s.read_print_toJson⟩,
    fun _ s _ => ⟨s.ofJson_toJson, s.ofJson_keyed_toJson⟩⟩

/-- A snapshot with names and forms that are not those it is written with. -/
def looseSnapshot : Json :=
  .object [("content_hash", .text "unknown"),
    ("edges", .list [.object [("relationship", .text "call"), ("source", .text "reader"),
        ("target", .text "store"), ("type", .text ""), ("via", .null)],
      .list [.text "reader", .text "cart", .text "call", .text ""]]),
    ("nodes", .object [("reader", .object [("kind", .text "vendored"), ("line", .int 7)]),
      ("cart", .list [.object [("model", .null)]])])]

def strictSnapshot : Snapshot :=
  ⟨.ofList [("reader", ⟨.framework, ""⟩), ("cart", ⟨.model, ""⟩)],
    [⟨"reader", "store", "call", none, ""⟩, ⟨"reader", "cart", "call", some "", ""⟩], "unknown"⟩

theorem ofJson_serialized_looseSnapshot : ofJson looseSnapshot = .ok strictSnapshot ∧
    ofJson strictSnapshot.toJson = .ok strictSnapshot ∧
      ofJson strictSnapshot.toJson.keyed = .ok strictSnapshot := by
  have h : ofJson looseSnapshot = .ok strictSnapshot := by rfl
  exact ⟨h, ofJson_serialized.2 looseSnapshot strictSnapshot h⟩

end Snapshot

end DependencyAtlas
