import DependencyAtlas.Proofs.Json.Records
import DependencyAtlas.Unit.Record
import Mathlib.Tactic.MkIffOfInductiveProp

/-!
# How units are spelled

A grammar of the JSON values that are read as a unit. In an object the fields stand in any order
among others that do not count, the kind under either of two keys and by any of its names, and what
has a default may be missing; in a list the fields stand in their declared order. The decoders accept
exactly these values.
-/

namespace DependencyAtlas

open Decoding

namespace UnitKind

inductive Spells : Json → UnitKind → Prop
  | word {s : String} {k : UnitKind} (h : s ∈ k.name :: k.aliases) : Spells (.text s) k
  | tagged {s : String} {k : UnitKind} (h : s ∈ k.name :: k.aliases) :
      Spells (.object [(s, .null)]) k

theorem ofWord?_eq_some_iff {s : String} {k : UnitKind} :
    ofWord? s = some k ↔ s ∈ k.name :: k.aliases := by
  constructor
  · intro h
    have hk := List.find?_some h
    rw [Bool.or_eq_true, beq_iff_eq, List.contains_iff_mem] at hk
    exact List.mem_cons.mpr (hk.imp_left Eq.symm)
  · -- No word is a name of two kinds.
    intro h
    have hwords : ∀ k ∈ all, ∀ s ∈ k.name :: k.aliases, ofWord? s = some k := by decide
    exact hwords k (mem_all k) s h

theorem ofName_eq_ok_iff {s : String} {k : UnitKind} :
    ofName s = .ok k ↔ s ∈ k.name :: k.aliases := by
  rw [← ofWord?_eq_some_iff, ofName]
  cases ofWord? s <;> simp

theorem ofJson_eq_ok_iff (v : Json) (k : UnitKind) : ofJson v = .ok k ↔ Spells v k := by
  constructor
  · intro h
    unfold ofJson at h
    split at h
    · exact .word (ofName_eq_ok_iff.mp h)
    · obtain ⟨k', hk, h⟩ := bind_eq_ok_iff.mp h
      split at h
      · cases h
        exact .tagged (ofName_eq_ok_iff.mp hk)
      · cases h
    · cases h
    · cases h
  · rintro (h | h)
    · exact ofName_eq_ok_iff.mpr h
    · exact bind_eq_ok_iff.mpr ⟨k, ofName_eq_ok_iff.mpr h, rfl⟩

end UnitKind

namespace Dependency

inductive Spells : Json → Dependency → Prop
  | object {fields : List (String × Json)} {target relationship : String} {via : Option String}
      {kind : String} (hkind : Optionally "" (· = .text ·) (under ["type"] fields) kind)
      (htarget : under ["target"] fields = [.text target])
      (hrelationship : Optionally defaultRelationship (· = .text ·)
        (under ["relationship"] fields) relationship)
      (hvia : Optionally none IsLabel (under ["via"] fields) via) :
      Spells (.object fields) ⟨target, relationship, via, kind⟩
  | list {rest : List Json} {kind target relationship : String} {via : Option String}
      (hrelationship : Optionally defaultRelationship (· = .text ·) (rest.take 1) relationship)
      (hvia : Optionally none IsLabel (rest.drop 1) via) :
      Spells (.list (.text kind :: .text target :: rest)) ⟨target, relationship, via, kind⟩

/-- What the slots become when fields are visited. -/
@[mk_iff]
structure Draft.Filled (d : Draft) (fields : List (String × Json)) (d' : Draft) : Prop where
  kind : Fills text d.kind (under ["type"] fields) d'.kind
  target : Fills text d.target (under ["target"] fields) d'.target
  relationship : Fills text d.relationship (under ["relationship"] fields) d'.relationship
  via : Fills optionalText d.via (under ["via"] fields) d'.via

theorem Draft.filled_nil (d d' : Draft) : d.Filled [] d' ↔ d = d' := by
  cases d
  cases d'
  simp [filled_iff, under_nil, fills_nil_iff]

theorem Draft.filled_cons (d : Draft) (f : String × Json) (fields : List (String × Json))
    (d' : Draft) : d.Filled (f :: fields) d' ↔
      ∃ mid, d.visit f.1 f.2 = .ok mid ∧ mid.Filled fields d' := by
  obtain ⟨key, v⟩ := f
  simp only [visit]
  split
  case h_5 => simp_all [filled_iff, under_cons, pure_eq_ok_iff]
  all_goals
    simp only [filled_iff, under_cons, exists_set_iff, List.mem_singleton, String.reduceEq, if_true,
      if_false, fill_eq_ok_iff, fills_cons_iff]
    grind

theorem ofFields_eq_ok_iff {fields : List (String × Json)} {d : Dependency} :
    ofFields fields = .ok d ↔ Spells (.object fields) d := by
  rw [ofFields]
  simp only [bind_eq_ok_iff, visitFields_eq_ok_iff Draft.filled_nil Draft.filled_cons,
    pure_eq_ok_iff]
  constructor
  · rintro ⟨draft, ⟨hkind, htarget, hrelationship, hvia⟩, target, h, rfl⟩
    obtain ⟨v, hv, rfl⟩ := (exists_fills_require_iff _ text_eq_ok_iff).mp ⟨_, htarget, h⟩
    exact .object ((exists_fills_getD_iff text_eq_ok_iff).mp ⟨_, hkind, rfl⟩) hv
      ((exists_fills_getD_iff text_eq_ok_iff).mp ⟨_, hrelationship, rfl⟩)
      ((exists_fills_getD_iff optionalText_eq_ok_iff).mp ⟨_, hvia, rfl⟩)
  · rintro ⟨hkind, htarget, hrelationship, hvia⟩
    obtain ⟨k, hk, rfl⟩ := (exists_fills_getD_iff text_eq_ok_iff).mpr hkind
    obtain ⟨t, ht, h⟩ :=
      (exists_fills_require_iff "target" text_eq_ok_iff).mpr ⟨_, htarget, rfl⟩
    obtain ⟨r, hr, rfl⟩ := (exists_fills_getD_iff text_eq_ok_iff).mpr hrelationship
    obtain ⟨o, ho, rfl⟩ := (exists_fills_getD_iff optionalText_eq_ok_iff).mpr hvia
    exact ⟨⟨k, t, r, o⟩, ⟨hk, ht, hr, ho⟩, _, h, rfl⟩

theorem ofItems_eq_ok_iff {items : List Json} {d : Dependency} :
    ofItems items = .ok d ↔ Spells (.list items) d := by
  rw [ofItems]
  simp only [bind_eq_ok_iff, Prod.exists, nextItem_eq_ok_iff, requireItem_eq_ok_iff,
    endOfItems_eq_ok_iff]
  constructor
  · rintro ⟨kind, _, ⟨hkind, rfl⟩, target, rest, ⟨v, hitems, hv⟩, relationship, _,
      ⟨hrelationship, rfl⟩, via, _, ⟨hvia, rfl⟩, hend, rfl⟩
    cases items with
    | nil => cases hitems
    | cons w items =>
      obtain rfl : items = v :: rest := hitems
      obtain rfl := (text_eq_ok_iff _ _).mp hv
      cases hkind with
      | value hw =>
        obtain rfl := (text_eq_ok_iff _ _).mp hw
        exact .list ((exists_fills_getD_iff text_eq_ok_iff).mp ⟨_, hrelationship, rfl⟩)
          ((exists_fills_getD_iff optionalText_eq_ok_iff).mp
            ⟨_, fills_last_iff.mp ⟨hvia, hend⟩, rfl⟩)
  · rintro (_ | ⟨hrelationship, hvia⟩)
    obtain ⟨r, hr, rfl⟩ := (exists_fills_getD_iff text_eq_ok_iff).mpr hrelationship
    obtain ⟨o, ho, rfl⟩ := (exists_fills_getD_iff optionalText_eq_ok_iff).mpr hvia
    obtain ⟨hlast, hend⟩ := fills_last_iff.mpr ho
    exact ⟨some _, _, ⟨.value rfl, rfl⟩, _, _, ⟨_, rfl, rfl⟩, r, _, ⟨hr, rfl⟩, o, _, ⟨hlast, rfl⟩,
      hend, rfl⟩

theorem ofJson_eq_ok_iff (v : Json) (d : Dependency) : ofJson v = .ok d ↔ Spells v d := by
  cases v with
  | object fields => exact ofFields_eq_ok_iff
  | list items => exact ofItems_eq_ok_iff
  | _ => exact ⟨nofun, nofun⟩

end Dependency

namespace CodeUnit

inductive Spells : Json → CodeUnit → Prop
  | object {fields : List (String × Json)} {v : Json} {identifier file : String} {kind : UnitKind}
      {dependencies : List Dependency}
      (hidentifier : under ["identifier"] fields = [.text identifier])
      (hkind : under ["kind", "type"] fields = [v]) (hv : UnitKind.Spells v kind)
      (hfile : Optionally "" (· = .text ·) (under ["file_path"] fields) file)
      (hdependencies : Optionally [] (IsList Dependency.Spells) (under ["dependencies"] fields)
        dependencies) : Spells (.object fields) ⟨identifier, kind, file, dependencies⟩
  | list {v : Json} {rest : List Json} {identifier file : String} {kind : UnitKind}
      {dependencies : List Dependency} (hv : UnitKind.Spells v kind)
      (hfile : Optionally "" (· = .text ·) (rest.take 1) file)
      (hdependencies : Optionally [] (IsList Dependency.Spells) (rest.drop 1) dependencies) :
      Spells (.list (.text identifier :: v :: rest)) ⟨identifier, kind, file, dependencies⟩

/-- What the slots become when fields are visited. -/
@[mk_iff]
structure Draft.Filled (d : Draft) (fields : List (String × Json)) (d' : Draft) : Prop where
  identifier : Fills text d.identifier (under ["identifier"] fields) d'.identifier
  kind : Fills UnitKind.ofJson d.kind (under ["kind", "type"] fields) d'.kind
  file : Fills text d.file (under ["file_path"] fields) d'.file
  dependencies : Fills (listOf Dependency.ofJson) d.dependencies (under ["dependencies"] fields)
    d'.dependencies

theorem Draft.filled_nil (d d' : Draft) : d.Filled [] d' ↔ d = d' := by
  cases d
  cases d'
  simp [filled_iff, under_nil, fills_nil_iff]

theorem Draft.filled_cons (d : Draft) (f : String × Json) (fields : List (String × Json))
    (d' : Draft) : d.Filled (f :: fields) d' ↔
      ∃ mid, d.visit f.1 f.2 = .ok mid ∧ mid.Filled fields d' := by
  obtain ⟨key, v⟩ := f
  simp only [visit]
  split
  case h_6 => simp_all [filled_iff, under_cons, pure_eq_ok_iff]
  all_goals
    simp only [filled_iff, under_cons, exists_set_iff, List.mem_cons, List.not_mem_nil, or_false,
      or_true, String.reduceEq, if_true, if_false, fill_eq_ok_iff, fills_cons_iff]
    grind

theorem ofFields_eq_ok_iff {fields : List (String × Json)} {u : CodeUnit} :
    ofFields fields = .ok u ↔ Spells (.object fields) u := by
  have hdecode := listOf_eq_ok_iff Dependency.ofJson_eq_ok_iff
  rw [ofFields]
  simp only [bind_eq_ok_iff, visitFields_eq_ok_iff Draft.filled_nil Draft.filled_cons,
    pure_eq_ok_iff]
  constructor
  · rintro ⟨draft, ⟨hidentifier, hkind, hfile, hdependencies⟩, identifier, hi, kind, hk, rfl⟩
    obtain ⟨v, hv, rfl⟩ := (exists_fills_require_iff _ text_eq_ok_iff).mp ⟨_, hidentifier, hi⟩
    obtain ⟨w, hw, hspells⟩ :=
      (exists_fills_require_iff _ UnitKind.ofJson_eq_ok_iff).mp ⟨_, hkind, hk⟩
    exact .object hv hw hspells ((exists_fills_getD_iff text_eq_ok_iff).mp ⟨_, hfile, rfl⟩)
      ((exists_fills_getD_iff hdecode).mp ⟨_, hdependencies, rfl⟩)
  · rintro ⟨hidentifier, hkind, hv, hfile, hdependencies⟩
    obtain ⟨i, hi, hi'⟩ :=
      (exists_fills_require_iff "identifier" text_eq_ok_iff).mpr ⟨_, hidentifier, rfl⟩
    obtain ⟨k, hk, hk'⟩ :=
      (exists_fills_require_iff "kind" UnitKind.ofJson_eq_ok_iff).mpr ⟨_, hkind, hv⟩
    obtain ⟨f, hf, rfl⟩ := (exists_fills_getD_iff text_eq_ok_iff).mpr hfile
    obtain ⟨d, hd, rfl⟩ := (exists_fills_getD_iff hdecode).mpr hdependencies
    exact ⟨⟨i, k, f, d⟩, ⟨hi, hk, hf, hd⟩, _, hi', _, hk', rfl⟩

theorem ofItems_eq_ok_iff {items : List Json} {u : CodeUnit} :
    ofItems items = .ok u ↔ Spells (.list items) u := by
  have hdecode := listOf_eq_ok_iff Dependency.ofJson_eq_ok_iff
  rw [ofItems]
  simp only [bind_eq_ok_iff, Prod.exists, nextItem_eq_ok_iff, requireItem_eq_ok_iff,
    endOfItems_eq_ok_iff]
  constructor
  · rintro ⟨identifier, _, ⟨v, rfl, hv⟩, kind, rest, ⟨w, rfl, hw⟩, file, _, ⟨hfile, rfl⟩,
      dependencies, _, ⟨hdependencies, rfl⟩, hend, rfl⟩
    obtain rfl := (text_eq_ok_iff _ _).mp hv
    exact .list ((UnitKind.ofJson_eq_ok_iff _ _).mp hw)
      ((exists_fills_getD_iff text_eq_ok_iff).mp ⟨_, hfile, rfl⟩)
      ((exists_fills_getD_iff hdecode).mp ⟨_, fills_last_iff.mp ⟨hdependencies, hend⟩, rfl⟩)
  · rintro (_ | ⟨hv, hfile, hdependencies⟩)
    obtain ⟨f, hf, rfl⟩ := (exists_fills_getD_iff text_eq_ok_iff).mpr hfile
    obtain ⟨d, hd, rfl⟩ := (exists_fills_getD_iff hdecode).mpr hdependencies
    obtain ⟨hlast, hend⟩ := fills_last_iff.mpr hd
    exact ⟨_, _, ⟨_, rfl, rfl⟩, _, _, ⟨_, rfl, (UnitKind.ofJson_eq_ok_iff _ _).mpr hv⟩, f, _,
      ⟨hf, rfl⟩, d, _, ⟨hlast, rfl⟩, hend, rfl⟩

theorem ofJson_eq_ok_iff (v : Json) (u : CodeUnit) : ofJson v = .ok u ↔ Spells v u := by
  cases v with
  | object fields => exact ofFields_eq_ok_iff
  | list items => exact ofItems_eq_ok_iff
  | _ => exact ⟨nofun, nofun⟩

end CodeUnit

end DependencyAtlas
