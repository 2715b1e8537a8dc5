import DependencyAtlas.Proofs.Graph.LastUnits
import DependencyAtlas.Proofs.Graph.RoundTrip
import Mathlib.Data.List.Forall2

/-!
# Histories that agree

Two histories agree if their last units do, identifier by identifier. If these differ in the order
of their dependencies only, the graphs have the same content. If they have the same targets, the
graphs have the same shape.
-/

namespace DependencyAtlas

/-- Two units that differ in the order of their dependencies at most. -/
structure CodeUnit.Reordered (u v : CodeUnit) : Prop where
  identifier : u.identifier = v.identifier
  kind : u.kind = v.kind
  file : u.file = v.file
  dependencies : u.dependencies.Perm v.dependencies

/-- Two units that depend on the same targets. Labels, order and repetition do not count. -/
structure CodeUnit.SameTargets (u v : CodeUnit) : Prop where
  identifier : u.identifier = v.identifier
  kind : u.kind = v.kind
  file : u.file = v.file
  target_iff : ∀ t, (∃ d ∈ u.dependencies, d.target = t) ↔ ∃ d ∈ v.dependencies, d.target = t

namespace CodeUnit

variable {u v : CodeUnit}

theorem Reordered.refl (u : CodeUnit) : u.Reordered u :=
  ⟨rfl, rfl, rfl, List.Perm.refl _⟩

theorem Reordered.sameTargets (h : u.Reordered v) : u.SameTargets v :=
  ⟨h.identifier, h.kind, h.file, fun t => by simp only [h.dependencies.mem_iff]⟩

theorem Reordered.edges_perm (h : u.Reordered v) : u.edges.Perm v.edges := by
  rw [edges, edges, h.identifier]
  exact h.dependencies.map _

theorem SameTargets.registered_eq (h : u.SameTargets v) : u.registered = v.registered := by
  rw [registered, registered, h.identifier, h.kind, h.file]

theorem SameTargets.isValid_eq (h : u.SameTargets v) : u.isValid = v.isValid := by
  rw [Bool.eq_iff_iff, isValid_iff, isValid_iff, h.identifier]
  apply and_congr_right
  intro _
  constructor
  · intro hu d hd
    obtain ⟨e, he, ht⟩ := (h.target_iff d.target).mpr ⟨d, hd, rfl⟩
    exact ht ▸ hu e he
  · intro hv d hd
    obtain ⟨e, he, ht⟩ := (h.target_iff d.target).mp ⟨d, hd, rfl⟩
    exact ht ▸ hv e he

theorem isValid_of_forall₂ {units units' : List CodeUnit}
    (h : List.Forall₂ SameTargets units units') (hvalid : ∀ u ∈ units, u.isValid = true) :
    ∀ v ∈ units', v.isValid = true := by
  induction h with
  | nil => exact hvalid
  | cons huv _ ih =>
    obtain ⟨hu, hunits⟩ := List.forall_mem_cons.mp hvalid
    exact List.forall_mem_cons.mpr ⟨huv.isValid_eq ▸ hu, ih hunits⟩

end CodeUnit

theorem optionRel_cases {α : Type} {R : α → α → Prop} {a b : Option α} (h : Option.Rel R a b) :
    a = none ∧ b = none ∨ ∃ u v, a = some u ∧ b = some v ∧ R u v := by
  cases h with
  | none => exact .inl ⟨rfl, rfl⟩
  | some huv => exact .inr ⟨_, _, rfl, rfl, huv⟩

/-- The last units of two histories are related, identifier by identifier. -/
def HistoriesAgree (R : CodeUnit → CodeUnit → Prop) (history history' : List CodeUnit) : Prop :=
  ∀ x, Option.Rel R (lastUnit? history x) (lastUnit? history' x)

section Agree

variable {R : CodeUnit → CodeUnit → Prop} {history history' : List CodeUnit} {x : String}

theorem HistoriesAgree.imp {S : CodeUnit → CodeUnit → Prop} (hRS : ∀ u v, R u v → S u v)
    (h : HistoriesAgree R history history') : HistoriesAgree S history history' := by
  intro x
  rcases optionRel_cases (h x) with ⟨hu, hv⟩ | ⟨u, v, hu, hv, huv⟩
  · rw [hu, hv]
    exact .none
  · rw [hu, hv]
    exact .some (hRS u v huv)

/-- Only the units under an identifier decide which one is the last. -/
theorem lastUnit?_eq_getLast? (history : List CodeUnit) (x : String) :
    lastUnit? history x = (history.filter fun u => u.identifier == x).getLast? := by
  rw [lastUnit?, List.getLast?_eq_head?_reverse, ← List.filter_reverse, List.head?_filter]

theorem historiesAgree_of_filter_eq
    (h : ∀ x, (history.filter fun u => u.identifier == x) =
      history'.filter fun u => u.identifier == x) :
    HistoriesAgree CodeUnit.Reordered history history' := by
  intro x
  rw [lastUnit?_eq_getLast?, lastUnit?_eq_getLast?, h]
  cases (history'.filter fun u => u.identifier == x).getLast? with
  | some u => exact .some (.refl u)
  | none => exact .none

theorem historiesAgree_of_forall₂ (hR : ∀ u v, R u v → u.identifier = v.identifier)
    (h : List.Forall₂ R history history') : HistoriesAgree R history history' := by
  intro x
  have hreverse : List.Forall₂ R history.reverse history'.reverse := List.rel_reverse h
  rw [lastUnit?, lastUnit?]
  generalize history.reverse = us, history'.reverse = vs at hreverse
  induction hreverse with
  | nil => exact .none
  | @cons u v us vs huv _ ih =>
    rw [List.find?_cons, List.find?_cons, hR u v huv]
    split
    · exact .some huv
    · exact ih

theorem isSome_lastUnit?_iff :
    (lastUnit? history x).isSome = true ↔ x ∈ history.map CodeUnit.identifier := by
  rw [lastUnit?, List.find?_isSome, List.mem_map]
  simp only [List.mem_reverse, beq_iff_eq]

theorem HistoriesAgree.isSome_eq (h : HistoriesAgree R history history') (x : String) :
    (lastUnit? history x).isSome = (lastUnit? history' x).isSome := by
  rcases optionRel_cases (h x) with ⟨hu, hv⟩ | ⟨u, v, hu, hv, -⟩
  · rw [hu, hv]
  · rw [hu, hv]
    rfl

theorem forall₂_filterMap {f g : String → Option CodeUnit} (h : ∀ x, Option.Rel R (f x) (g x))
    (xs : List String) : List.Forall₂ R (xs.filterMap f) (xs.filterMap g) := by
  induction xs with
  | nil => exact .nil
  | cons x xs ih =>
    rw [List.filterMap_cons, List.filterMap_cons]
    rcases optionRel_cases (h x) with ⟨hu, hv⟩ | ⟨u, v, hu, hv, huv⟩
    · rwa [hu, hv]
    · rw [hu, hv]
      exact .cons huv ih

theorem HistoriesAgree.forall₂_lastUnits (h : HistoriesAgree R history history') :
    List.Forall₂ R (lastUnits history) (lastUnits history') := by
  have hidentifiers : Text.ascending (history.map CodeUnit.identifier) =
      Text.ascending (history'.map CodeUnit.identifier) := by
    apply Text.ascending_congr
    intro x
    rw [← isSome_lastUnit?_iff, ← isSome_lastUnit?_iff, h.isSome_eq]
  rw [lastUnits, lastUnits, hidentifiers]
  exact forall₂_filterMap h _

theorem flatMap_edges_perm (h : List.Forall₂ CodeUnit.Reordered history history') :
    (history.flatMap CodeUnit.edges).Perm (history'.flatMap CodeUnit.edges) := by
  induction h with
  | nil => exact .refl _
  | cons huv _ ih =>
    rw [List.flatMap_cons, List.flatMap_cons]
    exact huv.edges_perm.append ih

end Agree

namespace Graph

variable {g h : Graph} {history history' : List CodeUnit}

theorem Represents.declares_iff (hg : g.Represents history) {x y : String} :
    g.Declares x y ↔
      ∃ u, lastUnit? history x = some u ∧ ∃ d ∈ u.dependencies, d.target = y := by
  simp only [Declares, hg.mem_declarations, mem_lastUnits]
  constructor
  · rintro ⟨_, ⟨u, hu, d, hd, rfl⟩, rfl, rfl⟩
    exact ⟨u, hu, d, hd, rfl⟩
  · rintro ⟨u, hu, d, hd, rfl⟩
    obtain rfl := identifier_of_lastUnit? hu
    exact ⟨_, ⟨u, hu, d, hd, rfl⟩, rfl, rfl⟩

theorem Represents.sameShape (hg : g.Represents history) (hh : h.Represents history')
    (ha : HistoriesAgree CodeUnit.SameTargets history history') : g.SameShape h := by
  refine ⟨fun x => ?_, fun x y => ?_⟩
  · rw [hg.unit?, hh.unit?]
    rcases optionRel_cases (ha x) with ⟨hu, hv⟩ | ⟨u, v, hu, hv, huv⟩
    · rw [hu, hv]
    · rw [hu, hv, Option.map_some, Option.map_some, huv.registered_eq]
  · rw [hg.declares_iff, hh.declares_iff]
    rcases optionRel_cases (ha x) with ⟨hu, hv⟩ | ⟨u, v, hu, hv, huv⟩
    · simp only [hu, hv]
    · simp only [hu, hv, Option.some.injEq, exists_eq_left', huv.target_iff]

theorem Represents.sameContent (hg : g.Represents history) (hh : h.Represents history')
    (ha : HistoriesAgree CodeUnit.Reordered history history') : g.SameContent h := by
  refine ⟨(hg.sameShape hh (ha.imp fun _ _ => CodeUnit.Reordered.sameTargets)).unit?, ?_⟩
  exact (hg.declarations.trans (flatMap_edges_perm ha.forall₂_lastUnits)).trans
    hh.declarations.symm

end Graph

end DependencyAtlas
