import DependencyAtlas.Output.Impact
import DependencyAtlas.Proofs.Graph.Distances
import Mathlib.Data.List.Sort
import Mathlib.Data.String.Basic

/-!
# The impact of a change

The units that a change of some files affects are the least set of registered units that contains
those defined in the files and, with a unit, its direct dependents. What is known of the answer for
several files or for one kind follows from this.
-/

namespace DependencyAtlas.Graph

/-- A unit with a file that is, in comparable form, one of the given ones. -/
def DefinedIn (g : Graph) (files : List String) (x : String) : Prop :=
  ∃ u, g.unit? x = some u ∧ u.file ≠ "" ∧
    ∃ file ∈ files, comparablePath file = comparablePath u.file

/-- Registered units among which are those defined in the files, and no dependent is left out. -/
structure ImpactClosed (g : Graph) (files : List String) (units : Set String) : Prop where
  registered : ∀ x ∈ units, g.contains x = true
  defined : ∀ x, g.DefinedIn files x → x ∈ units
  dependents : ∀ x ∈ units, ∀ y ∈ g.dependentsOf x, y ∈ units

structure ExactImpact (g : Graph) : Prop where
  ascending : ∀ files, (g.affectedBy files).Pairwise (· < ·)
  isLeast : ∀ files, IsLeast {units | g.ImpactClosed files units} {x | x ∈ g.affectedBy files}
  mono : ∀ files files', files ⊆ files' → (g.affectedBy files).Sublist (g.affectedBy files')
  append : ∀ files files', g.affectedBy (files ++ files') =
    Text.ascending (g.affectedBy files ++ g.affectedBy files')
  congr : ∀ files files', (∀ file, file ∈ files ↔ file ∈ files') →
    g.affectedBy files = g.affectedBy files'
  unfiltered : ∀ files, g.affectedOfKind files none = g.affectedBy files
  ofKind : ∀ files kind, (g.affectedOfKind files (some kind)).Sublist (g.affectedBy files)
  /-- The answers for the kinds share no unit and leave none out. -/
  existsUnique_kind : ∀ files, ∀ x ∈ g.affectedBy files,
    ∃! kind, x ∈ g.affectedOfKind files (some kind)

variable {g : Graph} {files files' : List String} {x y : String}

theorem DefinedIn.contains (h : g.DefinedIn files x) : g.contains x = true := by
  obtain ⟨u, hu, -⟩ := h
  exact Option.isSome_of_eq_some hu

theorem contains_of_mem_dependentsOf (hg : g.Indexed) (hy : y ∈ g.dependentsOf x) :
    g.contains y = true :=
  contains_of_mem_dependenciesOf hg ((mem_dependenciesOf_iff_mem_dependentsOf hg).mpr hy)

theorem isDefinedIn_iff {u : RegisteredUnit} :
    isDefinedIn (files.map comparablePath) u = true ↔
      u.file ≠ "" ∧ ∃ file ∈ files, comparablePath file = comparablePath u.file := by
  simp only [isDefinedIn, Bool.and_eq_true, Bool.not_eq_true', String.isEmpty_eq_false_iff,
    List.contains_iff_mem, List.mem_map]

theorem exists_unit_iff (hg : g.Indexed) :
    (∃ u ∈ g.units.filter (isDefinedIn (files.map comparablePath)), u.identifier = x) ↔
      g.DefinedIn files x := by
  simp only [DefinedIn, hg.unit?_eq_some_iff_mem_units, List.mem_filter, isDefinedIn_iff]
  constructor
  · rintro ⟨u, ⟨hu, hfile⟩, hx⟩
    exact ⟨u, ⟨hx, hu⟩, hfile⟩
  · rintro ⟨u, ⟨hx, hu⟩, hfile⟩
    exact ⟨u, ⟨hu, hfile⟩, hx⟩

theorem mem_cons_transitiveDependents (hg : g.Indexed) :
    y ∈ x :: g.transitiveDependents x none ↔
      Relation.ReflTransGen (fun a b => b ∈ g.dependentsOf a) x y := by
  rw [List.mem_cons, (dependentsWithin hg x none).mem_iff]
  constructor
  · rintro (rfl | ⟨-, -, n, hn, -⟩)
    · exact .refl
    · obtain ⟨p, hp, -⟩ := ((chainLength_iff hg n).mp hn).1
      exact hp.reflTransGen
  · intro h
    by_cases hne : y = x
    · exact .inl hne
    · obtain ⟨n, hn⟩ := exists_stepsApart h
      have hchain := (chainLength_iff hg n).mpr hn
      exact .inr ⟨hchain.contains hg hne, hne, n, hchain, hchain.one_le hne, by simp⟩

theorem mem_affectedBy (hg : g.Indexed) : x ∈ g.affectedBy files ↔ ∃ y, g.DefinedIn files y ∧
    Relation.ReflTransGen (fun a b => b ∈ g.dependentsOf a) y x := by
  rw [affectedBy_eq, Text.mem_ascending, List.mem_flatMap]
  simp only [mem_cons_transitiveDependents hg, ← exists_unit_iff hg]
  constructor
  · rintro ⟨u, hu, hreach⟩
    exact ⟨_, ⟨u, hu, rfl⟩, hreach⟩
  · rintro ⟨_, ⟨u, hu, rfl⟩, hreach⟩
    exact ⟨u, hu, hreach⟩

theorem pairwise_affectedBy (g : Graph) (files : List String) :
    (g.affectedBy files).Pairwise (· < ·) :=
  Text.pairwise_ascending _

theorem impactClosed_affectedBy (hg : g.Indexed) (files : List String) :
    g.ImpactClosed files {x | x ∈ g.affectedBy files} := by
  refine ⟨fun x hx => ?_, fun x hx => ?_, fun x hx y hy => ?_⟩
  · obtain ⟨y, hy, hreach⟩ := (mem_affectedBy hg).mp hx
    cases hreach with
    | refl => exact hy.contains
    | tail _ hzx => exact contains_of_mem_dependentsOf hg hzx
  · exact (mem_affectedBy hg).mpr ⟨x, hx, .refl⟩
  · obtain ⟨z, hz, hreach⟩ := (mem_affectedBy hg).mp hx
    exact (mem_affectedBy hg).mpr ⟨z, hz, hreach.tail hy⟩

theorem isLeast_affectedBy (hg : g.Indexed) (files : List String) :
    IsLeast {units | g.ImpactClosed files units} {x | x ∈ g.affectedBy files} := by
  refine ⟨impactClosed_affectedBy hg files, fun units hunits x hx => ?_⟩
  obtain ⟨y, hy, hreach⟩ := (mem_affectedBy hg).mp hx
  induction hreach with
  | refl => exact hunits.defined y hy
  | tail hreach hzx ih =>
    have hz := ih ((mem_affectedBy hg).mpr ⟨y, hy, hreach⟩)
    exact hunits.dependents _ hz _ hzx

theorem DefinedIn.mono (hsub : files ⊆ files') (h : g.DefinedIn files x) :
    g.DefinedIn files' x := by
  obtain ⟨u, hu, hne, file, hfile, heq⟩ := h
  exact ⟨u, hu, hne, file, hsub hfile, heq⟩

theorem definedIn_append :
    g.DefinedIn (files ++ files') x ↔ g.DefinedIn files x ∨ g.DefinedIn files' x := by
  constructor
  · rintro ⟨u, hu, hne, file, hfile, heq⟩
    rcases List.mem_append.mp hfile with hfile | hfile
    · exact .inl ⟨u, hu, hne, file, hfile, heq⟩
    · exact .inr ⟨u, hu, hne, file, hfile, heq⟩
  · rintro (h | h)
    · exact h.mono (List.subset_append_left _ _)
    · exact h.mono (List.subset_append_right _ _)

theorem affectedBy_subset (hg : g.Indexed) (hsub : files ⊆ files') :
    g.affectedBy files ⊆ g.affectedBy files' := by
  intro x hx
  obtain ⟨y, hy, hreach⟩ := (mem_affectedBy hg).mp hx
  exact (mem_affectedBy hg).mpr ⟨y, hy.mono hsub, hreach⟩

theorem affectedBy_sublist (hg : g.Indexed) (hsub : files ⊆ files') :
    (g.affectedBy files).Sublist (g.affectedBy files') :=
  List.sublist_of_subperm_of_pairwise
    (List.subperm_of_subset (pairwise_affectedBy g files).nodup (affectedBy_subset hg hsub))
    (pairwise_affectedBy g files) (pairwise_affectedBy g files')

theorem affectedBy_append (hg : g.Indexed) (files files' : List String) :
    g.affectedBy (files ++ files') =
      Text.ascending (g.affectedBy files ++ g.affectedBy files') := by
  apply Text.eq_of_ascending (fun s => s) (pairwise_affectedBy g _) (Text.pairwise_ascending _)
  intro x
  simp only [Text.mem_ascending, List.mem_append, mem_affectedBy hg, definedIn_append, or_and_right,
    exists_or]

theorem affectedBy_eq_of_mem_iff (hg : g.Indexed) (h : ∀ file, file ∈ files ↔ file ∈ files') :
    g.affectedBy files = g.affectedBy files' := by
  apply Text.eq_of_ascending (fun s => s) (pairwise_affectedBy g _) (pairwise_affectedBy g _)
  intro x
  constructor
  · intro hx
    exact affectedBy_subset hg (fun file => (h file).mp) hx
  · intro hx
    exact affectedBy_subset hg (fun file => (h file).mpr) hx

theorem mem_affectedOfKind (hg : g.Indexed) {kind : UnitKind} :
    x ∈ g.affectedOfKind files (some kind) ↔
      x ∈ g.affectedBy files ∧ ∃ u, g.unit? x = some u ∧ u.kind = kind := by
  simp only [affectedOfKind, unitsOfKind, hg.unit?_eq_some_iff_mem_units, List.mem_filter,
    List.contains_iff_mem, List.mem_map, beq_iff_eq]
  apply and_congr_right
  intro _
  constructor
  · rintro ⟨u, ⟨hu, hkind⟩, hx⟩
    exact ⟨u, ⟨hx, hu⟩, hkind⟩
  · rintro ⟨u, ⟨hx, hu⟩, hkind⟩
    exact ⟨u, ⟨hu, hkind⟩, hx⟩

theorem existsUnique_kind (hg : g.Indexed) (hx : x ∈ g.affectedBy files) :
    ∃! kind, x ∈ g.affectedOfKind files (some kind) := by
  obtain ⟨u, hu⟩ := Option.isSome_iff_exists.mp ((impactClosed_affectedBy hg files).registered x hx)
  refine ⟨u.kind, (mem_affectedOfKind hg).mpr ⟨hx, u, hu, rfl⟩, fun kind hkind => ?_⟩
  obtain ⟨-, v, hv, rfl⟩ := (mem_affectedOfKind hg).mp hkind
  rw [hu] at hv
  rw [Option.some.inj hv]

/-- After any calls the units that a change affects are exactly its impact. -/
theorem affectedBy_exact (calls : List Call) : (afterCalls calls).ExactImpact := by
  have hg := (represents_afterCalls calls).wellFormed.toIndexed
  exact
    { ascending := pairwise_affectedBy _
      isLeast := isLeast_affectedBy hg
      mono := fun _ _ => affectedBy_sublist hg
      append := affectedBy_append hg
      congr := fun _ _ => affectedBy_eq_of_mem_iff hg
      unfiltered := fun _ => rfl
      ofKind := fun _ _ => List.filter_sublist
      existsUnique_kind := fun _ _ => existsUnique_kind hg }

end DependencyAtlas.Graph
