import DependencyAtlas.Proofs.Graph.Registration
import DependencyAtlas.Proofs.Text.Ascending
import Mathlib.Data.List.TakeWhile

/-!
# Histories

A graph is built by calls that register one unit or several. Of all units that pass their check, the
last one under each identifier is what counts: a graph represents the finite map of these, whatever
was registered, replaced or refused before.
-/

namespace DependencyAtlas

theorem findIdx?_eq_some_iff_append {α : Type} {p : α → Bool} {xs : List α} {k : Nat} :
    xs.findIdx? p = some k ↔
      ∃ before x after, xs = before ++ x :: after ∧ before.length = k ∧ p x = true ∧
        ∀ y ∈ before, p y = false := by
  constructor
  · intro h
    obtain ⟨hk, hp, hbefore⟩ := List.findIdx?_eq_some_iff_getElem.mp h
    refine ⟨xs.take k, xs[k], xs.drop (k + 1), by simp, by simp; omega, hp, fun y hy => ?_⟩
    obtain ⟨j, hj, rfl⟩ := List.mem_take_iff_getElem.mp hy
    simpa using hbefore j (by omega)
  · rintro ⟨before, x, after, rfl, rfl, hp, hbefore⟩
    rw [List.findIdx?_append, List.findIdx?_eq_none_iff.mpr hbefore, List.findIdx?_cons, hp]
    simp

theorem pairwise_zipIdx {α : Type} (xs : List α) (k : Nat) :
    (xs.zipIdx k).Pairwise fun p q => p.2 < q.2 := by
  rw [← List.pairwise_map, List.zipIdx_map_snd]
  exact List.pairwise_lt_range'

namespace CodeUnit

def isValid (u : CodeUnit) : Bool :=
  u.defect?.isNone

theorem isValid_iff {u : CodeUnit} :
    u.isValid = true ↔
      Text.trim u.identifier ≠ "" ∧ ∀ d ∈ u.dependencies, Text.trim d.target ≠ "" := by
  simp only [isValid, defect?, ← Text.isBlank_iff, ne_eq]
  split
  · rename_i h
    simp [h]
  · rename_i h
    simp [h]

/-- The error with which a unit is refused. -/
def fault? (u : CodeUnit) : Option GraphError :=
  u.defect?.map (GraphError.invalidUnit u.identifier)

theorem isValid_eq_true_iff_fault? {u : CodeUnit} : u.isValid = true ↔ u.fault? = none := by
  rw [isValid, fault?, Option.isNone_iff_eq_none, Option.map_eq_none_iff]

theorem findSome?_fault?_eq_none_iff {us : List CodeUnit} :
    us.findSome? fault? = none ↔ ∀ u ∈ us, u.isValid = true := by
  simp only [List.findSome?_eq_none_iff, isValid_eq_true_iff_fault?]

theorem validate_eq (u : CodeUnit) :
    u.validate =
      match u.fault? with
      | none => .ok ()
      | some e => .error e := by
  rw [validate, fault?]
  cases u.defect? <;> rfl

theorem fault?_eq_some_iff {u : CodeUnit} {err : GraphError} :
    u.fault? = some err ↔
      Text.trim u.identifier = "" ∧ err = .invalidUnit u.identifier .blankIdentifier ∨
        Text.trim u.identifier ≠ "" ∧ ∃ before d after, u.dependencies = before ++ d :: after ∧
          (∀ p ∈ before, Text.trim p.target ≠ "") ∧ Text.trim d.target = "" ∧
            err = .invalidUnit u.identifier (.blankTarget before.length) := by
  rw [fault?, defect?]
  by_cases hx : Text.trim u.identifier = ""
  · rw [if_pos (Text.isBlank_iff.mpr hx), Option.map_some, Option.some.injEq]
    simp only [hx, true_and, ne_eq, not_true_eq_false, false_and, or_false]
    exact eq_comm
  · rw [if_neg (mt Text.isBlank_iff.mp hx), Option.map_map, Option.map_eq_some_iff]
    simp only [findIdx?_eq_some_iff_append, Text.isBlank_iff, Text.isBlank_eq_false_iff, hx,
      false_and, false_or, ne_eq, not_false_eq_true, true_and]
    constructor
    · rintro ⟨_, ⟨before, d, after, hsplit, rfl, hd, hbefore⟩, rfl⟩
      exact ⟨before, d, after, hsplit, hbefore, hd, rfl⟩
    · rintro ⟨before, d, after, hsplit, hbefore, hd, rfl⟩
      exact ⟨_, ⟨before, d, after, hsplit, rfl, hd, hbefore⟩, rfl⟩

end CodeUnit

/-- What can be done to a graph from outside. -/
inductive Call where
  | register (u : CodeUnit)
  | registerAll (us : List CodeUnit)

/-- The units that a call puts into a graph: a list counts up to its first unit at fault. -/
def Call.accepted : Call → List CodeUnit
  | register u => if u.isValid then [u] else []
  | registerAll us => us.takeWhile CodeUnit.isValid

namespace Graph

variable {g : Graph}

/-- The graph after a call, which may have failed. -/
def call (g : Graph) : Call → Graph
  | .register u =>
    match g.register u with
    | .ok h => h
    | .error _ => g
  | .registerAll us => (g.registerAll us).1

/-- The graph that calls make of an empty one. -/
def afterCalls (calls : List Call) : Graph :=
  calls.foldl call .empty

theorem register_eq (g : Graph) (u : CodeUnit) :
    g.register u =
      match u.fault? with
      | none => .ok (g.insert u)
      | some e => .error e := by
  rw [register, CodeUnit.validate_eq]
  cases u.fault? <;> rfl

theorem register_of_isValid {u : CodeUnit} (h : u.isValid = true) :
    g.register u = .ok (g.insert u) := by
  rw [register_eq, CodeUnit.isValid_eq_true_iff_fault?.mp h]

theorem register_of_not_isValid {u : CodeUnit} (h : u.isValid = false) :
    ∃ e, g.register u = .error e := by
  rw [register_eq]
  cases he : u.fault? with
  | none =>
    rw [CodeUnit.isValid_eq_true_iff_fault?.mpr he] at h
    exact absurd h (by simp)
  | some e => exact ⟨e, rfl⟩

theorem fst_registerAll (us : List CodeUnit) (g : Graph) :
    (g.registerAll us).1 = (us.takeWhile CodeUnit.isValid).foldl insert g := by
  induction us generalizing g with
  | nil => rfl
  | cons u us ih =>
    cases hu : u.isValid with
    | true =>
      rw [registerAll, register_of_isValid hu, List.takeWhile_cons, hu]
      exact ih (g.insert u)
    | false =>
      obtain ⟨e, hr⟩ := register_of_not_isValid (g := g) hu
      rw [registerAll, hr, List.takeWhile_cons, hu]
      rfl

theorem snd_registerAll (us : List CodeUnit) (g : Graph) :
    (g.registerAll us).2 =
      match us.findSome? CodeUnit.fault? with
      | none => .ok us.length
      | some e => .error e := by
  induction us generalizing g with
  | nil => rfl
  | cons u us ih =>
    rw [registerAll, register_eq, List.findSome?_cons]
    cases u.fault? with
    | some e => rfl
    | none =>
      simp only [ih (g.insert u)]
      cases us.findSome? CodeUnit.fault? <;> rfl

theorem registerAll_of_isValid {us : List CodeUnit} (h : ∀ u ∈ us, u.isValid = true) (g : Graph) :
    g.registerAll us = (us.foldl insert g, .ok us.length) := by
  apply Prod.ext
  · rw [fst_registerAll, List.takeWhile_eq_self_iff.mpr h]
  · rw [snd_registerAll, CodeUnit.findSome?_fault?_eq_none_iff.mpr h]

theorem call_eq (g : Graph) (c : Call) : g.call c = c.accepted.foldl insert g := by
  cases c with
  | registerAll us => exact fst_registerAll us g
  | register u =>
    cases hu : u.isValid with
    | true => simp only [call, register_of_isValid hu, Call.accepted, hu, if_true, List.foldl]
    | false =>
      obtain ⟨e, hr⟩ := register_of_not_isValid (g := g) hu
      simp only [call, hr, Call.accepted, hu, Bool.false_eq_true, if_false, List.foldl]

theorem afterCalls_eq (calls : List Call) :
    afterCalls calls = (calls.flatMap Call.accepted).foldl insert .empty := by
  rw [List.foldl_flatMap, afterCalls]
  congr 1
  funext g c
  exact call_eq g c

end Graph

theorem Call.isValid_of_mem_accepted {c : Call} {u : CodeUnit} (h : u ∈ c.accepted) :
    u.isValid = true := by
  cases c with
  | register v =>
    by_cases hv : v.isValid = true
    · rw [accepted, if_pos hv] at h
      rwa [List.mem_singleton.mp h]
    · rw [accepted, if_neg hv] at h
      exact absurd h (by simp)
  | registerAll us => exact List.all_eq_true.mp List.all_takeWhile u h

def lastUnit? (units : List CodeUnit) (x : String) : Option CodeUnit :=
  units.reverse.find? fun u => u.identifier == x

/-- The last unit under each identifier, in ascending order of the identifiers. -/
def lastUnits (units : List CodeUnit) : List CodeUnit :=
  (Text.ascending (units.map (·.identifier))).filterMap (lastUnit? units)

section LastUnits

variable {units : List CodeUnit} {u : CodeUnit} {x : String}

theorem identifier_of_lastUnit? (h : lastUnit? units x = some u) : u.identifier = x := by
  simpa using List.find?_some h

theorem mem_of_lastUnit? (h : lastUnit? units x = some u) : u ∈ units :=
  List.mem_reverse.mp (List.mem_of_find?_eq_some h)

theorem lastUnit?_append_singleton (units : List CodeUnit) (u : CodeUnit) (x : String) :
    lastUnit? (units ++ [u]) x = if x = u.identifier then some u else lastUnit? units x := by
  rw [lastUnit?, List.reverse_append, List.reverse_singleton, List.singleton_append]
  by_cases h : u.identifier = x
  · rw [List.find?_cons_of_pos (by simpa using h), if_pos h.symm]
  · rw [List.find?_cons_of_neg (by simpa using h), if_neg (Ne.symm h), lastUnit?]

theorem mem_lastUnits : u ∈ lastUnits units ↔ lastUnit? units u.identifier = some u := by
  rw [lastUnits, List.mem_filterMap]
  constructor
  · rintro ⟨y, -, hy⟩
    rwa [identifier_of_lastUnit? hy]
  · intro h
    exact ⟨u.identifier, Text.mem_ascending.mpr (List.mem_map_of_mem (mem_of_lastUnit? h)), h⟩

theorem mem_of_mem_lastUnits (h : u ∈ lastUnits units) : u ∈ units :=
  mem_of_lastUnit? (mem_lastUnits.mp h)

theorem pairwise_lastUnits (units : List CodeUnit) :
    (lastUnits units).Pairwise fun u v => u.identifier < v.identifier := by
  apply List.Pairwise.filterMap _ _ (Text.pairwise_ascending _)
  intro y z hyz u hu v hv
  rw [identifier_of_lastUnit? hu, identifier_of_lastUnit? hv]
  exact hyz

theorem nodup_of_pairwise (h : units.Pairwise fun u v => u.identifier < v.identifier) :
    units.Nodup :=
  List.Pairwise.of_map CodeUnit.identifier (fun _ _ hne he => hne (congrArg _ he))
    (Text.nodup_of_ascending CodeUnit.identifier h)

theorem lastUnits_append_singleton (units : List CodeUnit) (u : CodeUnit) :
    (lastUnits (units ++ [u])).Perm
      (((lastUnits units).filter fun v => !(v.identifier == u.identifier)) ++ [u]) := by
  apply (List.perm_ext_iff_of_nodup (nodup_of_pairwise (pairwise_lastUnits _)) _).mpr
  · intro v
    rw [mem_lastUnits, lastUnit?_append_singleton, List.mem_append, List.mem_filter,
      List.mem_singleton, mem_lastUnits]
    by_cases h : v.identifier = u.identifier
    · simp [h, eq_comm]
    · have hne : v ≠ u := fun he => h (congrArg _ he)
      simp [h, hne]
  · apply List.nodup_append.mpr
    refine ⟨(nodup_of_pairwise (pairwise_lastUnits units)).filter _, by simp, ?_⟩
    intro v hv w hw he
    have hne := (List.mem_filter.mp hv).2
    rw [he, List.mem_singleton.mp hw] at hne
    simp at hne

theorem lastUnits_of_pairwise (h : units.Pairwise fun u v => u.identifier < v.identifier) :
    lastUnits units = units := by
  apply Text.eq_of_ascending CodeUnit.identifier (pairwise_lastUnits units) h
  intro u
  refine ⟨mem_of_mem_lastUnits, fun hu => ?_⟩
  obtain ⟨v, hv⟩ : ∃ v, lastUnit? units u.identifier = some v := by
    apply Option.isSome_iff_exists.mp
    rw [lastUnit?, List.find?_isSome]
    exact ⟨u, List.mem_reverse.mpr hu, by simp⟩
  rw [mem_lastUnits, hv, Text.eq_of_key_eq CodeUnit.identifier h (mem_of_lastUnit? hv) hu
    (identifier_of_lastUnit? hv)]

end LastUnits

theorem filter_flatMap_edges (units : List CodeUnit) (x : String) :
    ((units.flatMap CodeUnit.edges).filter fun d => !(d.source == x)) =
      (units.filter fun u => !(u.identifier == x)).flatMap CodeUnit.edges := by
  induction units with
  | nil => rfl
  | cons u units ih =>
    rw [List.flatMap_cons, List.filter_append, ih, List.filter_cons]
    have hsource : ∀ d ∈ u.edges, d.source = u.identifier := fun _ => CodeUnit.source_of_mem_edges
    by_cases h : u.identifier = x
    · have hnone : (u.edges.filter fun d => !(d.source == x)) = [] := by
        rw [List.filter_eq_nil_iff]
        intro d hd
        simp [hsource d hd, h]
      simp [hnone, h]
    · have hall : (u.edges.filter fun d => !(d.source == x)) = u.edges := by
        rw [List.filter_eq_self]
        intro d hd
        simp [hsource d hd, h]
      simp [hall, h]

namespace Graph

/-- A graph in order that says of each identifier what the last unit under it says. -/
structure Represents (g : Graph) (units : List CodeUnit) : Prop where
  wellFormed : g.WellFormed
  unit? : ∀ x, g.unit? x = (lastUnit? units x).map CodeUnit.registered
  declarations : g.declarations.Perm ((lastUnits units).flatMap CodeUnit.edges)

theorem represents_empty : Represents .empty [] := by
  refine ⟨⟨⟨fun x i => ?_, fun e he => ?_, fun e he => ?_⟩, fun i => ?_⟩, fun x => ?_, ?_⟩
  · simp [empty]
  · exact absurd he (by simp [empty])
  · exact absurd he (by simp [empty])
  · simp [isAbandoned, isPlaceholderAt, empty]
  · simp [Graph.unit?, position?, lastUnit?, empty]
  · simp [Graph.declarations, lastUnits, Text.ascending, Text.dropRepeats, empty]

theorem Represents.insert {g : Graph} {units : List CodeUnit} (h : g.Represents units)
    (u : CodeUnit) : (g.insert u).Represents (units ++ [u]) := by
  have hi := h.wellFormed.insert u
  refine ⟨hi.wellFormed, fun x => ?_, ?_⟩
  · rw [hi.unit?, lastUnit?_append_singleton, h.unit?]
    split <;> rfl
  · have hkept := h.declarations.filter fun d => !(d.source == u.identifier)
    rw [filter_flatMap_edges] at hkept
    have hlast := (lastUnits_append_singleton units u).flatMap_right CodeUnit.edges
    rw [List.flatMap_append, List.flatMap_singleton] at hlast
    exact (hi.declarations.trans (hkept.append_right _)).trans hlast.symm

/-- What each registration keeps holds after all of them. -/
theorem foldl_insert_of_insert {P : Graph → List CodeUnit → Prop} (hempty : P .empty [])
    (hinsert : ∀ g units u, P g units → P (g.insert u) (units ++ [u])) (units : List CodeUnit) :
    P (units.foldl Graph.insert .empty) units := by
  have hrun : ∀ (us : List CodeUnit) (g : Graph) (before : List CodeUnit), P g before →
      P (us.foldl Graph.insert g) (before ++ us) := by
    intro us
    induction us with
    | nil =>
      intro g before h
      rwa [List.append_nil]
    | cons u us ih =>
      intro g before h
      have hrest := ih _ _ (hinsert g before u h)
      rwa [List.append_assoc, List.singleton_append] at hrest
  exact hrun units .empty [] hempty

theorem represents_foldl_insert (units : List CodeUnit) :
    (units.foldl Graph.insert .empty).Represents units :=
  foldl_insert_of_insert represents_empty (fun _ _ u h => h.insert u) units

theorem represents_afterCalls (calls : List Call) :
    (afterCalls calls).Represents (calls.flatMap Call.accepted) := by
  rw [afterCalls_eq]
  exact represents_foldl_insert _

end Graph

end DependencyAtlas
