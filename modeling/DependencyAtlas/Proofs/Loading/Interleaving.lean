import DependencyAtlas.Graph.Building
import DependencyAtlas.Proofs.Graph.Agreement

/-!
# Producers that take turns

Several producers register units in one graph, each in its own order, and their calls may fall in
any order otherwise. The graph is the one that the calls make one after the other. If no two
producers have valid units under one identifier, the order does not even matter for its snapshot.
-/

namespace DependencyAtlas

/-- Turns in which every producer makes its own calls in its own order. A turn is the number of a
producer and what it calls with. -/
def Interleaves {α : Type} (turns : List (Nat × α)) (producers : List (List α)) : Prop :=
  ∀ i, (turns.filter fun t => t.1 == i).map (·.2) = producers[i]?.getD []

namespace Interleaves

variable {α : Type} {turns turns' : List (Nat × α)} {producers : List (List α)}

theorem mem (h : Interleaves turns producers) {t : Nat × α} (ht : t ∈ turns) :
    t.2 ∈ producers[t.1]?.getD [] := by
  rw [← h t.1]
  exact List.mem_map_of_mem (List.mem_filter.mpr ⟨ht, by simp⟩)

/-- What only one producer calls with is found among the turns in the order of that producer. -/
theorem filter_eq (h : Interleaves turns producers) {p : α → Bool} {i : Nat}
    (hp : ∀ (j : Nat) (a : α), a ∈ producers[j]?.getD [] → p a = true → j = i) :
    (turns.map (·.2)).filter p = (producers[i]?.getD []).filter p := by
  rw [← h i, List.filter_map, List.filter_map, List.filter_filter]
  congr 1
  apply List.filter_congr
  intro t ht
  cases hpt : p t.2 with
  | false => simp [hpt]
  | true => simp [hpt, hp t.1 t.2 (h.mem ht) hpt]

end Interleaves

/-- No two producers have valid units under one identifier. -/
def OwnIdentifiers (producers : List (List CodeUnit)) : Prop :=
  ∀ (i j : Nat) (u v : CodeUnit), u ∈ producers[i]?.getD [] → v ∈ producers[j]?.getD [] →
    u.isValid = true → v.isValid = true → u.identifier = v.identifier → i = j

theorem OwnIdentifiers.exists_owner {producers : List (List CodeUnit)}
    (h : OwnIdentifiers producers) (x : String) :
    ∃ i : Nat, ∀ (j : Nat) (u : CodeUnit), u ∈ producers[j]?.getD [] →
      (u.isValid && u.identifier == x) = true → j = i := by
  by_cases hx : ∃ (i : Nat) (u : CodeUnit), u ∈ producers[i]?.getD [] ∧
    (u.isValid && u.identifier == x) = true
  · obtain ⟨i, u, hu, hux⟩ := hx
    refine ⟨i, fun j v hv hvx => ?_⟩
    simp only [Bool.and_eq_true, beq_iff_eq] at hux hvx
    exact h j i v u hv hu hvx.1 hux.1 (hvx.2.trans hux.2.symm)
  · exact ⟨0, fun j u hu hux => absurd ⟨j, u, hu, hux⟩ hx⟩

namespace SharedBuild

def call (b : SharedBuild) (u : CodeUnit) : SharedBuild :=
  match b.register u with
  | .ok b => b
  | .error _ => b

def afterTurns (turns : List (Nat × CodeUnit)) : SharedBuild :=
  turns.foldl (fun b t => b.call t.2) .new

variable {turns turns' : List (Nat × CodeUnit)}

theorem inner_call (b : SharedBuild) (u : CodeUnit) :
    (b.call u).inner = b.inner.call (.register u) := by
  rw [call, register, Graph.call, Graph.register]
  cases u.validate <;> rfl

theorem inner_foldl_call (turns : List (Nat × CodeUnit)) (b : SharedBuild) :
    (turns.foldl (fun b t => b.call t.2) b).inner =
      (turns.map fun t => Call.register t.2).foldl Graph.call b.inner := by
  induction turns generalizing b with
  | nil => rfl
  | cons t turns ih => rw [List.foldl_cons, ih, inner_call, List.map_cons, List.foldl_cons]

/-- Sharing adds nothing: the graph is the one that the calls make one after the other. -/
theorem finish_afterTurns (turns : List (Nat × CodeUnit)) :
    (afterTurns turns).finish = Graph.afterCalls (turns.map fun t => .register t.2) :=
  inner_foldl_call turns .new

theorem flatMap_accepted_register (turns : List (Nat × CodeUnit)) :
    (turns.map fun t => Call.register t.2).flatMap Call.accepted =
      (turns.map (·.2)).filter CodeUnit.isValid := by
  induction turns with
  | nil => rfl
  | cons t turns ih =>
    rw [List.map_cons, List.flatMap_cons, ih, Call.accepted, List.map_cons, List.filter_cons]
    split <;> rfl

theorem finish_afterTurns_eq_foldl (turns : List (Nat × CodeUnit)) :
    (afterTurns turns).finish =
      ((turns.map (·.2)).filter CodeUnit.isValid).foldl Graph.insert .empty := by
  rw [finish_afterTurns, Graph.afterCalls_eq, flatMap_accepted_register]

theorem finish_afterTurns_filter (turns : List (Nat × CodeUnit)) :
    (afterTurns (turns.filter fun t => t.2.isValid)).finish = (afterTurns turns).finish := by
  rw [finish_afterTurns_eq_foldl, finish_afterTurns_eq_foldl]
  simp only [List.filter_map, List.filter_filter, Function.comp_def, Bool.and_self]

/-- The order among producers does not matter as long as each has its own identifiers. -/
theorem toSnapshot_afterTurns_eq {producers : List (List CodeUnit)}
    (hown : OwnIdentifiers producers) (h : Interleaves turns producers)
    (h' : Interleaves turns' producers) :
    (afterTurns turns).finish.toSnapshot = (afterTurns turns').finish.toSnapshot := by
  rw [finish_afterTurns_eq_foldl, finish_afterTurns_eq_foldl]
  have hg := Graph.represents_foldl_insert ((turns.map (·.2)).filter CodeUnit.isValid)
  have hg' := Graph.represents_foldl_insert ((turns'.map (·.2)).filter CodeUnit.isValid)
  apply (hg.sameContent hg' (historiesAgree_of_filter_eq fun x => ?_)).toSnapshot_eq
    hg.wellFormed.toIndexed hg'.wellFormed.toIndexed
  obtain ⟨i, hi⟩ := hown.exists_owner x
  simp only [List.filter_filter, Bool.and_comm _ (CodeUnit.isValid _)]
  rw [h.filter_eq hi, h'.filter_eq hi]

end SharedBuild

end DependencyAtlas
