import DependencyAtlas.Proofs.Graph.Contents
import DependencyAtlas.Proofs.Graph.History

/-!
# The order of declaration

Removing an edge moves another one into its place, so the edges of a unit lie in the store in any
order. Their serial numbers still tell the order in which the unit declares its dependencies, so
what is sorted is its dependencies with the last one first.
-/

namespace DependencyAtlas

/-- The dependencies of the last unit under an identifier, in the order of their declaration. -/
def lastDependencies (units : List CodeUnit) (x : String) : List Dependency :=
  (lastUnit? units x).elim [] CodeUnit.dependencies

def lastEdges (units : List CodeUnit) (x : String) : List DependencyEdge :=
  (lastDependencies units x).map (Dependency.edgeFrom x)

section LastEdges

variable {units : List CodeUnit} {u : CodeUnit} {x : String}

theorem lastEdges_append_singleton (units : List CodeUnit) (u : CodeUnit) (x : String) :
    lastEdges (units ++ [u]) x = if x = u.identifier then u.edges else lastEdges units x := by
  simp only [lastEdges, lastDependencies, lastUnit?_append_singleton]
  split
  · rename_i hx
    rw [hx]
    rfl
  · rfl

theorem lastEdges_of_lastUnit? (h : lastUnit? units x = some u) :
    lastEdges units x = u.edges := by
  obtain rfl := identifier_of_lastUnit? h
  rw [lastEdges, lastDependencies, h]
  rfl

end LastEdges

namespace Graph

variable {g : Graph} {units : List CodeUnit}

section Inserted

variable {h : Graph} {u : CodeUnit} {x : String}

theorem source_of_mem_zipIdx_edges {k : Nat} {p : DependencyEdge × Nat}
    (hp : p ∈ u.edges.zipIdx k) : p.1.source = u.identifier :=
  CodeUnit.source_of_mem_edges (List.fst_mem_of_mem_zipIdx hp)

theorem Inserted.filter_ledger_self (hi : Inserted g u h) :
    (h.ledger.filter fun p => p.1.source == u.identifier).Perm (u.edges.zipIdx g.declared) := by
  have hperm := hi.ledger.filter fun p => p.1.source == u.identifier
  have hnew : ((u.edges.zipIdx g.declared).filter fun p => p.1.source == u.identifier) =
      u.edges.zipIdx g.declared := by
    rw [List.filter_eq_self]
    intro p hp
    simp [source_of_mem_zipIdx_edges hp]
  have hold : (g.ledger.filter fun p =>
      p.1.source == u.identifier && !(p.1.source == u.identifier)) = [] := by
    simp
  rwa [List.filter_append, List.filter_filter, hold, hnew, List.nil_append] at hperm

/-- Edges that start elsewhere keep their numbers, though not their places. -/
theorem Inserted.filter_ledger_of_ne (hi : Inserted g u h) (hx : x ≠ u.identifier) :
    (h.ledger.filter fun p => p.1.source == x).Perm
      (g.ledger.filter fun p => p.1.source == x) := by
  have hperm := hi.ledger.filter fun p => p.1.source == x
  have hkept : (g.ledger.filter fun p => p.1.source == x && !(p.1.source == u.identifier)) =
      g.ledger.filter fun p => p.1.source == x := by
    apply List.filter_congr
    intro p _
    by_cases hp : p.1.source = x
    · simp [hp, hx]
    · simp [hp]
  have hnew : ((u.edges.zipIdx g.declared).filter fun p => p.1.source == x) = [] := by
    rw [List.filter_eq_nil_iff]
    intro p hp
    simp [source_of_mem_zipIdx_edges hp, Ne.symm hx]
  rwa [List.filter_append, List.filter_filter, hkept, hnew, List.append_nil] at hperm

theorem Inserted.lt_declared (hi : Inserted g u h) (hg : ∀ p ∈ g.ledger, p.2 < g.declared) :
    ∀ p ∈ h.ledger, p.2 < h.declared := by
  intro p hp
  rw [hi.declared]
  rcases List.mem_append.mp (hi.ledger.mem_iff.mp hp) with hold | hnew
  · have hlt := hg p (List.mem_filter.mp hold).1
    omega
  · have hlt := List.snd_lt_add_of_mem_zipIdx hnew
    rw [CodeUnit.edges, List.length_map] at hlt
    omega

end Inserted

/-- A graph that represents units and numbers the edges of each in the order of declaration. -/
structure Records (g : Graph) (units : List CodeUnit) : Prop extends Represents g units where
  lt_declared : ∀ p ∈ g.ledger, p.2 < g.declared
  numbered : ∀ x, ∃ entries : List (DependencyEdge × Nat),
    (g.ledger.filter fun p => p.1.source == x).Perm entries ∧
      entries.Pairwise (fun p q => p.2 < q.2) ∧ entries.map Prod.fst = lastEdges units x

theorem records_empty : Records .empty [] := by
  refine ⟨represents_empty, fun p hp => ?_, fun x => ⟨[], ?_, .nil, ?_⟩⟩
  · simp [ledger, empty] at hp
  · simp [ledger, empty]
  · simp [lastEdges, lastDependencies, lastUnit?]

theorem Records.insert (h : g.Records units) (u : CodeUnit) :
    (g.insert u).Records (units ++ [u]) := by
  have hi := h.wellFormed.insert u
  refine ⟨h.toRepresents.insert u, hi.lt_declared h.lt_declared, fun x => ?_⟩
  rw [lastEdges_append_singleton]
  by_cases hx : x = u.identifier
  · subst hx
    refine ⟨_, hi.filter_ledger_self, pairwise_zipIdx _ _, ?_⟩
    rw [List.zipIdx_map_fst, if_pos rfl]
  · obtain ⟨entries, hentries, hordered, hedges⟩ := h.numbered x
    refine ⟨entries, (hi.filter_ledger_of_ne hx).trans hentries, hordered, ?_⟩
    rw [hedges, if_neg hx]

theorem records_foldl_insert (units : List CodeUnit) :
    (units.foldl Graph.insert .empty).Records units :=
  foldl_insert_of_insert records_empty (fun _ _ u h => h.insert u) units

theorem records_afterCalls (calls : List Call) :
    (afterCalls calls).Records (calls.flatMap Call.accepted) := by
  rw [afterCalls_eq]
  exact records_foldl_insert _

theorem newestFirst_perm (g : Graph) (i : Nat) :
    (g.newestFirst i).Perm (g.edges.toList.filter fun e => e.source == i) :=
  List.mergeSort_perm _ _

theorem pairwise_newestFirst (g : Graph) (i : Nat) :
    (g.newestFirst i).Pairwise fun a b => b.serial ≤ a.serial := by
  let newer (a b : Edge) : Bool := decide (b.serial ≤ a.serial)
  have hsort : (g.newestFirst i).Pairwise fun a b => newer a b := by
    apply List.pairwise_mergeSort
    · intro a b c hab hbc
      exact decide_eq_true (Nat.le_trans (of_decide_eq_true hbc) (of_decide_eq_true hab))
    · intro a b
      simp only [newer, Bool.or_eq_true, decide_eq_true_eq]
      exact Nat.le_total b.serial a.serial
  exact hsort.imp of_decide_eq_true

theorem Records.newestFirst_eq (h : g.Records units) {i : Nat} {n : Node}
    (hn : g.nodes[i]? = some n) :
    (g.newestFirst i).map g.shown = (lastEdges units n.identifier).reverse := by
  obtain ⟨entries, hentries, hordered, hedges⟩ := h.numbered n.identifier
  let newest := (g.newestFirst i).map fun e => (g.shown e, e.serial)
  have hperm : newest.Perm entries.reverse := by
    have hnode := (g.newestFirst_perm i).map fun e => (g.shown e, e.serial)
    rw [← h.wellFormed.toIndexed.filter_ledger hn fun b => b] at hnode
    exact (hnode.trans hentries).trans entries.reverse_perm.symm
  have hreverse : entries.reverse.Pairwise fun p q => q.2 < p.2 := List.pairwise_reverse.mpr hordered
  have hnewest : newest.Pairwise fun p q => q.2 < p.2 := by
    have hle : newest.Pairwise fun p q => q.2 ≤ p.2 :=
      List.pairwise_map.mpr (g.pairwise_newestFirst i)
    -- No number comes twice, so the order is strict.
    have hnumbers : (newest.map Prod.snd).Nodup := by
      apply (hperm.map Prod.snd).symm.nodup
      exact List.pairwise_map.mpr (hreverse.imp fun h => Nat.ne_of_gt h)
    apply (hle.and (List.pairwise_map.mp hnumbers)).imp
    rintro p q ⟨hpq, hne⟩
    omega
  have heq : newest = entries.reverse := by
    apply hperm.eq_of_pairwise _ hnewest hreverse
    intro p q _ _ hpq hqp
    omega
  have hfst := congrArg (List.map Prod.fst) heq
  rw [List.map_reverse, hedges, List.map_map] at hfst
  exact hfst

/-- The sort is given the dependencies of the last unit, the last one first. -/
theorem Records.edgesOf_eq (h : g.Records units) (x : String)
    (labelSort : DependencyEdge.LabelSort) :
    g.edgesOf x labelSort = labelSort.sort (lastEdges units x).reverse := by
  have hg := h.wellFormed.toIndexed
  rw [edgesOf, position?]
  cases hx : g.index[x]? with
  | some i =>
    obtain ⟨n, hn, rfl⟩ := (hg.index x i).mp hx
    simp only [h.newestFirst_eq hn]
  | none =>
    obtain ⟨entries, hentries, -, hedges⟩ := h.numbered x
    have hnone : (g.ledger.filter fun p => p.1.source == x) = [] := by
      rw [List.filter_eq_nil_iff]
      intro p hp hsource
      have hd : p.1 ∈ g.declarations := map_fst_ledger g ▸ List.mem_map_of_mem hp
      obtain ⟨i, -, hi, -⟩ := hg.index_of_source hd
      rw [beq_iff_eq.mp hsource, hx] at hi
      exact absurd hi (by simp)
    rw [hnone] at hentries
    obtain rfl := hentries.nil_eq
    rw [← hedges, List.map_nil, List.reverse_nil]
    exact (List.perm_nil.mp (labelSort.perm [])).symm

theorem Records.lastEdges_perm (h : g.Records units) (x : String) :
    (lastEdges units x).Perm (g.declarations.filter fun d => d.source == x) := by
  obtain ⟨entries, hentries, -, hedges⟩ := h.numbered x
  have hperm := hentries.map Prod.fst
  rw [hedges] at hperm
  rw [← map_fst_ledger, List.filter_map]
  exact hperm.symm

end Graph

end DependencyAtlas
